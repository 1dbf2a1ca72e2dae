import PackedStruct.Text.Numeral
/-!
Type specs such as `Node *` and `u8[4][2]`: a base name, pointer stars, then array dimensions from the
outermost inwards. `parse` reads one and `print` writes it back.
-/

namespace PackedStruct

/-- What a type spec says. -/
structure TypeSpec where
  base : String
  depth : Nat
  dims : List Nat
  deriving DecidableEq, Repr

namespace TypeSpec

/-- Why a text is no type spec. -/
inductive Fault where
  | textAfterDims
  | openDim
  | badDim
  | tooManyStars
  | noBase
  | starInBase
  | bracketInBase
  deriving DecidableEq, Repr

def Fault.reason : Fault → String
  | .textAfterDims => "unexpected text after array dimensions"
  | .openDim => "unterminated array dimension"
  | .badDim => "array dimension is not a positive integer"
  | .tooManyStars => "too many pointer levels"
  | .noBase => "missing base type name"
  | .starInBase => "pointer stars must follow the base name"
  | .bracketInBase => "unbalanced bracket"

/-- Dimensions are positive and fit into 64 bits. -/
def dim? (s : List Char) : Option Nat :=
  (Text.unsigned? (Text.trim s)).filter fun n => 0 < n && n < Nat.pow 2 64

/-- Read bracketed dimensions; `inner` holds the characters since the last open bracket. -/
def readDims : Option (List Char) → List Char → Except Fault (List Nat)
  | none, [] => .ok []
  | some _, [] => .error .openDim
  | none, c :: s =>
    if Text.isBlank c then readDims none s
    else if c = '[' then readDims (some []) s
    else .error .textAfterDims
  | some inner, c :: s =>
    if c = ']' then
      match dim? inner with
      | none => .error .badDim
      | some n => do return n :: (← readDims none s)
    else readDims (some (inner ++ [c])) s

/-- The name and the stars in front of the dimensions. -/
def head (s : List Char) : Except Fault (String × Nat) :=
  let base := Text.dropEndWhile (fun c => c = '*' || Text.isBlank c) s
  let depth := (s.drop base.length).count '*'
  if Nat.pow 2 32 ≤ depth then .error .tooManyStars
  else if base.isEmpty then .error .noBase
  else if '*' ∈ base then .error .starInBase
  else if ']' ∈ base then .error .bracketInBase
  else .ok (" ".intercalate ((Text.words base).map String.ofList), depth)

/-- The dimensions are read before the name, so a fault in them is the one reported. -/
def parse (s : String) : Except Fault TypeSpec := do
  let s := Text.trim s.toList
  let ds ← readDims none (s.dropWhile (· != '['))
  let (base, depth) ← head (s.takeWhile (· != '['))
  return ⟨base, depth, ds⟩

def isPointer (t : TypeSpec) : Bool := 0 < t.depth

/-- Base name, stars, and each dimension in brackets. -/
def print (t : TypeSpec) : String :=
  t.base ++ String.ofList (List.replicate t.depth '*' ++ t.dims.flatMap fun n => '[' :: Nat.toDigits 10 n ++ [']'])

end TypeSpec

end PackedStruct
