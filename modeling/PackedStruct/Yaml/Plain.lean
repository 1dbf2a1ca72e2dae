import PackedStruct.Text.Numeral
import PackedStruct.Yaml.Fault
import PackedStruct.Yaml.Tree
/-!
What a scalar without quotes stands for: null, a boolean, a number, or else its own text.
-/

namespace PackedStruct.Yaml

def null? (s : List Char) : Bool :=
  s ∈ ["null".toList, "Null".toList, "NULL".toList, "~".toList]

def bool? (s : List Char) : Option Bool :=
  if s ∈ ["true".toList, "True".toList, "TRUE".toList] then some true
  else if s ∈ ["false".toList, "False".toList, "FALSE".toList] then some false
  else none

/-- Several digits of which the first is a zero are a text, signed or not. -/
def hasLeadingZero (s : List Char) : Bool :=
  let digits := match s with
    | '+' :: s | '-' :: s => s
    | s => s
  match digits with
  | '0' :: d :: ds => (d :: ds).all Text.isDigit
  | _ => false

/-- Digits after a lower-case radix mark, or decimal digits. -/
def digits? : List Char → Option Nat
  | '0' :: 'x' :: s => Text.natural? 16 s
  | '0' :: 'o' :: s => Text.natural? 8 s
  | '0' :: 'b' :: s => Text.natural? 2 s
  | s => if hasLeadingZero s then none else Text.natural? 10 s

/-- A whole number of any size. -/
def integer? : List Char → Option Int
  | '+' :: s => (digits? s).map Int.ofNat
  | '-' :: s => (digits? s).map fun n => -(n : Int)
  | s => (digits? s).map Int.ofNat

/-- Whole numbers of 64 bits are numbers; of those that do not fit, the ones of up to 128 bits are
refused and others are left to be read as floating-point numbers. -/
def wholeNumber (s : List Char) : Except Fault (Option Int) :=
  match integer? s with
  | none => .ok none
  | some v =>
    if -Nat.pow 2 63 ≤ v ∧ v < Nat.pow 2 64 then .ok (some v)
    else if -Nat.pow 2 127 ≤ v ∧ v < Nat.pow 2 128 then .error .badNumber
    else .ok none

/-- An exponent, if there is one, at the end of a number. -/
def exponent? : List Char → Option Int
  | [] => some 0
  | e :: s =>
    if e != 'e' && e != 'E' then none
    else match s with
      | '+' :: ds => (Text.natural? 10 ds).map Int.ofNat
      | '-' :: ds => (Text.natural? 10 ds).map fun n => -(n : Int)
      | ds => (Text.natural? 10 ds).map Int.ofNat

/-- The double nearest to `n · 10^e`. Exponents far out of range are decided by the number of digits. -/
def scaled (negative : Bool) (n : Nat) (e : Int) : Binary64 :=
  if n = 0 then .ofRatio negative ⟨0, 1⟩
  else
    let place := e + Ratio.digitCount n
    if 400 < place then .infinite negative
    else if place < -400 then .ofRatio negative ⟨0, 1⟩
    else .ofRatio negative (Ratio.scale10 ⟨n, 1⟩ e)

/-- Digits with an optional point among or around them, and an optional exponent. -/
def decimal? (negative : Bool) (s : List Char) : Option Binary64 := do
  let whole := s.takeWhile Text.isDigit
  let rest := s.drop whole.length
  let (fraction, rest) := match rest with
    | '.' :: t => (t.takeWhile Text.isDigit, t.dropWhile Text.isDigit)
    | t => ([], t)
  let n ← Text.natural? 10 (whole ++ fraction)
  let e ← exponent? rest
  let x := scaled negative n (e - fraction.length)
  if x.isFinite then some x else none

/-- A number with a fraction or an exponent, an infinity, or no number. -/
def real? (s : List Char) : Option Binary64 :=
  if s ∈ [".nan".toList, ".NaN".toList, ".NAN".toList] then some .nan
  else
    let (negative, t) := match s with
      | '-' :: t => (true, t)
      | '+' :: t => (false, t)
      | t => (false, t)
    if t ∈ [".inf".toList, ".Inf".toList, ".INF".toList] then some (.infinite negative)
    else decimal? negative t

/-- What a plain scalar stands for. -/
def plainTree (s : List Char) : Except Fault Tree := do
  if s.isEmpty || null? s then return .null
  if let some b := bool? s then return .bool b
  if let some v ← wholeNumber s then return .number (.integer v)
  if !hasLeadingZero s then
    if let some x := real? s then return .number (.real x)
  return .string (String.ofList s)

/-- The name of a local tag: what follows its mark, or the mark alone. -/
def localTag? (tag : String) : Option String :=
  match tag.toList with
  | '!' :: [] => some "!"
  | '!' :: name => some (String.ofList name)
  | _ => none

/-- The scalar with a tag that fixes its type; other tags of that kind make it a string. -/
def coreTree (tag : String) (s : List Char) : Except Fault Tree :=
  if tag = "tag:yaml.org,2002:bool" then
    match bool? s with
    | some b => .ok (.bool b)
    | none => .error .badTag
  else if tag = "tag:yaml.org,2002:int" then do
    match ← wholeNumber s with
    | some v => return .number (.integer v)
    | none => throw .badTag
  else if tag = "tag:yaml.org,2002:float" then
    match real? s with
    | some x => .ok (.number (.real x))
    | none => .error .badTag
  else if tag = "tag:yaml.org,2002:null" then
    if null? s then .ok .null else .error .badTag
  else .ok (.string (String.ofList s))

/-- The value of a scalar. A local tag is kept, and the scalar below it is read as if it had none. -/
def scalarTree (tag : Option String) (plain : Bool) (text : String) : Except Fault Tree :=
  let bare : Except Fault Tree := if plain then plainTree text.toList else .ok (.string text)
  match tag with
  | none => bare
  | some tag =>
    match localTag? tag with
    | some name => .tagged name <$> bare
    | none => coreTree tag text.toList

end PackedStruct.Yaml
