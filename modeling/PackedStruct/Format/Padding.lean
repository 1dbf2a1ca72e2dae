import PackedStruct.Format
/-!
Filling a text up to its width, and separators between groups of digits.
-/

namespace PackedStruct

/-- A number or text before padding: fill characters may also go between `lead` and `body`. -/
structure Padded where
  lead : List Char
  body : List Char
  deriving DecidableEq, Repr

namespace Format

/-- Fill up to the width; nothing is ever cut off. -/
def pad (f : Format) (default : Align) (p : Padded) : List Char :=
  let missing := f.width - (p.lead.length + p.body.length)
  let fill (n : Nat) := List.replicate n f.fill
  match f.align.getD default with
  | .left => p.lead ++ p.body ++ fill missing
  | .right => fill missing ++ p.lead ++ p.body
  | .center => fill (missing / 2) ++ p.lead ++ p.body ++ fill (missing - missing / 2)
  | .afterSign => p.lead ++ fill missing ++ p.body

def signText (f : Format) (negative : Bool) : List Char :=
  if negative then ['-']
  else match f.sign with
    | .minus => []
    | .plus => ['+']
    | .space => [' ']

/-- A separator before every digit that is followed, itself included, by a multiple of `every`. -/
def separate (separator : Char) (every : Nat) : List Char → List Char
  | [] => []
  | [d] => [d]
  | d :: e :: ds =>
    if (ds.length + 1) % every = 0 then d :: separator :: separate separator every (e :: ds)
    else d :: separate separator every (e :: ds)

def group (f : Format) (every : Nat) (digits : List Char) : List Char :=
  match f.grouping with
  | none => digits
  | some g => separate g.char every digits

/-- Group the digits in front of a decimal point or exponent. -/
def groupWhole (f : Format) (s : List Char) : List Char :=
  f.group 3 (s.takeWhile Text.isDigit) ++ s.dropWhile Text.isDigit

theorem pad_length (f : Format) (default : Align) (p : Padded) :
    (f.pad default p).length = max f.width (p.lead.length + p.body.length) := by
  simp only [pad]
  split <;> simp <;> omega

/-- A text that is as long as the width, or longer, is not padded. -/
theorem pad_of_le {f : Format} {a : Align} {p : Padded} (h : f.width ≤ p.lead.length + p.body.length) :
    f.pad a p = p.lead ++ p.body := by
  simp only [pad, Nat.sub_eq_zero_of_le h]
  split <;> simp

end Format

end PackedStruct
