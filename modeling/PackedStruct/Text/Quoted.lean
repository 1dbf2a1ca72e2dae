import PackedStruct.Text.Hidden
/-!
Quoted text, as error messages and single characters show it. Inside the quotes the mark itself
and the backslash are escaped, common controls have a letter, and every other character that has
no shape of its own is written by its code point in hexadecimal.
-/

namespace PackedStruct.Text

/-- The mark that opens and closes a quotation. -/
inductive Mark where
  | single
  | double
  deriving DecidableEq, Repr

def Mark.char : Mark → Char
  | .single => '\''
  | .double => '"'

/-- `\u`, then the code point between braces. -/
def codePoint (c : Char) : List Char :=
  ['\\', 'u', '\x7b'] ++ Nat.toDigits 16 c.toNat ++ ['\x7d']

/-- How one character is written inside a quotation. -/
def escape (mark : Mark) (c : Char) : List Char :=
  if c = '\x00' then ['\\', '0']
  else if c = '\t' then ['\\', 't']
  else if c = '\n' then ['\\', 'n']
  else if c = '\r' then ['\\', 'r']
  else if c = '\\' ∨ c = mark.char then ['\\', c]
  else if c.toNat < 0x20 ∨ c.toNat = 0x7F ∨ isHidden c then codePoint c
  else [c]

def quote (mark : Mark) (s : List Char) : List Char :=
  [mark.char] ++ s.flatMap (escape mark) ++ [mark.char]

/-- The text in double quotes. -/
def quoted (s : String) : String := String.ofList (quote .double s.toList)

end PackedStruct.Text
