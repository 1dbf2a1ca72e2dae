import PackedStruct.Yaml.Fault
/-!
Places in a YAML text. Line breaks are unified first, so that each is one character; a cursor then
moves by single characters and knows its line and column.
-/

namespace PackedStruct.Yaml

/-- The characters a document may hold. -/
def isAllowed (c : Char) : Bool :=
  let n := c.toNat
  n == 9 || n == 0xA || n == 0xD || (0x20 ≤ n && n ≤ 0x7E) || n == 0x85 || (0xA0 ≤ n && n ≤ 0xD7FF) ||
    (0xE000 ≤ n && n ≤ 0xFFFD) || 0x10000 ≤ n

/-- Write a carriage return, with or without a line feed, and a next-line character as line feeds. -/
def unifyBreaks : List Char → List Char
  | [] => []
  | '\r' :: '\n' :: s => '\n' :: unifyBreaks s
  | c :: s => (if c = '\r' || c = '\x85' then '\n' else c) :: unifyBreaks s

/-- Line feed, line separator and paragraph separator. -/
def isBreak (c : Char) : Bool := c == '\n' || c == '\u2028' || c == '\u2029'

def isGap (c : Char) : Bool := c == ' ' || c == '\t'

/-- Whether a word ends here: before a blank, a line break or the end. -/
def endsWord : List Char → Bool
  | [] => true
  | c :: _ => isGap c || isBreak c

/-- Letters, digits, underscore and hyphen. -/
def isWordChar (c : Char) : Bool := c.isAlphanum || c == '_' || c == '-'

structure Cursor where
  rest : List Char
  index : Nat
  line : Nat
  column : Nat
  deriving Repr

namespace Cursor

def start (s : List Char) : Cursor := ⟨s, 0, 0, 0⟩

/-- One character on. -/
def next (c : Cursor) : Cursor :=
  match c.rest with
  | [] => c
  | x :: s => if isBreak x then ⟨s, c.index+1, c.line+1, 0⟩ else ⟨s, c.index+1, c.line, c.column+1⟩

def skip : Nat → Cursor → Cursor
  | 0, c => c
  | n+1, c => skip n c.next

def skipWhile (p : Char → Bool) (c : Cursor) : Cursor := c.skip (c.rest.takeWhile p).length

/-- Past a comment, up to the end of the line. -/
def skipComment (c : Cursor) : Cursor :=
  match c.rest with
  | '#' :: _ => c.skipWhile (!isBreak ·)
  | _ => c

/-- Past what may stand between a token and the end of its line. -/
def finishLine (fault : Fault) (c : Cursor) : Except Fault Cursor :=
  let c := (c.skipWhile isGap).skipComment
  match c.rest with
  | [] => .ok c
  | x :: _ => if isBreak x then .ok c.next else .error fault

/-- Whether a document marker stands here: three hyphens or points at the start of a line. -/
def atMarker (c : Cursor) : Bool :=
  c.column == 0 && match c.rest with
    | '-' :: '-' :: '-' :: s => endsWord s
    | '.' :: '.' :: '.' :: s => endsWord s
    | _ => false

end Cursor

end PackedStruct.Yaml
