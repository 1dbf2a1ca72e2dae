import PackedStruct.Text.Numeral
/-!
Display formats in the language `[[fill]align][sign][#][0][width][grouping][.precision][type]`.
`parse` reads one; what a format does to numbers and text is in `Format.Number`.
-/

namespace PackedStruct

inductive Align where
  | left
  | right
  | center
  | afterSign
  deriving DecidableEq, Repr

/-- What stands before a number that is not negative. -/
inductive Sign where
  | minus
  | plus
  | space
  deriving DecidableEq, Repr

inductive Grouping where
  | comma
  | underscore
  deriving DecidableEq, Repr

/-- How a number is presented; each constructor is one type letter. -/
inductive Presentation where
  | binary
  | character
  | decimal
  | octal
  | lowerHex
  | upperHex
  | lowerExp
  | upperExp
  | lowerFixed
  | upperFixed
  | lowerGeneral
  | upperGeneral
  | number
  | percent
  | string
  deriving DecidableEq, Repr

structure Format where
  fill : Char
  align : Option Align
  sign : Sign
  alternate : Bool
  width : Nat
  grouping : Option Grouping
  precision : Option Nat
  kind : Option Presentation
  deriving DecidableEq, Repr

/-- A format that asks for nothing. -/
def Format.plain : Format := ⟨' ', none, .minus, false, 0, none, none, none⟩

/-- `#x`, for integers that have no format of their own. -/
def Format.hex : Format := { Format.plain with alternate := true, kind := some .lowerHex }

namespace Align

def ofChar? : Char → Option Align
  | '<' => some .left
  | '>' => some .right
  | '^' => some .center
  | '=' => some .afterSign
  | _ => none

def char : Align → Char
  | .left => '<'
  | .right => '>'
  | .center => '^'
  | .afterSign => '='

end Align

def Sign.char : Sign → Char
  | .minus => '-'
  | .plus => '+'
  | .space => ' '

namespace Grouping

def ofChar? : Char → Option Grouping
  | ',' => some .comma
  | '_' => some .underscore
  | _ => none

def char : Grouping → Char
  | .comma => ','
  | .underscore => '_'

end Grouping

namespace Presentation

def ofChar? : Char → Option Presentation
  | 'b' => some .binary
  | 'c' => some .character
  | 'd' => some .decimal
  | 'o' => some .octal
  | 'x' => some .lowerHex
  | 'X' => some .upperHex
  | 'e' => some .lowerExp
  | 'E' => some .upperExp
  | 'f' => some .lowerFixed
  | 'F' => some .upperFixed
  | 'g' => some .lowerGeneral
  | 'G' => some .upperGeneral
  | 'n' => some .number
  | '%' => some .percent
  | 's' => some .string
  | _ => none

def char : Presentation → Char
  | .binary => 'b'
  | .character => 'c'
  | .decimal => 'd'
  | .octal => 'o'
  | .lowerHex => 'x'
  | .upperHex => 'X'
  | .lowerExp => 'e'
  | .upperExp => 'E'
  | .lowerFixed => 'f'
  | .upperFixed => 'F'
  | .lowerGeneral => 'g'
  | .upperGeneral => 'G'
  | .number => 'n'
  | .percent => '%'
  | .string => 's'

theorem ofChar?_char (k : Presentation) : ofChar? k.char = some k := by cases k <;> rfl

end Presentation

theorem Align.ofChar?_char (a : Align) : Align.ofChar? a.char = some a := by cases a <;> rfl

theorem Grouping.ofChar?_char (g : Grouping) : Grouping.ofChar? g.char = some g := by cases g <;> rfl

theorem Align.eq_char_of_ofChar? {c : Char} {a : Align} (h : Align.ofChar? c = some a) : c = a.char := by
  unfold Align.ofChar? at h
  split at h <;> cases h <;> rfl

theorem Grouping.eq_char_of_ofChar? {c : Char} {g : Grouping} (h : Grouping.ofChar? c = some g) :
    c = g.char := by
  unfold Grouping.ofChar? at h
  split at h <;> cases h <;> rfl

theorem Presentation.eq_char_of_ofChar? {c : Char} {k : Presentation} (h : Presentation.ofChar? c = some k) :
    c = k.char := by
  unfold Presentation.ofChar? at h
  split at h <;> cases h <;> rfl

namespace Format

/-- Why a text is no format. -/
inductive Fault where
  | widthTooLarge
  | precisionTooLarge
  | noPrecision
  | unknownType
  | trailing
  deriving DecidableEq, Repr

def Fault.reason : Fault → String
  | .widthTooLarge => "width is too large"
  | .precisionTooLarge => "precision is too large"
  | .noPrecision => "missing precision after '.'"
  | .unknownType => "unknown presentation type"
  | .trailing => "unexpected trailing characters"

/-- The largest width or precision. -/
def limit : Nat := 65535

/-- An alignment, with a fill character if the second character is one. -/
def readAlign (s : List Char) : (Char × Option Align) × List Char :=
  match s with
  | [] => ((' ', none), [])
  | [c] =>
    match Align.ofChar? c with
    | some a => ((' ', some a), [])
    | none => ((' ', none), [c])
  | c :: d :: s =>
    match Align.ofChar? d, Align.ofChar? c with
    | some a, _ => ((c, some a), s)
    | none, some a => ((' ', some a), d :: s)
    | none, none => ((' ', none), c :: d :: s)

def readSign : List Char → Sign × List Char
  | '+' :: s => (.plus, s)
  | ' ' :: s => (.space, s)
  | '-' :: s => (.minus, s)
  | s => (.minus, s)

/-- Whether the text starts with `c`, and what follows. -/
def readFlag (c : Char) : List Char → Bool × List Char
  | [] => (false, [])
  | d :: s => if d = c then (true, s) else (false, d :: s)

/-- A run of digits, if there is one, with a value up to the limit. -/
def readNumber (fault : Fault) (s : List Char) : Except Fault (Option Nat × List Char) :=
  let digits := s.takeWhile Text.isDigit
  match Text.natural? 10 digits with
  | none => .ok (none, s)
  | some n => if n ≤ limit then .ok (some n, s.dropWhile Text.isDigit) else .error fault

def readGrouping : List Char → Option Grouping × List Char
  | [] => (none, [])
  | c :: s =>
    match Grouping.ofChar? c with
    | some g => (some g, s)
    | none => (none, c :: s)

/-- A point and the precision that must follow it. -/
def readPrecision : List Char → Except Fault (Option Nat × List Char)
  | '.' :: s => do
    match ← readNumber .precisionTooLarge s with
    | (some n, s) => return (some n, s)
    | (none, _) => throw .noPrecision
  | s => .ok (none, s)

/-- The type letter, with which the text ends. -/
def readKind : List Char → Except Fault (Option Presentation)
  | [] => .ok none
  | c :: s =>
    match Presentation.ofChar? c, s with
    | none, _ => .error .unknownType
    | some k, [] => .ok (some k)
    | some _, _ :: _ => .error .trailing

/-- Read a format. A zero before the width fills with zeros after the sign, unless an alignment
was given. -/
def parse (s : String) : Except Fault Format := do
  let ((fill, align), s) := readAlign s.toList
  let (sign, s) := readSign s
  let (alternate, s) := readFlag '#' s
  let (zero, s) := readFlag '0' s
  let (width, s) ← readNumber .widthTooLarge s
  let (grouping, s) := readGrouping s
  let (precision, s) ← readPrecision s
  let kind ← readKind s
  let (fill, align) := if zero && align.isNone then ('0', some .afterSign) else (fill, align)
  return { fill, align, sign, alternate, width := width.getD 0, grouping, precision, kind }

/-- Whether integers, booleans and characters are shown as numbers. -/
def isNumeric (f : Format) : Bool :=
  match f.kind with
  | none | some .string => false
  | some _ => true

end Format

end PackedStruct
