import PackedStruct.Association
import PackedStruct.Decimal.Digits
import PackedStruct.Text.Numeral
/-!
JSON documents and their text, on one line or with one item a line. The members of an object keep
the order in which their names first came.
-/

namespace PackedStruct

inductive Json where
  | null
  | bool (value : Bool)
  | integer (value : Int)
  | real (value : Binary64)
  | string (value : String)
  | array (items : List Json)
  | object (members : List (String × Json))
  deriving Repr

namespace Json

/-- How a character is written inside a string. -/
def escape (c : Char) : List Char :=
  if c = '"' then ['\\', '"']
  else if c = '\\' then ['\\', '\\']
  else if c = '\x08' then ['\\', 'b']
  else if c = '\x0c' then ['\\', 'f']
  else if c = '\n' then ['\\', 'n']
  else if c = '\r' then ['\\', 'r']
  else if c = '\t' then ['\\', 't']
  else if c.toNat < 0x20 then
    let ds := Nat.toDigits 16 c.toNat
    ['\\', 'u'] ++ List.replicate (4 - ds.length) '0' ++ ds
  else [c]

def stringText (s : String) : List Char := '"' :: s.toList.flatMap escape ++ ['"']

/-- What is no number in JSON is null. -/
def realText (x : Binary64) : List Char :=
  if x.isFinite then Spelling.json.text .double x.read else "null".toList

def scalarText : Json → List Char
  | .null => "null".toList
  | .bool b => (if b then "true" else "false").toList
  | .integer v => (if v < 0 then ['-'] else []) ++ Decimal.digitsOf v.natAbs
  | .real x => realText x
  | .string s => stringText s
  | .array _ => "[]".toList
  | .object _ => "\x7b\x7d".toList

mutual

/-- The document on one line, without blanks. -/
def compactText : Json → List Char
  | .array items => '[' :: compactItems items ++ [']']
  | .object members => '\x7b' :: compactMembers members ++ ['\x7d']
  | j => j.scalarText

def compactItems : List Json → List Char
  | [] => []
  | [j] => j.compactText
  | j :: js => j.compactText ++ ',' :: compactItems js

def compactMembers : List (String × Json) → List Char
  | [] => []
  | [(name, j)] => stringText name ++ ':' :: j.compactText
  | (name, j) :: ms => stringText name ++ ':' :: j.compactText ++ ',' :: compactMembers ms

end

/-- A new line, `depth` levels of two blanks in. -/
def newline (depth : Nat) : List Char := '\n' :: List.replicate (2*depth) ' '

mutual

/-- The document with each item and member on a line of its own. -/
def prettyText (depth : Nat) : Json → List Char
  | .array (j :: js) => '[' :: prettyItems (depth+1) (j :: js) ++ newline depth ++ [']']
  | .object (m :: ms) => '\x7b' :: prettyMembers (depth+1) (m :: ms) ++ newline depth ++ ['\x7d']
  | j => j.scalarText

def prettyItems (depth : Nat) : List Json → List Char
  | [] => []
  | [j] => newline depth ++ j.prettyText depth
  | j :: js => newline depth ++ j.prettyText depth ++ ',' :: prettyItems depth js

def prettyMembers (depth : Nat) : List (String × Json) → List Char
  | [] => []
  | [(name, j)] => newline depth ++ stringText name ++ ": ".toList ++ j.prettyText depth
  | (name, j) :: ms =>
    newline depth ++ stringText name ++ ": ".toList ++ j.prettyText depth ++ ',' :: prettyMembers depth ms

end

def compact (j : Json) : String := String.ofList j.compactText

def pretty (j : Json) : String := String.ofList (j.prettyText 0)

/-- An object of members given one after another; of two with one name the later value stands. -/
def ofMembers (members : List (String × Json)) : Json :=
  .object (members.foldl (fun ms (name, j) => put name j ms) [])

/-- The member of a name, in an object. -/
def member? : Json → String → Option Json
  | .object ms, name => ms.lookup name
  | _, _ => none

/-- The element at an index, in an array. -/
def item? : Json → Nat → Option Json
  | .array items, i => items[i]?
  | _, _ => none

end Json

end PackedStruct
