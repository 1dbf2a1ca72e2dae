import PackedStruct.Decimal.Digits
/-!
The value of a YAML document.
-/

namespace PackedStruct.Yaml

/-- A whole number, or one with a fraction or an exponent. -/
inductive Number where
  | integer (value : Int)
  | real (value : Binary64)
  deriving DecidableEq, Repr

inductive Tree where
  | null
  | bool (value : Bool)
  | number (value : Number)
  | string (value : String)
  | sequence (items : List Tree)
  | mapping (entries : List (Tree × Tree))
  | tagged (tag : String) (value : Tree)
  deriving Repr

/-- Whether two numbers are one key: no-numbers are equal, and so are both zeros. -/
def Number.same : Number → Number → Bool
  | .integer v, .integer w => v == w
  | .real x, .real y =>
    match x.read, y.read with
    | .nan, .nan => true
    | .finite _ 0 _, .finite _ 0 _ => true
    | _, _ => x == y
  | _, _ => false

/-- The text of a number. -/
def Number.text : Number → String
  | .integer v => toString v
  | .real x =>
    match x.read with
    | .nan => ".nan"
    | .infinite negative => if negative then "-.inf" else ".inf"
    | r => String.ofList (Spelling.yaml.text .double r)

namespace Tree

mutual

/-- Whether two trees are one key. The order of a mapping does not count. -/
def same : Tree → Tree → Bool
  | .null, .null => true
  | .bool a, .bool b => a == b
  | .number a, .number b => a.same b
  | .string a, .string b => a == b
  | .sequence xs, .sequence ys => sameItems xs ys
  | .mapping es, .mapping fs => es.length == fs.length && sameEntries es fs
  | .tagged s a, .tagged t b => s == t && same a b
  | _, _ => false

def sameItems : List Tree → List Tree → Bool
  | [], [] => true
  | x :: xs, y :: ys => same x y && sameItems xs ys
  | _, _ => false

def sameEntries : List (Tree × Tree) → List (Tree × Tree) → Bool
  | [], _ => true
  | (k, v) :: es, fs => fs.any (fun (l, w) => same k l && same v w) && sameEntries es fs

end

/-- The value below its tags. -/
def untagged : Tree → Tree
  | .tagged _ t => t.untagged
  | t => t

/-- The text of a string, tagged or not. -/
def string? (t : Tree) : Option String :=
  match t.untagged with
  | .string s => some s
  | _ => none

/-- What a tree is, with its article. -/
def kind : Tree → String
  | .null => "null"
  | .bool _ => "a boolean"
  | .number _ => "a number"
  | .string _ => "a string"
  | .sequence _ => "a list"
  | .mapping _ => "a mapping"
  | .tagged .. => "a tagged value"

end Tree

end PackedStruct.Yaml
