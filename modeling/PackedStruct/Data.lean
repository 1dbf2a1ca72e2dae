import PackedStruct.Binary
import PackedStruct.Node
/-!
Decoded data: a tree of scalars, arrays and structs, where each value keeps the hints of its type.
-/

namespace PackedStruct

/-- A single value. Only `null` and `text` are no wire slot: the one stands for a filler by itself,
the other for a row of characters. -/
inductive Scalar where
  | null
  | bool (value : Bool)
  | signed (value : Int)
  | unsigned (value : Nat)
  | single (value : Binary32)
  | double (value : Binary64)
  | char (byte : UInt8)
  | text (value : String)
  | pointer (address : Nat)
  deriving DecidableEq, Repr

/-- The number that a scalar counts as when it is labelled. -/
def Scalar.integer? : Scalar → Option Int
  | .bool b => some (if b then 1 else 0)
  | .signed v => some v
  | .unsigned v => some v
  | .pointer v => some v
  | .char b => some b.toNat
  | _ => none

inductive Data where
  | scalar (hints : Hints) (value : Scalar)
  | array (hints : Hints) (items : List Data)
  | struct (hints : Hints) (typeName : String) (fields : List (String × Data))
  deriving Repr

/-- A step from a value to a part of it. -/
inductive Step where
  | name (field : String)
  | index (i : Nat)
  deriving DecidableEq, Repr

namespace Data

def hints : Data → Hints
  | .scalar h _ => h
  | .array h _ => h
  | .struct h _ _ => h

/-- The field of a name, in a struct. -/
def field? : Data → String → Option Data
  | .struct _ _ fs, name => fs.lookup name
  | _, _ => none

/-- The element at an index, in an array. -/
def item? : Data → Nat → Option Data
  | .array _ items, i => items[i]?
  | _, _ => none

def step? (d : Data) : Step → Option Data
  | .name field => d.field? field
  | .index i => d.item? i

def path? (d : Data) : List Step → Option Data
  | [] => some d
  | s :: ss => (d.step? s).bind (path? · ss)

/-- The label of a scalar, if its table has one for it. -/
def label? : Data → Option String
  | .scalar h v => do (← h.labels).label? (← v.integer?)
  | _ => none

end Data

end PackedStruct
