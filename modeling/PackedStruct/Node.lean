import PackedStruct.Format
import PackedStruct.Labels
import PackedStruct.Primitive
/-!
Compiled types: scalars and structs, each with its array dimensions and the hints for showing its
values. A struct holds its fields by value, so the tree is all that decoding needs.
-/

namespace PackedStruct

/-- How values are shown; decoded values carry the hints of their type. -/
structure Hints where
  format : Option Format
  labels : Option LabelTable
  deriving DecidableEq, Repr

def Hints.none : Hints := ⟨.none, .none⟩

/-- A single wire slot: an opaque pointer with its number of stars, or a primitive. -/
inductive Leaf where
  | pointer (depth : Nat)
  | primitive (p : Primitive)
  deriving DecidableEq, Repr

namespace Leaf

def primitiveOf : Leaf → Primitive
  | .pointer _ => .pointer
  | .primitive p => p

def code (w : BitWidth) (l : Leaf) : Code := l.primitiveOf.code w

def size (w : BitWidth) (l : Leaf) : Nat := (l.code w).size

end Leaf

/-- A compiled type. The name of a pointer is that of its pointee, that of a primitive its spelling
in the schema. Dimensions go from the outermost inwards. -/
inductive Node where
  | leaf (typeName : String) (leaf : Leaf) (dims : List Nat) (hints : Hints)
  | struct (typeName : String) (fields : List (String × Node)) (dims : List Nat) (hints : Hints)
  deriving Repr

namespace Node

def typeName : Node → String
  | .leaf t .. => t
  | .struct t .. => t

def dims : Node → List Nat
  | .leaf _ _ ds _ => ds
  | .struct _ _ ds _ => ds

def hints : Node → Hints
  | .leaf _ _ _ h => h
  | .struct _ _ _ h => h

def fields : Node → List (String × Node)
  | .leaf .. => []
  | .struct _ fs _ _ => fs

/-- The first field of a name. -/
def field? (n : Node) (name : String) : Option Node := n.fields.lookup name

/-- The field reached through names one after another. -/
def path? (n : Node) : List String → Option Node
  | [] => some n
  | name :: names => (n.field? name).bind (path? · names)

/-- Put the node into further, outer dimensions. -/
def withOuterDims (outer : List Nat) : Node → Node
  | .leaf t l ds h => .leaf t l (outer ++ ds) h
  | .struct t fs ds h => .struct t fs (outer ++ ds) h

def withHints (h : Hints) : Node → Node
  | .leaf t l ds _ => .leaf t l ds h
  | .struct t fs ds _ => .struct t fs ds h

/-- Whether the node is filler, alone or in an array; fillers are no part of decoded structs. -/
def isPadding : Node → Bool
  | .leaf _ (.primitive .padding) .. => true
  | _ => false

@[simp] theorem withOuterDims_nil (n : Node) : n.withOuterDims [] = n := by cases n <;> rfl

@[simp] theorem dims_withOuterDims (outer : List Nat) (n : Node) :
    (n.withOuterDims outer).dims = outer ++ n.dims := by cases n <;> rfl

theorem withOuterDims_append (outer inner : List Nat) (n : Node) :
    (n.withOuterDims inner).withOuterDims outer = n.withOuterDims (outer ++ inner) := by
  cases n <;> simp [withOuterDims]

end Node

end PackedStruct
