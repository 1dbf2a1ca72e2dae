import PackedStruct.Node.Size
/-!
The flat layout of a type: the codes of its scalars in the order in which they are read. A layout is
built only if its size is in range and each list of codes on the way fits into memory.
-/

namespace PackedStruct

/-- The slots of a type in order and its size in bytes. -/
structure Layout where
  codes : List Code
  size : Nat
  deriving DecidableEq, Repr

namespace Layout

/-- One letter per slot. -/
def formatString (l : Layout) : String := String.ofList (l.codes.map Code.letter)

/-- How many slots hold a value. -/
def valueCount (l : Layout) : Nat := l.codes.countP (· != .pad)

end Layout

/-- No list of codes is longer than an address space has bytes. -/
def codeCapacity : Nat := Nat.pow 2 47

/-- The codes of one element, once for every element. -/
def repeatCodes (count : Nat) (codes : List Code) : List Code := (List.replicate count codes).flatten

namespace Node

mutual

/-- The slots of a type: those of its fields in order, repeated for every element. -/
def codes (w : BitWidth) : Node → List Code
  | .leaf _ l ds _ => repeatCodes (ds.foldl (· * ·) 1) [l.code w]
  | .struct _ fs ds _ => repeatCodes (ds.foldl (· * ·) 1) (fieldsCodes w fs)

def fieldsCodes (w : BitWidth) : List (String × Node) → List Code
  | [] => []
  | (_, n) :: fs => n.codes w ++ fieldsCodes w fs

end

/-- The number of codes, if a list of that length fits into memory. -/
def reserve (capacity : Nat) (typeName : String) (count : Nat) : Except Error Nat :=
  if count ≤ capacity then .ok count else .error (.tooLarge typeName)

mutual

/-- How many codes the type has; inner lists are built, and may be too long, before outer ones. -/
def codeCount (capacity : Nat) : Node → Except Error Nat
  | .leaf t _ ds _ => reserve capacity t (ds.foldl (· * ·) 1)
  | .struct t fs ds _ => do reserve capacity t ((← fieldsCodeCount capacity t 0 fs) * ds.foldl (· * ·) 1)

def fieldsCodeCount (capacity : Nat) (owner : String) : Nat → List (String × Node) → Except Error Nat
  | sum, [] => .ok sum
  | sum, (_, n) :: fs => do
    fieldsCodeCount capacity owner (← reserve capacity owner (sum + (← n.codeCount capacity))) fs

end

/-- The layout, where `capacity` codes fit into one list. -/
def layout (capacity : Nat) (w : BitWidth) (n : Node) : Except Error Layout := do
  let size ← n.byteSize w
  let _ ← n.codeCount capacity
  return ⟨n.codes w, size⟩

end Node

end PackedStruct
