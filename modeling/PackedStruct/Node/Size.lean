import PackedStruct.Error
import PackedStruct.Node
/-!
Byte sizes. `byteSize` is what the program uses: every product and sum is checked against 64 bits as
it is formed. `exactSize` is the number itself.
-/

namespace PackedStruct

/-- Sizes and counts are smaller than this. -/
def sizeLimit : Nat := Nat.pow 2 64

/-- A size, unless it is out of range. -/
def checked (typeName : String) (n : Nat) : Except Error Nat :=
  if n < sizeLimit then .ok n else .error (.tooLarge typeName)

/-- The product of the dimensions from the outermost inwards. -/
def countFrom (typeName : String) : Nat → List Nat → Except Error Nat
  | n, [] => .ok n
  | n, d :: ds => do countFrom typeName (← checked typeName (n*d)) ds

namespace Node

/-- How many elements the dimensions describe: one for a scalar. -/
def elementCount (n : Node) : Except Error Nat := countFrom n.typeName 1 n.dims

/-- The size of an array with elements of `element` bytes. -/
def arraySize (typeName : String) (dims : List Nat) (element : Nat) : Except Error Nat := do
  checked typeName (element * (← countFrom typeName 1 dims))

mutual

/-- Total size in bytes, padding included. -/
def byteSize (w : BitWidth) : Node → Except Error Nat
  | .leaf t l ds _ => arraySize t ds (l.size w)
  | .struct t fs ds _ => do arraySize t ds (← fieldsSize w t 0 fs)

/-- The size of the fields of struct `owner`, added up onto `sum`. -/
def fieldsSize (w : BitWidth) (owner : String) : Nat → List (String × Node) → Except Error Nat
  | sum, [] => .ok sum
  | sum, (_, n) :: fs => do fieldsSize w owner (← checked owner (sum + (← n.byteSize w))) fs

end

/-- The exact number of elements. -/
def exactCount (n : Node) : Nat := n.dims.foldl (· * ·) 1

mutual

/-- The exact size, however large. -/
def exactSize (w : BitWidth) : Node → Nat
  | .leaf _ l ds _ => l.size w * ds.foldl (· * ·) 1
  | .struct _ fs ds _ => exactFieldsSize w fs * ds.foldl (· * ·) 1

def exactFieldsSize (w : BitWidth) : List (String × Node) → Nat
  | [] => 0
  | (_, n) :: fs => n.exactSize w + exactFieldsSize w fs

end

end Node

theorem checked_eq_ok {typeName : String} {n m : Nat} :
    checked typeName n = .ok m ↔ n < sizeLimit ∧ m = n := by
  grind [checked]

/-- A count that is found is the product of the dimensions. -/
theorem eq_of_countFrom {typeName : String} {ds : List Nat} {n m : Nat}
    (h : countFrom typeName n ds = .ok m) : m = ds.foldl (· * ·) n := by
  induction ds generalizing n with
  | nil => simpa [countFrom, eq_comm] using h
  | cons d ds ih =>
    simp only [countFrom, checked] at h
    split at h
    · exact ih h
    · exact nomatch h

end PackedStruct
