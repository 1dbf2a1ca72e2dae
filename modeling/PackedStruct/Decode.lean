import PackedStruct.Data
import PackedStruct.Node.Layout
import PackedStruct.Text.Utf8
/-!
Decoding in two steps: the bytes are read into a flat list of scalars, one for each slot of the
layout that is not filler, and the list is then put together along the type.
-/

namespace PackedStruct

/-- The signed number with this two's complement pattern of `size` bytes. -/
def twosComplement (size n : Nat) : Int :=
  if n < Nat.pow 2 (8*size-1) then n else (n : Int) - Nat.pow 2 (8*size)

/-- The scalar of a slot from the number its bytes write; filler has none. -/
def Code.scalar? (c : Code) (n : Nat) : Option Scalar :=
  match c with
  | .pad => none
  | .char => some (.char (UInt8.ofNat n))
  | .bool => some (.bool (n != 0))
  | .i8 | .i16 | .i32 | .i64 => some (.signed (twosComplement c.size n))
  | .u8 | .u16 | .u32 | .u64 => some (.unsigned n)
  | .f32 => some (.single ⟨UInt32.ofNat n⟩)
  | .f64 => some (.double ⟨UInt64.ofNat n⟩)
  | .ptr32 | .ptr64 => some (.pointer n)

/-- The first `n` bytes and the others, if there are that many. -/
def takeBytes : Nat → List UInt8 → Option (List UInt8 × List UInt8)
  | 0, bytes => some ([], bytes)
  | _+1, [] => none
  | n+1, b :: bytes => (takeBytes n bytes).map fun (taken, rest) => (b :: taken, rest)

/-- Read slots one after another; `pos` is the offset of the first byte that is left. -/
def unpack (e : Endian) : (pos : Nat) → List UInt8 → List Code → Except Error (List Scalar)
  | _, _, [] => .ok []
  | pos, bytes, c :: cs =>
    match takeBytes c.size bytes with
    | none => .error (.truncated pos c.size bytes.length)
    | some (taken, rest) => do
      let scalars ← unpack e (pos + c.size) rest cs
      return (c.scalar? (e.toNat taken)).toList ++ scalars

/-- The text of a row of characters ends before the first zero byte. -/
def rowText (bytes : List UInt8) : String :=
  String.ofList (Text.decodeUtf8 (bytes.takeWhile (· != 0)))

/-- Takes values off the front of a list of scalars, or finds that they do not fit. -/
abbrev Taker (α : Type) := List Scalar → Option (α × List Scalar)

namespace Taker

def one : Taker Scalar
  | [] => none
  | s :: rest => some (s, rest)

def byte : Taker UInt8
  | .char b :: rest => some (b, rest)
  | _ => none

/-- Take `n` values one after another. -/
def times {α : Type} (t : Taker α) : Nat → Taker (List α)
  | 0, scalars => some ([], scalars)
  | n+1, scalars => do
    let (a, rest) ← t scalars
    let (as, rest) ← times t n rest
    return (a :: as, rest)

/-- Arrays of arrays around `element`, from the outermost dimension inwards. -/
def nested (h : Hints) (element : Taker Data) : List Nat → Taker Data
  | [], scalars => element scalars
  | d :: ds, scalars => do
    let (items, rest) ← times (nested h element ds) d scalars
    return (.array h items, rest)

/-- Characters: the innermost dimension becomes one text. -/
def characters (h : Hints) : List Nat → Taker Data
  | [], scalars => do
    let (s, rest) ← one scalars
    return (.scalar h s, rest)
  | [n], scalars => do
    let (bytes, rest) ← times byte n scalars
    return (.scalar h (.text (rowText bytes)), rest)
  | d :: ds, scalars => do
    let (items, rest) ← times (characters h ds) d scalars
    return (.array h items, rest)

/-- The value of a scalar type; a filler takes nothing. -/
def leaf (h : Hints) : Leaf → Taker Data
  | .primitive .padding, scalars => some (.scalar h .null, scalars)
  | _, scalars => do
    let (s, rest) ← one scalars
    return (.scalar h s, rest)

end Taker

namespace Node

mutual

/-- Put scalars together along the type. -/
def assemble : Node → Taker Data
  | .leaf _ (.primitive .char) ds h => Taker.characters h ds
  | .leaf _ l ds h => Taker.nested h (Taker.leaf h l) ds
  | .struct t fs ds h =>
    let element : Taker Data := fun scalars => do
      let (fields, rest) ← assembleFields fs scalars
      return (.struct h t fields, rest)
    Taker.nested h element ds

/-- The fields of a struct in order, fillers left out. -/
def assembleFields : List (String × Node) → Taker (List (String × Data))
  | [], scalars => some ([], scalars)
  | (name, n) :: fs, scalars =>
    if n.isPadding then assembleFields fs scalars
    else do
      let (value, rest) ← n.assemble scalars
      let (values, rest) ← assembleFields fs rest
      return ((name, value) :: values, rest)

end

/-- Put all scalars together; none may be missing and none left. -/
def assembleAll (n : Node) (scalars : List Scalar) : Except Error Data :=
  match n.assemble scalars with
  | some (data, []) => .ok data
  | some (_, rest) => .error (.mismatch n.typeName (scalars.length - rest.length) scalars.length)
  | none => .error (.mismatch n.typeName (scalars.length + 1) scalars.length)

/-- Decode one value at `offset`. Its size is checked before anything is read. The slots are those of `layout`,
whether or not the list of them fits into memory. -/
def decode (n : Node) (w : BitWidth) (e : Endian) (offset : Nat) (buffer : List UInt8) : Except Error Data := do
  let size ← n.byteSize w
  let available := buffer.length - offset
  if available < size then throw (.truncated offset size available)
  n.assembleAll (← unpack e offset (buffer.drop offset) (n.codes w))

end Node

end PackedStruct
