/-!
What a packed layout is made of: byte orders, pointer widths, and the fixed-width codes that stand
one after another without gaps.
-/

namespace PackedStruct

inductive Endian where
  | little
  | big
  deriving DecidableEq, Repr

namespace Endian

def name : Endian → String
  | .little => "little"
  | .big => "big"

def ofName? (s : String) : Option Endian :=
  if s = "little" then some .little else if s = "big" then some .big else none

/-- The number written by `bytes`. -/
def toNat (e : Endian) (bytes : List UInt8) : Nat :=
  match e with
  | .little => bytes.foldr (fun b n => b.toNat + 256*n) 0
  | .big => bytes.foldl (fun n b => 256*n + b.toNat) 0

end Endian

/-- The width of pointers and of the integers that follow it. -/
inductive BitWidth where
  | w32
  | w64
  deriving DecidableEq, Repr

namespace BitWidth

def bits : BitWidth → Nat
  | .w32 => 32
  | .w64 => 64

def ofBits? (n : Nat) : Option BitWidth :=
  if n = 32 then some .w32 else if n = 64 then some .w64 else none

end BitWidth

/-- One slot of a packed layout. -/
inductive Code where
  | char
  | i8
  | u8
  | bool
  | i16
  | u16
  | i32
  | u32
  | i64
  | u64
  | f32
  | f64
  | ptr32
  | ptr64
  | pad
  deriving DecidableEq, Repr

namespace Code

/-- Width in bytes. -/
def size : Code → Nat
  | .char | .i8 | .u8 | .bool | .pad => 1
  | .i16 | .u16 => 2
  | .i32 | .u32 | .f32 | .ptr32 => 4
  | .i64 | .u64 | .f64 | .ptr64 => 8

/-- The letter of the slot in a format string. -/
def letter : Code → Char
  | .char => 'c'
  | .i8 => 'b'
  | .u8 => 'B'
  | .bool => '?'
  | .i16 => 'h'
  | .u16 => 'H'
  | .i32 => 'i'
  | .u32 | .ptr32 => 'I'
  | .i64 => 'q'
  | .u64 | .ptr64 => 'Q'
  | .f32 => 'f'
  | .f64 => 'd'
  | .pad => 'x'

theorem size_pos (c : Code) : 0 < c.size := by cases c <;> decide

end Code

end PackedStruct
