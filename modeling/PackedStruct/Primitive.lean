import PackedStruct.Wire
/-!
The built-in scalar types a schema can name, with their spellings and the code each one takes on the
wire.
-/

namespace PackedStruct

inductive Primitive where
  | char
  | s8
  | u8
  | bool
  | s16
  | u16
  | s32
  | u32
  | s64
  | u64
  | f32
  | f64
  | ssize
  | size
  | pointer
  | padding
  deriving DecidableEq, Repr

namespace Primitive

/-- The spellings a schema may use: C names, those of common platforms, and short names. -/
def registry : List (String × Primitive) := [
  ("char", .char), ("signed char", .s8), ("unsigned char", .u8), ("_Bool", .bool),
  ("short", .s16), ("unsigned short", .u16), ("int", .s32), ("unsigned int", .u32),
  ("long", .s32), ("unsigned long", .u32), ("long long", .s64), ("unsigned long long", .u64),
  ("ssize_t", .ssize), ("size_t", .size), ("float", .f32), ("double", .f64),
  ("BYTE", .u8), ("WORD", .u16), ("DWORD", .u32), ("QWORD", .u64),
  ("LONG", .s32), ("LONGLONG", .s64), ("ULONGLONG", .u64),
  ("__s8", .s8), ("__s16", .s16), ("__s32", .s32), ("__s64", .s64),
  ("__u8", .u8), ("__u16", .u16), ("__u32", .u32), ("__u64", .u64),
  ("bool", .bool), ("s8", .s8), ("s16", .s16), ("s32", .s32), ("s64", .s64),
  ("u8", .u8), ("u16", .u16), ("u32", .u32), ("u64", .u64), ("f32", .f32), ("f64", .f64),
  ("padding", .padding)]

def lookup? (name : String) : Option Primitive := registry.lookup name

/-- The C spelling. -/
def name : Primitive → String
  | .char => "char"
  | .s8 => "signed char"
  | .u8 => "unsigned char"
  | .bool => "bool"
  | .s16 => "short"
  | .u16 => "unsigned short"
  | .s32 => "int"
  | .u32 => "unsigned int"
  | .s64 => "long long"
  | .u64 => "unsigned long long"
  | .f32 => "float"
  | .f64 => "double"
  | .ssize => "ssize_t"
  | .size => "size_t"
  | .pointer => "void*"
  | .padding => "padding"

/-- The spelling that shows the width. -/
def shortName : Primitive → String
  | .char => "char"
  | .s8 => "s8"
  | .u8 => "u8"
  | .bool => "bool"
  | .s16 => "s16"
  | .u16 => "u16"
  | .s32 => "s32"
  | .u32 => "u32"
  | .s64 => "s64"
  | .u64 => "u64"
  | .f32 => "f32"
  | .f64 => "f64"
  | .ssize => "ssize_t"
  | .size => "size_t"
  | .pointer => "void*"
  | .padding => "padding"

def code : BitWidth → Primitive → Code
  | _, .char => .char
  | _, .s8 => .i8
  | _, .u8 => .u8
  | _, .bool => .bool
  | _, .s16 => .i16
  | _, .u16 => .u16
  | _, .s32 => .i32
  | _, .u32 => .u32
  | _, .s64 => .i64
  | _, .u64 => .u64
  | _, .f32 => .f32
  | _, .f64 => .f64
  | .w32, .ssize => .i32
  | .w64, .ssize => .i64
  | .w32, .size => .u32
  | .w64, .size => .u64
  | .w32, .pointer => .ptr32
  | .w64, .pointer => .ptr64
  | _, .padding => .pad

/-- A narrower pointer makes no primitive wider. -/
theorem code_size_le (p : Primitive) : (p.code .w32).size ≤ (p.code .w64).size := by
  cases p <;> decide

theorem code_eq_pad (w : BitWidth) (p : Primitive) : p.code w = .pad ↔ p = .padding := by
  cases w <;> cases p <;> decide

end Primitive

end PackedStruct
