import PackedStruct.Format
import PackedStruct.Text.Quoted
import PackedStruct.TypeSpec
import PackedStruct.Wire
/-!
What can go wrong between a schema and decoded data, and the sentence that reports it.
-/

namespace PackedStruct

inductive Error where
  | unknownType (name : String)
  /-- An alias that leads back to itself; the chain ends with the repeated name. -/
  | cyclicAlias (chain : List String)
  | recursiveType (name : String)
  /-- A field entry without exactly one pair. -/
  | notOnePair (struct : String) (keys : List String)
  | duplicateField (struct field : String)
  | conflictingLabels (struct field : String)
  | malformedTypeSpec (spec : String) (fault : TypeSpec.Fault)
  | invalidFormat (spec : String) (fault : Format.Fault)
  | unsupportedEndian (name : String)
  | unsupportedWidth (bits : Nat)
  | truncated (offset wanted available : Nat)
  | tooLarge (typeName : String)
  /-- A list of scalars that does not have the shape of the type. -/
  | mismatch (typeName : String) (expected got : Nat)
  deriving DecidableEq, Repr

namespace Error

def message : Error → String
  | .unknownType name => "unknown type: " ++ name
  | .cyclicAlias chain => "cyclic alias: " ++ " -> ".intercalate chain
  | .recursiveType name => "recursive type " ++ name ++ " would have infinite size"
  | .notOnePair struct keys =>
    "struct " ++ struct ++ ": fields must have one entry, got " ++ toString keys.length ++
      " (" ++ ", ".intercalate keys ++ ")"
  | .duplicateField struct field => "struct " ++ struct ++ ": duplicate field " ++ field
  | .conflictingLabels struct field =>
    "struct " ++ struct ++ ": field " ++ field ++ " has both labels and flags"
  | .malformedTypeSpec spec fault => "malformed type spec " ++ Text.quoted spec ++ ": " ++ fault.reason
  | .invalidFormat spec fault => "invalid format spec " ++ Text.quoted spec ++ ": " ++ fault.reason
  | .unsupportedEndian name => "unsupported endianness " ++ Text.quoted name ++ " (expected little or big)"
  | .unsupportedWidth bits => "unsupported bit width " ++ toString bits ++ " (expected 32 or 64)"
  | .truncated offset wanted available =>
    "truncated buffer at offset " ++ toString offset ++ ": need " ++ toString wanted ++
      " bytes, have " ++ toString available
  | .tooLarge typeName => "layout of " ++ typeName ++ " is too large"
  | .mismatch typeName expected got =>
    "decode layout mismatch in " ++ typeName ++ ": expected " ++ toString expected ++
      " values, got " ++ toString got

end Error

/-- Read a type spec, or say why it is none. -/
def TypeSpec.read (s : String) : Except Error TypeSpec :=
  (TypeSpec.parse s).mapError (.malformedTypeSpec s)

/-- Read a format, or say why it is none. -/
def Format.read (s : String) : Except Error Format :=
  (Format.parse s).mapError (.invalidFormat s)

def Endian.read (s : String) : Except Error Endian :=
  match Endian.ofName? s with
  | some e => .ok e
  | none => .error (.unsupportedEndian s)

def BitWidth.read (bits : Nat) : Except Error BitWidth :=
  match BitWidth.ofBits? bits with
  | some w => .ok w
  | none => .error (.unsupportedWidth bits)

end PackedStruct
