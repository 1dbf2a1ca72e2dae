import PackedStruct.Data
import PackedStruct.Json
/-!
Decoded data as JSON. Labels stand for labelled numbers, and characters are one-letter strings.
-/

namespace PackedStruct

def Scalar.toJson : Scalar → Json
  | .null => .null
  | .bool b => .bool b
  | .signed v => .integer v
  | .unsigned v => .integer v
  | .pointer v => .integer v
  | .single x => .real x.asWritten
  | .double x => .real x
  | .char b => .string (String.singleton (Char.ofNat b.toNat))
  | .text s => .string s

namespace Data

mutual

def toJson : Data → Json
  | .scalar h v =>
    match (scalar h v).label? with
    | some label => .string label
    | none => v.toJson
  | .array _ items => .array (itemsToJson items)
  | .struct _ _ fs => .ofMembers (membersToJson fs)

def itemsToJson : List Data → List Json
  | [] => []
  | d :: ds => d.toJson :: itemsToJson ds

def membersToJson : List (String × Data) → List (String × Json)
  | [] => []
  | (name, d) :: fs => (name, d.toJson) :: membersToJson fs

end

end Data

end PackedStruct
