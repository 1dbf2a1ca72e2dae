import PackedStruct.Json
import PackedStruct.Schema
/-!
Overviews of a schema: one line of text or one JSON object for each definition. A field is shown by
its type spec alone.
-/

namespace PackedStruct

namespace Definition

/-- Names and type specs of all pairs of all entries. -/
def fieldSpecs : Definition → List (String × String)
  | .alias _ => []
  | .struct entries => entries.flatten.map fun (name, type) => (name, type.spec)

/-- The definition in one line. -/
def summary (name : String) : Definition → String
  | .alias spec => name ++ " = " ++ spec
  | .struct entries =>
    match (Definition.struct entries).fieldSpecs with
    | [] => name ++ " \x7b\x7d"
    | fs => name ++ " \x7b " ++ ", ".intercalate (fs.map fun (field, spec) => field ++ ": " ++ spec) ++ " \x7d"

def toJson (name : String) : Definition → Json
  | .alias spec => .object [("kind", .string "alias"), ("name", .string name), ("target", .string spec)]
  | .struct entries =>
    let field (f : String × String) : Json := .object [("name", .string f.1), ("type", .string f.2)]
    .object [("kind", .string "struct"), ("name", .string name),
      ("fields", .array ((Definition.struct entries).fieldSpecs.map field))]

end Definition

namespace Schema

def summaries (s : Schema) : List String := s.entries.map fun (name, d) => d.summary name

def toJson (s : Schema) : Json := .array (s.entries.map fun (name, d) => d.toJson name)

end Schema

end PackedStruct
