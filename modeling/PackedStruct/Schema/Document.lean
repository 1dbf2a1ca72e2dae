import PackedStruct.Schema
import PackedStruct.Text.Quoted
import PackedStruct.Yaml.Document
/-!
Schemas as YAML documents: a mapping from type names to aliases and field lists. What does not have
that shape is refused at its first fault, with the name of the type it is in.
-/

namespace PackedStruct

/-- Why a tree is no definition of a type. The texts are kinds of trees, and names and keys as given. -/
inductive ShapeFault where
  | definition (got : String)
  | entry (got : String)
  | fieldName (got : String)
  | inField (name : String) (fault : ShapeFault)
  | fieldType (got : String)
  | recordType (got : String)
  | recordFormat (got : String)
  | recordKey (key : String)
  | recordKeyKind (got : String)
  | noType
  | labels (got : String)
  | labelText (key : String)
  | labelKey (got : String)
  | labelName (value : Int) (got : String)
  deriving DecidableEq, Repr

def ShapeFault.reason : ShapeFault → String
  | .definition got => "definition must be an alias string or a field list, got " ++ got
  | .entry got => "field entry must be a `name: type` mapping, got " ++ got
  | .fieldName got => "field name must be a string, got " ++ got
  | .inField name fault => "field " ++ name ++ ": " ++ fault.reason
  | .fieldType got => "type must be a string or a record, got " ++ got
  | .recordType got => "record `type` must be a string, got " ++ got
  | .recordFormat got => "record `format` must be a string, got " ++ got
  | .recordKey key => "unknown record key `" ++ key ++ "`"
  | .recordKeyKind got => "record keys must be strings, got " ++ got
  | .noType => "record is missing `type`"
  | .labels got => "labels must be a mapping of value to name, got " ++ got
  | .labelText key => "label key " ++ Text.quoted key ++ " is not an integer"
  | .labelKey got => "label key must be an integer, got " ++ got
  | .labelName value got => "label for " ++ toString value ++ " must be a string, got " ++ got

/-- Why a document is no schema. -/
inductive DocumentFault where
  | root (got : String)
  | typeName (got : String)
  | inType (name : String) (fault : ShapeFault)
  deriving DecidableEq, Repr

/-- The type a fault is in, and what is wrong there. -/
def DocumentFault.message : DocumentFault → String
  | .root got => "type (top level): expected a mapping of type names, got " ++ got
  | .typeName got => "type (top level): type name must be a string, got " ++ got
  | .inType name fault => "type " ++ name ++ ": " ++ fault.reason

namespace Schema

open Yaml (Tree)

/-- The number that a label key stands for. -/
def labelKey? : Tree → Option Int
  | .number (.integer v) => some v
  | .string s => Text.integer? s.toList
  | _ => none

def readLabel (key name : Tree) : Except ShapeFault (Int × String) :=
  match labelKey? key, key.string?, name.string? with
  | some value, _, some name => .ok (value, name)
  | some value, _, none => .error (.labelName value name.kind)
  | none, some text, _ => .error (.labelText text)
  | none, none, _ => .error (.labelKey key.kind)

def readLabels : Tree → Except ShapeFault (List (Int × String))
  | .mapping es => es.mapM fun (key, name) => readLabel key name
  | t => .error (.labels t.kind)

def readFormat : Tree → Except ShapeFault String
  | .string s => .ok s
  | .number n => .ok n.text
  | t => .error (.recordFormat t.kind)

/-- A record as far as it has been read. -/
structure Record where
  type : Option String
  options : FieldOptions

/-- Read one entry of a record. -/
def readRecordEntry (r : Record) (key value : Tree) : Except ShapeFault Record := do
  match key.string? with
  | none => throw (.recordKeyKind key.kind)
  | some key =>
    if key = "type" then
      match value.string? with
      | some type => return { r with type }
      | none => throw (.recordType value.kind)
    else if key = "format" then
      return { r with options := { r.options with format := some (← readFormat value) } }
    else if key = "labels" then
      return { r with options := { r.options with labels := some (← readLabels value) } }
    else if key = "flags" then
      return { r with options := { r.options with flags := some (← readLabels value) } }
    else throw (.recordKey key)

def readFieldType : Tree → Except ShapeFault FieldType
  | .string s => .ok (.bare s)
  | .mapping es => do
    let r ← es.foldlM (fun r (key, value) => readRecordEntry r key value) ⟨none, ⟨none, none, none⟩⟩
    match r.type with
    | some type => return .record type r.options
    | none => throw .noType
  | t => .error (.fieldType t.kind)

def readPair (key type : Tree) : Except ShapeFault (String × FieldType) :=
  match key.string? with
  | some field => do return (field, ← (readFieldType type).mapError (.inField field))
  | none => .error (.fieldName key.kind)

def readEntry : Tree → Except ShapeFault FieldEntry
  | .mapping es => es.mapM fun (key, type) => readPair key type
  | t => .error (.entry t.kind)

def readDefinition : Tree → Except ShapeFault Definition
  | .string s => .ok (.alias s)
  | .sequence items => return .struct (← items.mapM readEntry)
  | t => .error (.definition t.kind)

def readNamed (key definition : Tree) : Except DocumentFault (String × Definition) :=
  match key.string? with
  | some name => do return (name, ← (readDefinition definition).mapError (.inType name))
  | none => .error (.typeName key.kind)

/-- The schema of a tree; nothing at all is the empty schema. -/
def ofTree : Tree → Except DocumentFault Schema
  | .null => .ok .empty
  | .mapping es => return .ofList (← es.mapM fun (key, definition) => readNamed key definition)
  | t => .error (.root t.kind)

/-- Why a text is no schema. -/
inductive LoadFault where
  | yaml (fault : Yaml.Fault)
  | shape (fault : DocumentFault)
  deriving DecidableEq, Repr

/-- The schema that a YAML text describes. -/
def load (text : String) : Except LoadFault Schema := do
  let tree ← (Yaml.parse text).mapError .yaml
  (ofTree tree).mapError .shape

end Schema

end PackedStruct
