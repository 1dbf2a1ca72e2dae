import PackedStruct.Association
/-!
Schemas: named type definitions in the order of their first appearance. A definition is an alias of
another type spec or a list of struct fields.
-/

namespace PackedStruct

/-- How the values of a field are shown. -/
structure FieldOptions where
  format : Option String
  labels : Option (List (Int × String))
  flags : Option (List (Int × String))
  deriving DecidableEq, Repr

/-- A field's type: a type spec, bare or in a record with display options. -/
inductive FieldType where
  | bare (spec : String)
  | record (spec : String) (options : FieldOptions)
  deriving DecidableEq, Repr

def FieldType.spec : FieldType → String
  | .bare spec => spec
  | .record spec _ => spec

/-- One entry of a struct definition. A well-formed one has exactly one pair. -/
abbrev FieldEntry := List (String × FieldType)

inductive Definition where
  | alias (spec : String)
  | struct (entries : List FieldEntry)
  deriving DecidableEq, Repr

structure Schema where
  entries : List (String × Definition)
  distinct : (entries.map Prod.fst).Nodup
  deriving DecidableEq, Repr

namespace Schema

def empty : Schema := ⟨[], .nil⟩

def names (s : Schema) : List String := s.entries.map Prod.fst

def get? (s : Schema) (name : String) : Option Definition := s.entries.lookup name

def contains (s : Schema) (name : String) : Bool := (s.get? name).isSome

def size (s : Schema) : Nat := s.entries.length

/-- Define a name, and hand back the definition it had. -/
def insert (s : Schema) (name : String) (d : Definition) : Schema × Option Definition :=
  (⟨put name d s.entries, nodup_put name d s.distinct⟩, s.get? name)

/-- Definitions one after another; the last one for a name stands. -/
def insertAll (s : Schema) (ds : List (String × Definition)) : Schema :=
  ds.foldl (fun s (name, d) => (s.insert name d).1) s

def ofList (ds : List (String × Definition)) : Schema := empty.insertAll ds

/-- All definitions of both schemas; those of `t` win. -/
def merge (s t : Schema) : Schema := s.insertAll t.entries

@[simp] theorem get?_insert (s : Schema) (name other : String) (d : Definition) :
    (s.insert name d).1.get? other = if other = name then some d else s.get? other :=
  lookup_put name other d s.entries

/-- A new name comes last; an old one keeps its place. -/
theorem names_insert (s : Schema) (name : String) (d : Definition) :
    (s.insert name d).1.names = if name ∈ s.names then s.names else s.names ++ [name] :=
  keys_put name d s.entries

end Schema

end PackedStruct
