import PackedStruct.Node.Size
import PackedStruct.Schema
/-!
From a schema to compiled types. An alias is followed until it ends in a scalar or a struct, and the
dimensions met on the way wrap what is found there. A struct compiles its fields in order, and may
not be met again while it is being compiled. Pointers are never followed.
-/

namespace PackedStruct

/-- The scalar a type spec ends in, if it is a pointer or names a primitive. -/
def TypeSpec.leaf? (t : TypeSpec) : Option Leaf :=
  if t.isPointer then some (.pointer t.depth) else (Primitive.lookup? t.base).map .primitive

/-- Where a chain of aliases ends, with the dimensions collected on the way. -/
inductive Resolved where
  | leaf (typeName : String) (leaf : Leaf) (dims : List Nat)
  | struct (typeName : String) (entries : List FieldEntry) (dims : List Nat)
  deriving DecidableEq, Repr

namespace Schema

/-- Follow aliases from `name`, after those in `visited`. Each step visits another definition, so
`steps` need not exceed their number. -/
def follow (s : Schema) : (steps : Nat) → (visited : List String) → (dims : List Nat) → (name : String) →
    Except Error Resolved
  | steps, visited, dims, name =>
    if name ∈ visited then .error (.cyclicAlias (visited ++ [name]))
    else match s.get? name, steps with
      | none, _ => .error (.unknownType name)
      | some (.struct entries), _ => .ok (.struct name entries dims)
      | some (.alias _), 0 => .error (.cyclicAlias (visited ++ [name]))
      | some (.alias text), steps+1 => do
        let spec ← TypeSpec.read text
        match spec.leaf? with
        | some leaf => return .leaf spec.base leaf (dims ++ spec.dims)
        | none => s.follow steps (visited ++ [name]) (dims ++ spec.dims) spec.base

def resolve (s : Schema) (name : String) : Except Error Resolved := s.follow s.size [] [] name

/-- The label table a record asks for. -/
def labelTable (struct field : String) (o : FieldOptions) : Except Error (Option LabelTable) :=
  match o.labels, o.flags with
  | some _, some _ => .error (.conflictingLabels struct field)
  | some pairs, none => .ok (some (.ofPairs .plain pairs))
  | none, some pairs => .ok (some (.ofPairs .flags pairs))
  | none, none => .ok none

/-- The hints that a field's record asks for. -/
def fieldHints (struct field : String) : FieldType → Except Error Hints
  | .bare _ => .ok .none
  | .record _ o => do
    let format ← o.format.mapM Format.read
    let labels ← labelTable struct field o
    return ⟨format, labels⟩

/-- Compile the fields of a struct, where `named` compiles a type by its name. -/
def compileFields (named : String → Except Error Node) (struct : String) :
    List (String × Node) → List FieldEntry → Except Error (List (String × Node))
  | done, [] => .ok done
  | done, [(field, type)] :: entries => do
    if field ∈ done.map Prod.fst then throw (.duplicateField struct field)
    let spec ← TypeSpec.read type.spec
    let node ← match spec.leaf? with
      | some leaf => pure (.leaf spec.base leaf [] .none)
      | none => named spec.base
    let hints ← fieldHints struct field type
    compileFields named struct (done ++ [(field, (node.withOuterDims spec.dims).withHints hints)]) entries
  | _, entry :: _ => .error (.notOnePair struct (entry.map Prod.fst))

/-- Compile the type of a name inside the structs `outer`. Each level opens another struct, so
`levels` need not exceed the number of definitions. -/
def compileNamed (s : Schema) : (levels : Nat) → (outer : List String) → (name : String) → Except Error Node
  | levels, outer, name => do
    match ← s.resolve name with
    | .leaf t leaf dims => return .leaf t leaf dims .none
    | .struct t entries dims =>
      if t ∈ outer then throw (.recursiveType t)
      else match levels with
        | 0 => throw (.recursiveType t)
        | levels+1 =>
          let fields ← compileFields (s.compileNamed levels (t :: outer)) t [] entries
          return .struct t fields dims .none

/-- Compile the type of a name. Its size must be in range for wide pointers; for narrow ones it is
no larger. -/
def compile (s : Schema) (target : String) : Except Error Node := do
  let node ← s.compileNamed s.size [] target
  let _ ← node.byteSize .w64
  return node

end Schema

end PackedStruct
