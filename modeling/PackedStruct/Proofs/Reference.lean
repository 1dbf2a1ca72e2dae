import PackedStruct.Compile
import Mathlib.Data.List.Chain
import Mathlib.Data.List.Perm.Subperm
import Mathlib.Logic.Relation
/-!
The graph of a schema. A definition refers to the names that it takes by value: the target of an
alias, and the types of fields. Pointers and primitives are no edges, so a type may point to itself.
-/

namespace PackedStruct

theorem TypeSpec.leaf?_eq_none {spec : TypeSpec} :
    spec.leaf? = none ↔ spec.isPointer = false ∧ Primitive.lookup? spec.base = none := by
  cases h : spec.isPointer <;> simp [leaf?, h]

namespace Schema

variable {s : Schema}

/-- The name that a type spec takes by value. -/
def ByValue (text base : String) : Prop :=
  ∃ spec, TypeSpec.parse text = .ok spec ∧
    (spec.isPointer = false ∧ Primitive.lookup? spec.base = none) ∧ spec.base = base

def AliasStep (s : Schema) (name base : String) : Prop :=
  ∃ text, s.get? name = some (.alias text) ∧ ByValue text base

def FieldStep (s : Schema) (name base : String) : Prop :=
  ∃ entries field type, s.get? name = some (.struct entries) ∧ [(field, type)] ∈ entries ∧
    ByValue type.spec base

def Refers (s : Schema) (name base : String) : Prop := s.AliasStep name base ∨ s.FieldStep name base

/-- Reached by value in any number of steps, none included. -/
abbrev Reaches (s : Schema) : String → String → Prop := Relation.ReflTransGen s.Refers

/-- Reached by value in at least one step. -/
abbrev Below (s : Schema) : String → String → Prop := Relation.TransGen s.Refers

theorem byValue_iff {text base : String} {spec : TypeSpec} (hparse : TypeSpec.parse text = .ok spec) :
    ByValue text base ↔ spec.leaf? = none ∧ spec.base = base := by
  simp [ByValue, hparse, TypeSpec.leaf?_eq_none]

theorem byValue_base {text : String} {spec : TypeSpec} (hparse : TypeSpec.parse text = .ok spec)
    (hleaf : spec.leaf? = none) : ByValue text spec.base := (byValue_iff hparse).2 ⟨hleaf, rfl⟩

theorem refers_alias {name base text : String} (hname : s.get? name = some (.alias text)) :
    s.Refers name base ↔ ByValue text base := by
  simp [Refers, AliasStep, FieldStep, hname]

theorem refers_struct {name base : String} {entries : List FieldEntry}
    (hname : s.get? name = some (.struct entries)) :
    s.Refers name base ↔ ∃ field type, [(field, type)] ∈ entries ∧ ByValue type.spec base := by
  simp [Refers, AliasStep, FieldStep, hname]

/-- What each entry of a struct and all its entries together must look like. -/
structure WellFormedEntries (entries : List FieldEntry) : Prop where
  onePair : ∀ entry ∈ entries, ∃ field type, entry = [(field, type)]
  distinct : (entries.flatten.map Prod.fst).Nodup
  specs : ∀ field type, [(field, type)] ∈ entries → ∃ spec, TypeSpec.parse type.spec = .ok spec
  formats : ∀ field spec options text, [(field, .record spec options)] ∈ entries →
    options.format = some text → ∃ format, Format.parse text = .ok format
  tables : ∀ field spec options, [(field, .record spec options)] ∈ entries →
    options.labels = none ∨ options.flags = none

/-- What a schema must provide for a type to be found under a name. -/
structure WellFormed (s : Schema) (target : String) : Prop where
  defined : ∀ name, s.Reaches target name → ∃ definition, s.get? name = some definition
  acyclic : ∀ name, s.Reaches target name → ¬s.Below name name
  aliases : ∀ name text, s.Reaches target name → s.get? name = some (.alias text) →
    ∃ spec, TypeSpec.parse text = .ok spec
  structs : ∀ name entries, s.Reaches target name → s.get? name = some (.struct entries) →
    WellFormedEntries entries

/-- A walk along aliases without repetition, closed by a name that it has met. -/
def CyclicWalk (s : Schema) (start : String) (chain : List String) : Prop :=
  ∃ walked last, chain = walked ++ [last] ∧ walked.head? = some start ∧ walked.Nodup ∧
    last ∈ walked ∧ chain.IsChain s.AliasStep

/-- The names at which a chain of aliases is begun when `target` is compiled. -/
def Entry (s : Schema) (target start : String) : Prop :=
  start = target ∨ ∃ owner, s.Reaches target owner ∧ s.FieldStep owner start

theorem Entry.reaches {target start : String} (h : s.Entry target start) :
    s.Reaches target start := by
  rcases h with rfl | ⟨owner, hreach, hstep⟩
  · exact .refl
  · exact hreach.tail (.inr hstep)

theorem Entry.of_field {target owner base start : String} (h : s.Entry base start)
    (hreach : s.Reaches target owner) (hstep : s.FieldStep owner base) : s.Entry target start := by
  rcases h with rfl | ⟨inner, hinner, hstart⟩
  · exact .inr ⟨owner, hreach, hstep⟩
  · exact .inr ⟨inner, (hreach.tail (.inr hstep)).trans hinner, hstart⟩

theorem mem_names {name : String} {d : Definition} (h : s.get? name = some d) : name ∈ s.names :=
  List.mem_map_of_mem (mem_of_lookup h)

/-- Names that are all different leave room for another one, as long as there is one. -/
theorem length_lt_size {seen : List String} {name : String} (hnodup : seen.Nodup)
    (hseen : ∀ a ∈ seen, a ∈ s.names) (hname : name ∈ s.names) (hfresh : name ∉ seen) :
    seen.length < s.size := by
  have hall : (name :: seen).Nodup := List.nodup_cons.2 ⟨hfresh, hnodup⟩
  have hsub : name :: seen ⊆ s.names := List.cons_subset.2 ⟨hname, hseen⟩
  have hle := (hall.subperm hsub).length_le
  simpa [names, size, Nat.succ_le_iff] using hle

/-- A cyclic walk leads to a name that lies below itself. -/
theorem CyclicWalk.below {start : String} {chain : List String} (h : s.CyclicWalk start chain) :
    ∃ name, s.Reaches start name ∧ s.Below name name := by
  obtain ⟨walked, last, rfl, hstart, -, hlast, hchain⟩ := h
  obtain ⟨before, after, rfl⟩ := List.append_of_mem hlast
  have hbelow : ((before ++ last :: after) ++ [last]).IsChain s.Below :=
    hchain.imp fun _ _ hstep => .single (.inl hstep)
  rw [List.append_assoc] at hbelow
  refine ⟨last, ?_, hbelow.right_of_append.rel_cons (by simp)⟩
  cases before with
  | nil =>
    cases hstart
    exact .refl
  | cons name before =>
    cases hstart
    exact (hbelow.rel_cons (by simp)).to_reflTransGen

end Schema

end PackedStruct
