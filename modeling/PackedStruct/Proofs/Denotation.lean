import PackedStruct.Proofs.Outcome
import PackedStruct.Proofs.Range
import PackedStruct.Proofs.Reference
/-!
The type that a name stands for, read off the schema without visited names and without fuel. There is
at most one, and only if nothing that the name reaches by value is undefined, faulty or cyclic.
-/

namespace PackedStruct

namespace Schema

variable {s : Schema} {name base owner : String} {spec : TypeSpec} {entries : List FieldEntry}
  {n m : Node} {fields : List (String × Node)}

mutual

/-- A name stands for a type. -/
inductive Denotes (s : Schema) : String → Node → Prop where
  | aliased {name text : String} {spec : TypeSpec} {n : Node}
      (hname : s.get? name = some (.alias text)) (hparse : TypeSpec.parse text = .ok spec)
      (hspec : DenotesSpec s spec n) : Denotes s name n
  | struct {name : String} {entries : List FieldEntry} {fields : List (String × Node)}
      (hname : s.get? name = some (.struct entries)) (hdistinct : (fields.map Prod.fst).Nodup)
      (hfields : DenotesFields s name entries fields) : Denotes s name (.struct name fields [] .none)

/-- A type spec stands for a type. -/
inductive DenotesSpec (s : Schema) : TypeSpec → Node → Prop where
  | scalar {spec : TypeSpec} {leaf : Leaf} (hleaf : spec.leaf? = some leaf) :
      DenotesSpec s spec (.leaf spec.base leaf spec.dims .none)
  | named {spec : TypeSpec} {n : Node} (hleaf : spec.leaf? = none) (hname : Denotes s spec.base n) :
      DenotesSpec s spec (n.withOuterDims spec.dims)

/-- The entries of a struct stand for its fields, one by one. -/
inductive DenotesFields (s : Schema) : String → List FieldEntry → List (String × Node) → Prop where
  | nil {owner : String} : DenotesFields s owner [] []
  | cons {owner field : String} {type : FieldType} {spec : TypeSpec} {n : Node} {hints : Hints}
      {entries : List FieldEntry} {fields : List (String × Node)}
      (hparse : TypeSpec.parse type.spec = .ok spec) (hspec : DenotesSpec s spec n)
      (hhints : fieldHints owner field type = .ok hints)
      (hrest : DenotesFields s owner entries fields) :
      DenotesFields s owner ([(field, type)] :: entries) ((field, n.withHints hints) :: fields)

end

mutual

/-- A name stands for one type at most. -/
theorem Denotes.unique {s : Schema} {name : String} {n m : Node} :
    s.Denotes name n → s.Denotes name m → n = m
  | .aliased hname hparse hspec, .aliased hname' hparse' hspec' => by
    rw [hname] at hname'
    cases hname'
    rw [hparse] at hparse'
    cases hparse'
    exact hspec.unique hspec'
  | .aliased hname _ _, .struct hname' _ _ => by
    rw [hname] at hname'
    cases hname'
  | .struct hname _ _, .aliased hname' _ _ => by
    rw [hname] at hname'
    cases hname'
  | .struct hname _ hfields, .struct hname' _ hfields' => by
    rw [hname] at hname'
    cases hname'
    rw [hfields.unique hfields']

theorem DenotesSpec.unique {s : Schema} {spec : TypeSpec} {n m : Node} :
    s.DenotesSpec spec n → s.DenotesSpec spec m → n = m
  | .scalar hleaf, .scalar hleaf' => by
    rw [hleaf] at hleaf'
    cases hleaf'
    rfl
  | .scalar hleaf, .named hleaf' _ => by
    rw [hleaf] at hleaf'
    cases hleaf'
  | .named hleaf _, .scalar hleaf' => by
    rw [hleaf] at hleaf'
    cases hleaf'
  | .named _ hname, .named _ hname' => by rw [hname.unique hname']

theorem DenotesFields.unique {s : Schema} {owner : String} {entries : List FieldEntry}
    {fields fields' : List (String × Node)} :
    s.DenotesFields owner entries fields → s.DenotesFields owner entries fields' → fields = fields'
  | .nil, .nil => rfl
  | .cons hparse hspec hhints hrest, .cons hparse' hspec' hhints' hrest' => by
    rw [hparse] at hparse'
    cases hparse'
    rw [hhints] at hhints'
    cases hhints'
    rw [hspec.unique hspec', hrest.unique hrest']

end

theorem DenotesFields.entry (h : s.DenotesFields owner entries fields) {entry : FieldEntry}
    (hentry : entry ∈ entries) :
    ∃ field type spec n hints, entry = [(field, type)] ∧ TypeSpec.parse type.spec = .ok spec ∧
      s.DenotesSpec spec n ∧ fieldHints owner field type = .ok hints := by
  induction entries generalizing fields with
  | nil => simp at hentry
  | cons first entries ih =>
    cases h with
    | cons hparse hspec hhints hrest =>
      rcases List.mem_cons.1 hentry with rfl | hentry
      · exact ⟨_, _, _, _, _, rfl, hparse, hspec, hhints⟩
      · exact ih hrest hentry

theorem DenotesFields.names (h : s.DenotesFields owner entries fields) :
    entries.flatten.map Prod.fst = fields.map Prod.fst := by
  induction entries generalizing fields with
  | nil =>
    cases h
    rfl
  | cons entry entries ih =>
    cases h with
    | cons hparse hspec hhints hrest => simpa using ih hrest

theorem DenotesFields.field (h : s.DenotesFields owner entries fields) {f : String × Node}
    (hf : f ∈ fields) :
    ∃ type spec n hints, [(f.1, type)] ∈ entries ∧ TypeSpec.parse type.spec = .ok spec ∧
      s.DenotesSpec spec n ∧ f.2 = n.withHints hints := by
  induction fields generalizing entries with
  | nil => simp at hf
  | cons first fields ih =>
    cases h with
    | cons hparse hspec hhints hrest =>
      rcases List.mem_cons.1 hf with rfl | hf
      · exact ⟨_, _, _, _, List.mem_cons_self, hparse, hspec, rfl⟩
      · obtain ⟨type, spec, n, hints, hentry, hfield⟩ := ih hrest hf
        exact ⟨type, spec, n, hints, List.mem_cons_of_mem _ hentry, hfield⟩

theorem DenotesSpec.denotes_base (h : s.DenotesSpec spec n) (hleaf : spec.leaf? = none) :
    ∃ m, s.Denotes spec.base m := by
  cases h with
  | scalar hsome =>
    rw [hleaf] at hsome
    cases hsome
  | named _ hname => exact ⟨_, hname⟩

theorem Denotes.of_alias {text : String} (h : s.Denotes name n)
    (hget : s.get? name = some (.alias text)) :
    ∃ spec, TypeSpec.parse text = .ok spec ∧ s.DenotesSpec spec n := by
  cases h with
  | aliased hname hparse hspec =>
    rw [hget] at hname
    cases hname
    exact ⟨_, hparse, hspec⟩
  | struct hname =>
    rw [hget] at hname
    cases hname

theorem Denotes.of_struct (h : s.Denotes name n) (hget : s.get? name = some (.struct entries)) :
    ∃ fields, (fields.map Prod.fst).Nodup ∧ s.DenotesFields name entries fields := by
  cases h with
  | aliased hname =>
    rw [hget] at hname
    cases hname
  | struct hname hdistinct hfields =>
    rw [hget] at hname
    cases hname
    exact ⟨_, hdistinct, hfields⟩

/-- A type is found only where one is found for each name that is taken by value. -/
theorem Denotes.of_refers (h : s.Denotes name n) (hrefers : s.Refers name base) :
    ∃ m, s.Denotes base m := by
  rcases hrefers with ⟨text, hget, hbase⟩ | ⟨entries, field, type, hget, hentry, hbase⟩
  · obtain ⟨spec, hparse, hspec⟩ := h.of_alias hget
    obtain ⟨hleaf, rfl⟩ := (byValue_iff hparse).1 hbase
    exact hspec.denotes_base hleaf
  · obtain ⟨fields, -, hfields⟩ := h.of_struct hget
    obtain ⟨_, _, spec, _, _, heq, hparse, hspec, -⟩ := hfields.entry hentry
    cases heq
    obtain ⟨hleaf, rfl⟩ := (byValue_iff hparse).1 hbase
    exact hspec.denotes_base hleaf

theorem Denotes.of_reaches (h : s.Denotes name n) (hreach : s.Reaches name base) :
    ∃ m, s.Denotes base m := by
  induction hreach with
  | refl => exact ⟨n, h⟩
  | tail _ hrefers ih =>
    obtain ⟨m, hm⟩ := ih
    exact hm.of_refers hrefers

mutual

/-- From a name with a type, taking names by value comes to an end. -/
theorem Denotes.acc {s : Schema} {name : String} {n : Node} :
    s.Denotes name n → Acc (fun base name => s.Refers name base) name
  | .aliased hname hparse hspec => by
    refine .intro _ fun base hrefers => ?_
    rw [refers_alias hname, byValue_iff hparse] at hrefers
    obtain ⟨hleaf, rfl⟩ := hrefers
    exact hspec.acc hleaf
  | .struct hname _ hfields => by
    refine .intro _ fun base hrefers => ?_
    obtain ⟨field, type, hentry, hbase⟩ := (refers_struct hname).1 hrefers
    exact hfields.acc hentry hbase

theorem DenotesSpec.acc {s : Schema} {spec : TypeSpec} {n : Node} :
    s.DenotesSpec spec n → spec.leaf? = none →
      Acc (fun base name => s.Refers name base) spec.base
  | .scalar hsome, hleaf => by
    rw [hleaf] at hsome
    cases hsome
  | .named _ hname, _ => hname.acc

theorem DenotesFields.acc {s : Schema} {owner field base : String} {type : FieldType}
    {entries : List FieldEntry} {fields : List (String × Node)} :
    s.DenotesFields owner entries fields → [(field, type)] ∈ entries → ByValue type.spec base →
      Acc (fun base name => s.Refers name base) base
  | .nil, hentry, _ => by simp at hentry
  | .cons hparse hspec _ hrest, hentry, hbase => by
    rcases List.mem_cons.1 hentry with heq | hentry
    · cases heq
      obtain ⟨hleaf, rfl⟩ := (byValue_iff hparse).1 hbase
      exact hspec.acc hleaf
    · exact hrest.acc hentry hbase

end

theorem Denotes.not_below_self (h : s.Denotes name n) : ¬s.Below name name := by
  have hacc := h.acc
  clear h
  induction hacc with
  | intro name _ ih =>
    intro hcycle
    obtain ⟨base, hstep, hrest⟩ := Relation.TransGen.head'_iff.1 hcycle
    exact ih base hstep (.tail' hrest hstep)

theorem DenotesSpec.positiveDims (h : s.DenotesSpec spec n) (hdims : ∀ d ∈ spec.dims, 0 < d)
    (hbase : spec.leaf? = none → ∀ m, s.Denotes spec.base m → m.PositiveDims) : n.PositiveDims := by
  cases h with
  | scalar => exact Node.positiveDims_leaf.2 hdims
  | named hleaf hname => exact (hbase hleaf _ hname).withOuterDims hdims

/-- Along the names that are taken by value, every dimension comes from a type spec. -/
theorem Denotes.positiveDims (h : s.Denotes name n) : n.PositiveDims := by
  have hacc := h.acc
  induction hacc generalizing n with
  | intro name _ ih =>
    cases h with
    | aliased hname hparse hspec =>
      refine hspec.positiveDims (TypeSpec.parse_pos hparse) fun hleaf m hm => ?_
      have hrefers := (refers_alias hname).2 (byValue_base hparse hleaf)
      exact ih _ hrefers hm
    | struct hname _ hfields =>
      refine Node.positiveDims_struct.2 ⟨by simp, fun f hf => ?_⟩
      obtain ⟨type, spec, m, hints, hentry, hparse, hspec, heq⟩ := hfields.field hf
      rw [heq]
      refine (hspec.positiveDims (TypeSpec.parse_pos hparse) fun hleaf k hk => ?_).withHints hints
      have hrefers := (refers_struct hname).2 ⟨f.1, type, hentry, byValue_base hparse hleaf⟩
      exact ih _ hrefers hk

theorem fieldHints_eq_ok {field text : String} {options : FieldOptions} {hints : Hints}
    (h : fieldHints owner field (.record text options) = .ok hints) :
    (∀ text, options.format = some text → ∃ format, Format.parse text = .ok format) ∧
      (options.labels = none ∨ options.flags = none) := by
  obtain ⟨format, hformat, h⟩ := bind_eq_ok.1 h
  obtain ⟨table, htable, -⟩ := bind_eq_ok.1 h
  constructor
  · intro text htext
    rw [htext] at hformat
    obtain ⟨format, hread, -⟩ := bind_eq_ok.1 hformat
    exact ⟨format, mapError_eq_ok.1 hread⟩
  · cases hlabels : options.labels with
    | none => exact .inl rfl
    | some labels =>
      cases hflags : options.flags with
      | none => exact .inr rfl
      | some flags => simp [labelTable, hlabels, hflags] at htable

theorem DenotesFields.wellFormed (h : s.DenotesFields owner entries fields)
    (hdistinct : (fields.map Prod.fst).Nodup) : WellFormedEntries entries where
  onePair entry hentry := by
    obtain ⟨field, type, -, -, -, rfl, -⟩ := h.entry hentry
    exact ⟨field, type, rfl⟩
  distinct := h.names ▸ hdistinct
  specs field type hentry := by
    obtain ⟨_, _, spec, _, _, heq, hparse, -⟩ := h.entry hentry
    cases heq
    exact ⟨spec, hparse⟩
  formats field spec options text hentry htext := by
    obtain ⟨_, _, _, _, _, heq, -, -, hhints⟩ := h.entry hentry
    cases heq
    exact (fieldHints_eq_ok hhints).1 text htext
  tables field spec options hentry := by
    obtain ⟨_, _, _, _, _, heq, -, -, hhints⟩ := h.entry hentry
    cases heq
    exact (fieldHints_eq_ok hhints).2

theorem Denotes.wellFormed (h : s.Denotes name n) : s.WellFormed name where
  defined a hreach := by
    obtain ⟨m, hm⟩ := h.of_reaches hreach
    cases hm with
    | aliased hname => exact ⟨_, hname⟩
    | struct hname => exact ⟨_, hname⟩
  acyclic a hreach := by
    obtain ⟨m, hm⟩ := h.of_reaches hreach
    exact hm.not_below_self
  aliases a text hreach hget := by
    obtain ⟨m, hm⟩ := h.of_reaches hreach
    obtain ⟨spec, hparse, -⟩ := hm.of_alias hget
    exact ⟨spec, hparse⟩
  structs a entries hreach hget := by
    obtain ⟨m, hm⟩ := h.of_reaches hreach
    obtain ⟨fields, hdistinct, hfields⟩ := hm.of_struct hget
    exact hfields.wellFormed hdistinct

end Schema

end PackedStruct
