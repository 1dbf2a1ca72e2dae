import PackedStruct.Proofs.Compilation
/-!
Which schemas compile. Every error of the compiler names a fault that the schema has, so a schema
without faults compiles, and no alarm about a cycle is false.
-/

namespace PackedStruct

namespace Schema

variable {s : Schema} {target name base owner : String} {err : Error}

/-- A struct that `target` reaches by value. -/
def ReachesStruct (s : Schema) (target owner : String) (entries : List FieldEntry) : Prop :=
  s.Reaches target owner ∧ s.get? owner = some (.struct entries)

/-- The fault of the schema that an error of the compiler stands for. -/
def Justified (s : Schema) (target : String) : Error → Prop
  | .unknownType name => s.Reaches target name ∧ s.get? name = none
  | .cyclicAlias chain => ∃ start, s.Entry target start ∧ s.CyclicWalk start chain
  | .recursiveType name => (∃ entries, s.ReachesStruct target name entries) ∧ s.Below name name
  | .notOnePair owner keys => ∃ entries entry, s.ReachesStruct target owner entries ∧
      entry ∈ entries ∧ (∀ field type, entry ≠ [(field, type)]) ∧ keys = entry.map Prod.fst
  | .duplicateField owner field => ∃ entries, s.ReachesStruct target owner entries ∧
      1 < (entries.flatten.map Prod.fst).count field
  | .conflictingLabels owner field => ∃ entries text options, s.ReachesStruct target owner entries ∧
      [(field, .record text options)] ∈ entries ∧ options.labels ≠ none ∧ options.flags ≠ none
  | .malformedTypeSpec text fault => TypeSpec.parse text = .error fault ∧
      ((∃ name, s.Reaches target name ∧ s.get? name = some (.alias text)) ∨
        ∃ owner entries field type, s.ReachesStruct target owner entries ∧
          [(field, type)] ∈ entries ∧ type.spec = text)
  | .invalidFormat text fault => Format.parse text = .error fault ∧
      ∃ owner entries field spec options, s.ReachesStruct target owner entries ∧
        [(field, .record spec options)] ∈ entries ∧ options.format = some text
  | _ => False

theorem WellFormed.not_justified (h : s.WellFormed target) : ¬s.Justified target err := by
  intro hj
  match err, hj with
  | .unknownType _, ⟨hreach, hget⟩ =>
    obtain ⟨definition, hsome⟩ := h.defined _ hreach
    rw [hget] at hsome
    cases hsome
  | .cyclicAlias _, ⟨start, hentry, hwalk⟩ =>
    obtain ⟨name, hreach, hbelow⟩ := hwalk.below
    exact h.acyclic name (hentry.reaches.trans hreach) hbelow
  | .recursiveType name, ⟨⟨entries, hreach, _⟩, hbelow⟩ => exact h.acyclic name hreach hbelow
  | .notOnePair _ _, ⟨entries, entry, ⟨hreach, hget⟩, hentry, hpair, _⟩ =>
    obtain ⟨field, type, heq⟩ := (h.structs _ _ hreach hget).onePair entry hentry
    exact hpair field type heq
  | .duplicateField _ field, ⟨entries, ⟨hreach, hget⟩, hcount⟩ =>
    have hle := List.nodup_iff_count_le_one.1 (h.structs _ _ hreach hget).distinct field
    omega
  | .conflictingLabels _ _, ⟨entries, text, options, ⟨hreach, hget⟩, hentry, hlabels, hflags⟩ =>
    exact ((h.structs _ _ hreach hget).tables _ _ _ hentry).elim hlabels hflags
  | .malformedTypeSpec _ _, ⟨hparse, .inl ⟨name, hreach, hget⟩⟩ =>
    obtain ⟨spec, hspec⟩ := h.aliases _ _ hreach hget
    rw [hparse] at hspec
    cases hspec
  | .malformedTypeSpec _ _, ⟨hparse, .inr ⟨_, _, field, type, ⟨hreach, hget⟩, hentry, heq⟩⟩ =>
    obtain ⟨spec, hspec⟩ := (h.structs _ _ hreach hget).specs field type hentry
    rw [heq, hparse] at hspec
    cases hspec
  | .invalidFormat _ _, ⟨hparse, _, _, field, spec, options, ⟨hreach, hget⟩, hentry, htext⟩ =>
    obtain ⟨format, hformat⟩ := (h.structs _ _ hreach hget).formats _ _ _ _ hentry htext
    rw [hparse] at hformat
    cases hformat

/-- A fault behind a field is a fault of the whole. -/
theorem Justified.of_field (h : s.Justified base err) (hreach : s.Reaches target owner)
    (hstep : s.FieldStep owner base) : s.Justified target err := by
  have hbase : s.Reaches target base := hreach.tail (.inr hstep)
  have hstruct {name : String} {entries : List FieldEntry} (h : s.ReachesStruct base name entries) :
      s.ReachesStruct target name entries := ⟨hbase.trans h.1, h.2⟩
  match err, h with
  | .unknownType _, ⟨h, hget⟩ => exact ⟨hbase.trans h, hget⟩
  | .cyclicAlias _, ⟨start, hentry, hwalk⟩ => exact ⟨start, hentry.of_field hreach hstep, hwalk⟩
  | .recursiveType _, ⟨⟨entries, h⟩, hbelow⟩ => exact ⟨⟨entries, hstruct h⟩, hbelow⟩
  | .notOnePair _ _, ⟨entries, entry, h, hrest⟩ => exact ⟨entries, entry, hstruct h, hrest⟩
  | .duplicateField _ _, ⟨entries, h, hcount⟩ => exact ⟨entries, hstruct h, hcount⟩
  | .conflictingLabels _ _, ⟨entries, text, options, h, hrest⟩ =>
    exact ⟨entries, text, options, hstruct h, hrest⟩
  | .malformedTypeSpec _ _, ⟨hparse, .inl ⟨name, h, hget⟩⟩ =>
    exact ⟨hparse, .inl ⟨name, hbase.trans h, hget⟩⟩
  | .malformedTypeSpec _ _, ⟨hparse, .inr ⟨owner, entries, field, type, h, hrest⟩⟩ =>
    exact ⟨hparse, .inr ⟨owner, entries, field, type, hstruct h, hrest⟩⟩
  | .invalidFormat _ _, ⟨hparse, owner, entries, field, spec, options, h, hrest⟩ =>
    exact ⟨hparse, owner, entries, field, spec, options, hstruct h, hrest⟩

/-- What holds of a chain of aliases from `start` that has come to `name`. -/
structure Trail (s : Schema) (start : String) (visited : List String) (name : String) : Prop where
  reaches : s.Reaches start name
  head : (visited ++ [name]).head? = some start
  chain : (visited ++ [name]).IsChain s.AliasStep
  nodup : visited.Nodup
  defined : ∀ a ∈ visited, a ∈ s.names

theorem Trail.start (s : Schema) (start : String) : s.Trail start [] start where
  reaches := .refl
  head := rfl
  chain := .singleton _
  nodup := .nil
  defined := by simp

theorem Trail.extend {start text : String} {visited : List String} (h : s.Trail start visited name)
    (hfresh : name ∉ visited) (hname : s.get? name = some (.alias text)) (hbase : ByValue text base) :
    s.Trail start (visited ++ [name]) base where
  reaches := h.reaches.tail ((refers_alias hname).2 hbase)
  head := by simpa using h.head
  chain := by
    have hpair : [name, base].IsChain s.AliasStep := List.isChain_pair.2 ⟨text, hname, hbase⟩
    simpa using h.chain.append_overlap hpair (by simp)
  nodup := by simpa using h.nodup.concat hfresh
  defined := by
    intro a ha
    rcases List.mem_append.1 ha with ha | ha
    · exact h.defined a ha
    · rw [List.mem_singleton.1 ha]
      exact mem_names hname

theorem Trail.cyclicWalk {start : String} {visited : List String} (h : s.Trail start visited name)
    (hvisited : name ∈ visited) : s.CyclicWalk start (visited ++ [name]) := by
  refine ⟨visited, name, rfl, ?_, h.nodup, hvisited, h.chain⟩
  have hne : visited ≠ [] := List.ne_nil_of_mem hvisited
  rw [← List.head?_append_of_ne_nil visited hne]
  exact h.head

/-- An error on a chain of aliases. -/
theorem Followed.justified {steps : Nat} {visited : List String} {dims : List Nat}
    {result : Except Error Resolved} (hf : s.Followed steps visited dims name result)
    (htrail : s.Trail target visited name) (hsteps : visited.length + steps = s.size)
    (h : result = .error err) : s.Justified target err := by
  induction hf with
  | repeated hvisited =>
    cases h
    exact ⟨target, .inl rfl, htrail.cyclicWalk hvisited⟩
  | unknown hname =>
    cases h
    exact ⟨htrail.reaches, hname⟩
  | exhausted hfresh hname =>
    -- without a step left all names of the schema are visited, and this one is not among them
    have hlt := length_lt_size htrail.nodup htrail.defined (mem_names hname) hfresh
    omega
  | malformed hname hparse =>
    cases h
    exact ⟨hparse, .inl ⟨_, htrail.reaches, hname⟩⟩
  | further hfresh hname hparse hleaf _ ih =>
    have hnext := htrail.extend hfresh hname (byValue_base hparse hleaf)
    exact ih hnext (by simp; omega) h
  | struct | scalar => cases h

theorem fieldHints_eq_error {field : String} {type : FieldType}
    (h : fieldHints owner field type = .error err) :
    ∃ spec options, type = .record spec options ∧
      ((∃ text fault, options.format = some text ∧ Format.parse text = .error fault ∧
          err = .invalidFormat text fault) ∨
        (options.labels ≠ none ∧ options.flags ≠ none ∧ err = .conflictingLabels owner field)) := by
  cases type with
  | bare => cases h
  | record spec options =>
    refine ⟨spec, options, rfl, ?_⟩
    rcases bind_eq_error.1 h with hformat | ⟨format, -, h⟩
    · cases htext : options.format with
      | none =>
        rw [htext] at hformat
        cases hformat
      | some text =>
        rw [htext] at hformat
        rcases bind_eq_error.1 hformat with hread | ⟨format, -, hpure⟩
        · obtain ⟨fault, hparse, rfl⟩ := mapError_eq_error.1 hread
          exact .inl ⟨text, fault, rfl, hparse, rfl⟩
        · cases hpure
    · rcases bind_eq_error.1 h with htable | ⟨table, -, hpure⟩
      · cases hlabels : options.labels <;> cases hflags : options.flags <;>
          simp [labelTable, hlabels, hflags] at htable
        exact .inr ⟨by simp, by simp, htable.symm⟩
      · cases hpure

/-- An error in a struct, of which the entries `before` are already compiled. -/
theorem FieldsCompiled.justified {named : String → Except Error Node}
    {done : List (String × Node)} {before entries : List FieldEntry}
    {result : Except Error (List (String × Node))}
    (hnamed : ∀ base err, s.FieldStep owner base → named base = .error err → s.Justified target err)
    (hf : FieldsCompiled named owner done entries result)
    (hstruct : s.ReachesStruct target owner (before ++ entries))
    (hdone : done.map Prod.fst = before.flatten.map Prod.fst) (h : result = .error err) :
    s.Justified target err := by
  induction hf generalizing before with
  | nil => cases h
  | notOnePair hentry =>
    cases h
    exact ⟨_, _, hstruct, List.mem_append_cons_self, hentry, rfl⟩
  | duplicate hfield =>
    cases h
    refine ⟨_, hstruct, ?_⟩
    rw [hdone] at hfield
    have hcount := List.count_pos_iff.2 hfield
    simp only [List.flatten_append, List.flatten_cons, List.map_append, List.map_cons,
      List.count_append, List.map_nil, List.count_singleton_self]
    omega
  | malformed hparse =>
    cases h
    exact ⟨hparse, .inr ⟨owner, _, _, _, hstruct, List.mem_append_cons_self, rfl⟩⟩
  | base hparse hleaf hbase =>
    cases h
    have hvalue := byValue_base hparse hleaf
    exact hnamed _ _ ⟨_, _, _, hstruct.2, List.mem_append_cons_self, hvalue⟩ hbase
  | hints hhints =>
    cases h
    obtain ⟨spec, options, rfl, hfault⟩ := fieldHints_eq_error hhints
    rcases hfault with ⟨text, fault, htext, hparse, rfl⟩ | ⟨hlabels, hflags, rfl⟩
    · exact ⟨hparse, owner, _, _, spec, options, hstruct, List.mem_append_cons_self, htext⟩
    · exact ⟨_, spec, options, hstruct, List.mem_append_cons_self, hlabels, hflags⟩
  | scalar _ _ _ _ _ ih | named _ _ _ _ _ _ ih =>
    rw [List.append_cons] at hstruct
    exact ih hstruct (by simp [hdone]) h

/-- What holds of the structs that are being compiled when `name` is met. -/
structure Opened (s : Schema) (outer : List String) (name : String) : Prop where
  below : ∀ a ∈ outer, s.Below a name
  nodup : outer.Nodup
  defined : ∀ a ∈ outer, a ∈ s.names

theorem Opened.start (s : Schema) (name : String) : s.Opened [] name where
  below := by simp
  nodup := .nil
  defined := by simp

theorem Opened.enter {outer : List String} {entries : List FieldEntry} (h : s.Opened outer name)
    (hstruct : s.ReachesStruct name owner entries) (hfresh : owner ∉ outer)
    (hstep : s.FieldStep owner base) : s.Opened (owner :: outer) base where
  below := by
    intro a ha
    rcases List.mem_cons.1 ha with rfl | ha
    · exact .single (.inr hstep)
    · exact ((h.below a ha).trans_left hstruct.1).tail (.inr hstep)
  nodup := List.nodup_cons.2 ⟨hfresh, h.nodup⟩
  defined := List.forall_mem_cons.2 ⟨mem_names hstruct.2, h.defined⟩

/-- An error of the compiler inside other structs. -/
theorem compileNamed_justified {levels : Nat} {outer : List String} (hopened : s.Opened outer name)
    (hlevels : outer.length + levels = s.size) (h : s.compileNamed levels outer name = .error err) :
    s.Justified name err := by
  induction levels using Nat.strongRecOn generalizing outer name err with
  | ind levels ih =>
    have hcompiled := s.compiled levels outer name
    rw [h] at hcompiled
    cases hcompiled with
    | unresolved hresolve =>
      exact (s.followed ..).justified (.start s name) (Nat.zero_add _) hresolve
    | recursive hresolve houter =>
      obtain ⟨hget, hreach, -⟩ := (s.followed ..).denotes_struct hresolve
      exact ⟨⟨_, hreach, hget⟩, (hopened.below _ houter).trans_left hreach⟩
    | exhausted hresolve hfresh hzero =>
      -- the open structs are all different, so there is a level for each struct of the schema
      obtain ⟨hget, -⟩ := (s.followed ..).denotes_struct hresolve
      have hlt := length_lt_size hopened.nodup hopened.defined (mem_names hget) hfresh
      omega
    | fields hresolve hfresh hsucc hfields =>
      obtain ⟨hget, hreach, -⟩ := (s.followed ..).denotes_struct hresolve
      have hstruct : s.ReachesStruct name _ ([] ++ _) := ⟨hreach, hget⟩
      refine (fieldsCompiled ..).justified (fun base err hstep herr => ?_) hstruct rfl hfields
      have hbase : s.Justified base err :=
        ih _ (by omega) (hopened.enter hstruct hfresh hstep) (by simp; omega) herr
      exact hbase.of_field hreach hstep

theorem WellFormed.compileNamed (h : s.WellFormed target) :
    ∃ n, s.compileNamed s.size [] target = .ok n := by
  cases hn : s.compileNamed s.size [] target with
  | ok n => exact ⟨n, rfl⟩
  | error err =>
    have hj := compileNamed_justified (.start s target) (Nat.zero_add _) hn
    exact absurd hj h.not_justified

theorem wellFormed_iff : s.WellFormed target ↔ ∃! n, s.Denotes target n := by
  constructor
  · intro h
    obtain ⟨n, hn⟩ := h.compileNamed
    have hdenotes := compileNamed_denotes hn
    exact ⟨n, hdenotes, fun m hm => hm.unique hdenotes⟩
  · rintro ⟨n, hn, -⟩
    exact hn.wellFormed

theorem compile_eq_ok {n : Node} :
    s.compile target = .ok n ↔ s.Denotes target n ∧ n.InRange .w64 := by
  constructor
  · intro h
    obtain ⟨m, hm, h⟩ := bind_eq_ok.1 h
    obtain ⟨size, hsize, h⟩ := bind_eq_ok.1 h
    cases h
    have hdenotes := compileNamed_denotes hm
    exact ⟨hdenotes, (Node.byteSize_ok_iff hdenotes.positiveDims).1 ⟨size, hsize⟩⟩
  · rintro ⟨hdenotes, hrange⟩
    obtain ⟨m, hm⟩ := hdenotes.wellFormed.compileNamed
    have heq := (compileNamed_denotes hm).unique hdenotes
    subst heq
    obtain ⟨size, hsize⟩ := (Node.byteSize_ok_iff hdenotes.positiveDims).2 hrange
    exact bind_eq_ok.2 ⟨m, hm, bind_eq_ok.2 ⟨size, hsize, rfl⟩⟩

/-- Every error of the compiler has its reason in the schema, or in a size out of range. -/
theorem compile_eq_error (h : s.compile target = .error err) :
    s.Justified target err ∨
      ∃ typeName n, err = .tooLarge typeName ∧ s.Denotes target n ∧ ¬n.InRange .w64 := by
  rcases bind_eq_error.1 h with h | ⟨n, hn, h⟩
  · exact .inl (compileNamed_justified (.start s target) (Nat.zero_add _) h)
  rcases bind_eq_error.1 h with hsize | ⟨size, -, h⟩
  · have hdenotes := compileNamed_denotes hn
    obtain ⟨m, -, rfl, -⟩ := Node.byteSize_eq_error hdenotes.positiveDims hsize
    refine .inr ⟨m.typeName, n, rfl, hdenotes, fun hrange => ?_⟩
    obtain ⟨size, hok⟩ := (Node.byteSize_ok_iff hdenotes.positiveDims).2 hrange
    rw [hsize] at hok
    cases hok
  · cases h

/-- A target compiles exactly if everything that it reaches by value is defined, sound and acyclic
and the one type that it then stands for is in range. A recursion or a cycle that is reported is one. -/
theorem compile_accepts (s : Schema) (target : String) :
    ((∃ n, s.compile target = .ok n) ↔
      s.WellFormed target ∧ ∀ n, s.Denotes target n → n.InRange .w64) ∧
    (s.WellFormed target → ∃! n, s.Denotes target n) ∧
    (∀ name, s.compile target = .error (.recursiveType name) →
      s.Reaches target name ∧ (∃ entries, s.get? name = some (.struct entries)) ∧
        s.Below name name) ∧
    (∀ chain, s.compile target = .error (.cyclicAlias chain) →
      (Error.cyclicAlias chain).message = "cyclic alias: " ++ " -> ".intercalate chain ∧
        ∃ start, s.Entry target start ∧ s.CyclicWalk start chain) := by
  refine ⟨⟨?_, ?_⟩, wellFormed_iff.1, ?_, ?_⟩
  · rintro ⟨n, hn⟩
    obtain ⟨hdenotes, hrange⟩ := compile_eq_ok.1 hn
    exact ⟨hdenotes.wellFormed, fun m hm => hm.unique hdenotes ▸ hrange⟩
  · rintro ⟨hwell, hrange⟩
    obtain ⟨n, hn, -⟩ := wellFormed_iff.1 hwell
    exact ⟨n, compile_eq_ok.2 ⟨hn, hrange n hn⟩⟩
  · intro name h
    rcases compile_eq_error h with ⟨⟨entries, hreach, hget⟩, hbelow⟩ | ⟨typeName, n, heq, -⟩
    · exact ⟨hreach, ⟨entries, hget⟩, hbelow⟩
    · cases heq
  · intro chain h
    rcases compile_eq_error h with hwalk | ⟨typeName, n, heq, -⟩
    · exact ⟨rfl, hwalk⟩
    · cases heq

/-- A pointer closes no cycle, and a struct may be used twice. -/
example : ((ofList [("Point", .struct [[("x", .bare "u8")], [("next", .bare "Line *")]]),
    ("Line", .struct [[("from", .bare "Point")], [("to", .bare "Point")]])]).compile "Line").isOk = true := by
  decide +kernel

/-- The chain begins at a field, not at the target. -/
example : ((ofList [("S", .struct [[("f", .bare "A")]]), ("A", .alias "B[2]"),
    ("B", .alias "A")]).compile "S").map Node.typeName = .error (.cyclicAlias ["A", "B", "A"]) := by
  decide +kernel

end Schema

end PackedStruct
