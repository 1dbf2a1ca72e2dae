import PackedStruct.Proofs.Denotation
import Mathlib.Data.List.Nodup
/-!
The compiler one step at a time, and what it finds: the type that the name stands for.
-/

namespace PackedStruct

namespace Schema

variable {s : Schema}

/-- What following aliases from a name comes to, by the definition of that name. -/
inductive Followed (s : Schema) :
    Nat → List String → List Nat → String → Except Error Resolved → Prop where
  | repeated {steps : Nat} {visited : List String} {dims : List Nat} {name : String}
      (hvisited : name ∈ visited) :
      Followed s steps visited dims name (.error (.cyclicAlias (visited ++ [name])))
  | unknown {steps : Nat} {visited : List String} {dims : List Nat} {name : String}
      (hname : s.get? name = none) :
      Followed s steps visited dims name (.error (.unknownType name))
  | struct {steps : Nat} {visited : List String} {dims : List Nat} {name : String}
      {entries : List FieldEntry} (hname : s.get? name = some (.struct entries)) :
      Followed s steps visited dims name (.ok (.struct name entries dims))
  | exhausted {visited : List String} {dims : List Nat} {name text : String}
      (hfresh : name ∉ visited) (hname : s.get? name = some (.alias text)) :
      Followed s 0 visited dims name (.error (.cyclicAlias (visited ++ [name])))
  | malformed {steps : Nat} {visited : List String} {dims : List Nat} {name text : String}
      {fault : TypeSpec.Fault} (hname : s.get? name = some (.alias text))
      (hparse : TypeSpec.parse text = .error fault) :
      Followed s steps visited dims name (.error (.malformedTypeSpec text fault))
  | scalar {steps : Nat} {visited : List String} {dims : List Nat} {name text : String}
      {spec : TypeSpec} {leaf : Leaf} (hname : s.get? name = some (.alias text))
      (hparse : TypeSpec.parse text = .ok spec) (hleaf : spec.leaf? = some leaf) :
      Followed s steps visited dims name (.ok (.leaf spec.base leaf (dims ++ spec.dims)))
  | further {steps : Nat} {visited : List String} {dims : List Nat} {name text : String}
      {spec : TypeSpec} {result : Except Error Resolved} (hfresh : name ∉ visited)
      (hname : s.get? name = some (.alias text)) (hparse : TypeSpec.parse text = .ok spec)
      (hleaf : spec.leaf? = none)
      (hrest : Followed s steps (visited ++ [name]) (dims ++ spec.dims) spec.base result) :
      Followed s (steps + 1) visited dims name result

theorem followed (s : Schema) (steps : Nat) (visited : List String) (dims : List Nat)
    (name : String) : s.Followed steps visited dims name (s.follow steps visited dims name) := by
  unfold follow
  by_cases hvisited : name ∈ visited
  · rw [if_pos hvisited]
    exact .repeated hvisited
  rw [if_neg hvisited]
  match hname : s.get? name, steps with
  | none, _ => exact .unknown hname
  | some (.struct entries), _ => exact .struct hname
  | some (.alias text), 0 => exact .exhausted hvisited hname
  | some (.alias text), steps + 1 =>
    cases hparse : TypeSpec.parse text with
    | error fault =>
      have hread := TypeSpec.read_eq_error.2 ⟨fault, hparse, rfl⟩
      simp only [hread, error_bind]
      exact .malformed hname hparse
    | ok spec =>
      have hread := TypeSpec.read_eq_ok.2 hparse
      simp only [hread, ok_bind]
      cases hleaf : spec.leaf? with
      | none => exact .further hvisited hname hparse hleaf (followed s steps _ _ _)
      | some leaf => exact .scalar hname hparse hleaf

/-- What compiling the fields of a struct comes to, by its next entry. -/
inductive FieldsCompiled (named : String → Except Error Node) (owner : String) :
    List (String × Node) → List FieldEntry → Except Error (List (String × Node)) → Prop where
  | nil {done : List (String × Node)} : FieldsCompiled named owner done [] (.ok done)
  | notOnePair {done : List (String × Node)} {entry : FieldEntry} {entries : List FieldEntry}
      (hentry : ∀ field type, entry ≠ [(field, type)]) :
      FieldsCompiled named owner done (entry :: entries)
        (.error (.notOnePair owner (entry.map Prod.fst)))
  | duplicate {done : List (String × Node)} {field : String} {type : FieldType}
      {entries : List FieldEntry} (hfield : field ∈ done.map Prod.fst) :
      FieldsCompiled named owner done ([(field, type)] :: entries)
        (.error (.duplicateField owner field))
  | malformed {done : List (String × Node)} {field : String} {type : FieldType}
      {entries : List FieldEntry} {fault : TypeSpec.Fault}
      (hparse : TypeSpec.parse type.spec = .error fault) :
      FieldsCompiled named owner done ([(field, type)] :: entries)
        (.error (.malformedTypeSpec type.spec fault))
  | base {done : List (String × Node)} {field : String} {type : FieldType}
      {entries : List FieldEntry} {spec : TypeSpec} {err : Error}
      (hparse : TypeSpec.parse type.spec = .ok spec) (hleaf : spec.leaf? = none)
      (hbase : named spec.base = .error err) :
      FieldsCompiled named owner done ([(field, type)] :: entries) (.error err)
  | hints {done : List (String × Node)} {field : String} {type : FieldType}
      {entries : List FieldEntry} {err : Error} (hhints : fieldHints owner field type = .error err) :
      FieldsCompiled named owner done ([(field, type)] :: entries) (.error err)
  | scalar {done : List (String × Node)} {field : String} {type : FieldType}
      {entries : List FieldEntry} {spec : TypeSpec} {leaf : Leaf} {hints : Hints}
      {result : Except Error (List (String × Node))} (hfresh : field ∉ done.map Prod.fst)
      (hparse : TypeSpec.parse type.spec = .ok spec) (hleaf : spec.leaf? = some leaf)
      (hhints : fieldHints owner field type = .ok hints)
      (hrest : FieldsCompiled named owner (done ++ [(field, .leaf spec.base leaf spec.dims hints)])
        entries result) :
      FieldsCompiled named owner done ([(field, type)] :: entries) result
  | named {done : List (String × Node)} {field : String} {type : FieldType}
      {entries : List FieldEntry} {spec : TypeSpec} {n : Node} {hints : Hints}
      {result : Except Error (List (String × Node))} (hfresh : field ∉ done.map Prod.fst)
      (hparse : TypeSpec.parse type.spec = .ok spec) (hleaf : spec.leaf? = none)
      (hbase : named spec.base = .ok n) (hhints : fieldHints owner field type = .ok hints)
      (hrest : FieldsCompiled named owner
        (done ++ [(field, (n.withOuterDims spec.dims).withHints hints)]) entries result) :
      FieldsCompiled named owner done ([(field, type)] :: entries) result

theorem fieldsCompiled (named : String → Except Error Node) (owner : String)
    (done : List (String × Node)) (entries : List FieldEntry) :
    FieldsCompiled named owner done entries (compileFields named owner done entries) := by
  induction entries generalizing done with
  | nil => exact .nil
  | cons entry entries ih =>
    match entry with
    | [] => exact .notOnePair (by simp)
    | pair :: other :: pairs => exact .notOnePair (by simp)
    | [(field, type)] =>
      unfold compileFields
      by_cases hfield : field ∈ done.map Prod.fst
      · rw [if_pos hfield]
        exact .duplicate hfield
      rw [if_neg hfield]
      cases hparse : TypeSpec.parse type.spec with
      | error fault =>
        have hread := TypeSpec.read_eq_error.2 ⟨fault, hparse, rfl⟩
        simp only [hread, error_bind]
        exact .malformed hparse
      | ok spec =>
        have hread := TypeSpec.read_eq_ok.2 hparse
        simp only [hread, ok_bind]
        cases hleaf : spec.leaf? with
        | some leaf =>
          simp only [pure_bind]
          cases hhints : fieldHints owner field type with
          | error err =>
            rw [error_bind]
            exact .hints hhints
          | ok hints =>
            simp only [ok_bind, Node.withOuterDims, Node.withHints, List.append_nil]
            exact .scalar hfield hparse hleaf hhints (ih _)
        | none =>
          cases hbase : named spec.base with
          | error err =>
            rw [error_bind]
            exact .base hparse hleaf hbase
          | ok n =>
            rw [ok_bind]
            cases hhints : fieldHints owner field type with
            | error err =>
              rw [error_bind]
              exact .hints hhints
            | ok hints =>
              rw [ok_bind]
              exact .named hfield hparse hleaf hbase hhints (ih _)

/-- What compiling a name inside other structs comes to, by what the name resolves to. -/
inductive Compiled (s : Schema) (levels : Nat) (outer : List String) (name : String) :
    Except Error Node → Prop where
  | unresolved {err : Error} (hresolve : s.resolve name = .error err) :
      Compiled s levels outer name (.error err)
  | leaf {t : String} {leaf : Leaf} {dims : List Nat}
      (hresolve : s.resolve name = .ok (.leaf t leaf dims)) :
      Compiled s levels outer name (.ok (.leaf t leaf dims .none))
  | recursive {t : String} {entries : List FieldEntry} {dims : List Nat}
      (hresolve : s.resolve name = .ok (.struct t entries dims)) (houter : t ∈ outer) :
      Compiled s levels outer name (.error (.recursiveType t))
  | exhausted {t : String} {entries : List FieldEntry} {dims : List Nat}
      (hresolve : s.resolve name = .ok (.struct t entries dims)) (hfresh : t ∉ outer)
      (hlevels : levels = 0) :
      Compiled s levels outer name (.error (.recursiveType t))
  | fields {t : String} {entries : List FieldEntry} {dims : List Nat} {levels' : Nat} {err : Error}
      (hresolve : s.resolve name = .ok (.struct t entries dims)) (hfresh : t ∉ outer)
      (hlevels : levels = levels' + 1)
      (hfields : compileFields (s.compileNamed levels' (t :: outer)) t [] entries = .error err) :
      Compiled s levels outer name (.error err)
  | struct {t : String} {entries : List FieldEntry} {dims : List Nat} {levels' : Nat}
      {fields : List (String × Node)}
      (hresolve : s.resolve name = .ok (.struct t entries dims)) (hfresh : t ∉ outer)
      (hlevels : levels = levels' + 1)
      (hfields : compileFields (s.compileNamed levels' (t :: outer)) t [] entries = .ok fields) :
      Compiled s levels outer name (.ok (.struct t fields dims .none))

theorem compiled (s : Schema) (levels : Nat) (outer : List String) (name : String) :
    s.Compiled levels outer name (s.compileNamed levels outer name) := by
  unfold compileNamed
  match hresolve : s.resolve name, levels with
  | .error err, _ => exact .unresolved hresolve
  | .ok (.leaf t leaf dims), _ => exact .leaf hresolve
  | .ok (.struct t entries dims), levels =>
    rw [ok_bind]
    by_cases houter : t ∈ outer
    · simp only [if_pos houter]
      exact .recursive hresolve houter
    simp only [if_neg houter]
    cases levels with
    | zero => exact .exhausted hresolve houter rfl
    | succ levels =>
      cases hfields : compileFields (s.compileNamed levels (t :: outer)) t [] entries with
      | error err =>
        simp only [hfields, error_bind]
        exact .fields hresolve houter rfl hfields
      | ok fields =>
        simp only [hfields, ok_bind]
        exact .struct hresolve houter rfl hfields

variable {steps : Nat} {visited : List String} {dims all : List Nat} {name t owner : String}
  {leaf : Leaf} {entries : List FieldEntry}

theorem Followed.denotes_leaf {result : Except Error Resolved}
    (hf : s.Followed steps visited dims name result) (h : result = .ok (.leaf t leaf all)) :
    ∃ own, all = dims ++ own ∧ s.Denotes name (.leaf t leaf own .none) := by
  induction hf with
  | scalar hname hparse hleaf =>
    cases h
    exact ⟨_, rfl, .aliased hname hparse (.scalar hleaf)⟩
  | further hfresh hname hparse hleaf hrest ih =>
    obtain ⟨own, rfl, hown⟩ := ih h
    exact ⟨_, List.append_assoc .., .aliased hname hparse (.named hleaf hown)⟩
  | _ => cases h

theorem Followed.denotes_struct {result : Except Error Resolved}
    (hf : s.Followed steps visited dims name result) (h : result = .ok (.struct t entries all)) :
    s.get? t = some (.struct entries) ∧ s.Reaches name t ∧
      ∃ own, all = dims ++ own ∧ ∀ n, s.Denotes t n → s.Denotes name (n.withOuterDims own) := by
  induction hf with
  | struct hname =>
    cases h
    exact ⟨hname, .refl, [], (List.append_nil _).symm, fun n hn => by rwa [Node.withOuterDims_nil]⟩
  | further hfresh hname hparse hleaf hrest ih =>
    obtain ⟨hget, hreach, own, rfl, hown⟩ := ih h
    have hrefers := (refers_alias hname).2 (byValue_base hparse hleaf)
    refine ⟨hget, hreach.head hrefers, _, List.append_assoc .., fun n hn => ?_⟩
    rw [← Node.withOuterDims_append]
    exact .aliased hname hparse (.named hleaf (hown n hn))
  | _ => cases h

theorem FieldsCompiled.denotes {named : String → Except Error Node}
    {done fields : List (String × Node)} {result : Except Error (List (String × Node))}
    (hnamed : ∀ base n, named base = .ok n → s.Denotes base n)
    (hf : FieldsCompiled named owner done entries result) (hdone : (done.map Prod.fst).Nodup)
    (h : result = .ok fields) :
    (fields.map Prod.fst).Nodup ∧ ∃ rest, fields = done ++ rest ∧ s.DenotesFields owner entries rest := by
  induction hf with
  | nil =>
    cases h
    exact ⟨hdone, [], (List.append_nil _).symm, .nil⟩
  | scalar hfresh hparse hleaf hhints hrest ih =>
    obtain ⟨hnodup, rest, rfl, hrest⟩ := ih (by simpa using hdone.concat hfresh) h
    exact ⟨hnodup, _, List.append_assoc .., .cons hparse (.scalar hleaf) hhints hrest⟩
  | named hfresh hparse hleaf hbase hhints hrest ih =>
    obtain ⟨hnodup, rest, rfl, hrest⟩ := ih (by simpa using hdone.concat hfresh) h
    have hspec := DenotesSpec.named hleaf (hnamed _ _ hbase)
    exact ⟨hnodup, _, List.append_assoc .., .cons hparse hspec hhints hrest⟩
  | _ => cases h

theorem compileFields_denotes {named : String → Except Error Node} {fields : List (String × Node)}
    (hnamed : ∀ base n, named base = .ok n → s.Denotes base n)
    (h : compileFields named owner [] entries = .ok fields) :
    (fields.map Prod.fst).Nodup ∧ s.DenotesFields owner entries fields := by
  have hsteps := fieldsCompiled named owner [] entries
  obtain ⟨hnodup, rest, rfl, hrest⟩ := hsteps.denotes hnamed List.nodup_nil h
  exact ⟨hnodup, hrest⟩

/-- What the compiler finds is the type that the name stands for. -/
theorem compileNamed_denotes {levels : Nat} {outer : List String} {n : Node}
    (h : s.compileNamed levels outer name = .ok n) : s.Denotes name n := by
  induction levels using Nat.strongRecOn generalizing outer name n with
  | ind levels ih =>
    have hcompiled := s.compiled levels outer name
    rw [h] at hcompiled
    cases hcompiled with
    | leaf hresolve =>
      obtain ⟨own, rfl, hown⟩ := (s.followed ..).denotes_leaf hresolve
      exact hown
    | struct hresolve hfresh hlevels hfields =>
      obtain ⟨hget, -, own, rfl, hown⟩ := (s.followed ..).denotes_struct hresolve
      obtain ⟨hnodup, hfields⟩ :=
        compileFields_denotes (fun base n hbase => ih _ (by omega) hbase) hfields
      have hstruct := hown _ (.struct hget hnodup hfields)
      simpa [Node.withOuterDims] using hstruct

end Schema

end PackedStruct
