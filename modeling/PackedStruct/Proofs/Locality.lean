import PackedStruct.Proofs.Machine
/-!
What a compiled type depends on. A run asks the schema only for names that the target reaches by value,
so two schemas that agree on these names run in lockstep, to the same type or the same error.
-/

namespace PackedStruct

namespace Compiler

variable {s t : Schema} {a b : State} {target name : String} {entries : List FieldEntry}

/-- A struct that `target` reaches, of which the last `entries` are still to come. -/
def Remains (s : Schema) (target name : String) (entries : List FieldEntry) : Prop :=
  s.Reaches target name ∧ ∃ before, s.get? name = some (.struct (before ++ entries))

theorem Remains.next {entry : FieldEntry} (h : Remains s target name (entry :: entries)) :
    Remains s target name entries := by
  obtain ⟨hreach, before, hget⟩ := h
  exact ⟨hreach, before ++ [entry], by rw [hget, List.append_cons]⟩

theorem Remains.base {field : String} {type : FieldType} {spec : TypeSpec}
    (h : Remains s target name ([(field, type)] :: entries)) (hread : TypeSpec.read type.spec = .ok spec)
    (hleaf : spec.leaf? = none) : s.Reaches target spec.base := by
  obtain ⟨hreach, before, hget⟩ := h
  have hbase := Schema.byValue_base (TypeSpec.read_eq_ok.1 hread) hleaf
  have hrefers := (Schema.refers_struct hget).2 ⟨field, type, List.mem_append_cons_self, hbase⟩
  exact hreach.tail hrefers

def Focus.Within (s : Schema) (target : String) : Focus → Prop
  | .named c => s.Reaches target c.name
  | .struct c entries => Remains s target c.name entries
  | .fields c _ entries => Remains s target c.name entries
  | _ => True

/-- All that is still to be looked at is reached from `target`. -/
structure Within (s : Schema) (target : String) (a : State) : Prop where
  focus : a.focus.Within s target
  frames : ∀ f ∈ a.frames, Remains s target f.chain.name f.rest

theorem within_resume {f : Frame} (h : Remains s target f.chain.name f.rest) (n : Node) :
    (f.resume n).Within s target := by
  unfold Frame.resume
  split
  · trivial
  · exact h

theorem Within.start (s : Schema) (target : String) : Within s target (start target) where
  focus := .refl
  frames := by simp [Compiler.start]

theorem Within.step (h : Within s target a) (hstep : Step s a b) : Within s target b := by
  obtain ⟨hfocus, hframes⟩ := h
  cases hstep with
  | struct hfresh hname => exact ⟨⟨hfocus, [], hname⟩, hframes⟩
  | further hfresh hname hread hleaf =>
    have hbase := Schema.byValue_base (TypeSpec.read_eq_ok.1 hread) hleaf
    have hrefers := (Schema.refers_alias hname).2 hbase
    exact ⟨hfocus.tail hrefers, hframes⟩
  | enter hfresh => exact ⟨hfocus, hframes⟩
  | scalarField hfresh hread hleaf => exact ⟨within_resume hfocus.next _, hframes⟩
  | namedField hfresh hread hleaf =>
    exact ⟨hfocus.base hread hleaf, List.forall_mem_cons.2 ⟨hfocus.next, hframes⟩⟩
  | fail => exact ⟨trivial, (List.forall_mem_cons.1 hframes).2⟩
  | resume =>
    obtain ⟨hframe, hframes⟩ := List.forall_mem_cons.1 hframes
    exact ⟨within_resume hframe _, hframes⟩
  | _ => exact ⟨trivial, hframes⟩

theorem Run.within (h : Run s a b) (ha : Within s target a) : Within s target b := by
  induction h with
  | refl => exact ha
  | tail _ hstep ih => exact ih.step hstep

/-- A step asks for no other name than the one at the end of the chain. -/
theorem Step.congr (h : Step s a b) (hget : ∀ c, a.focus = .named c → s.get? c.name = t.get? c.name) :
    Step t a b := by
  cases h with
  | repeated hvisited => exact .repeated hvisited
  | unknown hfresh hname => exact .unknown hfresh (by rw [← hget _ rfl, hname])
  | struct hfresh hname => exact .struct hfresh (by rw [← hget _ rfl, hname])
  | malformedAlias hfresh hname hread => exact .malformedAlias hfresh (by rw [← hget _ rfl, hname]) hread
  | scalarAlias hfresh hname hread hleaf =>
    exact .scalarAlias hfresh (by rw [← hget _ rfl, hname]) hread hleaf
  | further hfresh hname hread hleaf => exact .further hfresh (by rw [← hget _ rfl, hname]) hread hleaf
  | recursive hopen => exact .recursive hopen
  | enter hfresh => exact .enter hfresh
  | complete => exact .complete
  | notOnePair hentry => exact .notOnePair hentry
  | duplicate hfield => exact .duplicate hfield
  | malformedField hfresh hread => exact .malformedField hfresh hread
  | scalarField hfresh hread hleaf => exact .scalarField hfresh hread hleaf
  | namedField hfresh hread hleaf => exact .namedField hfresh hread hleaf
  | close => exact .close
  | fail => exact .fail
  | resume => exact .resume

theorem Run.congr (h : Run s (start target) a)
    (hagree : ∀ name, s.Reaches target name → s.get? name = t.get? name) : Run t (start target) a := by
  induction h with
  | refl => exact .refl
  | tail hrun hstep ih =>
    have hwithin := Run.within hrun (.start s target)
    refine ih.tail (hstep.congr fun c hc => hagree c.name ?_)
    have hfocus := hwithin.focus
    rw [hc] at hfocus
    exact hfocus

end Compiler

namespace Schema

variable {s t : Schema} {target name : String}

theorem compileNamed_congr (hagree : ∀ name, s.Reaches target name → s.get? name = t.get? name) :
    s.compileNamed s.size [] target = t.compileNamed t.size [] target := by
  have hs := (Compiler.run_start s target).congr hagree
  exact hs.finished_unique (Compiler.run_start t target)

theorem compile_congr (hagree : ∀ name, s.Reaches target name → s.get? name = t.get? name) :
    s.compile target = t.compile target := by
  rw [compile, compile, compileNamed_congr hagree]

theorem get?_insertAll {ds : List (String × Definition)} (h : name ∉ ds.map Prod.fst) :
    (s.insertAll ds).get? name = s.get? name := by
  induction ds generalizing s with
  | nil => rfl
  | cons d ds ih =>
    obtain ⟨hfirst, hrest⟩ := not_or.1 (mt List.mem_cons.2 h)
    rw [insertAll, List.foldl_cons]
    exact (ih hrest).trans (by rw [get?_insert, if_neg hfirst])

/-- A type depends on nothing but the definitions of the names that it reaches by value: schemas that
agree on them yield the same type or the same error, and definitions for other names make no difference. -/
theorem compile_local (s : Schema) (target : String) :
    (∀ t : Schema, (∀ name, s.Reaches target name → s.get? name = t.get? name) →
      s.compile target = t.compile target) ∧
    (∀ name d, ¬s.Reaches target name → (s.insert name d).1.compile target = s.compile target) ∧
    (∀ t : Schema, (∀ name ∈ t.names, ¬s.Reaches target name) → (s.merge t).compile target = s.compile target) := by
  refine ⟨fun t => compile_congr, fun name d hname => ?_, fun t ht => ?_⟩
  · refine (compile_congr fun other hreach => ?_).symm
    have hne : other ≠ name := fun heq => hname (heq ▸ hreach)
    rw [get?_insert, if_neg hne]
  · refine (compile_congr fun other hreach => ?_).symm
    have hother : other ∉ t.names := fun hmem => ht other hmem hreach
    exact (get?_insertAll hother).symm

/-- Names among which every reference stays are all that is reached from one of them. -/
theorem Reaches.mem {names : List String} (h : s.Reaches target name) (htarget : target ∈ names)
    (hclosed : ∀ owner ∈ names, ∀ base, s.Refers owner base → base ∈ names) : name ∈ names := by
  induction h with
  | refl => exact htarget
  | tail _ hrefers ih => exact hclosed _ ih _ hrefers

def line : List FieldEntry := [[("from", .bare "Point")], [("next", .bare "Node *")]]

def point : List FieldEntry := [[("x", .bare "s16")], [("y", .bare "s16")]]

/-- The pointee may be undefined or defined in a way that could not be read. -/
theorem compile_local_line :
    let s : Schema := ofList [("Line", .struct line), ("Point", .struct point)]
    let t : Schema := ofList [("Node", .alias "]"), ("Point", .struct point), ("Line", .struct line)]
    (∀ name, s.Reaches "Line" name → s.get? name = t.get? name) ∧ s.compile "Line" = t.compile "Line" ∧
      ∃ n, s.compile "Line" = .ok n := by
  intro s t
  have hline : s.get? "Line" = some (.struct line) := by decide +kernel
  have hpoint : s.get? "Point" = some (.struct point) := by decide +kernel
  have hspec : TypeSpec.parse "Point" = .ok ⟨"Point", 0, []⟩ := by decide +kernel
  have hnext : TypeSpec.parse "Node *" = .ok ⟨"Node", 1, []⟩ := by decide +kernel
  have hnumber : TypeSpec.parse "s16" = .ok ⟨"s16", 0, []⟩ := by decide +kernel
  have hclosed : ∀ owner ∈ ["Line", "Point"], ∀ base, s.Refers owner base → base ∈ ["Line", "Point"] := by
    intro owner howner base hrefers
    rcases List.mem_pair.1 howner with rfl | rfl
    · obtain ⟨field, type, hentry, hbase⟩ := (refers_struct hline).1 hrefers
      rcases List.mem_pair.1 hentry with heq | heq
      · cases heq
        rw [← ((byValue_iff hspec).1 hbase).2]
        decide
      · cases heq
        exact absurd ((byValue_iff hnext).1 hbase).1 (by decide +kernel)
    · obtain ⟨field, type, hentry, hbase⟩ := (refers_struct hpoint).1 hrefers
      rcases List.mem_pair.1 hentry with heq | heq
      all_goals
        cases heq
        exact absurd ((byValue_iff hnumber).1 hbase).1 (by decide +kernel)
  have hagree : ∀ name, s.Reaches "Line" name → s.get? name = t.get? name := by
    intro name hreach
    have hmem := Reaches.mem hreach (by simp) hclosed
    rcases List.mem_pair.1 hmem with rfl | rfl
    · decide +kernel
    · decide +kernel
  exact ⟨hagree, (compile_local s "Line").1 t hagree, exists_of_isOk (by decide +kernel)⟩

end Schema

end PackedStruct
