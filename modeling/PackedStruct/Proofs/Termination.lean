import PackedStruct.Proofs.Machine
/-!
Compiling comes to an end, whatever the schema. The structs that are open at the same time are all
different, and so are the aliases of a chain, so the definitions of the schema bound both.
-/

namespace PackedStruct

def Definition.isStruct : Definition → Bool
  | .alias _ => false
  | .struct _ => true

namespace Schema

variable {s : Schema} {p : Definition → Bool} {names : List String} {name : String} {d : Definition}

def structCount (s : Schema) : Nat := s.entries.countP fun e => e.2.isStruct

def aliasCount (s : Schema) : Nat := s.entries.countP fun e => !e.2.isStruct

/-- Names that are all different, with definitions of one kind. -/
structure Distinct (s : Schema) (p : Definition → Bool) (names : List String) : Prop where
  nodup : names.Nodup
  defined : ∀ name ∈ names, ∃ d, s.get? name = some d ∧ p d = true

theorem Distinct.nil : s.Distinct p [] := ⟨.nil, by simp⟩

theorem Distinct.cons (h : s.Distinct p names) (hfresh : name ∉ names) (hname : s.get? name = some d)
    (hd : p d = true) : s.Distinct p (name :: names) where
  nodup := List.nodup_cons.2 ⟨hfresh, h.nodup⟩
  defined := List.forall_mem_cons.2 ⟨⟨d, hname, hd⟩, h.defined⟩

theorem Distinct.concat (h : s.Distinct p names) (hfresh : name ∉ names) (hname : s.get? name = some d)
    (hd : p d = true) : s.Distinct p (names ++ [name]) where
  nodup := by simpa using h.nodup.concat hfresh
  defined := List.forall_mem_append.2 ⟨h.defined, by simpa using ⟨d, hname, hd⟩⟩

theorem Distinct.tail (h : s.Distinct p names) : s.Distinct p names.tail where
  nodup := h.nodup.tail
  defined name hname := h.defined name (List.mem_of_mem_tail hname)

/-- There are no more of them than such definitions. -/
theorem Distinct.length_le (h : s.Distinct p names) : names.length ≤ s.entries.countP fun e => p e.2 := by
  have hsub : names ⊆ (s.entries.filter fun e => p e.2).map Prod.fst := by
    intro name hname
    obtain ⟨d, hget, hd⟩ := h.defined name hname
    have hmem : (name, d) ∈ s.entries.filter fun e => p e.2 := List.mem_filter.2 ⟨mem_of_lookup hget, hd⟩
    exact List.mem_map_of_mem hmem
  have hle := (h.nodup.subperm hsub).length_le
  rwa [List.length_map, ← List.countP_eq_length_filter] at hle

theorem Distinct.struct (h : s.Distinct Definition.isStruct names) (hname : name ∈ names) :
    ∃ entries, s.get? name = some (.struct entries) := by
  obtain ⟨d, hget, hd⟩ := h.defined name hname
  cases d with
  | struct entries => exact ⟨entries, hget⟩
  | «alias» text => cases hd

theorem Distinct.alias (h : s.Distinct (fun d => !d.isStruct) names) (hname : name ∈ names) :
    ∃ text, s.get? name = some (.alias text) := by
  obtain ⟨d, hget, hd⟩ := h.defined name hname
  cases d with
  | struct entries => cases hd
  | «alias» text => exact ⟨text, hget⟩

end Schema

namespace Compiler

variable {s : Schema} {a b : State} {c : Chain} {target : String}

/-- The rounds of the loop along the chain, with the one that looks at its last name. -/
def Chain.rounds (c : Chain) : Nat := c.visited.length + 1

def Focus.chain? : Focus → Option Chain
  | .named c | .struct c _ | .fields c _ _ | .closing c _ => some c
  | .result _ => none

def Focus.opened? : Focus → Option String
  | .fields c _ _ | .closing c _ => some c.name
  | _ => none

/-- The chains of all calls that have not ended, the innermost first. -/
def State.chains (a : State) : List Chain := a.focus.chain?.toList ++ a.frames.map Frame.chain

/-- The structs whose fields are being compiled, the innermost first. -/
def State.opened (a : State) : List String := a.focus.opened?.toList ++ a.frames.map (·.chain.name)

/-- How many structs are nested, with one that is only about to be entered. -/
def State.depth (a : State) : Nat :=
  match a.focus with
  | .struct .. => a.opened.length + 1
  | _ => a.opened.length

theorem chain?_resume (f : Frame) (n : Node) : (f.resume n).chain? = some f.chain := by
  unfold Frame.resume
  split <;> rfl

theorem opened?_resume (f : Frame) (n : Node) : (f.resume n).opened? = some f.chain.name := by
  unfold Frame.resume
  split <;> rfl

theorem resume_ne_struct (f : Frame) (n : Node) (entries : List FieldEntry) :
    f.resume n ≠ .struct c entries := by
  unfold Frame.resume
  split <;> simp

/-- Each push belongs to a call that begins, and each pop to one that ends. -/
theorem Step.opened (h : Step s a b) (ha : a.inProgress = a.opened) : b.inProgress = b.opened := by
  cases h with
  | scalarField | resume =>
    rw [State.opened, opened?_resume]
    exact ha
  | _ => simp_all [State.opened, Focus.opened?]

theorem Step.inProgress (h : Step s a b) :
    b.inProgress = a.inProgress ∨ b.inProgress = a.inProgress.tail ∨
      ∃ c entries, a.focus = .struct c entries ∧ c.name ∉ a.inProgress ∧
        b.inProgress = c.name :: a.inProgress := by
  cases h <;> simp_all

theorem Step.entered {entries : List FieldEntry} (h : Step s a b) (hb : b.focus = .struct c entries) :
    s.get? c.name = some (.struct entries) := by
  cases h with
  | struct hfresh hname =>
    cases hb
    exact hname
  | scalarField | resume => exact absurd hb (resume_ne_struct _ _ _)
  | _ => cases hb

theorem Step.chains (h : Step s a b) (hc : c ∈ b.chains) :
    c ∈ a.chains ∨ c.visited = [] ∨ ∃ c' ∈ a.chains, ∃ text, c'.name ∉ c'.visited ∧
      s.get? c'.name = some (.alias text) ∧ c.visited = c'.visited ++ [c'.name] := by
  cases h with
  | further hfresh hname =>
    rcases List.mem_cons.1 hc with rfl | hc
    · exact .inr (.inr ⟨_, List.mem_cons_self, _, hfresh, hname, rfl⟩)
    · exact .inl (List.mem_cons_of_mem _ hc)
  | namedField =>
    rcases List.mem_cons.1 hc with rfl | hc
    · exact .inr (.inl rfl)
    · exact .inl hc
  | scalarField | resume =>
    rw [State.chains, chain?_resume] at hc
    exact .inl hc
  | _ => exact .inl (by simp_all [State.chains, Focus.chain?])

/-- What holds at every point of a run. -/
structure Sound (s : Schema) (a : State) : Prop where
  opened : a.inProgress = a.opened
  structs : s.Distinct Definition.isStruct a.inProgress
  entered : ∀ c entries, a.focus = .struct c entries → s.get? c.name = some (.struct entries)
  chains : ∀ c ∈ a.chains, s.Distinct (fun d => !d.isStruct) c.visited

theorem Sound.start (s : Schema) (target : String) : Sound s (start target) where
  opened := rfl
  structs := .nil
  entered := by simp [Compiler.start]
  chains := by
    intro c hc
    rw [List.mem_singleton.1 hc]
    exact .nil

theorem Sound.step (h : Sound s a) (hstep : Step s a b) : Sound s b where
  opened := hstep.opened h.opened
  structs := by
    rcases hstep.inProgress with hsame | hpop | ⟨c, entries, hfocus, hfresh, hpush⟩
    · rw [hsame]
      exact h.structs
    · rw [hpop]
      exact h.structs.tail
    · rw [hpush]
      exact h.structs.cons hfresh (h.entered c entries hfocus) rfl
  entered c entries hfocus := hstep.entered hfocus
  chains c hc := by
    rcases hstep.chains hc with hold | hnew | ⟨c', hc', text, hfresh, hname, hvisited⟩
    · exact h.chains c hold
    · rw [hnew]
      exact .nil
    · rw [hvisited]
      exact (h.chains c' hc').concat hfresh hname rfl

theorem Run.sound (h : Run s a b) (ha : Sound s a) : Sound s b := by
  induction h with
  | refl => exact ha
  | tail _ hstep ih => exact ih.step hstep

theorem Sound.depth_le (h : Sound s a) : a.depth ≤ s.structCount + 1 := by
  have hle := h.structs.length_le
  rw [h.opened] at hle
  unfold State.depth Schema.structCount
  split <;> omega

/-- Compiling ends on every schema. At every point of the run the structs on the stack are different
structs of the schema, those of the calls that are open, and the names that each chain has passed are
different aliases, so the definitions bound how deep structs are nested and how long chains are. There is
never a choice, and no run goes on for ever: all come to one end, where the stack is empty again, with a
type or an error. -/
theorem compile_ends (s : Schema) (target : String) :
    (∀ a, Run s (start target) a →
      (a.inProgress.Nodup ∧ (∀ name ∈ a.inProgress, ∃ entries, s.get? name = some (.struct entries)) ∧
        a.inProgress = a.opened) ∧
      (∀ c ∈ a.chains, c.visited.Nodup ∧ (∀ name ∈ c.visited, ∃ text, s.get? name = some (.alias text)) ∧
        c.rounds ≤ s.aliasCount + 1) ∧
      a.inProgress.length ≤ s.structCount ∧ a.depth ≤ s.structCount + 1) ∧
    (∀ a b b', Step s a b → Step s a b' → b = b') ∧
    Acc (fun b a => Step s a b) (start target) ∧
    ∃ outcome, (∀ a, Run s (start target) a → Run s a (finished outcome)) ∧
      (∀ a, ¬Step s (finished outcome) a) ∧
      s.compile target = (do
        let n ← outcome
        let _ ← n.byteSize .w64
        return n) := by
  have hend : Run s (start target) (finished (s.compileNamed s.size [] target)) := run_start s target
  refine ⟨fun a hrun => ?_, fun a b b' => Step.unique, hend.acc, _, fun a => hend.ends,
    fun a => not_step_finished, rfl⟩
  have hsound := hrun.sound (.start s target)
  refine ⟨⟨hsound.structs.nodup, fun name => hsound.structs.struct, hsound.opened⟩, fun c hc => ?_,
    hsound.structs.length_le, hsound.depth_le⟩
  have hchain := hsound.chains c hc
  exact ⟨hchain.nodup, fun name => hchain.alias, Nat.succ_le_succ hchain.length_le⟩

end Compiler

end PackedStruct
