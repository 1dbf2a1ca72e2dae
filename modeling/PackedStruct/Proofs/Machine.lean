import PackedStruct.Proofs.Compilation
/-!
The compiler as a machine, without fuel. A state holds the stack of the structs that are being compiled,
the calls that wait for the type of a field, and what is done at the moment. From a name there is one run;
it comes to an end, and there stands what compiling the name yields.
-/

namespace PackedStruct

namespace Compiler

/-- A chain of aliases: those it has passed, the dimensions they gave, and the name it has come to. -/
structure Chain where
  visited : List String
  dims : List Nat
  name : String
  deriving DecidableEq, Repr

/-- A struct that waits for the type of a field. Its own name is the one that `chain` has come to. -/
structure Frame where
  chain : Chain
  done : List (String × Node)
  field : String
  type : FieldType
  dims : List Nat
  rest : List FieldEntry

inductive Focus where
  | named (chain : Chain)
  | struct (chain : Chain) (entries : List FieldEntry)
  | fields (chain : Chain) (done : List (String × Node)) (entries : List FieldEntry)
  -- the fields have come to an end, well or not, and the struct is still on the stack
  | closing (chain : Chain) (fields : Except Error (List (String × Node)))
  | result (outcome : Except Error Node)

/-- The innermost struct is the first one in `inProgress`, and the innermost call the first one in `frames`. -/
structure State where
  inProgress : List String
  frames : List Frame
  focus : Focus

def start (name : String) : State := ⟨[], [], .named ⟨[], [], name⟩⟩

def finished (outcome : Except Error Node) : State := ⟨[], [], .result outcome⟩

/-- Go on with the type of the field that was waited for. -/
def Frame.resume (f : Frame) (n : Node) : Focus :=
  match Schema.fieldHints f.chain.name f.field f.type with
  | .error err => .closing f.chain (.error err)
  | .ok hints => .fields f.chain (f.done ++ [(f.field, (n.withOuterDims f.dims).withHints hints)]) f.rest

inductive Step (s : Schema) : State → State → Prop where
  -- along a chain of aliases
  | repeated {stack frames} {c : Chain} (hvisited : c.name ∈ c.visited) :
      Step s ⟨stack, frames, .named c⟩
        ⟨stack, frames, .result (.error (.cyclicAlias (c.visited ++ [c.name])))⟩
  | unknown {stack frames} {c : Chain} (hfresh : c.name ∉ c.visited) (hname : s.get? c.name = none) :
      Step s ⟨stack, frames, .named c⟩ ⟨stack, frames, .result (.error (.unknownType c.name))⟩
  | struct {stack frames entries} {c : Chain} (hfresh : c.name ∉ c.visited)
      (hname : s.get? c.name = some (.struct entries)) :
      Step s ⟨stack, frames, .named c⟩ ⟨stack, frames, .struct c entries⟩
  | malformedAlias {stack frames text err} {c : Chain} (hfresh : c.name ∉ c.visited)
      (hname : s.get? c.name = some (.alias text)) (hread : TypeSpec.read text = .error err) :
      Step s ⟨stack, frames, .named c⟩ ⟨stack, frames, .result (.error err)⟩
  | scalarAlias {stack frames text leaf} {spec : TypeSpec} {c : Chain} (hfresh : c.name ∉ c.visited)
      (hname : s.get? c.name = some (.alias text)) (hread : TypeSpec.read text = .ok spec)
      (hleaf : spec.leaf? = some leaf) :
      Step s ⟨stack, frames, .named c⟩
        ⟨stack, frames, .result (.ok (.leaf spec.base leaf (c.dims ++ spec.dims) .none))⟩
  | further {stack frames text} {spec : TypeSpec} {c : Chain} (hfresh : c.name ∉ c.visited)
      (hname : s.get? c.name = some (.alias text)) (hread : TypeSpec.read text = .ok spec)
      (hleaf : spec.leaf? = none) :
      Step s ⟨stack, frames, .named c⟩
        ⟨stack, frames, .named ⟨c.visited ++ [c.name], c.dims ++ spec.dims, spec.base⟩⟩
  -- into a struct
  | recursive {stack frames entries} {c : Chain} (hopen : c.name ∈ stack) :
      Step s ⟨stack, frames, .struct c entries⟩ ⟨stack, frames, .result (.error (.recursiveType c.name))⟩
  | enter {stack frames entries} {c : Chain} (hfresh : c.name ∉ stack) :
      Step s ⟨stack, frames, .struct c entries⟩ ⟨c.name :: stack, frames, .fields c [] entries⟩
  -- through its entries
  | complete {stack frames c done} :
      Step s ⟨stack, frames, .fields c done []⟩ ⟨stack, frames, .closing c (.ok done)⟩
  | notOnePair {stack frames c done} {entry : FieldEntry} {entries}
      (hentry : ∀ field type, entry ≠ [(field, type)]) :
      Step s ⟨stack, frames, .fields c done (entry :: entries)⟩
        ⟨stack, frames, .closing c (.error (.notOnePair c.name (entry.map Prod.fst)))⟩
  | duplicate {stack frames c done field type entries} (hfield : field ∈ done.map Prod.fst) :
      Step s ⟨stack, frames, .fields c done ([(field, type)] :: entries)⟩
        ⟨stack, frames, .closing c (.error (.duplicateField c.name field))⟩
  | malformedField {stack frames c done field entries err} {type : FieldType}
      (hfresh : field ∉ done.map Prod.fst) (hread : TypeSpec.read type.spec = .error err) :
      Step s ⟨stack, frames, .fields c done ([(field, type)] :: entries)⟩
        ⟨stack, frames, .closing c (.error err)⟩
  | scalarField {stack frames c done field entries leaf} {type : FieldType} {spec : TypeSpec}
      (hfresh : field ∉ done.map Prod.fst) (hread : TypeSpec.read type.spec = .ok spec)
      (hleaf : spec.leaf? = some leaf) :
      Step s ⟨stack, frames, .fields c done ([(field, type)] :: entries)⟩
        ⟨stack, frames, Frame.resume ⟨c, done, field, type, spec.dims, entries⟩ (.leaf spec.base leaf [] .none)⟩
  | namedField {stack frames c done field entries} {type : FieldType} {spec : TypeSpec}
      (hfresh : field ∉ done.map Prod.fst) (hread : TypeSpec.read type.spec = .ok spec)
      (hleaf : spec.leaf? = none) :
      Step s ⟨stack, frames, .fields c done ([(field, type)] :: entries)⟩
        ⟨stack, ⟨c, done, field, type, spec.dims, entries⟩ :: frames, .named ⟨[], [], spec.base⟩⟩
  -- out of it again, in the same way after an error
  | close {stack frames c fields} :
      Step s ⟨stack, frames, .closing c fields⟩
        ⟨stack.tail, frames, .result (fields.map (.struct c.name · c.dims .none))⟩
  | fail {stack frames f err} :
      Step s ⟨stack, f :: frames, .result (.error err)⟩ ⟨stack, frames, .closing f.chain (.error err)⟩
  | resume {stack frames f n} :
      Step s ⟨stack, f :: frames, .result (.ok n)⟩ ⟨stack, frames, f.resume n⟩

abbrev Run (s : Schema) : State → State → Prop := Relation.ReflTransGen (Step s)

variable {s : Schema} {a b : State} {stack : List String} {frames : List Frame} {c : Chain}
  {done : List (String × Node)} {entries : List FieldEntry} {name target : String}

/-- The compiler never has a choice. -/
theorem Step.unique {b' : State} (h : Step s a b) (h' : Step s a b') : b = b' := by
  cases h <;> cases h' <;> simp_all

theorem not_step_finished {outcome : Except Error Node} : ¬Step s (finished outcome) b := by
  intro h
  cases h

/-- From wherever a run has come, it goes on to where another one has ended. -/
theorem Run.ends {outcome : Except Error Node} (hend : Run s a (finished outcome)) (h : Run s a b) :
    Run s b (finished outcome) := by
  have hunique : Relator.RightUnique (Step s) := fun _ _ _ h h' => h.unique h'
  rcases Relation.ReflTransGen.total_of_right_unique hunique hend h with hafter | hbefore
  · rcases Relation.ReflTransGen.cases_head hafter with rfl | ⟨next, hnext, _⟩
    · exact .refl
    · exact absurd hnext not_step_finished
  · exact hbefore

theorem Run.finished_unique {outcome outcome' : Except Error Node} (h : Run s a (finished outcome))
    (h' : Run s a (finished outcome')) : outcome = outcome' := by
  rcases Relation.ReflTransGen.cases_head (h.ends h') with heq | ⟨next, hnext, _⟩
  · cases heq
    rfl
  · exact absurd hnext not_step_finished

/-- Where one run ends there is no other, so none goes on for ever. -/
theorem Run.acc {outcome : Except Error Node} (h : Run s a (finished outcome)) :
    Acc (fun b a => Step s a b) a := by
  induction h using Relation.ReflTransGen.head_induction_on with
  | refl =>
    constructor
    intro b hstep
    exact absurd hstep not_step_finished
  | head hstep hrest ih =>
    constructor
    intro b hother
    rwa [← hstep.unique hother]

/-- Where a chain of aliases is left. -/
inductive Leaves : Except Error Resolved → Focus → Prop where
  | error {err} : Leaves (.error err) (.result (.error err))
  | leaf {t leaf dims} : Leaves (.ok (.leaf t leaf dims)) (.result (.ok (.leaf t leaf dims .none)))
  | struct {t entries dims visited} : Leaves (.ok (.struct t entries dims)) (.struct ⟨visited, dims, t⟩ entries)

theorem run_chain (steps : Nat) (c : Chain) (hnodup : c.visited.Nodup)
    (hdefined : ∀ a ∈ c.visited, a ∈ s.names) (hsteps : c.visited.length + steps = s.size) :
    ∃ focus, Leaves (s.follow steps c.visited c.dims c.name) focus ∧
      Run s ⟨stack, frames, .named c⟩ ⟨stack, frames, focus⟩ := by
  unfold Schema.follow
  by_cases hvisited : c.name ∈ c.visited
  · rw [if_pos hvisited]
    exact ⟨_, .error, .single (.repeated hvisited)⟩
  rw [if_neg hvisited]
  cases hname : s.get? c.name with
  | none => exact ⟨_, .error, .single (.unknown hvisited hname)⟩
  | some d =>
    cases d with
    | struct entries => exact ⟨_, .struct, .single (.struct hvisited hname)⟩
    | «alias» text =>
      cases steps with
      | zero =>
        -- all names have been visited, and yet not this one
        have hlt := Schema.length_lt_size hnodup hdefined (Schema.mem_names hname) hvisited
        omega
      | succ steps =>
        cases hread : TypeSpec.read text with
        | error err =>
          simp only [hread, error_bind]
          exact ⟨_, .error, .single (.malformedAlias hvisited hname hread)⟩
        | ok spec =>
          simp only [hread, ok_bind]
          cases hleaf : spec.leaf? with
          | some leaf => exact ⟨_, .leaf, .single (.scalarAlias hvisited hname hread hleaf)⟩
          | none =>
            have hnodup' : (c.visited ++ [c.name]).Nodup := by simpa using hnodup.concat hvisited
            have hdefined' : ∀ a ∈ c.visited ++ [c.name], a ∈ s.names :=
              List.forall_mem_append.2 ⟨hdefined, by simpa using Schema.mem_names hname⟩
            have hsteps' : (c.visited ++ [c.name]).length + steps = s.size := by
              rw [List.length_append, List.length_singleton]
              omega
            obtain ⟨focus, hleaves, hrun⟩ :=
              run_chain steps ⟨_, c.dims ++ spec.dims, spec.base⟩ hnodup' hdefined' hsteps'
            exact ⟨focus, hleaves, hrun.head (.further hvisited hname hread hleaf)⟩

theorem run_fields {named : String → Except Error Node}
    (hnamed : ∀ frames base, Run s ⟨stack, frames, .named ⟨[], [], base⟩⟩ ⟨stack, frames, .result (named base)⟩) :
    Run s ⟨stack, frames, .fields c done entries⟩
      ⟨stack, frames, .closing c (Schema.compileFields named c.name done entries)⟩ := by
  induction entries generalizing done with
  | nil => exact .single .complete
  | cons entry entries ih =>
    match entry with
    | [] => exact .single (.notOnePair (by simp))
    | pair :: other :: pairs => exact .single (.notOnePair (by simp))
    | [(field, type)] =>
      unfold Schema.compileFields
      by_cases hfield : field ∈ done.map Prod.fst
      · rw [if_pos hfield]
        exact .single (.duplicate hfield)
      rw [if_neg hfield]
      cases hread : TypeSpec.read type.spec with
      | error err => exact .single (.malformedField hfield hread)
      | ok spec =>
        -- once there is a type, it goes on with the hints
        have hresume (n : Node) : Run s ⟨stack, frames, Frame.resume ⟨c, done, field, type, spec.dims, entries⟩ n⟩
            ⟨stack, frames, .closing c (do
              let hints ← Schema.fieldHints c.name field type
              Schema.compileFields named c.name
                (done ++ [(field, (n.withOuterDims spec.dims).withHints hints)]) entries)⟩ := by
          cases hhints : Schema.fieldHints c.name field type with
          | error err =>
            simp only [Frame.resume, hhints]
            exact .refl
          | ok hints =>
            simp only [Frame.resume, hhints]
            exact ih
        cases hleaf : spec.leaf? with
        | some leaf =>
          simp only [ok_bind, pure_bind, hleaf]
          exact (hresume _).head (.scalarField hfield hread hleaf)
        | none =>
          have henter := hnamed (⟨c, done, field, type, spec.dims, entries⟩ :: frames) spec.base
          simp only [ok_bind, hleaf]
          cases hbase : named spec.base with
          | error err =>
            rw [hbase] at henter
            exact ((henter.tail .fail).head (.namedField hfield hread hleaf))
          | ok n =>
            rw [hbase] at henter
            exact ((henter.tail .resume).trans (hresume n)).head (.namedField hfield hread hleaf)

theorem run_struct {named : String → Except Error Node} {fields : Except Error (List (String × Node))}
    (hstruct : Run s a ⟨stack, frames, .struct c entries⟩) (hfresh : c.name ∉ stack)
    (hnamed : ∀ frames base, Run s ⟨c.name :: stack, frames, .named ⟨[], [], base⟩⟩
      ⟨c.name :: stack, frames, .result (named base)⟩)
    (hfields : Schema.compileFields named c.name [] entries = fields) :
    Run s a ⟨stack, frames, .result (fields.map (.struct c.name · c.dims .none))⟩ := by
  have hentered := hstruct.tail (.enter hfresh)
  have hclosing := hentered.trans (run_fields hnamed)
  rw [hfields] at hclosing
  exact hclosing.tail .close

/-- A name comes to what compiling it inside the open structs yields, and the stack is then as before. -/
theorem run_named {levels : Nat} (hnodup : stack.Nodup) (hdefined : ∀ a ∈ stack, a ∈ s.names)
    (hlevels : stack.length + levels = s.size) :
    Run s ⟨stack, frames, .named ⟨[], [], name⟩⟩ ⟨stack, frames, .result (s.compileNamed levels stack name)⟩ := by
  induction levels using Nat.strongRecOn generalizing stack frames name with
  | ind levels ih =>
    have hchain : ∃ focus, Leaves (s.resolve name) focus ∧
        Run s ⟨stack, frames, .named ⟨[], [], name⟩⟩ ⟨stack, frames, focus⟩ :=
      run_chain s.size ⟨[], [], name⟩ .nil (by simp) (Nat.zero_add _)
    obtain ⟨focus, hleaves, hrun⟩ := hchain
    have hinside {t : String} {levels' : Nat} (hfresh : t ∉ stack) (hsucc : levels = levels' + 1)
        (ht : t ∈ s.names) (frames : List Frame) (base : String) :
        Run s ⟨t :: stack, frames, .named ⟨[], [], base⟩⟩
          ⟨t :: stack, frames, .result (s.compileNamed levels' (t :: stack) base)⟩ := by
      have hnodup' : (t :: stack).Nodup := List.nodup_cons.2 ⟨hfresh, hnodup⟩
      have hdefined' : ∀ a ∈ t :: stack, a ∈ s.names := List.forall_mem_cons.2 ⟨ht, hdefined⟩
      exact ih levels' (by omega) hnodup' hdefined' (by rw [List.length_cons]; omega)
    have hcompiled := s.compiled levels stack name
    generalize s.compileNamed levels stack name = outcome at hcompiled ⊢
    cases hcompiled with
    | unresolved hresolve =>
      rw [hresolve] at hleaves
      cases hleaves
      exact hrun
    | leaf hresolve =>
      rw [hresolve] at hleaves
      cases hleaves
      exact hrun
    | recursive hresolve houter =>
      rw [hresolve] at hleaves
      cases hleaves
      exact hrun.tail (.recursive houter)
    | exhausted hresolve hfresh hzero =>
      -- the open structs are all different, so there is a level for each struct of the schema
      obtain ⟨hget, -⟩ := (s.followed ..).denotes_struct hresolve
      have hlt := Schema.length_lt_size hnodup hdefined (Schema.mem_names hget) hfresh
      omega
    | fields hresolve hfresh hsucc hfields | struct hresolve hfresh hsucc hfields =>
      obtain ⟨hget, -⟩ := (s.followed ..).denotes_struct hresolve
      rw [hresolve] at hleaves
      cases hleaves
      have hnamed := hinside hfresh hsucc (Schema.mem_names hget)
      exact run_struct hrun hfresh hnamed hfields

theorem run_start (s : Schema) (target : String) :
    Run s (start target) (finished (s.compileNamed s.size [] target)) :=
  run_named .nil (by simp) (Nat.zero_add _)

end Compiler

end PackedStruct
