import Mathlib.Data.List.Forall2
import PackedStruct.Error
/-!
How a computation of several steps ends: well if every step ends well, and with the error of the
first step that fails.
-/

namespace PackedStruct

variable {α β ε ε' : Type}

theorem ok_bind (a : α) (f : α → Except ε β) : .ok a >>= f = f a := rfl

theorem error_bind (err : ε) (f : α → Except ε β) : .error err >>= f = .error err := rfl

theorem bind_eq_ok {x : Except ε α} {f : α → Except ε β} {b : β} :
    x >>= f = .ok b ↔ ∃ a, x = .ok a ∧ f a = .ok b := by
  cases x <;> simp [bind, Except.bind]

theorem bind_eq_error {x : Except ε α} {f : α → Except ε β} {err : ε} :
    x >>= f = .error err ↔ x = .error err ∨ ∃ a, x = .ok a ∧ f a = .error err := by
  cases x <;> simp [bind, Except.bind]

theorem mapError_eq_ok {f : ε → ε'} {x : Except ε α} {a : α} :
    x.mapError f = .ok a ↔ x = .ok a := by
  cases x with
  | error fault => constructor <;> intro h <;> cases h
  | ok b => constructor <;> intro h <;> cases h <;> rfl

theorem mapError_eq_error {f : ε → ε'} {x : Except ε α} {err : ε'} :
    x.mapError f = .error err ↔ ∃ fault, x = .error fault ∧ f fault = err := by
  cases x with
  | error fault =>
    constructor
    · intro h
      cases h
      exact ⟨fault, rfl, rfl⟩
    · rintro ⟨other, hother, rfl⟩
      cases hother
      rfl
  | ok b =>
    constructor
    · intro h
      cases h
    · rintro ⟨other, hother, -⟩
      cases hother

theorem exists_of_isOk {x : Except ε α} (h : x.isOk = true) : ∃ a, x = .ok a := by
  cases x with
  | error err => simp [Except.isOk, Except.toBool] at h
  | ok a => exact ⟨a, rfl⟩

/-- Where every step is known to end well, all of them do. -/
theorem mapM_eq_ok {f : α → Except ε β} {g : α → β} {as : List α} (h : ∀ a ∈ as, f a = .ok (g a)) :
    as.mapM f = .ok (as.map g) := by
  induction as with
  | nil => rfl
  | cons a as ih =>
    rw [List.mapM_cons, h a (by simp), ih fun b hb => h b (by simp [hb])]
    rfl

/-- Where the outcome of every step is known, so is that of all of them. -/
theorem mapM_eq_ok_iff {f : α → Except ε β} {R : α → β → Prop} {as : List α} {bs : List β}
    (h : ∀ a ∈ as, ∀ b, f a = .ok b ↔ R a b) : as.mapM f = .ok bs ↔ List.Forall₂ R as bs := by
  induction as generalizing bs with
  | nil =>
    rw [List.forall₂_nil_left_iff]
    constructor
    · intro h
      cases h
      rfl
    · rintro rfl
      rfl
  | cons a as ih =>
    have hrest {bs : List β} : as.mapM f = .ok bs ↔ List.Forall₂ R as bs :=
      ih fun b hb => h b (List.mem_cons_of_mem _ hb)
    simp only [List.mapM_cons, bind_eq_ok, List.forall₂_cons_left_iff, ← h a List.mem_cons_self, ← hrest]
    constructor
    · rintro ⟨b, hb, bs, hbs, heq⟩
      cases heq
      exact ⟨b, bs, hb, hbs, rfl⟩
    · rintro ⟨b, bs, hb, hbs, rfl⟩
      exact ⟨b, hb, bs, hbs, rfl⟩

theorem mapM_eq_error_iff {f : α → Except ε β} {as : List α} {err : ε} :
    as.mapM f = .error err ↔
      ∃ before a after, as = before ++ a :: after ∧ (∀ b ∈ before, ∃ c, f b = .ok c) ∧ f a = .error err := by
  induction as with
  | nil =>
    constructor
    · intro h
      cases h
    · rintro ⟨before, a, after, heq, -⟩
      simp at heq
  | cons a as ih =>
    rw [List.mapM_cons, bind_eq_error]
    constructor
    · rintro (ha | ⟨b, ha, hrest⟩)
      · exact ⟨[], a, as, rfl, by simp, ha⟩
      · rcases bind_eq_error.1 hrest with hfault | ⟨bs, -, hdone⟩
        · obtain ⟨before, x, after, rfl, hbefore, hx⟩ := ih.1 hfault
          exact ⟨a :: before, x, after, rfl, List.forall_mem_cons.2 ⟨⟨b, ha⟩, hbefore⟩, hx⟩
        · cases hdone
    · rintro ⟨before, x, after, heq, hbefore, hx⟩
      cases before with
      | nil =>
        cases heq
        exact .inl hx
      | cons b before =>
        cases heq
        obtain ⟨⟨c, hc⟩, hbefore⟩ := List.forall_mem_cons.1 hbefore
        have hrest := ih.2 ⟨before, x, after, rfl, hbefore, hx⟩
        exact .inr ⟨c, hc, bind_eq_error.2 (.inl hrest)⟩
/-- Taking in one result after another is taking in all of them, once every one is there. -/
theorem foldlM_eq_mapM {σ : Type} (f : α → Except ε β) (g : σ → β → σ) (as : List α) (s : σ) :
    as.foldlM (fun s a => do return g s (← f a)) s = do return (← as.mapM f).foldl g s := by
  induction as generalizing s with
  | nil => rfl
  | cons a as ih =>
    rw [List.foldlM_cons, List.mapM_cons]
    cases h : f a with
    | error fault => rfl
    | ok b =>
      refine (ih (g s b)).trans ?_
      cases as.mapM f <;> rfl

end PackedStruct
