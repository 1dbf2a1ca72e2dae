/-!
Lists of named values in the order in which the names first came. Writing to a name that is there
replaces its value and keeps its place.
-/

namespace PackedStruct

variable {κ α : Type} [DecidableEq κ]

/-- Write `value` under `name`. -/
def put (name : String) (value : α) : List (String × α) → List (String × α)
  | [] => [(name, value)]
  | (n, v) :: es => if n = name then (name, value) :: es else (n, v) :: put name value es

theorem lookup_cons_ite (key name : κ) (value : α) (es : List (κ × α)) :
    ((name, value) :: es).lookup key = if key = name then some value else es.lookup key := by
  by_cases h : key = name
  · simp [h]
  · simp [List.lookup_cons, beq_eq_false_iff_ne.2 h, h]

theorem lookup_put (name other : String) (value : α) (es : List (String × α)) :
    (put name value es).lookup other = if other = name then some value else es.lookup other := by
  induction es with
  | nil => simp [put, lookup_cons_ite]
  | cons e es ih =>
    obtain ⟨n, v⟩ := e
    by_cases hn : n = name
    · by_cases h : other = name <;> simp [put, lookup_cons_ite, hn, h]
    · by_cases h : other = n
      · simp [put, hn, h]
      · simp [put, lookup_cons_ite, hn, h, ih]

/-- The names after a write: a new one comes last. -/
theorem keys_put (name : String) (value : α) (es : List (String × α)) :
    (put name value es).map Prod.fst =
      if name ∈ es.map Prod.fst then es.map Prod.fst else es.map Prod.fst ++ [name] := by
  induction es with
  | nil => simp [put]
  | cons e es ih =>
    by_cases h : e.1 = name
    · simp [put, h]
    · simp only [put, h, if_false, List.map_cons, ih, List.mem_cons]
      by_cases hm : name ∈ es.map Prod.fst <;> simp [hm, Ne.symm h]

theorem nodup_put (name : String) (value : α) {es : List (String × α)} (h : (es.map Prod.fst).Nodup) :
    ((put name value es).map Prod.fst).Nodup := by
  rw [keys_put]
  split
  · exact h
  · next hn => exact List.nodup_append.2 ⟨h, by simp, fun a ha b hb => by grind⟩

theorem put_of_not_mem {name : String} {value : α} {es : List (String × α)}
    (h : name ∉ es.map Prod.fst) : put name value es = es ++ [(name, value)] := by
  induction es with
  | nil => rfl
  | cons e es ih =>
    obtain ⟨hfirst, hrest⟩ := not_or.1 (mt List.mem_cons.2 h)
    rw [put, if_neg (Ne.symm hfirst), ih hrest, List.cons_append]

theorem put_of_getElem? {name : String} {old value : α} {es : List (String × α)} {i : Nat}
    (hnodup : (es.map Prod.fst).Nodup) (h : es[i]? = some (name, old)) :
    put name value es = es.modify i fun e => (e.1, value) := by
  induction es generalizing i with
  | nil => cases h
  | cons e es ih =>
    obtain ⟨hfresh, hrest⟩ := List.nodup_cons.1 hnodup
    cases i with
    | zero =>
      cases h
      simp [put]
    | succ i =>
      rw [List.getElem?_cons_succ] at h
      have hne : e.1 ≠ name := fun heq => hfresh (heq ▸ List.mem_map_of_mem (List.mem_of_getElem? h))
      rw [put, if_neg hne, ih hrest h, List.modify_succ_cons]

theorem lookup_map {β : Type} (f : α → β) (name : String) (es : List (String × α)) :
    (es.map fun e => (e.1, f e.2)).lookup name = (es.lookup name).map f := by
  induction es with
  | nil => rfl
  | cons e es ih =>
    rw [List.map_cons, lookup_cons_ite, lookup_cons_ite, ih]
    split <;> rfl

theorem mem_of_lookup {name : κ} {value : α} {es : List (κ × α)}
    (h : es.lookup name = some value) : (name, value) ∈ es := by
  obtain ⟨before, after, hes, -⟩ := List.lookup_eq_some_iff.1 h
  simp [hes]

theorem lookup_of_mem {name : κ} {value : α} {es : List (κ × α)}
    (hnodup : (es.map Prod.fst).Nodup) (h : (name, value) ∈ es) : es.lookup name = some value := by
  induction es with
  | nil => cases h
  | cons e es ih =>
    obtain ⟨hfresh, hrest⟩ := List.nodup_cons.1 hnodup
    rw [lookup_cons_ite]
    rcases List.mem_cons.1 h with rfl | hmem
    · rw [if_pos rfl]
    · have hne : name ≠ e.1 := fun heq => hfresh (heq ▸ List.mem_map_of_mem hmem)
      rw [if_neg hne, ih hrest hmem]

end PackedStruct
