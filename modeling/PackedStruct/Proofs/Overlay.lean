import Mathlib.Data.List.Induction
import Mathlib.Data.List.Nodup
import PackedStruct.CommandLine.Run
import PackedStruct.Proofs.Outcome
/-!
Schemas on top of one another. However definitions come together, one by one or by merging schemas, the
outcome is that of the single definitions in a row: names in the order of their first definition, each
with its last one. An index of the names, kept beside the entries, changes nothing about that.
-/

namespace PackedStruct

section

variable {as : List String}

theorem eraseDups_of_nodup (h : as.Nodup) : as.eraseDups = as := by
  induction as with
  | nil => rfl
  | cons a as ih =>
    obtain ⟨hfresh, hrest⟩ := List.nodup_cons.1 h
    have hfilter : as.filter (fun b => !b == a) = as := by
      refine List.filter_eq_self.2 fun b hb => ?_
      have hne : b ≠ a := fun heq => hfresh (heq ▸ hb)
      simpa using hne
    rw [List.eraseDups_cons, hfilter, ih hrest]

theorem eraseDups_concat (as : List String) (a : String) :
    (as ++ [a]).eraseDups = if a ∈ as then as.eraseDups else as.eraseDups ++ [a] := by
  rw [List.eraseDups_append, List.removeAll]
  by_cases h : a ∈ as <;> simp [h, List.eraseDups_cons]

theorem eraseDups_append_of_subset (as bs : List String) (h : bs ⊆ as) :
    (as ++ bs).eraseDups = as.eraseDups := by
  have hnone : bs.removeAll as = [] := List.filter_eq_nil_iff.2 fun b hb => by simpa using h hb
  rw [List.eraseDups_append, hnone, List.eraseDups_nil, List.append_nil]

-- What comes first in a list comes first in it without some later repetitions, too. The induction is
-- from the end: the last name is new to both lists or to none.
theorem eraseDups_append_eraseDups (as bs : List String) :
    (as ++ bs.eraseDups).eraseDups = (as ++ bs).eraseDups := by
  induction bs using List.reverseRecOn with
  | nil => rfl
  | append_singleton bs b ih =>
    rw [← List.append_assoc, eraseDups_concat (as ++ bs), eraseDups_concat bs]
    by_cases h : b ∈ bs
    · rw [if_pos h, if_pos (List.mem_append_right as h), ih]
    · have hmem : b ∈ as ++ bs.eraseDups ↔ b ∈ as ++ bs := by
        simp only [List.mem_append, List.mem_eraseDups]
      rw [if_neg h, ← List.append_assoc, eraseDups_concat, ih]
      simp only [hmem]

theorem eraseDups_eraseDups_append (as bs : List String) :
    (as.eraseDups ++ bs).eraseDups = (as ++ bs).eraseDups := by
  induction bs using List.reverseRecOn with
  | nil => simpa using eraseDups_append_eraseDups [] as
  | append_singleton bs b ih =>
    have hmem : b ∈ as.eraseDups ++ bs ↔ b ∈ as ++ bs := by
      simp only [List.mem_append, List.mem_eraseDups]
    rw [← List.append_assoc, ← List.append_assoc, eraseDups_concat, eraseDups_concat, ih]
    simp only [hmem]

theorem getElem?_concat_of_not_mem {a b : String} {i : Nat} (h : a ∉ as) :
    (as ++ [a])[i]? = some b ↔ if a = b then as.length = i else as[i]? = some b := by
  rcases Nat.lt_or_ge i as.length with hi | hi
  · rw [List.getElem?_append_left hi]
    split
    · next hab =>
      subst hab
      exact ⟨fun hat => absurd (List.mem_of_getElem? hat) h, fun heq => by omega⟩
    · rfl
  · rw [List.getElem?_append_right hi, List.getElem?_eq_none hi, List.getElem?_singleton]
    by_cases hlast : as.length = i
    · simp [hlast]
    · have hbeyond : i - as.length ≠ 0 := by omega
      simp [hlast, hbeyond]

theorem lookup_reverse {α : Type} {name : String} {es : List (String × α)}
    (hnodup : (es.map Prod.fst).Nodup) : es.reverse.lookup name = es.lookup name := by
  cases h : es.lookup name with
  | none => simpa [List.lookup_eq_none_iff] using h
  | some value =>
    have hreverse : (es.reverse.map Prod.fst).Nodup := by
      rw [List.map_reverse]
      exact List.nodup_reverse.2 hnodup
    exact lookup_of_mem hreverse (List.mem_reverse.2 (mem_of_lookup h))

end

namespace Schema

variable {s t : Schema} {name : String}

/-- A schema is nothing but its names in order, with their definitions. -/
theorem entries_eq (s : Schema) : s.entries = s.names.filterMap fun name => (s.get? name).map (name, ·) := by
  have hentry : ∀ e ∈ s.entries, some e = (s.get? e.1).map (e.1, ·) := fun e he => by
    rw [get?, lookup_of_mem s.distinct he, Option.map_some]
  rw [names, List.filterMap_map]
  exact List.filterMap_some.symm.trans (List.filterMap_congr hentry)

theorem ext_get? (hnames : s.names = t.names) (hget : ∀ name, s.get? name = t.get? name) : s = t := by
  have hentries : s.entries = t.entries := by
    rw [s.entries_eq, t.entries_eq, hnames]
    simp only [hget]
  cases s
  cases t
  cases hentries
  rfl

theorem contains_iff : s.contains name = true ↔ name ∈ s.names := by
  rw [contains, names, get?]
  cases h : s.entries.lookup name with
  | none =>
    have hnone := List.lookup_eq_none_iff.1 h
    simp only [bne_iff_ne, ne_eq] at hnone
    simp only [Option.isSome_none, Bool.false_eq_true, false_iff, List.mem_map, not_exists, not_and]
    exact fun e he heq => hnone e he heq.symm
  | some d => simpa using ⟨d, mem_of_lookup h⟩

/-! Definitions one after another, and then all those of a schema. -/

theorem insertAll_cons (s : Schema) (e : String × Definition) (ds : List (String × Definition)) :
    s.insertAll (e :: ds) = (s.insert e.1 e.2).1.insertAll ds := rfl

theorem insertAll_append (s : Schema) (ds es : List (String × Definition)) :
    s.insertAll (ds ++ es) = (s.insertAll ds).insertAll es := List.foldl_append

theorem names_insertAll (s : Schema) (ds : List (String × Definition)) :
    (s.insertAll ds).names = (s.names ++ ds.map Prod.fst).eraseDups := by
  induction ds using List.reverseRecOn with
  | nil =>
    rw [List.map_nil, List.append_nil]
    exact (eraseDups_of_nodup s.distinct).symm
  | append_singleton ds e ih =>
    rw [insertAll_append, insertAll_cons, List.map_append, List.map_singleton, ← List.append_assoc,
      eraseDups_concat, ← ih]
    refine (names_insert (s.insertAll ds) e.1 e.2).trans ?_
    have hmem : e.1 ∈ (s.insertAll ds).names ↔ e.1 ∈ s.names ++ ds.map Prod.fst := by
      rw [ih, List.mem_eraseDups]
    simp only [hmem]

theorem get?_insertAll_lookup (s : Schema) (ds : List (String × Definition)) (name : String) :
    (s.insertAll ds).get? name = (ds.reverse.lookup name).or (s.get? name) := by
  induction ds using List.reverseRecOn with
  | nil => rfl
  | append_singleton ds e ih =>
    rw [insertAll_append, insertAll_cons, List.reverse_concat, lookup_cons_ite]
    refine (get?_insert (s.insertAll ds) e.1 name e.2).trans ?_
    split
    · rfl
    · exact ih

theorem names_merge (s t : Schema) : (s.merge t).names = (s.names ++ t.names).eraseDups :=
  names_insertAll s t.entries

theorem get?_merge (s t : Schema) (name : String) :
    (s.merge t).get? name = (t.get? name).or (s.get? name) := by
  rw [merge, get?_insertAll_lookup, lookup_reverse t.distinct]
  rfl

theorem names_ofList (ds : List (String × Definition)) :
    (ofList ds).names = (ds.map Prod.fst).eraseDups := names_insertAll empty ds

theorem get?_ofList (ds : List (String × Definition)) (name : String) :
    (ofList ds).get? name = ds.reverse.lookup name := by
  rw [ofList, get?_insertAll_lookup]
  exact Option.or_none

/-- Merging in a schema is writing again whatever was written to it, replaced definitions included. -/
theorem merge_ofList (s : Schema) (ds : List (String × Definition)) : s.merge (ofList ds) = s.insertAll ds := by
  refine ext_get? ?_ fun name => ?_
  · rw [names_merge, names_ofList, names_insertAll, eraseDups_append_eraseDups]
  · rw [get?_merge, get?_ofList, get?_insertAll_lookup]

theorem merge_assoc (s t u : Schema) : (s.merge t).merge u = s.merge (t.merge u) := by
  refine ext_get? ?_ fun name => ?_
  · rw [names_merge, names_merge, names_merge, names_merge, eraseDups_eraseDups_append,
      eraseDups_append_eraseDups, List.append_assoc]
  · rw [get?_merge, get?_merge, get?_merge, get?_merge, Option.or_assoc]

theorem merge_self (s : Schema) : s.merge s = s := by
  refine ext_get? ?_ fun name => ?_
  · rw [names_merge, eraseDups_append_of_subset _ _ (List.Subset.refl _)]
    exact eraseDups_of_nodup s.distinct
  · rw [get?_merge, Option.or_self]

theorem merge_empty (s : Schema) : s.merge empty = s := rfl

theorem empty_merge (s : Schema) : empty.merge s = s := by
  refine ext_get? ?_ fun name => ?_
  · exact (names_merge empty s).trans (eraseDups_of_nodup s.distinct)
  · exact (get?_merge empty s name).trans Option.or_none

theorem entries_ofList {ds : List (String × Definition)} (h : (ds.map Prod.fst).Nodup) :
    (ofList ds).entries = ds :=
  congrArg entries (empty_merge ⟨ds, h⟩)

/-! Schemas one after another, each on top of those before. -/

def overlay (ts : List Schema) : Schema := ts.foldl merge empty

theorem names_foldl_merge (s : Schema) (ts : List Schema) :
    (ts.foldl merge s).names = (s.names ++ ts.flatMap names).eraseDups := by
  induction ts generalizing s with
  | nil =>
    rw [List.flatMap_nil, List.append_nil]
    exact (eraseDups_of_nodup s.distinct).symm
  | cons t ts ih =>
    rw [List.foldl_cons, ih, names_merge, eraseDups_eraseDups_append, List.append_assoc, List.flatMap_cons]

theorem get?_foldl_merge (s : Schema) (ts : List Schema) (name : String) :
    (ts.foldl merge s).get? name = (ts.reverse.findSome? fun t => t.get? name).or (s.get? name) := by
  induction ts generalizing s with
  | nil => rfl
  | cons t ts ih =>
    rw [List.foldl_cons, ih, get?_merge, List.reverse_cons, List.findSome?_append, Option.or_assoc]
    simp

end Schema

/-- What definitions are written to. -/
structure Store (σ : Type) where
  empty : σ
  insert : σ → String → Definition → σ
  merge : σ → σ → σ

/-- A definition, or a merge with what other operations make of nothing. -/
inductive Operation where
  | insert (name : String) (d : Definition)
  | merge (ops : List Operation)

mutual

def Operation.apply {σ : Type} (S : Store σ) (s : σ) : Operation → σ
  | .insert name d => S.insert s name d
  | .merge ops => S.merge s (Store.run S S.empty ops)

def Store.run {σ : Type} (S : Store σ) (s : σ) : List Operation → σ
  | [] => s
  | op :: ops => Store.run S (op.apply S s) ops

end

/-- Stores in a relation that no write ends. -/
structure Store.Simulates {σ τ : Type} (S : Store σ) (T : Store τ) (R : σ → τ → Prop) : Prop where
  empty : R S.empty T.empty
  insert {s : σ} {t : τ} (name : String) (d : Definition) : R s t → R (S.insert s name d) (T.insert t name d)
  merge {s s' : σ} {t t' : τ} : R s t → R s' t' → R (S.merge s s') (T.merge t t')

namespace Store.Simulates

variable {σ τ : Type} {S : Store σ} {T : Store τ} {R : σ → τ → Prop}

mutual

theorem apply (h : S.Simulates T R) {s : σ} {t : τ} (hst : R s t) (op : Operation) :
    R (op.apply S s) (op.apply T t) := by
  cases op with
  | insert name d => exact h.insert name d hst
  | merge ops => exact h.merge hst (h.run h.empty ops)

theorem run (h : S.Simulates T R) {s : σ} {t : τ} (hst : R s t) (ops : List Operation) :
    R (S.run s ops) (T.run t ops) := by
  cases ops with
  | nil => exact hst
  | cons op ops => exact h.run (h.apply hst op) ops

end

end Store.Simulates

def Schema.store : Store Schema := ⟨.empty, fun s name d => (s.insert name d).1, Schema.merge⟩

/-- The definitions written, in a row. -/
def writes : Store (List (String × Definition)) := ⟨[], fun ds name d => ds ++ [(name, d)], (· ++ ·)⟩

theorem writes_simulates : writes.Simulates Schema.store fun ds s => s = .ofList ds where
  empty := rfl
  insert := by
    rintro ds s name d rfl
    exact (Schema.insertAll_append .empty ds [(name, d)]).symm
  merge := by
    rintro ds es s t rfl rfl
    exact (Schema.merge_ofList _ es).trans (Schema.insertAll_append .empty ds es).symm

/-- Entries with an index of the names: where the entry for a name is. -/
structure Indexed where
  entries : List (String × Definition)
  index : Std.HashMap String Nat

namespace Indexed

def empty : Indexed := ⟨[], ∅⟩

def get? (t : Indexed) (name : String) : Option Definition := do
  let i ← t.index[name]?
  let e ← t.entries[i]?
  return e.2

def contains (t : Indexed) (name : String) : Bool := t.index.contains name

def size (t : Indexed) : Nat := t.entries.length

def insert (t : Indexed) (name : String) (d : Definition) : Indexed × Option Definition :=
  match t.index[name]? with
  | some i => (⟨t.entries.modify i fun e => (e.1, d), t.index⟩, t.entries[i]?.map Prod.snd)
  | none => (⟨t.entries ++ [(name, d)], t.index.insert name t.entries.length⟩, none)

def merge (t u : Indexed) : Indexed := u.entries.foldl (fun t (name, d) => (t.insert name d).1) t

def store : Store Indexed := ⟨empty, fun t name d => (t.insert name d).1, merge⟩

/-- The entries are those of the schema, and the index has the place of every name and nothing else. -/
structure InStep (t : Indexed) (s : Schema) : Prop where
  entries : t.entries = s.entries
  index (name : String) (i : Nat) : t.index[name]? = some i ↔ s.names[i]? = some name

variable {t u : Indexed} {s r : Schema} {name : String}

namespace InStep

theorem empty : InStep .empty .empty where
  entries := rfl
  index name i := by simp [Indexed.empty, Schema.empty, Schema.names]

/-- What the index finds is the entry for the name. -/
theorem entry (h : InStep t s) {i : Nat} (hi : t.index[name]? = some i) :
    ∃ d, t.entries[i]? = some (name, d) ∧ s.get? name = some d := by
  have hname := (h.index name i).1 hi
  rw [Schema.names, List.getElem?_map, Option.map_eq_some_iff] at hname
  obtain ⟨⟨name, d⟩, hentry, rfl⟩ := hname
  rw [h.entries]
  exact ⟨d, hentry, lookup_of_mem s.distinct (List.mem_of_getElem? hentry)⟩

theorem not_mem (h : InStep t s) (hi : t.index[name]? = none) : name ∉ s.names := fun hmem => by
  obtain ⟨i, hname⟩ := List.mem_iff_getElem?.1 hmem
  cases hi.symm.trans ((h.index name i).2 hname)

theorem get?_eq_none (h : InStep t s) (hi : t.index[name]? = none) : s.get? name = none := by
  have hcontains := mt Schema.contains_iff.1 (h.not_mem hi)
  simpa [Schema.contains] using hcontains

theorem get? (h : InStep t s) (name : String) : t.get? name = s.get? name := by
  cases hi : t.index[name]? with
  | none => simp [Indexed.get?, hi, h.get?_eq_none hi]
  | some i =>
    obtain ⟨d, hentry, hd⟩ := h.entry hi
    simp [Indexed.get?, hi, hentry, hd]

theorem contains (h : InStep t s) (name : String) : t.contains name = s.contains name := by
  rw [Indexed.contains, Std.HashMap.contains_eq_isSome_getElem?, Schema.contains]
  cases hi : t.index[name]? with
  | none => rw [h.get?_eq_none hi, Option.isSome_none, Option.isSome_none]
  | some i =>
    obtain ⟨d, -, hd⟩ := h.entry hi
    rw [hd, Option.isSome_some, Option.isSome_some]

theorem replaced (h : InStep t s) (name : String) (d : Definition) :
    (t.insert name d).2 = (s.insert name d).2 := by
  cases hi : t.index[name]? with
  | none => simp [Indexed.insert, hi, Schema.insert, h.get?_eq_none hi]
  | some i =>
    obtain ⟨old, hentry, hold⟩ := h.entry hi
    simp [Indexed.insert, hi, Schema.insert, hentry, hold]

theorem insert (h : InStep t s) (name : String) (d : Definition) :
    InStep (t.insert name d).1 (s.insert name d).1 := by
  cases hi : t.index[name]? with
  | some i =>
    -- the entry is replaced where it is, and so no place of a name changes
    have hmem : name ∈ s.names := List.mem_of_getElem? ((h.index name i).1 hi)
    obtain ⟨old, hentry, -⟩ := h.entry hi
    rw [h.entries] at hentry
    refine ⟨?_, fun other j => ?_⟩
    · simp only [Indexed.insert, hi, Schema.insert, h.entries]
      exact (put_of_getElem? s.distinct hentry).symm
    · rw [Schema.names_insert, if_pos hmem]
      simpa only [Indexed.insert, hi] using h.index other j
  | none =>
    have hfresh := h.not_mem hi
    have hlength : s.names.length = t.entries.length := by rw [Schema.names, List.length_map, h.entries]
    refine ⟨?_, fun other j => ?_⟩
    · simp only [Indexed.insert, hi, Schema.insert, h.entries]
      exact (put_of_not_mem hfresh).symm
    · rw [Schema.names_insert, if_neg hfresh]
      simp only [Indexed.insert, hi, Std.HashMap.getElem?_insert, beq_iff_eq, ← hlength]
      rw [getElem?_concat_of_not_mem hfresh]
      split
      · exact Option.some_inj
      · exact h.index other j

theorem merge (h : InStep t s) (h' : InStep u r) : InStep (t.merge u) (s.merge r) := by
  rw [Indexed.merge, Schema.merge, Schema.insertAll, h'.entries]
  induction r.entries generalizing t s with
  | nil => exact h
  | cons e es ih => exact ih (h.insert e.1 e.2)

end InStep

theorem store_simulates : store.Simulates Schema.store InStep where
  empty := .empty
  insert name d h := h.insert name d
  merge := InStep.merge

end Indexed

namespace CommandLine

def loadFile (inputs : Inputs) (path : String) : Except Failure Schema := do
  loadText path (← readText inputs path)

theorem loadFiles_eq (inputs : Inputs) (paths : List String) :
    loadFiles inputs paths = do return .overlay (← paths.mapM (loadFile inputs)) := by
  refine Eq.trans ?_ (foldlM_eq_mapM (loadFile inputs) Schema.merge paths .empty)
  simp only [loadFiles, loadFile, bind_assoc]

end CommandLine

open Schema in
/-- However definitions are written and schemas merged, each name has its last definition, in the order
of the first ones; a table with an index of its names answers the same at every point. Merging is
therefore associative, and files loaded one after another are merged as a whole. -/
theorem run_last_write :
    (∀ ops : List Operation,
      let ws := writes.run writes.empty ops
      let s := Schema.store.run Schema.store.empty ops
      let t := Indexed.store.run Indexed.store.empty ops
      (s.names.Nodup ∧ s.names = (ws.map Prod.fst).eraseDups ∧
        ∀ name, s.get? name = ws.reverse.lookup name ∧ (s.contains name = true ↔ name ∈ s.names) ∧
          ∀ d, (s.insert name d).2 = ws.reverse.lookup name) ∧
      (t.entries = s.entries ∧ t.size = s.names.length ∧
        ∀ name, t.get? name = s.get? name ∧ t.contains name = s.contains name ∧
          ∀ d, (t.insert name d).2 = s.get? name)) ∧
    (∀ s t u : Schema, (s.merge t).merge u = s.merge (t.merge u)) ∧
    (∀ s : Schema, s.merge s = s ∧ s.merge empty = s ∧ empty.merge s = s) ∧
    (∀ inputs paths, CommandLine.loadFiles inputs paths =
      do return overlay (← paths.mapM (CommandLine.loadFile inputs))) ∧
    ∀ ts : List Schema, (overlay ts).names = (ts.flatMap names).eraseDups ∧
      ∀ name, (overlay ts).get? name = ts.reverse.findSome? fun t => t.get? name := by
  refine ⟨fun ops => ?_, merge_assoc, fun s => ⟨s.merge_self, s.merge_empty, s.empty_merge⟩,
    CommandLine.loadFiles_eq, fun ts => ⟨names_foldl_merge empty ts, fun name => ?_⟩⟩
  · intro ws s t
    have hwrites : s = ofList ws := writes_simulates.run writes_simulates.empty ops
    have hindex : t.InStep s := Indexed.store_simulates.run Indexed.store_simulates.empty ops
    have hnames : s.names = (ws.map Prod.fst).eraseDups := by rw [hwrites, names_ofList]
    have hget : ∀ name, s.get? name = ws.reverse.lookup name := fun name => by rw [hwrites, get?_ofList]
    have hsize : t.size = s.names.length := by
      rw [Indexed.size, hindex.entries, names, List.length_map]
    exact ⟨⟨s.distinct, hnames, fun name => ⟨hget name, contains_iff, fun d => hget name⟩⟩,
      hindex.entries, hsize, fun name => ⟨hindex.get? name, hindex.contains name, hindex.replaced name⟩⟩
  · exact (get?_foldl_merge empty ts name).trans Option.or_none

open Schema in
example : ((ofList [("a", .alias "u8"), ("b", .alias "u16")]).merge
    (ofList [("c", .alias "u64"), ("a", .alias "u32")])).entries =
      [("a", .alias "u32"), ("b", .alias "u16"), ("c", .alias "u64")] := by decide

end PackedStruct
