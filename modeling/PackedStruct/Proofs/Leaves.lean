import PackedStruct.Proofs.Addressed
/-!
The leaves of decoded data, in the order of the fields and elements they belong to. What they show
is given by the places of a type: a slot shows its scalar, a row of characters one text, and a filler
that is decoded by itself shows nothing.
-/

namespace PackedStruct

namespace Data

mutual

/-- The scalars of a tree from left to right. -/
def leaves : Data → List Scalar
  | .scalar _ v => [v]
  | .array _ items => itemsLeaves items
  | .struct _ _ fs => fieldsLeaves fs

def itemsLeaves : List Data → List Scalar
  | [] => []
  | d :: ds => d.leaves ++ itemsLeaves ds

def fieldsLeaves : List (String × Data) → List Scalar
  | [] => []
  | (_, d) :: fs => d.leaves ++ fieldsLeaves fs

end

end Data

/-- What a leaf of decoded data stands for: one slot, a row of that many characters, or no scalar. -/
inductive Place where
  | slot
  | row (count : Nat)
  | filler
  deriving DecidableEq, Repr

/-- Only a character has rows, along the innermost dimension. -/
def Leaf.places (ds : List Nat) : Leaf → List Place
  | .primitive .char =>
    match ds.getLast? with
    | none => [.slot]
    | some count => List.replicate ds.dropLast.prod (.row count)
  | .primitive .padding => List.replicate ds.prod .filler
  | _ => List.replicate ds.prod .slot

namespace Node

mutual

/-- The leaves of a type's values from left to right. -/
def places : Node → List Place
  | .leaf _ l ds _ => l.places ds
  | .struct _ fs ds _ => (List.replicate ds.prod (fieldsPlaces fs)).flatten

/-- Fillers are no fields of a value. -/
def fieldsPlaces : List (String × Node) → List Place
  | [] => []
  | (_, n) :: fs => if n.isPadding then fieldsPlaces fs else n.places ++ fieldsPlaces fs

end

end Node

/-- At these places, these scalars are shown by these leaves. -/
inductive Shown : List Place → List Scalar → List Scalar → Prop where
  | nil : Shown [] [] []
  | slot {ps : List Place} {scalars leaves : List Scalar} (s : Scalar) (h : Shown ps scalars leaves) :
      Shown (.slot :: ps) (s :: scalars) (s :: leaves)
  | row {ps : List Place} {scalars leaves : List Scalar} (bytes : List UInt8)
      (h : Shown ps scalars leaves) :
      Shown (.row bytes.length :: ps) (bytes.map .char ++ scalars) (.text (rowText bytes) :: leaves)
  | filler {ps : List Place} {scalars leaves : List Scalar} (h : Shown ps scalars leaves) :
      Shown (.filler :: ps) scalars (.null :: leaves)

theorem Shown.append {ps qs : List Place} {ss ts ls ms : List Scalar} (h : Shown ps ss ls)
    (h' : Shown qs ts ms) : Shown (ps ++ qs) (ss ++ ts) (ls ++ ms) := by
  induction h with
  | nil => exact h'
  | slot s _ ih => exact .slot s ih
  | row bytes _ ih =>
    rw [List.append_assoc]
    exact .row bytes ih
  | filler _ ih => exact .filler ih

namespace Taker

/-- Whatever the taker yields, its leaves show the scalars it took. -/
def Shows (t : Taker Data) (ps : List Place) : Prop :=
  ∀ scalars d rest, t scalars = some (d, rest) →
    ∃ taken, scalars = taken ++ rest ∧ Shown ps taken d.leaves

theorem Shows.times {t : Taker Data} {ps : List Place} (ht : t.Shows ps) {n : Nat}
    {scalars rest : List Scalar} {items : List Data} (h : t.times n scalars = some (items, rest)) :
    ∃ taken, scalars = taken ++ rest ∧
      Shown (List.replicate n ps).flatten taken (Data.itemsLeaves items) := by
  induction n generalizing scalars items with
  | zero =>
    cases h
    exact ⟨[], rfl, .nil⟩
  | succ n ih =>
    simp only [Taker.times] at h
    obtain ⟨⟨d, middle⟩, hd, h⟩ := Option.bind_eq_some_iff.1 h
    obtain ⟨⟨ds, last⟩, hds, h⟩ := Option.bind_eq_some_iff.1 h
    cases h
    obtain ⟨first, rfl, hfirst⟩ := ht _ _ _ hd
    obtain ⟨others, rfl, hothers⟩ := ih hds
    refine ⟨first ++ others, by rw [List.append_assoc], ?_⟩
    rw [List.replicate_succ, List.flatten_cons, Data.itemsLeaves]
    exact hfirst.append hothers

theorem flatten_replicate_mul (m n : Nat) (ps : List Place) :
    (List.replicate (m*n) ps).flatten = (List.replicate m (List.replicate n ps).flatten).flatten := by
  induction m with
  | zero => simp
  | succ m ih =>
    rw [Nat.succ_mul, Nat.add_comm, ← List.replicate_append_replicate, List.flatten_append, ih,
      List.replicate_succ, List.flatten_cons]

theorem Shows.nested {t : Taker Data} {ps : List Place} (ht : t.Shows ps) (h : Hints)
    (ds : List Nat) : (nested h t ds).Shows (List.replicate ds.prod ps).flatten := by
  induction ds with
  | nil =>
    intro scalars d rest hd
    obtain ⟨taken, htaken, hshown⟩ := ht scalars d rest hd
    exact ⟨taken, htaken, by simpa using hshown⟩
  | cons count ds ih =>
    intro scalars d rest hd
    simp only [Taker.nested] at hd
    obtain ⟨⟨items, last⟩, hitems, hd⟩ := Option.bind_eq_some_iff.1 hd
    cases hd
    obtain ⟨taken, htaken, hshown⟩ := ih.times hitems
    refine ⟨taken, htaken, ?_⟩
    rw [List.prod_cons, flatten_replicate_mul]
    exact hshown

theorem eq_of_times_byte {n : Nat} {scalars rest : List Scalar} {bytes : List UInt8}
    (h : byte.times n scalars = some (bytes, rest)) :
    bytes.length = n ∧ scalars = bytes.map .char ++ rest := by
  induction n generalizing scalars bytes with
  | zero =>
    cases h
    exact ⟨rfl, rfl⟩
  | succ n ih =>
    simp only [Taker.times] at h
    obtain ⟨⟨b, middle⟩, hb, h⟩ := Option.bind_eq_some_iff.1 h
    obtain ⟨⟨bs, last⟩, hbs, h⟩ := Option.bind_eq_some_iff.1 h
    cases h
    obtain ⟨hlength, rfl⟩ := ih hbs
    unfold byte at hb
    split at hb
    · cases hb
      exact ⟨by rw [List.length_cons, hlength], rfl⟩
    · cases hb

theorem shows_slot {h : Hints} {t : Taker Data} (hnone : t [] = none)
    (hsome : ∀ s rest, t (s :: rest) = some (.scalar h s, rest)) : t.Shows [.slot] := by
  intro scalars d rest hd
  cases scalars with
  | nil =>
    rw [hnone] at hd
    cases hd
  | cons s scalars =>
    rw [hsome] at hd
    cases hd
    exact ⟨[s], rfl, .slot s .nil⟩

theorem places_char_cons (d d' : Nat) (ds : List Nat) :
    (Leaf.primitive .char).places (d :: d' :: ds) =
      (List.replicate d ((Leaf.primitive .char).places (d' :: ds))).flatten := by
  obtain ⟨last, hlast⟩ : ∃ last, (d' :: ds).getLast? = some last :=
    ⟨_, List.getLast?_eq_some_getLast (List.cons_ne_nil d' ds)⟩
  have houter : (d :: d' :: ds).getLast? = some last := by rw [List.getLast?_cons_cons, hlast]
  have hrow (m n : Nat) : List.replicate (m*n) (Place.row last) =
      (List.replicate m (List.replicate n (Place.row last))).flatten := by simp
  simp only [Leaf.places, hlast, houter, List.dropLast_cons_cons, List.prod_cons, hrow]

theorem shows_characters (h : Hints) (ds : List Nat) :
    (characters h ds).Shows ((Leaf.primitive .char).places ds) := by
  induction ds with
  | nil => exact shows_slot rfl fun s rest => rfl
  | cons count ds ih =>
    intro scalars d rest hd
    cases ds with
    | nil =>
      simp only [Taker.characters] at hd
      obtain ⟨⟨bytes, last⟩, hbytes, hd⟩ := Option.bind_eq_some_iff.1 hd
      cases hd
      obtain ⟨rfl, htaken⟩ := eq_of_times_byte hbytes
      exact ⟨bytes.map .char, htaken, by simpa [Leaf.places, Data.leaves] using Shown.row bytes .nil⟩
    | cons d' ds =>
      simp only [Taker.characters] at hd
      obtain ⟨⟨items, last⟩, hitems, hd⟩ := Option.bind_eq_some_iff.1 hd
      cases hd
      obtain ⟨taken, htaken, hshown⟩ := ih.times hitems
      refine ⟨taken, htaken, ?_⟩
      rw [places_char_cons]
      exact hshown

theorem shows_leaf (h : Hints) {l : Leaf} (hc : l ≠ .primitive .char) (ds : List Nat) :
    (nested h (leaf h l) ds).Shows (l.places ds) := by
  by_cases hp : l = .primitive .padding
  · subst hp
    have hfiller : (leaf h (.primitive .padding)).Shows [.filler] := by
      intro scalars d rest hd
      cases hd
      exact ⟨[], rfl, .filler .nil⟩
    simpa [Leaf.places] using hfiller.nested h ds
  · have hslot : (leaf h l).Shows [.slot] := by
      refine shows_slot (h := h) ?_ ?_
      · unfold leaf
        split
        · exact absurd rfl hp
        · rfl
      · intro s rest
        exact leaf_cons hp s rest
    have hplaces : l.places ds = List.replicate ds.prod .slot := by
      unfold Leaf.places
      split
      · exact absurd rfl hc
      · exact absurd rfl hp
      · rfl
    rw [hplaces]
    simpa using hslot.nested h ds

end Taker

namespace Node

theorem shows_fields {fs : List (String × Node)} (ih : ∀ f ∈ fs, f.2.assemble.Shows f.2.places)
    {scalars rest : List Scalar} {values : List (String × Data)}
    (h : assembleFields fs scalars = some (values, rest)) :
    ∃ taken, scalars = taken ++ rest ∧ Shown (fieldsPlaces fs) taken (Data.fieldsLeaves values) := by
  induction fs generalizing scalars values with
  | nil =>
    cases h
    exact ⟨[], rfl, .nil⟩
  | cons f fs ihs =>
    obtain ⟨name, n⟩ := f
    have hothers := fun g (hg : g ∈ fs) => ih g (by simp [hg])
    cases hp : n.isPadding with
    | true =>
      simp only [assembleFields, hp, if_true] at h
      simp only [fieldsPlaces, hp, if_true]
      exact ihs hothers h
    | false =>
      simp only [assembleFields, hp, Bool.false_eq_true, if_false] at h
      simp only [fieldsPlaces, hp, Bool.false_eq_true, if_false]
      obtain ⟨⟨d, middle⟩, hd, h⟩ := Option.bind_eq_some_iff.1 h
      obtain ⟨⟨ds, last⟩, hds, h⟩ := Option.bind_eq_some_iff.1 h
      cases h
      obtain ⟨first, rfl, hfirst⟩ := ih (name, n) (by simp) _ _ _ hd
      obtain ⟨taken, rfl, htaken⟩ := ihs hothers hds
      exact ⟨first ++ taken, by rw [List.append_assoc], hfirst.append htaken⟩

/-- The leaves of an assembled value show all scalars that were taken for it, in their order. -/
theorem shows_assemble (n : Node) : n.assemble.Shows n.places := by
  induction n with
  | leaf t l ds h =>
    by_cases hc : l = .primitive .char
    · subst hc
      intro scalars d rest hd
      rw [assemble] at hd
      exact Taker.shows_characters h ds scalars d rest hd
    · rw [assemble_leaf hc]
      exact Taker.shows_leaf h hc ds
  | struct t fs ds h ih =>
    intro scalars d rest hd
    rw [assemble] at hd
    refine Taker.Shows.nested ?_ h ds scalars d rest hd
    intro scalars d rest hd
    obtain ⟨⟨values, last⟩, hvalues, hd⟩ := Option.bind_eq_some_iff.1 hd
    cases hd
    exact shows_fields (fun f hf => ih f hf) hvalues

end Node

end PackedStruct
