import Mathlib.Data.List.Induction
import Mathlib.Data.List.Sort
import Mathlib.Data.Nat.BitIndices
import PackedStruct.Association
import PackedStruct.Labels
/-!
What a table of flags says about a number. The scan over the table finds a name for each bit of the
number if and only if each of them is named, so the label of a number is its own name, or else the names
of its bits from the lowest upwards. Names of numbers with no bit or with several never get into it.
-/

namespace PackedStruct

theorem mapM_eq_some_iff {α β : Type} {f : α → Option β} {as : List α} {bs : List β} :
    as.mapM f = some bs ↔ as.map f = bs.map some := by
  induction as generalizing bs with
  | nil =>
    rw [List.mapM_nil, List.map_nil, eq_comm, eq_comm (a := []), List.map_eq_nil_iff]
    simp
  | cons a as ih =>
    simp only [List.mapM_cons, Option.bind_eq_bind, Option.bind_eq_some_iff, Option.pure_def, ih]
    constructor
    · intro h
      obtain ⟨b, hb, bs, hbs, heq⟩ := h
      cases heq
      rw [List.map_cons, List.map_cons, hb, hbs]
    · intro h
      cases bs with
      | nil => cases h
      | cons b bs =>
        obtain ⟨hb, hbs⟩ := List.cons.inj h
        exact ⟨b, hb, bs, hbs, rfl⟩

theorem filterMap_eq_of_map_eq {α β : Type} {f : α → Option β} {as : List α} {bs : List β}
    (h : as.map f = bs.map some) : as.filterMap f = bs := by
  have hid := congrArg (List.filterMap id) h
  simpa [List.filterMap_map] using hid

/-- Ascending keys put the entries of a list into one order. -/
theorem eq_of_ascending {κ α : Type} [Preorder κ] {es es' : List (κ × α)}
    (h : (es.map Prod.fst).Pairwise (· < ·)) (h' : (es'.map Prod.fst).Pairwise (· < ·))
    (hmem : ∀ e, e ∈ es ↔ e ∈ es') : es = es' := by
  rw [List.pairwise_map] at h h'
  have hne {e e' : κ × α} (hlt : e.1 < e'.1) : e ≠ e' := fun heq => lt_irrefl e'.1 (heq ▸ hlt)
  have hperm : es.Perm es' := (List.perm_ext_iff_of_nodup (h.imp hne) (h'.imp hne)).2 hmem
  exact hperm.eq_of_pairwise (fun _ _ _ _ hlt hgt => absurd (hlt.trans hgt) (lt_irrefl _)) h h'

namespace LabelTable

/-! A table is determined by the last names its pairs give to numbers. -/

/-- The name that pairs one after another give to a number: the last one for it. -/
def named (pairs : List (Int × String)) (value : Int) : Option String :=
  ((pairs.filter fun p => p.1 = value).getLast?).map Prod.snd

variable {value : Int} {name : String} {pairs : List (Int × String)} {es : List (Int × String)}

theorem named_concat (v : Int) :
    named (pairs ++ [(value, name)]) v = if v = value then some name else named pairs v := by
  by_cases h : v = value
  · simp [named, h]
  · simp [named, h, Ne.symm h]

theorem lookup_insert (v : Int) :
    (insert value name es).lookup v = if v = value then some name else es.lookup v := by
  induction es with
  | nil => rw [insert, lookup_cons_ite]
  | cons e es ih =>
    obtain ⟨v', name'⟩ := e
    rw [insert]
    split
    · rw [lookup_cons_ite]
    · split
      · next hfirst =>
        subst hfirst
        rw [lookup_cons_ite, lookup_cons_ite]
        split <;> rfl
      · next hother =>
        rw [lookup_cons_ite, lookup_cons_ite, ih]
        by_cases h : v = value
        · have hne : v ≠ v' := fun heq => hother (h.symm.trans heq)
          rw [if_neg hne, if_pos h, if_pos h]
        · rw [if_neg h, if_neg h]

theorem lookup_ofPairs (mode : LabelMode) (pairs : List (Int × String)) (v : Int) :
    (ofPairs mode pairs).entries.lookup v = named pairs v := by
  change (pairs.foldl (fun es p => insert p.1 p.2 es) []).lookup v = named pairs v
  induction pairs using List.reverseRecOn with
  | nil => rfl
  | append_singleton pairs p ih => rw [List.foldl_concat, lookup_insert, ih, named_concat]

theorem nodup_keys (t : LabelTable) : (t.entries.map Prod.fst).Nodup :=
  t.ascending.imp fun hlt => Int.ne_of_lt hlt

theorem lookup_eq_some_iff (t : LabelTable) : t.entries.lookup value = some name ↔ (value, name) ∈ t.entries :=
  ⟨mem_of_lookup, lookup_of_mem t.nodup_keys⟩

/-- Tables of one mode that name the same numbers in the same way are one. -/
theorem ext_lookup {t u : LabelTable} (hmode : t.mode = u.mode)
    (h : ∀ v, t.entries.lookup v = u.entries.lookup v) : t = u := by
  have hentries : t.entries = u.entries := by
    refine eq_of_ascending t.ascending u.ascending fun e => ?_
    rw [← t.lookup_eq_some_iff, ← u.lookup_eq_some_iff, h]
  cases t
  cases u
  cases hmode
  cases hentries
  rfl

/-! A number is the sum of its bits. -/

theorem isSingleBit_iff {n : Nat} : isSingleBit n = true ↔ ∃ bit, n = 2 ^ bit := by
  rw [isSingleBit]
  constructor
  · intro h
    simp only [Bool.and_eq_true, beq_iff_eq] at h
    exact ⟨n.log2, h.2.symm⟩
  · intro h
    obtain ⟨bit, hpower⟩ := h
    simp [hpower, Nat.log2_two_pow]

theorem toNat_two_pow (bit : Nat) : ((2 : Int) ^ bit).toNat = 2 ^ bit := by
  have hcast : ((2 : Int) ^ bit) = ((2 ^ bit : Nat) : Int) := (Int.natCast_pow 2 bit).symm
  rw [hcast, Int.toNat_natCast]

/-- A positive number is a single bit if it is one as a natural number. -/
theorem eq_two_pow {v : Int} {bit : Nat} (hpos : 0 < v) (h : v.toNat = 2 ^ bit) : v = 2 ^ bit := by
  rw [← Int.toNat_of_nonneg (Int.le_of_lt hpos), h, Int.natCast_pow]
  rfl

/-- The entries that the scan finds for `n` are those for the powers of two of its bits. -/
theorem mem_bitsOf {n m : Nat} :
    (m, name) ∈ bitsOf es n ↔ ∃ bit, n.testBit bit = true ∧ m = 2 ^ bit ∧ ((2 : Int) ^ bit, name) ∈ es := by
  simp only [bitsOf, List.mem_filterMap, Prod.exists, Option.ite_none_right_eq_some, Bool.and_eq_true,
    decide_eq_true_eq, Option.some.injEq, Prod.mk.injEq]
  constructor
  · intro h
    obtain ⟨v, name', hmem, ⟨⟨hpos, hsingle⟩, htest⟩, rfl, rfl⟩ := h
    obtain ⟨bit, hpower⟩ := isSingleBit_iff.1 hsingle
    rw [hpower, Nat.log2_two_pow] at htest
    rw [eq_two_pow hpos hpower] at hmem
    exact ⟨bit, htest, hpower, hmem⟩
  · intro h
    obtain ⟨bit, htest, rfl, hmem⟩ := h
    have hpos : (0 : Int) < 2 ^ bit := Int.pow_pos (by decide)
    have hsingle : isSingleBit (2 ^ bit) = true := isSingleBit_iff.2 ⟨bit, rfl⟩
    refine ⟨(2 : Int) ^ bit, name, hmem, ?_⟩
    rw [toNat_two_pow, Nat.log2_two_pow]
    exact ⟨⟨⟨hpos, hsingle⟩, htest⟩, rfl, rfl⟩

theorem ascending_bitsOf (t : LabelTable) (n : Nat) :
    ((bitsOf t.entries n).map Prod.fst).Pairwise (· < ·) := by
  rw [List.pairwise_map, bitsOf, List.pairwise_filterMap]
  refine (List.pairwise_map.1 t.ascending).imp ?_
  intro e e' hlt b hb b' hb'
  simp only [Option.ite_none_right_eq_some, Bool.and_eq_true, decide_eq_true_eq, Option.some.injEq]
    at hb hb'
  obtain ⟨-, rfl⟩ := hb
  obtain ⟨⟨⟨hpos, -⟩, -⟩, rfl⟩ := hb'
  exact (Int.toNat_lt_toNat hpos).2 hlt

/-- What the scan finds are the bits of `n` that have a name, in their order. -/
theorem bitsOf_eq (t : LabelTable) (n : Nat) :
    bitsOf t.entries n =
      n.bitIndices.filterMap fun bit => (t.entries.lookup (2 ^ bit)).map fun name => (2 ^ bit, name) := by
  refine eq_of_ascending (t.ascending_bitsOf n) ?_ ?_
  · rw [List.pairwise_map, List.pairwise_filterMap]
    refine Nat.bitIndices_sorted.pairwise.imp fun {bit bit'} hlt b hb b' hb' => ?_
    obtain ⟨name, -, rfl⟩ := Option.map_eq_some_iff.1 hb
    obtain ⟨name', -, rfl⟩ := Option.map_eq_some_iff.1 hb'
    exact Nat.pow_lt_pow_right (by decide) hlt
  · intro e
    obtain ⟨m, name⟩ := e
    simp only [mem_bitsOf, List.mem_filterMap, Nat.mem_bitIndices, Option.map_eq_some_iff, Prod.mk.injEq,
      t.lookup_eq_some_iff]
    constructor
    · intro h
      obtain ⟨bit, htest, hm, hmem⟩ := h
      exact ⟨bit, htest, name, hmem, hm.symm, rfl⟩
    · intro h
      obtain ⟨bit, htest, name', hmem, hm, rfl⟩ := h
      exact ⟨bit, htest, hm.symm, hmem⟩

theorem testBit_foldr_or (ms : List Nat) (i : Nat) :
    (ms.foldr (· ||| ·) 0).testBit i = true ↔ ∃ m ∈ ms, m.testBit i = true := by
  induction ms with
  | nil => simp
  | cons m ms ih => simp [ih]

/-- The bits that the scan for `n` collects. -/
def mask (es : List (Int × String)) (n : Nat) : Nat := ((bitsOf es n).map Prod.fst).foldr (· ||| ·) 0

/-- The mask has those bits of `n` that have a name. -/
theorem testBit_mask (t : LabelTable) (n i : Nat) :
    (mask t.entries n).testBit i = true ↔
      n.testBit i = true ∧ ∃ name, t.entries.lookup (2 ^ i) = some name := by
  rw [mask, testBit_foldr_or]
  constructor
  · intro h
    obtain ⟨m, hm, htest⟩ := h
    obtain ⟨⟨m, name⟩, hfound, rfl⟩ := List.mem_map.1 hm
    obtain ⟨bit, hbit, rfl, hmem⟩ := mem_bitsOf.1 hfound
    rw [Nat.testBit_two_pow, decide_eq_true_eq] at htest
    subst htest
    exact ⟨hbit, name, t.lookup_eq_some_iff.2 hmem⟩
  · intro h
    obtain ⟨hbit, name, hname⟩ := h
    have hfound : (2 ^ i, name) ∈ bitsOf t.entries n :=
      mem_bitsOf.2 ⟨i, hbit, rfl, t.lookup_eq_some_iff.1 hname⟩
    exact ⟨2 ^ i, List.mem_map_of_mem hfound, by simp⟩

/-- The mask is the number if and only if no bit of the number is without a name. -/
theorem mask_eq_iff (t : LabelTable) (n : Nat) : mask t.entries n = n ↔
    ∀ bit, n.testBit bit = true → ∃ name, t.entries.lookup (2 ^ bit) = some name := by
  constructor
  · intro heq bit hbit
    rw [← heq, testBit_mask] at hbit
    exact hbit.2
  · intro hnames
    refine Nat.eq_of_testBit_eq fun i => Bool.eq_iff_iff.2 ((t.testBit_mask n i).trans ?_)
    exact ⟨fun h => h.1, fun hbit => ⟨hbit, hnames i hbit⟩⟩

/-- The names of the single bits of `n`, from the lowest upwards, if `name?` has one for each. -/
def bitNames? (name? : Int → Option String) (n : Nat) : Option (List String) :=
  n.bitIndices.mapM fun bit => name? (2 ^ bit)

theorem bitNames?_eq_some_iff {name? : Int → Option String} {n : Nat} {names : List String} :
    bitNames? name? n = some names ↔ (n.bitIndices.map fun bit => name? (2 ^ bit)) = names.map some :=
  mapM_eq_some_iff

theorem exists_bitNames?_iff (name? : Int → Option String) {n : Nat} :
    (∃ names, bitNames? name? n = some names) ↔
      ∀ bit, n.testBit bit = true → ∃ name, name? (2 ^ bit) = some name := by
  constructor
  · intro h bit hbit
    obtain ⟨names, hnames⟩ := h
    have hmem : name? (2 ^ bit) ∈ names.map some := by
      rw [← bitNames?_eq_some_iff.1 hnames]
      exact List.mem_map_of_mem (Nat.mem_bitIndices.2 hbit)
    obtain ⟨name, -, hname⟩ := List.mem_map.1 hmem
    exact ⟨name, hname.symm⟩
  · intro h
    refine ⟨n.bitIndices.map fun bit => (name? (2 ^ bit)).getD "", bitNames?_eq_some_iff.2 ?_⟩
    rw [List.map_map]
    refine List.map_congr_left fun bit hbit => ?_
    obtain ⟨name, hname⟩ := h bit (Nat.mem_bitIndices.1 hbit)
    simp [hname]

/-- A composite is put together exactly if all bits are named, from their names in ascending order. -/
theorem compose?_eq (t : LabelTable) {n : Nat} (hn : n ≠ 0) :
    compose? t.entries n = (bitNames? (fun v => t.entries.lookup v) n).map "|".intercalate := by
  have hmask := (t.mask_eq_iff n).trans (exists_bitNames?_iff fun v => t.entries.lookup v).symm
  change (if n ≠ 0 ∧ mask t.entries n = n then
    some ("|".intercalate ((bitsOf t.entries n).map Prod.snd)) else none) = _
  cases h : bitNames? (fun v => t.entries.lookup v) n with
  | none =>
    have hnot : mask t.entries n ≠ n := by
      rw [ne_eq, hmask, h]
      simp
    rw [if_neg fun hboth => hnot hboth.2, Option.map_none]
  | some names =>
    have hnames : (bitsOf t.entries n).map Prod.snd = names := by
      rw [bitsOf_eq, List.map_filterMap, ← filterMap_eq_of_map_eq (bitNames?_eq_some_iff.1 h)]
      simp [Function.comp_def]
    rw [if_pos ⟨hn, hmask.2 ⟨names, h⟩⟩, hnames, Option.map_some]

/-- In a table of flags a number has its own name, or else those of its bits. -/
theorem label?_eq {t : LabelTable} (hflags : t.mode = .flags) (value : Int) :
    t.label? value = (t.entries.lookup value).or
      (if 0 < value then (bitNames? (fun v => t.entries.lookup v) value.toNat).map "|".intercalate
        else none) := by
  rw [label?, hflags]
  cases t.entries.lookup value with
  | some name => rfl
  | none =>
    rw [Option.none_or]
    by_cases hpos : 0 < value
    · have hn : value.toNat ≠ 0 := by omega
      rw [if_pos hpos, ← t.compose?_eq hn]
    · have hzero : value.toNat = 0 := by omega
      rw [if_neg hpos, hzero]
      rfl

theorem label?_ofPairs (pairs : List (Int × String)) (value : Int) :
    (ofPairs .flags pairs).label? value = (named pairs value).or
      (if 0 < value then (bitNames? (named pairs) value.toNat).map "|".intercalate else none) := by
  rw [label?_eq rfl]
  simp only [lookup_ofPairs]

theorem label?_eq_none_iff (pairs : List (Int × String)) (value : Int) :
    (ofPairs .flags pairs).label? value = none ↔ named pairs value = none ∧
      (0 < value → ∃ bit, value.toNat.testBit bit = true ∧ named pairs (2 ^ bit) = none) := by
  rw [label?_ofPairs, Option.or_eq_none_iff]
  refine and_congr_right fun _ => ?_
  by_cases hpos : 0 < value
  · have hbits := not_congr (exists_bitNames?_iff (named pairs) (n := value.toNat))
    rw [if_pos hpos, Option.map_eq_none_iff, Option.eq_none_iff_forall_ne_some, ← not_exists, hbits]
    simp [hpos, Option.eq_none_iff_forall_ne_some]
  · simp [hpos]

/-- Only the pairs for the number itself and for single bits have a say. -/
theorem label?_congr {others : List (Int × String)} (hown : named pairs value = named others value)
    (hbits : ∀ bit : Nat, named pairs (2 ^ bit) = named others (2 ^ bit)) :
    (ofPairs .flags pairs).label? value = (ofPairs .flags others).label? value := by
  rw [label?_ofPairs, label?_ofPairs, hown]
  simp only [bitNames?, hbits]

theorem named_of_ne {before after : List (Int × String)} {p : Int × String} {v : Int} (hne : p.1 ≠ v) :
    named (before ++ p :: after) v = named (before ++ after) v := by
  simp [named, hne]

/-- The label of a number in a table of flags made from pairs is the last name given to the number. If
there is none, it is the last names of its bits, which all need one, in ascending order. Pairs for numbers
with no bit or with several do not matter for other numbers, and neither does the order of the pairs but
for those of one number. -/
theorem label?_flags (pairs : List (Int × String)) (value : Int) :
    (ofPairs .flags pairs).label? value = (named pairs value).or
      (if 0 < value then (bitNames? (named pairs) value.toNat).map "|".intercalate else none) ∧
    ((ofPairs .flags pairs).label? value = none ↔ named pairs value = none ∧
      (0 < value → ∃ bit, value.toNat.testBit bit = true ∧ named pairs (2 ^ bit) = none)) ∧
    (∀ before p after, pairs = before ++ p :: after → p.1 ≠ value → (∀ bit : Nat, p.1 ≠ 2 ^ bit) →
      (ofPairs .flags pairs).label? value = (ofPairs .flags (before ++ after)).label? value) ∧
    ∀ others : List (Int × String),
      (∀ v, pairs.filter (fun p => p.1 = v) = others.filter fun p => p.1 = v) →
        ofPairs .flags pairs = ofPairs .flags others := by
  refine ⟨label?_ofPairs pairs value, label?_eq_none_iff pairs value, ?_, ?_⟩
  · intro before p after hpairs hown hbits
    subst hpairs
    exact label?_congr (named_of_ne hown) fun bit => named_of_ne (hbits bit)
  · intro others hsame
    apply ext_lookup
    · rfl
    · intro v
      rw [lookup_ofPairs, lookup_ofPairs, named, hsame, named]

/-- Rights and one of their sums, with a second name for one of them. -/
def access : List (Int × String) := [(6, "WX"), (4, "X"), (2, "W"), (1, "R"), (2, "w")]

/-- The name of the sum is of no use for a larger number, and rights may come in any order as long as the
two names of one do not change places. -/
theorem label?_flags_access :
    (ofPairs .flags access).label? 7 = some "R|w|X" ∧
    (ofPairs .flags [(4, "X"), (2, "W"), (1, "R"), (2, "w")]).label? 7 = some "R|w|X" ∧
    (ofPairs .flags access).label? 9 = none ∧
    ofPairs .flags access = ofPairs .flags [(2, "W"), (1, "R"), (2, "w"), (4, "X"), (6, "WX")] := by
  have hseven : (ofPairs .flags access).label? 7 = some "R|w|X" := by decide +kernel
  have hsum (bit : Nat) : (6 : Int) ≠ 2 ^ bit := by
    intro h
    have hsix : 6 = 2 ^ bit := (congrArg Int.toNat h).trans (toNat_two_pow bit)
    exact absurd (isSingleBit_iff.2 ⟨bit, hsix⟩) (by decide)
  refine ⟨hseven, ?_, ?_, ?_⟩
  · rw [← hseven]
    exact ((label?_flags access 7).2.2.1 [] (6, "WX") _ rfl (by decide) hsum).symm
  · exact (label?_flags access 9).2.1.2 ⟨by decide +kernel, fun _ => ⟨3, by decide, by decide +kernel⟩⟩
  · apply (label?_flags access 7).2.2.2
    intro v
    grind [access]

end LabelTable

end PackedStruct
