import PackedStruct.Proofs.DecimalText
import PackedStruct.Proofs.Nearest
/-!
The fewest digits that single out a floating-point number. The grids of decimal numbers are searched from the
coarsest one; a decimal number in the cell with few digits makes a coarse grid meet the cell.
-/

namespace PackedStruct.Decimal

variable {p : Precision} {tie : Tie} {m n j : ℕ} {q k : ℤ}

theorem number_cell (p : Precision) (m : ℕ) (q : ℤ) : (cell p m q).number = m * 2 ^ q := by
  have hunit := Ratio.value_ofDyadic 1 (q - 2)
  rw [Ratio.value, zpow_sub₀ (by norm_num)] at hunit
  simp only [Cell.number, cell]
  push_cast
  rw [mul_div_assoc, hunit]
  norm_num
  ring

/-- In any units, a cell contains its number. -/
theorem contains_number (hm : 0 < m) (k : ℤ) :
    ((cell p m q).inUnits k).Contains ((cell p m q).inUnits k).number := by
  rw [Cell.contains_inUnits, Cell.number_inUnits, div_mul_cancel₀ _ (by positivity), number_cell]
  exact contains_self hm

/-- A decimal number in the cell makes the grid with as many digits meet the cell. -/
theorem contains_grid (hm : 0 < m) (h : (cell p m q).Contains (n * 10 ^ k)) :
    ∃ j : ℕ, (cell p m q).Contains (j * 10 ^ (Int.log 10 (m * 2 ^ q : ℚ) + 1 - Ratio.digitCount n)) := by
  have hten : (10 : ℚ) ≠ 0 := by norm_num
  have hvalue : (0 : ℚ) < m * 2 ^ q := by positivity
  obtain ⟨hlow, -⟩ := log_bounds hvalue
  generalize Int.log 10 (m * 2 ^ q : ℚ) = e at hlow ⊢
  by_cases hfine : e + 1 - Ratio.digitCount n ≤ k
  · -- the number itself is on the grid
    obtain ⟨shift, hshift⟩ := Int.eq_ofNat_of_zero_le (by omega : 0 ≤ k - (e + 1 - Ratio.digitCount n))
    refine ⟨n * 10 ^ shift, ?_⟩
    have hsame : ((n * 10 ^ shift : ℕ) : ℚ) * 10 ^ (e + 1 - Ratio.digitCount n : ℤ) = n * 10 ^ k := by
      push_cast
      rw [mul_assoc, ← zpow_natCast, ← zpow_add₀ hten]
      congr 2
      omega
    rwa [hsame]
  · -- the number is below the power of ten under the value, which then is in the cell
    have hpower : (n : ℚ) * 10 ^ k ≤ 10 ^ e := by
      have hcount : (n : ℚ) < 10 ^ Ratio.digitCount n := by exact_mod_cast Ratio.lt_ten_pow_digitCount n
      calc (n : ℚ) * 10 ^ k
        _ ≤ 10 ^ Ratio.digitCount n * 10 ^ k := by gcongr
        _ = 10 ^ (Ratio.digitCount n + k : ℤ) := by rw [zpow_add₀ hten, zpow_natCast]
        _ ≤ 10 ^ e := zpow_le_zpow_right₀ (by norm_num) (by omega)
    refine ⟨10 ^ (Ratio.digitCount n - 1), ?_⟩
    have hcount := Ratio.digitCount_pos n
    have hsame : ((10 ^ (Ratio.digitCount n - 1) : ℕ) : ℚ) * 10 ^ (e + 1 - Ratio.digitCount n : ℤ) = 10 ^ e := by
      push_cast
      rw [← zpow_natCast, ← zpow_add₀ hten]
      congr 1
      omega
    rw [hsame]
    exact h.between (contains_self hm) hpower hlow

/-- The grid of seventeen digits always meets the cell. -/
theorem grid_wide (hm : 0 < m) (hcoefficient : m < 2 * 2 ^ p.fraction) (hprecision : 2 * 2 ^ p.fraction < 10 ^ 16) :
    let c := (cell p m q).inUnits (Int.log 10 (m * 2 ^ q : ℚ) - 16)
    c.low + c.den < c.high := by
  intro c
  have hten : (10 : ℚ) ≠ 0 := by norm_num
  obtain ⟨hlow, -⟩ := log_bounds (by positivity : (0 : ℚ) < m * 2 ^ q)
  have hup : (0 : ℚ) < 10 ^ (-(Int.log 10 (m * 2 ^ q : ℚ) - 16)).toNat := by positivity
  have hden : (0 : ℚ) < (cell p m q).den := by exact_mod_cast den_cell p m q
  have hpower : (0 : ℚ) < 2 ^ q := by positivity
  have hunit : (10 : ℚ) ^ (Int.log 10 (m * 2 ^ q : ℚ) - 16) * 10 ^ 16 ≤ m * 2 ^ q := by
    rw [← zpow_natCast, ← zpow_add₀ hten]
    simpa using hlow
  have hgap : (10 : ℚ) ^ (Int.log 10 (m * 2 ^ q : ℚ) - 16) < (2 + below p m q) * (2 ^ q / 4) := by
    have hcoefficient' : (m : ℚ) < 2 * 2 ^ p.fraction := by exact_mod_cast hcoefficient
    have hprecision' : (2 * 2 ^ p.fraction : ℚ) < 10 ^ 16 := by exact_mod_cast hprecision
    rw [below]
    split_ifs with hbinade
    · have hm' : (m : ℚ) = 2 ^ p.fraction := by exact_mod_cast hbinade.1
      push_cast
      nlinarith
    · push_cast
      nlinarith
  have hwide : (c.low : ℚ) + c.den < c.high := by
    rw [Cell.low_inUnits, Cell.high_inUnits, Cell.cast_den_inUnits, low_cell hm, high_cell, ← add_mul]
    apply mul_lt_mul_of_pos_right _ hup
    nlinarith
  exact_mod_cast hwide

/-- The first grid that meets the cell, and the integer that is found there. -/
structure Found (p : Precision) (tie : Tie) (m : ℕ) (q : ℤ) (count n : ℕ) : Prop where
  le : count ≤ 16
  found : ((cell p m q).inUnits (Int.log 10 (m * 2 ^ q : ℚ) - count)).integer? tie = some n
  first : ∀ j < count, ((cell p m q).inUnits (Int.log 10 (m * 2 ^ q : ℚ) - j)).integer? tie = none

theorem exists_of_findSome?_range {α : Type} {f : ℕ → Option α} {a : α}
    (h : (List.range n).findSome? f = some a) : ∃ i < n, f i = some a ∧ ∀ j < i, f j = none := by
  induction n with
  | zero => cases h
  | succ n ih =>
    rw [List.range_succ, List.findSome?_append] at h
    cases hfirst : (List.range n).findSome? f with
    | some b =>
      rw [hfirst] at h ih
      cases h
      obtain ⟨i, hi, hvalue, hnone⟩ := ih rfl
      exact ⟨i, by omega, hvalue, hnone⟩
    | none =>
      rw [hfirst] at h
      have hnone := List.findSome?_eq_none_iff.1 hfirst
      exact ⟨n, by omega, by simpa using h, fun j hj => hnone j (List.mem_range.2 hj)⟩

theorem exponent10_cell (hm : 0 < m) :
    Ratio.exponent10 ⟨(cell p m q).value, (cell p m q).den⟩ = Int.log 10 (m * 2 ^ q : ℚ) := by
  have hvalue : 0 < (cell p m q).value :=
    Nat.mul_pos (by omega) (Ratio.num_ofDyadic Nat.one_pos _)
  exact (Ratio.exponent10_eq (r := ⟨_, _⟩) hvalue (den_cell p m q)).trans
    (congrArg (Int.log 10) (number_cell p m q))

/-- The integer that is found in the cell on the grid of numbers with `count` digits behind the first one. -/
def grid (p : Precision) (tie : Tie) (m : ℕ) (q : ℤ) (count : ℕ) : Option (ℕ × ℤ) :=
  (((cell p m q).inUnits (Int.log 10 (m * 2 ^ q : ℚ) - count)).integer? tie).map fun n =>
    (n, Int.log 10 (m * 2 ^ q : ℚ) - count)

theorem shortest_of_search (hm : 0 < m) (h : (List.range 17).findSome? (grid p tie m q) = some (n, k)) :
    shortest p tie m q = ⟨strip (digitsOf n), k + (digitsOf n).length - 1⟩ := by
  unfold grid at h
  simp only [shortest, if_neg hm.ne', exponent10_cell hm, h]

/-- The search for the shortest digits ends at the first grid that meets the cell. -/
theorem exists_found (hm : 0 < m) (hcoefficient : m < 2 * 2 ^ p.fraction) (hprecision : 2 * 2 ^ p.fraction < 10 ^ 16)
    (tie : Tie) :
    ∃ count n, Found p tie m q count n ∧
      shortest p tie m q = ⟨strip (digitsOf n),
        Int.log 10 (m * 2 ^ q : ℚ) - count + (digitsOf n).length - 1⟩ := by
  have hlast : grid p tie m q 16 ≠ none := by
    have hwide := Cell.integer?_ne_none_of_wide tie (Cell.den_inUnits (den_cell p m q) _) (contains_number hm _)
      (grid_wide hm hcoefficient hprecision)
    simpa [grid] using hwide
  obtain ⟨⟨n, k⟩, hfound⟩ : ∃ a, (List.range 17).findSome? (grid p tie m q) = some a := by
    apply Option.ne_none_iff_exists'.1
    intro hnone
    exact hlast (List.findSome?_eq_none_iff.1 hnone 16 (by decide))
  have hshortest := shortest_of_search hm hfound
  obtain ⟨count, hcount, hgrid, hfirst⟩ := exists_of_findSome?_range hfound
  obtain ⟨n', hn', hpair⟩ := Option.map_eq_some_iff.1 hgrid
  cases hpair
  exact ⟨count, n, ⟨by omega, hn', fun j hj => Option.map_eq_none_iff.1 (hfirst j hj)⟩, hshortest⟩

namespace Found

variable {count count' n' : ℕ}

theorem contains (h : Found p tie m q count n) :
    (cell p m q).Contains (n * 10 ^ (Int.log 10 (m * 2 ^ q : ℚ) - count)) :=
  (Cell.contains_inUnits _ _).1 ((Cell.holds_iff _ _).1 (Cell.integer?_eq_some h.found).1)

/-- Only one grid is the first that meets the cell. -/
theorem unique (h : Found p tie m q count n) (h' : Found p tie m q count' n') : count = count' ∧ n = n' := by
  have hle : count ≤ count' := by
    by_contra hlt
    have hnone := h.first count' (by omega)
    rw [h'.found] at hnone
    cases hnone
  have hge : count' ≤ count := by
    by_contra hlt
    have hnone := h'.first count (by omega)
    rw [h.found] at hnone
    cases hnone
  obtain rfl : count = count' := by omega
  exact ⟨rfl, Option.some.inj (h.found.symm.trans h'.found)⟩

/-- A decimal number in the cell has as many digits as the first grid that meets the cell, or more. -/
theorem le_digitCount (h : Found p tie m q count n) (hm : 0 < m) (hin : (cell p m q).Contains (n' * 10 ^ k)) :
    count + 1 ≤ Ratio.digitCount n' := by
  have hcount := Ratio.digitCount_pos n'
  obtain ⟨j, hj⟩ := contains_grid hm hin
  by_contra hlt
  have hunits : (Int.log 10 (m * 2 ^ q : ℚ) + 1 - Ratio.digitCount n') =
      Int.log 10 (m * 2 ^ q : ℚ) - (Ratio.digitCount n' - 1 : ℕ) := by omega
  rw [hunits, ← Cell.contains_inUnits] at hj
  exact Cell.integer?_ne_none tie (Cell.den_inUnits (den_cell p m q) _) (contains_number hm _) hj
    (h.first _ (by omega))

/-- The integer that is found has the digits of its grid, or it is the next power of ten. -/
theorem le_pow (h : Found p tie m q count n) (hm : 0 < m) : n ≤ 10 ^ (count + 1) := by
  have hden := Cell.den_inUnits (den_cell p m q) (Int.log 10 (m * 2 ^ q : ℚ) - count)
  have hfloor := ((cell p m q).inUnits (Int.log 10 (m * 2 ^ q : ℚ) - count)).floor_le_number
  obtain ⟨-, hhigh⟩ := log_bounds (by positivity : (0 : ℚ) < m * 2 ^ q)
  have hplace : ((count + 1 : ℕ) : ℤ) + (Int.log 10 (m * 2 ^ q : ℚ) - count) = Int.log 10 (m * 2 ^ q : ℚ) + 1 := by
    push_cast
    ring
  have hnumber : ((cell p m q).inUnits (Int.log 10 (m * 2 ^ q : ℚ) - count)).number < 10 ^ (count + 1) := by
    rw [Cell.number_inUnits, number_cell, div_lt_iff₀ (by positivity), ← zpow_natCast, ← zpow_add₀ (by norm_num),
      hplace]
    exact hhigh
  have hlt : ((cell p m q).inUnits (Int.log 10 (m * 2 ^ q : ℚ) - count)).value /
      ((cell p m q).inUnits (Int.log 10 (m * 2 ^ q : ℚ) - count)).den < 10 ^ (count + 1) := by
    exact_mod_cast hfloor.trans_lt hnumber
  rcases (Cell.integer?_eq_some h.found).2 with rfl | rfl <;> omega

end Found

/-- A power of ten without its zeros is one digit. -/
theorem strip_pow (k : ℕ) : strip (digitsOf (10 ^ k)) = ['1'] := by
  induction k with
  | zero => rfl
  | succ k ih =>
    have hle : 10 ≤ 10 ^ (k + 1) := by
      rw [Nat.pow_succ]
      exact Nat.le_mul_of_pos_left _ (Nat.pow_pos (by decide))
    rw [digitsOf, Nat.toDigits_of_base_le (by decide) hle, Nat.pow_succ, Nat.mul_div_cancel _ (by decide),
      Nat.mul_mod_left]
    exact (Text.dropEndWhile_append (List.forall_mem_singleton.2 rfl)).trans ih

theorem length_strip_le {count : ℕ} (h : n ≤ 10 ^ (count + 1)) : (strip (digitsOf n)).length ≤ count + 1 := by
  rcases h.eq_or_lt with rfl | hlt
  · rw [strip_pow]
    exact Nat.succ_le_succ (Nat.zero_le _)
  · obtain ⟨j, hzeros⟩ := exists_zeros (digitsOf n)
    have hlength := congrArg List.length hzeros
    have hle := (Nat.length_toDigits_le_iff (by decide) (Nat.succ_pos count)).2 hlt
    rw [List.length_append] at hlength
    change (Text.dropEndWhile (· = '0') (digitsOf n)).length ≤ _
    have hdigits : (digitsOf n).length ≤ count + 1 := hle
    omega

/-- Without the zeros at their end, digits stand for the same number. -/
theorem scaled_strip (n : ℕ) (k : ℤ) :
    scaled (strip (digitsOf n)) (k + (digitsOf n).length - (strip (digitsOf n)).length) = n * 10 ^ k := by
  obtain ⟨j, hzeros⟩ := exists_zeros (digitsOf n)
  have hlength : (digitsOf n).length = (strip (digitsOf n)).length + j := by
    conv_lhs => rw [hzeros]
    simp [zeros, strip, Text.dropEndWhile]
  have hvalue : scaled (digitsOf n) k = n * 10 ^ k := by
    rw [scaled, digitsOf, Nat.ofDigitChars_ten_toDigits]
  have hplace : k + (digitsOf n).length - (strip (digitsOf n)).length = k + j := by omega
  rw [hplace, ← hvalue, ← scaled_append_zeros]
  conv_rhs => rw [hzeros]
  rfl

/-- Whether the decimal number `n · 10^k` is rounded to `m · 2^q`. -/
def ReadsAs (p : Precision) (m : ℕ) (q : ℤ) (n : ℕ) (k : ℤ) : Prop :=
  p.nearest (Ratio.scale10 ⟨n, 1⟩ k) = p.pattern m q

theorem value_decimal (n : ℕ) (k : ℤ) : (Ratio.scale10 ⟨n, 1⟩ k).value = n * 10 ^ k := by
  rw [Ratio.value_scale10, Ratio.value, Nat.cast_one, div_one]

theorem nearest_zero (p : Precision) (k : ℤ) : p.nearest (Ratio.scale10 ⟨0, 1⟩ k) = 0 := by
  simp [Precision.nearest, Ratio.scale10]

/-- It does not matter how the number is written. -/
theorem ReadsAs.congr {k' : ℤ} (h : ReadsAs p m q n k) (hvalue : (n * 10 ^ k : ℚ) = j * 10 ^ k') :
    ReadsAs p m q j k' := by
  rw [ReadsAs, ← h]
  apply Precision.nearest_congr (Ratio.den_scale10 Nat.one_pos k') (Ratio.den_scale10 Nat.one_pos k)
  rw [value_decimal, value_decimal, hvalue]

theorem readsAs_iff (hfraction : 0 < p.fraction) (h : p.Canonical m q) (hm : 0 < m) :
    ReadsAs p m q n k ↔ (cell p m q).Contains (n * 10 ^ k) := by
  rcases Nat.eq_zero_or_pos n with rfl | hn
  · have hpattern : 0 < p.pattern m q := Nat.lt_of_lt_of_le hm (Nat.le_add_left _ _)
    constructor
    · intro hreads
      rw [ReadsAs, nearest_zero] at hreads
      omega
    · intro hin
      have hpos := pos_of_contains hm hin
      simp at hpos
  · have hnum : 0 < (Ratio.scale10 ⟨n, 1⟩ k).num := Nat.mul_pos hn (Nat.pow_pos (by decide))
    rw [ReadsAs, Precision.nearest_eq_pattern_iff hfraction h hm hnum (Ratio.den_scale10 Nat.one_pos k), value_decimal]

/-- The decimal number that digits stand for, as an integer and a power of ten. -/
def coefficientOf (d : Digits) : ℕ := Nat.ofDigitChars 10 d.digits 0

def unitOf (d : Digits) : ℤ := d.exponent + 1 - d.digits.length

/-- Digits that are rounded to `m · 2^q`, of which no decimal number that is rounded to it has fewer. -/
structure IsShortest (p : Precision) (m : ℕ) (q : ℤ) (d : Digits) : Prop where
  ne_nil : d.digits ≠ []
  isDigit : ∀ c ∈ d.digits, c.isDigit = true
  reads : ReadsAs p m q (coefficientOf d) (unitOf d)
  fewest : ∀ n k, ReadsAs p m q n k → d.digits.length ≤ Ratio.digitCount n

theorem scaled_digits (d : Digits) : scaled d.digits (unitOf d) = coefficientOf d * 10 ^ unitOf d := rfl

/-- The digits of an integer on a grid stand for its number. -/
theorem value_shortest {e : ℤ} (heq : shortest p tie m q = ⟨strip (digitsOf n), e + (digitsOf n).length - 1⟩) :
    (coefficientOf (shortest p tie m q) * 10 ^ unitOf (shortest p tie m q) : ℚ) = n * 10 ^ e := by
  have hunit : unitOf (shortest p tie m q) = e + (digitsOf n).length - (strip (digitsOf n)).length := by
    rw [heq, unitOf]
    ring
  rw [← scaled_digits, hunit, ← scaled_strip, heq]

/-- The digits that are found are the shortest ones. -/
theorem isShortest_shortest (hfraction : 0 < p.fraction) (hprecision : 2 * 2 ^ p.fraction < 10 ^ 16)
    (h : p.Canonical m q) (tie : Tie) : IsShortest p m q (shortest p tie m q) := by
  rcases Nat.eq_zero_or_pos m with rfl | hm
  · have hq : q = p.least := by
      by_contra hne
      have hnormal := h.normal (lt_of_le_of_ne h.least (Ne.symm hne))
      have hpos := Nat.two_pow_pos p.fraction
      omega
    have hzero : shortest p tie 0 q = ⟨['0'], 0⟩ := rfl
    have hcoefficient : coefficientOf ⟨['0'], 0⟩ = 0 := rfl
    rw [hzero]
    refine ⟨List.cons_ne_nil _ _, List.forall_mem_singleton.2 rfl, ?_, fun n k _ => Ratio.digitCount_pos n⟩
    rw [ReadsAs, hcoefficient, nearest_zero, hq]
    simp [Precision.pattern]
  · obtain ⟨count, n, hfound, heq⟩ := exists_found hm h.coefficient hprecision tie
    have hreads : ReadsAs p m q (coefficientOf (shortest p tie m q)) (unitOf (shortest p tie m q)) := by
      rw [readsAs_iff hfraction h hm, value_shortest heq]
      exact hfound.contains
    have hpos : (0 : ℚ) < coefficientOf (shortest p tie m q) * 10 ^ unitOf (shortest p tie m q) :=
      pos_of_contains hm ((readsAs_iff hfraction h hm).1 hreads)
    refine ⟨fun hnil => ?_, fun c hc => ?_, hreads, fun n' k hin => ?_⟩
    · rw [coefficientOf, hnil] at hpos
      simp at hpos
    · rw [heq] at hc
      have hmem : c ∈ digitsOf n := by
        obtain ⟨j, hzeros⟩ := exists_zeros (digitsOf n)
        rw [hzeros]
        exact List.mem_append_left _ hc
      exact Nat.isDigit_of_mem_toDigits (by decide) (by decide) hmem
    · rw [heq]
      exact (length_strip_le (hfound.le_pow hm)).trans
        (hfound.le_digitCount hm ((readsAs_iff hfraction h hm).1 hin))

variable {p' : Precision} {m' : ℕ} {q' : ℤ}

/-- The digits that are found stay the ones that are found in a narrower cell, if they are in there. -/
theorem Found.narrow {count : ℕ} (h : Found p tie m q count n) (hvalue : (m' * 2 ^ q' : ℚ) = m * 2 ^ q)
    (hsub : ∀ x, (cell p' m' q').Contains x → (cell p m q).Contains x)
    (hin : (cell p' m' q').Contains (n * 10 ^ (Int.log 10 (m * 2 ^ q : ℚ) - count))) :
    Found p' tie m' q' count n := by
  have hden (k : ℤ) : 0 < ((cell p m q).inUnits k).den := Cell.den_inUnits (den_cell p m q) k
  have hden' (k : ℤ) : 0 < ((cell p' m' q').inUnits k).den := Cell.den_inUnits (den_cell p' m' q') k
  have hholds (k : ℤ) (j : ℕ) (hj : ((cell p' m' q').inUnits k).holds j = true) :
      ((cell p m q).inUnits k).holds j = true := by
    rw [Cell.holds_iff, Cell.contains_inUnits] at hj ⊢
    exact hsub _ hj
  have hnumber (k : ℤ) : ((cell p m q).inUnits k).value * ((cell p' m' q').inUnits k).den =
      ((cell p' m' q').inUnits k).value * ((cell p m q).inUnits k).den := by
    have hden : (((cell p m q).inUnits k).den : ℚ) ≠ 0 := by exact_mod_cast (hden k).ne'
    have hden' : (((cell p' m' q').inUnits k).den : ℚ) ≠ 0 := by exact_mod_cast (hden' k).ne'
    have hsame : ((cell p m q).inUnits k).number = ((cell p' m' q').inUnits k).number := by
      rw [Cell.number_inUnits, Cell.number_inUnits, number_cell, number_cell, hvalue]
    exact_mod_cast (div_eq_div_iff hden hden').1 hsame
  constructor
  · exact h.le
  · rw [hvalue]
    refine Cell.integer?_narrow (hden _) (hden' _) (hnumber _) (hholds _) h.found ?_
    rwa [Cell.holds_iff, Cell.contains_inUnits]
  · intro j hj
    rw [hvalue]
    obtain ⟨hfloor, hnext⟩ := Cell.integer?_eq_none_iff.1 (h.first j hj)
    rw [Cell.integer?_eq_none_iff, ← floor_congr (hden _) (hden' _) (hnumber _)]
    exact ⟨Bool.eq_false_of_not_eq_true fun hholds' => by simp [hholds _ _ hholds'] at hfloor,
      Bool.eq_false_of_not_eq_true fun hholds' => by simp [hholds _ _ hholds'] at hnext⟩

/-- A finer precision has the same shortest digits for a number exactly if they are rounded to it there as well. -/
theorem shortest_eq_iff (hprecision : 2 * 2 ^ p.fraction < 10 ^ 16) (h : p.Canonical m q)
    (hfraction' : 0 < p'.fraction) (hprecision' : 2 * 2 ^ p'.fraction < 10 ^ 16) (h' : p'.Canonical m' q')
    (hvalue : (m' * 2 ^ q' : ℚ) = m * 2 ^ q) (hunit : 0 < m → q' + 2 ≤ q) (tie : Tie) :
    shortest p' tie m' q' = shortest p tie m q ↔
      ReadsAs p' m' q' (coefficientOf (shortest p tie m q)) (unitOf (shortest p tie m q)) := by
  constructor
  · intro heq
    rw [← heq]
    exact (isShortest_shortest hfraction' hprecision' h' tie).reads
  · intro hreads
    have hpos : 0 < m' ↔ 0 < m := by
      have hpower : (0 : ℚ) < 2 ^ q := by positivity
      have hpower' : (0 : ℚ) < 2 ^ q' := by positivity
      have hiff : (0 : ℚ) < m' * 2 ^ q' ↔ (0 : ℚ) < m * 2 ^ q := by rw [hvalue]
      rwa [mul_pos_iff_of_pos_right hpower, mul_pos_iff_of_pos_right hpower', Nat.cast_pos, Nat.cast_pos] at hiff
    rcases Nat.eq_zero_or_pos m with rfl | hm
    · obtain rfl : m' = 0 := by omega
      rfl
    · have hm' := hpos.2 hm
      obtain ⟨count, n, hfound, heq⟩ := exists_found hm h.coefficient hprecision tie
      obtain ⟨count', n', hfound', heq'⟩ := exists_found hm' h'.coefficient hprecision' tie
      rw [readsAs_iff hfraction' h' hm', value_shortest heq] at hreads
      have hnarrow := hfound.narrow hvalue (fun x => contains_of_finer hm hm' hvalue (hunit hm)) hreads
      obtain ⟨rfl, rfl⟩ := hfound'.unique hnarrow
      rw [heq, heq', hvalue]

end PackedStruct.Decimal
