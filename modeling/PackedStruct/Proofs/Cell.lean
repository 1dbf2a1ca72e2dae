import Mathlib.Algebra.Order.Floor.Semifield
import Mathlib.Tactic.FieldSimp
import PackedStruct.Decimal.Digits
import PackedStruct.Proofs.Quotient
/-!
The cells around floating-point numbers, as sets of rational numbers. An integer in a cell is found next to the
number that the cell is about, in whatever units the cell is measured.
-/

namespace PackedStruct

variable {num den num' den' : ℕ} {tie : Tie} {x y z : ℚ}

theorem roundDiv_cases (tie : Tie) (num den : ℕ) :
    roundDiv tie num den = num / den ∨ roundDiv tie num den = num / den + 1 := by
  unfold roundDiv
  cases tie <;> dsimp only <;> split_ifs <;> simp

/-- Rounding depends on the quotient only. -/
theorem roundDiv_congr (tie : Tie) (hden : 0 < den) (hden' : 0 < den') (h : num * den' = num' * den) :
    roundDiv tie num den = roundDiv tie num' den' := by
  have hscale (a b k : ℕ) (hk : 0 < k) : roundDiv tie (a * k) (b * k) = roundDiv tie a b := by
    have hrem : 2 * (a * k % (b * k)) = 2 * (a % b) * k := by rw [Nat.mul_mod_mul_right, Nat.mul_assoc]
    simp only [roundDiv, Nat.mul_div_mul_right _ _ hk, hrem, Nat.mul_lt_mul_right hk]
  rw [← hscale num den den' hden', h, ← hscale num' den' den hden, Nat.mul_comm den den']

theorem floor_congr (hden : 0 < den) (hden' : 0 < den') (h : num * den' = num' * den) : num / den = num' / den' := by
  rw [← Nat.mul_div_mul_right num den hden', h, Nat.mul_comm den den', Nat.mul_div_mul_right _ _ hden]

namespace Decimal

variable {p : Precision} {m : ℕ} {q : ℤ} {c c' : Cell} {n j : ℕ}

/-- The numbers in a cell: those between its ends, and the ends themselves if it is closed. -/
@[mk_iff]
structure Cell.Contains (c : Cell) (x : ℚ) : Prop where
  low : c.low ≤ x * c.den
  high : x * c.den ≤ c.high
  inner : c.closed = false → c.low ≠ x * c.den ∧ x * c.den ≠ c.high

/-- Membership in other units: the ends of the cell and the point are multiples of one positive number. -/
theorem Cell.contains_iff_of_scale {low high unit : ℚ} (hunit : 0 < unit) (hlow : c.low = low * unit)
    (hhigh : c.high = high * unit) (hpoint : x * c.den = y * unit) :
    c.Contains x ↔ low ≤ y ∧ y ≤ high ∧ (c.closed = false → low ≠ y ∧ y ≠ high) := by
  rw [contains_iff, hlow, hhigh, hpoint, mul_le_mul_iff_of_pos_right hunit, mul_le_mul_iff_of_pos_right hunit]
  simp only [ne_eq, mul_left_inj' hunit.ne']

/-- How far a cell reaches below its number, in quarters of the unit. -/
def below (p : Precision) (m : ℕ) (q : ℤ) : ℕ := if m = 2 ^ p.fraction ∧ p.least < q then 1 else 2

theorem below_pos (p : Precision) (m : ℕ) (q : ℤ) : 0 < below p m q ∧ below p m q ≤ 2 := by
  unfold below
  split_ifs <;> decide

theorem den_cell (p : Precision) (m : ℕ) (q : ℤ) : 0 < (cell p m q).den := Ratio.den_ofDyadic 1 (q - 2)

/-- The ends of a cell are counted in quarters of the unit. -/
theorem num_unit (q : ℤ) : ((Ratio.ofDyadic 1 (q - 2)).num : ℚ) = 2 ^ q / 4 * (Ratio.ofDyadic 1 (q - 2)).den := by
  have hden : (0 : ℚ) < (Ratio.ofDyadic 1 (q - 2)).den := by exact_mod_cast Ratio.den_ofDyadic 1 (q - 2)
  rw [← div_eq_iff hden.ne', ← Ratio.value, Ratio.value_ofDyadic, Nat.cast_one, one_mul, zpow_sub₀ (by norm_num)]
  norm_num

theorem low_cell (hm : 0 < m) :
    ((cell p m q).low : ℚ) = (4 * m - below p m q) * (2 ^ q / 4 * (cell p m q).den) := by
  have hbelow := below_pos p m q
  change (((4 * m - below p m q) * (Ratio.ofDyadic 1 (q - 2)).num : ℕ) : ℚ) = _
  rw [Nat.cast_mul, num_unit, Nat.cast_sub (by omega)]
  push_cast
  rfl

theorem high_cell (p : Precision) (m : ℕ) (q : ℤ) :
    ((cell p m q).high : ℚ) = (4 * m + 2) * (2 ^ q / 4 * (cell p m q).den) := by
  change (((4 * m + 2) * (Ratio.ofDyadic 1 (q - 2)).num : ℕ) : ℚ) = _
  rw [Nat.cast_mul, num_unit]
  push_cast
  rfl

/-- The cell of `m · 2^q` in quarters of the unit. -/
theorem contains_cell (hm : 0 < m) :
    (cell p m q).Contains x ↔
      (4 * m - below p m q : ℚ) ≤ 4 * (x / 2 ^ q) ∧ 4 * (x / 2 ^ q) ≤ 4 * m + 2 ∧
        (m % 2 = 1 → (4 * m - below p m q : ℚ) ≠ 4 * (x / 2 ^ q) ∧ 4 * (x / 2 ^ q) ≠ 4 * m + 2) := by
  have hden : (0 : ℚ) < (cell p m q).den := by exact_mod_cast den_cell p m q
  have hunit : (0 : ℚ) < 2 ^ q / 4 * (cell p m q).den := by positivity
  have hpoint : x * (cell p m q).den = 4 * (x / 2 ^ q) * (2 ^ q / 4 * (cell p m q).den) := by
    field_simp
  have hclosed : (cell p m q).closed = false ↔ m % 2 = 1 := by
    change decide (m % 2 = 0) = false ↔ _
    rw [decide_eq_false_iff_not]
    omega
  rw [Cell.contains_iff_of_scale hunit (low_cell hm) (high_cell p m q) hpoint, hclosed]

theorem pos_of_contains (hm : 0 < m) (h : (cell p m q).Contains x) : 0 < x := by
  obtain ⟨hlow, -, -⟩ := (contains_cell hm).1 h
  have hbelow : (below p m q : ℚ) ≤ 2 := by exact_mod_cast (below_pos p m q).2
  have hone : (1 : ℚ) ≤ m := by exact_mod_cast hm
  have hpos : 0 < x / 2 ^ q := by linarith
  rwa [div_pos_iff_of_pos_right (zpow_pos (by norm_num) q)] at hpos

/-- A number lies in its own cell. -/
theorem contains_self (hm : 0 < m) : (cell p m q).Contains (m * 2 ^ q) := by
  have hbelow : (0 : ℚ) < below p m q := by exact_mod_cast (below_pos p m q).1
  have hvalue : (m : ℚ) * 2 ^ q / 2 ^ q = m := mul_div_cancel_right₀ _ (zpow_ne_zero q (by norm_num))
  rw [contains_cell hm, hvalue]
  exact ⟨by linarith, by linarith, fun _ => ⟨by linarith, by linarith⟩⟩

/-- The cell of a number lies in its cell where the unit is larger. -/
theorem contains_of_finer {p' : Precision} {m' : ℕ} {q' : ℤ} (hm : 0 < m) (hm' : 0 < m')
    (hvalue : (m' * 2 ^ q' : ℚ) = m * 2 ^ q) (hunit : q' + 2 ≤ q) (h : (cell p' m' q').Contains x) :
    (cell p m q).Contains x := by
  obtain ⟨hlow, hhigh, -⟩ := (contains_cell hm').1 h
  have hbelow' : (below p' m' q' : ℚ) ≤ 2 := by exact_mod_cast (below_pos p' m' q').2
  have hbelow : (1 : ℚ) ≤ below p m q := by exact_mod_cast (below_pos p m q).1
  have hpower : (0 : ℚ) < 2 ^ q := by positivity
  have hpower' : (0 : ℚ) < 2 ^ q' := by positivity
  have hratio : 4 * (2 : ℚ) ^ q' ≤ 2 ^ q := by
    calc 4 * (2 : ℚ) ^ q'
      _ = 2 ^ (q' + 2) := by
        rw [zpow_add₀ (by norm_num)]
        norm_num
        ring
      _ ≤ 2 ^ q := zpow_le_zpow_right₀ (by norm_num) hunit
  -- the distance to the number is at most half the smaller unit
  have hnear : m * 2 ^ q - 2 ^ q' / 2 ≤ x ∧ x ≤ m * 2 ^ q + 2 ^ q' / 2 := by
    have hx : x = x / 2 ^ q' * 2 ^ q' := (div_mul_cancel₀ _ hpower'.ne').symm
    rw [← hvalue, hx]
    constructor <;> nlinarith
  have hleft : (m : ℚ) - 1 / 8 ≤ x / 2 ^ q := by
    rw [le_div_iff₀ hpower]
    nlinarith
  have hright : x / 2 ^ q ≤ m + 1 / 8 := by
    rw [div_le_iff₀ hpower]
    nlinarith
  rw [contains_cell hm]
  exact ⟨by linarith, by linarith, fun _ => ⟨by linarith, by linarith⟩⟩

namespace Cell

/-- The number that the cell is about. -/
def number (c : Cell) : ℚ := c.value / c.den

theorem holds_iff (c : Cell) (n : ℕ) : c.holds n = true ↔ c.Contains n := by
  unfold holds
  cases hclosed : c.closed with
  | true =>
    simp only [if_true, Bool.and_eq_true, decide_eq_true_eq]
    constructor
    · rintro ⟨hlow, hhigh⟩
      exact ⟨by exact_mod_cast hlow, by exact_mod_cast hhigh, fun hopen => by simp [hclosed] at hopen⟩
    · rintro ⟨hlow, hhigh, -⟩
      exact ⟨by exact_mod_cast hlow, by exact_mod_cast hhigh⟩
  | false =>
    simp only [Bool.false_eq_true, if_false, Bool.and_eq_true, decide_eq_true_eq]
    constructor
    · rintro ⟨hlow, hhigh⟩
      have hlow' : (c.low : ℚ) < n * c.den := by exact_mod_cast hlow
      have hhigh' : (n : ℚ) * c.den < c.high := by exact_mod_cast hhigh
      exact ⟨hlow'.le, hhigh'.le, fun _ => ⟨hlow'.ne, hhigh'.ne⟩⟩
    · rintro ⟨hlow, hhigh, hinner⟩
      obtain ⟨hlow', hhigh'⟩ := hinner hclosed
      exact ⟨by exact_mod_cast lt_of_le_of_ne hlow hlow', by exact_mod_cast lt_of_le_of_ne hhigh hhigh'⟩

/-- A cell has no gaps. -/
theorem Contains.between (hx : c.Contains x) (hz : c.Contains z) (hxy : x ≤ y) (hyz : y ≤ z) : c.Contains y := by
  have hxy' : x * c.den ≤ y * c.den := by gcongr
  have hyz' : y * c.den ≤ z * c.den := by gcongr
  refine ⟨hx.low.trans hxy', hyz'.trans hz.high, fun hopen => ⟨fun hend => ?_, fun hend => ?_⟩⟩
  · exact (hx.inner hopen).1 (le_antisymm hx.low (hend ▸ hxy'))
  · exact (hz.inner hopen).2 (le_antisymm hz.high (hend ▸ hyz'))

theorem low_inUnits (c : Cell) (k : ℤ) : ((c.inUnits k).low : ℚ) = c.low * 10 ^ (-k).toNat := by
  simp only [inUnits, Nat.pow_eq]
  push_cast
  rfl

theorem high_inUnits (c : Cell) (k : ℤ) : ((c.inUnits k).high : ℚ) = c.high * 10 ^ (-k).toNat := by
  simp only [inUnits, Nat.pow_eq]
  push_cast
  rfl

theorem cast_den_inUnits (c : Cell) (k : ℤ) :
    ((c.inUnits k).den : ℚ) = 10 ^ k * c.den * 10 ^ (-k).toNat := by
  have hpower : (10 : ℚ) ^ k * 10 ^ (-k).toNat = 10 ^ k.toNat := by
    rw [← zpow_natCast, ← zpow_natCast, ← zpow_add₀ (by norm_num)]
    congr 1
    omega
  simp only [inUnits, Nat.pow_eq]
  push_cast
  rw [← hpower]
  ring

theorem contains_inUnits (c : Cell) (k : ℤ) : (c.inUnits k).Contains x ↔ c.Contains (x * 10 ^ k) := by
  have hup : (0 : ℚ) < 10 ^ (-k).toNat := by positivity
  have hpoint : x * (c.inUnits k).den = x * 10 ^ k * c.den * 10 ^ (-k).toNat := by
    rw [cast_den_inUnits]
    ring
  rw [contains_iff_of_scale hup (low_inUnits c k) (high_inUnits c k) hpoint, contains_iff]
  rfl

theorem den_inUnits (hden : 0 < c.den) (k : ℤ) : 0 < (c.inUnits k).den :=
  Nat.mul_pos hden (Nat.pow_pos (by decide))

theorem number_inUnits (c : Cell) (k : ℤ) : (c.inUnits k).number = c.number / 10 ^ k := by
  have hscale := Ratio.value_scale ⟨c.value, c.den⟩ 10 (-k)
  rw [neg_neg] at hscale
  rw [div_eq_mul_inv, ← zpow_neg]
  simp only [number, inUnits, Nat.pow_eq, Ratio.value] at hscale ⊢
  push_cast at hscale ⊢
  exact hscale

theorem floor_le_number (c : Cell) : ((c.value / c.den : ℕ) : ℚ) ≤ c.number := by
  rw [number, ← Nat.floor_div_eq_div (K := ℚ)]
  exact Nat.floor_le (by positivity)

theorem number_lt_floor (hden : 0 < c.den) : c.number < ((c.value / c.den + 1 : ℕ) : ℚ) := by
  have hden' : (0 : ℚ) < c.den := by exact_mod_cast hden
  have hrem : c.value < (c.value / c.den + 1) * c.den := by
    rw [Nat.add_mul, Nat.one_mul]
    exact Nat.lt_div_mul_add hden
  rw [number, div_lt_iff₀ hden']
  exact_mod_cast hrem

/-- What is found is in the cell, and next to its number. -/
theorem integer?_eq_some (h : c.integer? tie = some n) :
    c.holds n = true ∧ (n = c.value / c.den ∨ n = c.value / c.den + 1) := by
  unfold integer? at h
  dsimp only at h
  split at h
  · next hfloor hnext =>
    cases h
    rcases roundDiv_cases tie c.value c.den with hround | hround
    · rw [hround]
      exact ⟨hfloor, .inl rfl⟩
    · rw [hround]
      exact ⟨hnext, .inr rfl⟩
  · next hfloor _ =>
    cases h
    exact ⟨hfloor, .inl rfl⟩
  · next _ hnext =>
    cases h
    exact ⟨hnext, .inr rfl⟩
  · cases h

/-- Nothing is found only if neither of the integers around the number is in the cell. -/
theorem integer?_eq_none_iff :
    c.integer? tie = none ↔ c.holds (c.value / c.den) = false ∧ c.holds (c.value / c.den + 1) = false := by
  unfold integer?
  dsimp only
  split <;> simp_all

/-- If any integer is in the cell then one is found. -/
theorem integer?_ne_none (tie : Tie) (hden : 0 < c.den) (hnumber : c.Contains c.number) (h : c.Contains j) :
    c.integer? tie ≠ none := by
  intro hnone
  obtain ⟨hfloor, hnext⟩ := integer?_eq_none_iff.1 hnone
  by_cases hle : j ≤ c.value / c.den
  · have hcontains : c.Contains (c.value / c.den : ℕ) :=
      h.between hnumber (by exact_mod_cast hle) c.floor_le_number
    rw [(c.holds_iff _).2 hcontains] at hfloor
    cases hfloor
  · have hcontains : c.Contains (c.value / c.den + 1 : ℕ) :=
      hnumber.between h (number_lt_floor hden).le (by exact_mod_cast Nat.not_le.1 hle)
    rw [(c.holds_iff _).2 hcontains] at hnext
    cases hnext

/-- A cell that is wider than the unit has an integer in it. -/
theorem integer?_ne_none_of_wide (tie : Tie) (hden : 0 < c.den) (hnumber : c.Contains c.number)
    (hwide : c.low + c.den < c.high) : c.integer? tie ≠ none := by
  have hden' : (0 : ℚ) < c.den := by exact_mod_cast hden
  have hvalue : c.number * c.den = c.value := div_mul_cancel₀ _ hden'.ne'
  have hlow : c.low ≤ c.value := by exact_mod_cast hvalue ▸ hnumber.low
  have hhigh : c.value ≤ c.high := by exact_mod_cast hvalue ▸ hnumber.high
  have hinner : c.closed = false → c.value ≠ c.high := fun hopen => by
    exact_mod_cast hvalue ▸ (hnumber.inner hopen).2
  have hinner' : c.closed = false → c.low ≠ c.value := fun hopen => by
    exact_mod_cast hvalue ▸ (hnumber.inner hopen).1
  have hfloor : c.value / c.den * c.den ≤ c.value := Nat.div_mul_le_self _ _
  have hnext : c.value < (c.value / c.den + 1) * c.den := by
    rw [Nat.add_mul, Nat.one_mul]
    exact Nat.lt_div_mul_add hden
  intro hnone
  obtain ⟨hout, hout'⟩ := integer?_eq_none_iff.1 hnone
  unfold holds at hout hout'
  rw [Nat.add_mul, Nat.one_mul] at hnext hout'
  generalize c.value / c.den * c.den = point at *
  cases hclosed : c.closed with
  | true =>
    simp only [hclosed, if_true, Bool.and_eq_false_iff, decide_eq_false_iff_not] at hout hout'
    omega
  | false =>
    have hopen := hinner hclosed
    have hopen' := hinner' hclosed
    simp only [hclosed, Bool.false_eq_true, if_false, Bool.and_eq_false_iff, decide_eq_false_iff_not] at hout hout'
    omega

/-- In a narrower cell of the same number the same integer is found, if it is in there. -/
theorem integer?_narrow (hden : 0 < c.den) (hden' : 0 < c'.den) (hnumber : c.value * c'.den = c'.value * c.den)
    (hsub : ∀ j, c'.holds j = true → c.holds j = true) (h : c.integer? tie = some n) (hn : c'.holds n = true) :
    c'.integer? tie = some n := by
  have hfloor := floor_congr hden hden' hnumber
  have hround := roundDiv_congr tie hden hden' hnumber
  obtain ⟨-, hnext⟩ := integer?_eq_some h
  unfold integer? at h ⊢
  dsimp only at h ⊢
  rw [← hfloor, ← hround]
  cases hfirst : c'.holds (c.value / c.den) with
  | true =>
    cases hsecond : c'.holds (c.value / c.den + 1) with
    | true => simpa [hsub _ hfirst, hsub _ hsecond] using h
    | false =>
      rcases hnext with rfl | rfl
      · rfl
      · rw [hsecond] at hn
        cases hn
  | false =>
    rcases hnext with rfl | rfl
    · rw [hfirst] at hn
      cases hn
    · rw [hn]

end Cell

end Decimal

end PackedStruct
