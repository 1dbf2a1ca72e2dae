import Mathlib.Algebra.Order.Field.Power
import Mathlib.Data.Int.Log
import Mathlib.Data.Rat.Floor
import Mathlib.Tactic.Linarith
import Mathlib.Tactic.Positivity
import Mathlib.Tactic.Ring
import PackedStruct.Decimal.Ratio
/-!
Quotients as rational numbers: what scaling and rounding do to their values, and the exponents of their
leading binary and decimal digits.
-/

namespace PackedStruct

/-- The integer nearest to a number. Of two, it is the even one. -/
def roundEven (x : ℚ) : ℤ :=
  if x - ⌊x⌋ < 1 / 2 then ⌊x⌋
  else if 1 / 2 < x - ⌊x⌋ then ⌊x⌋ + 1
  else if Even ⌊x⌋ then ⌊x⌋ else ⌊x⌋ + 1

/-- Whether an integer is nearest to a number, and even if another one is as near. -/
structure NearestEven (x : ℚ) (n : ℤ) : Prop where
  near : |x - n| ≤ 1 / 2
  even : |x - n| = 1 / 2 → Even n

variable {x : ℚ} {n m : ℤ}

theorem nearestEven_roundEven (x : ℚ) : NearestEven x (roundEven x) := by
  have hlow := Int.floor_le x
  have hhigh := Int.lt_floor_add_one x
  unfold roundEven
  split_ifs with hdown hup heven
  · constructor
    · rw [abs_le]
      constructor <;> linarith
    · intro htie
      rw [abs_of_nonneg (by linarith)] at htie
      linarith
  · constructor
    · push_cast
      rw [abs_le]
      constructor <;> linarith
    · intro htie
      push_cast at htie
      rw [abs_of_nonpos (by linarith)] at htie
      linarith
  · refine ⟨?_, fun _ => heven⟩
    rw [abs_le]
    constructor <;> linarith
  · refine ⟨?_, fun _ => ?_⟩
    · push_cast
      rw [abs_le]
      constructor <;> linarith
    · exact (Int.not_even_iff_odd.1 heven).add_odd odd_one

/-- Two integers as near as that are one or neighbours, and of neighbours only one is even. -/
theorem NearestEven.unique (hn : NearestEven x n) (hm : NearestEven x m) : n = m := by
  by_contra hne
  wlog hlt : n < m generalizing n m
  · exact this hm hn (Ne.symm hne) (by omega)
  have hstep : (n : ℚ) + 1 ≤ m := by exact_mod_cast hlt
  have hnear := abs_le.1 hn.near
  have hnear' := abs_le.1 hm.near
  have hx : x = n + 1 / 2 := by linarith
  have hm' : m = n + 1 := by
    have hle : (m : ℚ) ≤ n + 1 := by linarith
    have hle' : m ≤ n + 1 := by exact_mod_cast hle
    omega
  have heven : Even n := hn.even (by rw [hx]; norm_num)
  have heven' : Even m := by
    apply hm.even
    rw [hx, hm']
    push_cast
    norm_num
  rw [hm'] at heven'
  exact Int.not_even_one ((Int.even_add.1 heven').1 heven)

theorem roundEven_eq_iff : roundEven x = n ↔ NearestEven x n := by
  constructor
  · rintro rfl
    exact nearestEven_roundEven x
  · intro h
    exact (nearestEven_roundEven x).unique h

theorem roundEven_neg (x : ℚ) : roundEven (-x) = -roundEven x := by
  have h := nearestEven_roundEven x
  have habs : |-x - ((-roundEven x : ℤ) : ℚ)| = |x - roundEven x| := by
    rw [← abs_neg]
    congr 1
    push_cast
    ring
  exact roundEven_eq_iff.2 ⟨by rw [habs]; exact h.near, fun htie => (h.even (habs ▸ htie)).neg⟩

/-- Rounding stays between two integers that the number is between. -/
theorem le_roundEven (h : (n : ℚ) ≤ x) : n ≤ roundEven x := by
  have hnear := abs_le.1 (nearestEven_roundEven x).near
  by_contra hlt
  have hstep : (roundEven x : ℚ) + 1 ≤ n := by exact_mod_cast (by omega : roundEven x + 1 ≤ n)
  linarith

theorem roundEven_le (h : x ≤ n) : roundEven x ≤ n := by
  have hle := le_roundEven (x := -x) (n := -n) (by push_cast; linarith)
  rw [roundEven_neg] at hle
  omega

/-- A quotient in terms of the quotient and the remainder of the division. -/
theorem div_eq_add_rem (num : Nat) {den : Nat} (h : 0 < den) :
    (num : ℚ) / den = (num / den : Nat) + (num % den : Nat) / (den : ℚ) := by
  have hden : (den : ℚ) ≠ 0 := by exact_mod_cast h.ne'
  have hsplit : (num : ℚ) = (num / den : Nat) * den + (num % den : Nat) := by
    exact_mod_cast (Nat.div_add_mod' num den).symm
  rw [div_eq_iff hden, add_mul, div_mul_cancel₀ _ hden]
  exact hsplit

/-- The quotient of two natural numbers is rounded to its nearest integer. -/
theorem roundDiv_eq_roundEven (num : Nat) {den : Nat} (h : 0 < den) :
    (roundDiv .toEven num den : ℤ) = roundEven (num / den) := by
  have hden : (0 : ℚ) < den := by exact_mod_cast h
  have hsplit := div_eq_add_rem num h
  have hrem : ((num % den : Nat) : ℚ) / den < 1 := by
    rw [div_lt_one hden]
    exact_mod_cast Nat.mod_lt num h
  have hfloor : ⌊(num / den : ℚ)⌋ = (num / den : Nat) := by
    have hpos : (0 : ℚ) ≤ (num % den : Nat) / den := by positivity
    rw [Int.floor_eq_iff, Int.cast_natCast]
    constructor <;> linarith
  have hrest : (num / den : ℚ) - ((num / den : Nat) : ℤ) = (num % den : Nat) / den := by
    rw [hsplit, Int.cast_natCast]
    ring
  -- the conditions that the two definitions look at are the same
  have hdown : ((num % den : Nat) : ℚ) / den < 1 / 2 ↔ 2 * (num % den) < den := by
    rw [div_lt_div_iff₀ hden (by norm_num), one_mul, mul_comm]
    exact_mod_cast Iff.rfl
  have hup : 1 / 2 < ((num % den : Nat) : ℚ) / den ↔ den < 2 * (num % den) := by
    rw [div_lt_div_iff₀ (by norm_num) hden, one_mul, mul_comm]
    exact_mod_cast Iff.rfl
  have heven : Even ((num / den : Nat) : ℤ) ↔ num / den % 2 = 0 := by rw [Int.even_coe_nat, Nat.even_iff]
  rw [roundEven, hfloor, hrest]
  simp only [hdown, hup, heven, roundDiv]
  split_ifs <;> rfl

/-- The exponent of the leading digit is found from the powers around a number. -/
theorem log_eq {b : ℕ} (hb : 1 < b) {e : ℤ} (hlow : (b : ℚ) ^ e ≤ x) (hhigh : x < (b : ℚ) ^ (e + 1)) :
    Int.log b x = e := by
  have hpos : 0 < x := lt_of_lt_of_le (zpow_pos (by exact_mod_cast Nat.zero_lt_of_lt hb) e) hlow
  have hle : e ≤ Int.log b x := (Int.zpow_le_iff_le_log hb hpos).1 hlow
  have hlt : Int.log b x < e + 1 := (Int.lt_zpow_iff_log_lt hb hpos).1 hhigh
  omega

/-- The powers of ten around a number. -/
theorem log_bounds (hx : 0 < x) : (10 : ℚ) ^ Int.log 10 x ≤ x ∧ x < 10 ^ (Int.log 10 x + 1) :=
  ⟨by exact_mod_cast Int.zpow_log_le_self (by decide) hx, by exact_mod_cast Int.lt_zpow_succ_log_self (by decide) x⟩

namespace Ratio

variable {r : Ratio}

/-- The rational number that a quotient stands for. -/
def value (r : Ratio) : ℚ := r.num / r.den

theorem value_ofDyadic (m : Nat) (q : Int) : (ofDyadic m q).value = m * 2 ^ q := by
  simp only [value, ofDyadic, Nat.pow_eq]
  push_cast
  rcases le_total 0 q with hq | hq
  · rw [Int.toNat_of_nonpos (by omega : -q ≤ 0), pow_zero, div_one, ← zpow_natCast, Int.toNat_of_nonneg hq]
  · rw [Int.toNat_of_nonpos hq, pow_zero, mul_one, div_eq_mul_inv, ← zpow_natCast, Int.toNat_of_nonneg (by omega),
      zpow_neg, inv_inv]

theorem value_scale (r : Ratio) (b : ℕ) (k : Int) :
    (r.num * b ^ k.toNat : ℚ) / (r.den * b ^ (-k).toNat) = r.value * (b : ℚ) ^ k := by
  have hpower : (b : ℚ) ^ k.toNat / b ^ (-k).toNat = (b : ℚ) ^ k := by
    rcases le_total 0 k with hk | hk
    · rw [Int.toNat_of_nonpos (by omega : -k ≤ 0), pow_zero, div_one, ← zpow_natCast, Int.toNat_of_nonneg hk]
    · rw [Int.toNat_of_nonpos hk, pow_zero, one_div, ← zpow_natCast, Int.toNat_of_nonneg (by omega),
        zpow_neg, inv_inv]
  rw [mul_div_mul_comm, hpower, value]

theorem value_scale10 (r : Ratio) (k : Int) : (r.scale10 k).value = r.value * 10 ^ k := by
  have h := r.value_scale 10 k
  simp only [value, scale10, Nat.pow_eq] at h ⊢
  push_cast at h ⊢
  exact h

theorem value_scale2 (r : Ratio) (k : Int) : (r.scale2 k).value = r.value * 2 ^ k := by
  have h := r.value_scale 2 k
  simp only [value, scale2, Nat.pow_eq] at h ⊢
  push_cast at h ⊢
  exact h

theorem den_scale10 (h : 0 < r.den) (k : Int) : 0 < (r.scale10 k).den :=
  Nat.mul_pos h (Nat.pow_pos (by decide))

theorem den_scale2 (h : 0 < r.den) (k : Int) : 0 < (r.scale2 k).den :=
  Nat.mul_pos h (Nat.pow_pos (by decide))

theorem num_ofDyadic {m : Nat} (hm : 0 < m) (q : Int) : 0 < (ofDyadic m q).num :=
  Nat.mul_pos hm (Nat.pow_pos (by decide))

theorem den_ofDyadic (m : Nat) (q : Int) : 0 < (ofDyadic m q).den := Nat.pow_pos (by decide)

/-- Rounding a quotient is rounding its value. -/
theorem round_eq (h : 0 < r.den) : (r.round .toEven : ℤ) = roundEven r.value := roundDiv_eq_roundEven r.num h

theorem value_pos (hnum : 0 < r.num) (hden : 0 < r.den) : 0 < r.value :=
  div_pos (by exact_mod_cast hnum) (by exact_mod_cast hden)

theorem lt_ten_pow_digitCount (n : Nat) : n < 10 ^ digitCount n :=
  (Nat.length_toDigits_le_iff (by decide) Nat.length_toDigits_pos).1 (le_refl _)

theorem ten_pow_digitCount_le {n : Nat} (h : 0 < n) : 10 ^ (digitCount n - 1) ≤ n := by
  by_contra hlt
  by_cases hone : digitCount n - 1 = 0
  · rw [hone] at hlt
    omega
  · have hle := (Nat.length_toDigits_le_iff (by decide) (Nat.pos_of_ne_zero hone)).2 (Nat.not_le.1 hlt)
    simp only [digitCount] at hle hone
    omega

theorem digitCount_pos (n : Nat) : 0 < digitCount n := Nat.length_toDigits_pos

/-- A quotient of one or more has its leading digit where its integer part has it. -/
theorem exponent10_of_le (hden : 0 < r.den) (h : r.den ≤ r.num) :
    Int.log 10 r.value = digitCount (r.num / r.den) - 1 := by
  have hden' : (0 : ℚ) < r.den := by exact_mod_cast hden
  have hlow := ten_pow_digitCount_le (Nat.div_pos h hden)
  have hhigh := lt_ten_pow_digitCount (r.num / r.den)
  have hcount := digitCount_pos (r.num / r.den)
  generalize digitCount (r.num / r.den) = count at *
  obtain ⟨e, rfl⟩ := Nat.exists_eq_succ_of_ne_zero hcount.ne'
  rw [Nat.le_div_iff_mul_le hden] at hlow
  rw [Nat.div_lt_iff_lt_mul hden] at hhigh
  apply log_eq (by decide)
  · rw [value, le_div_iff₀ hden']
    push_cast
    rw [add_sub_cancel_right, zpow_natCast]
    exact_mod_cast hlow
  · rw [value, div_lt_iff₀ hden']
    push_cast
    rw [sub_add_cancel, ← Nat.cast_succ, zpow_natCast]
    exact_mod_cast hhigh

/-- Below one it is the largest integer under the inverse that says where the leading digit is. -/
theorem exponent10_of_lt (hnum : 0 < r.num) (h : r.num < r.den) :
    Int.log 10 r.value = -digitCount ((r.den - 1) / r.num) := by
  have hden' : (0 : ℚ) < r.den := by exact_mod_cast (by omega : 0 < r.den)
  have hlow := ten_pow_digitCount_le (Nat.div_pos (by omega : r.num ≤ r.den - 1) hnum)
  have hhigh := lt_ten_pow_digitCount ((r.den - 1) / r.num)
  have hcount := digitCount_pos ((r.den - 1) / r.num)
  generalize digitCount ((r.den - 1) / r.num) = count at *
  obtain ⟨e, rfl⟩ := Nat.exists_eq_succ_of_ne_zero hcount.ne'
  rw [Nat.succ_sub_one, Nat.le_div_iff_mul_le hnum] at hlow
  rw [Nat.div_lt_iff_lt_mul hnum] at hhigh
  apply log_eq (by decide)
  · push_cast
    rw [value, le_div_iff₀ hden', zpow_neg, inv_mul_le_iff₀ (by positivity), ← Nat.cast_succ, zpow_natCast]
    exact_mod_cast (by omega : r.den ≤ 10 ^ e.succ * r.num)
  · have hexp : -((e.succ : ℕ) : ℤ) + 1 = -(e : ℤ) := by
      push_cast
      ring
    rw [hexp]
    push_cast
    rw [value, div_lt_iff₀ hden', zpow_neg, lt_inv_mul_iff₀ (by positivity), zpow_natCast]
    exact_mod_cast (by omega : 10 ^ e * r.num < r.den)

/-- The place of the leading decimal digit. -/
theorem exponent10_eq (hnum : 0 < r.num) (hden : 0 < r.den) : r.exponent10 = Int.log 10 r.value := by
  unfold exponent10
  split_ifs with hlarge
  · exact (exponent10_of_le hden hlarge).symm
  · exact (exponent10_of_lt hnum (Nat.not_le.1 hlarge)).symm

/-- The quotient of two numbers lies between the powers next to the quotient of their leading bits. -/
theorem value_log2_bounds (hnum : 0 < r.num) (hden : 0 < r.den) :
    (2 : ℚ) ^ ((r.num.log2 : ℤ) - r.den.log2 - 1) < r.value ∧
      r.value < (2 : ℚ) ^ ((r.num.log2 : ℤ) - r.den.log2 + 1) := by
  have hden' : (0 : ℚ) < r.den := by exact_mod_cast hden
  have hnumlow : (2 : ℚ) ^ r.num.log2 ≤ r.num := by exact_mod_cast Nat.log2_self_le hnum.ne'
  have hnumhigh : (r.num : ℚ) < 2 ^ (r.num.log2 + 1) := by exact_mod_cast Nat.lt_log2_self
  have hdenlow : (2 : ℚ) ^ r.den.log2 ≤ r.den := by exact_mod_cast Nat.log2_self_le hden.ne'
  have hdenhigh : (r.den : ℚ) < 2 ^ (r.den.log2 + 1) := by exact_mod_cast Nat.lt_log2_self
  have htwo : (2 : ℚ) ≠ 0 := by norm_num
  constructor
  · rw [value, lt_div_iff₀ hden']
    calc (2 : ℚ) ^ ((r.num.log2 : ℤ) - r.den.log2 - 1) * r.den
      _ < 2 ^ ((r.num.log2 : ℤ) - r.den.log2 - 1) * 2 ^ (r.den.log2 + 1) := by gcongr
      _ = 2 ^ r.num.log2 := by
        rw [← zpow_natCast, ← zpow_natCast, ← zpow_add₀ htwo]
        congr 1
        push_cast
        ring
      _ ≤ r.num := hnumlow
  · rw [value, div_lt_iff₀ hden']
    calc (r.num : ℚ)
      _ < 2 ^ (r.num.log2 + 1) := hnumhigh
      _ = 2 ^ ((r.num.log2 : ℤ) - r.den.log2 + 1) * 2 ^ r.den.log2 := by
        rw [← zpow_natCast, ← zpow_natCast, ← zpow_add₀ htwo]
        congr 1
        push_cast
        ring
      _ ≤ 2 ^ ((r.num.log2 : ℤ) - r.den.log2 + 1) * r.den := by gcongr

/-- The place of the leading binary digit. -/
theorem exponent2_eq (hnum : 0 < r.num) (hden : 0 < r.den) : r.exponent2 = Int.log 2 r.value := by
  obtain ⟨hlow, hhigh⟩ := value_log2_bounds hnum hden
  symm
  unfold exponent2
  dsimp only
  generalize ((r.num.log2 : ℤ) - r.den.log2) = e at *
  have hpower : (0 : ℚ) < 2 ^ e := by positivity
  -- the comparison of the cross products is one with the power itself
  have hcompare : r.den * Nat.pow 2 e.toNat ≤ r.num * Nat.pow 2 (-e).toNat ↔ (2 : ℚ) ^ e ≤ r.value := by
    have hscaled : (1 : ℚ) ≤ (r.scale2 (-e)).value ↔ (2 : ℚ) ^ e ≤ r.value := by
      rw [value_scale2, zpow_neg, ← div_eq_mul_inv, one_le_div hpower]
    have hscaledDen : (0 : ℚ) < (r.scale2 (-e)).den := by exact_mod_cast den_scale2 hden (-e)
    rw [← hscaled, value, one_le_div hscaledDen, scale2, neg_neg]
    exact_mod_cast Iff.rfl
  split_ifs with hle
  · exact log_eq (by decide) (by exact_mod_cast hcompare.1 hle) (by exact_mod_cast hhigh)
  · have hlt : r.value < (2 : ℚ) ^ e := not_le.1 fun h => hle (hcompare.2 h)
    apply log_eq (by decide)
    · exact_mod_cast hlow.le
    · rw [sub_add_cancel]
      exact_mod_cast hlt

end Ratio

end PackedStruct
