import PackedStruct.Proofs.DecimalText
import PackedStruct.Proofs.Quotient
/-!
Rounding to a number of significant decimal digits, and the digits that come out. Rounding can reach the next
power of ten; counting the digits from there rounds to the same number.
-/

namespace PackedStruct

variable {count : ℕ} {x : ℚ}

/-- The unit of the last of `count` digits for a number whose leading digit is at `10^e`. -/
def lastPlace (count : ℕ) (e : ℤ) : ℚ := 10 ^ (e + 1 - count)

/-- A number rounded to `count` significant decimal digits, half to even. -/
def roundSignificant (count : ℕ) (x : ℚ) : ℚ :=
  roundEven (x / lastPlace count (Int.log 10 |x|)) * lastPlace count (Int.log 10 |x|)

theorem lastPlace_pos (count : ℕ) (e : ℤ) : 0 < lastPlace count e := zpow_pos (by norm_num) _

theorem pow_mul_lastPlace (count : ℕ) (e : ℤ) : 10 ^ count * lastPlace count e = (10 : ℚ) ^ (e + 1) := by
  rw [lastPlace, ← zpow_natCast, ← zpow_add₀ (by norm_num)]
  congr 1
  ring

/-- One place further up there is one digit less. -/
theorem pow_pred_mul_lastPlace (hcount : 0 < count) (e : ℤ) :
    10 ^ (count - 1) * lastPlace count e = (10 : ℚ) ^ e := by
  rw [lastPlace, ← zpow_natCast, ← zpow_add₀ (by norm_num)]
  congr 1
  push_cast [Nat.cast_sub hcount]
  ring

/-- A number of `count` digits in the last place has its leading digit in the first one. -/
theorem log_mul_lastPlace (hcount : 0 < count) (hlow : 10 ^ (count - 1) ≤ x) (hhigh : x < 10 ^ count) (e : ℤ) :
    Int.log 10 (x * lastPlace count e) = e := by
  have hpos := lastPlace_pos count e
  apply log_eq (by decide)
  · push_cast
    rwa [← pow_pred_mul_lastPlace hcount, mul_le_mul_iff_of_pos_right hpos]
  · push_cast
    rwa [← pow_mul_lastPlace count, mul_lt_mul_iff_of_pos_right hpos]

theorem lastPlace_succ (count : ℕ) (e : ℤ) : lastPlace count (e + 1) = 10 * lastPlace count e := by
  rw [lastPlace, lastPlace, ← zpow_one_add₀ (by norm_num)]
  congr 1
  ring

theorem roundSignificant_neg (count : ℕ) (x : ℚ) : roundSignificant count (-x) = -roundSignificant count x := by
  rw [roundSignificant, abs_neg, neg_div, roundEven_neg, Int.cast_neg, neg_mul, roundSignificant]

theorem roundSignificant_of_pos (hx : 0 < x) :
    roundSignificant count x =
      roundEven (x / lastPlace count (Int.log 10 x)) * lastPlace count (Int.log 10 x) := by
  rw [roundSignificant, abs_of_pos hx]

/-- The digits form a number of as many digits, or the first one with a digit more. -/
theorem roundEven_bounds (hcount : 0 < count) (hx : 0 < x) :
    10 ^ (count - 1) ≤ roundEven (x / lastPlace count (Int.log 10 x)) ∧
      roundEven (x / lastPlace count (Int.log 10 x)) ≤ 10 ^ count := by
  have hpos := lastPlace_pos count (Int.log 10 x)
  obtain ⟨hlow, hhigh⟩ := log_bounds hx
  constructor
  · apply le_roundEven
    push_cast
    rw [le_div_iff₀ hpos, pow_pred_mul_lastPlace hcount]
    exact hlow
  · apply roundEven_le
    push_cast
    rw [div_le_iff₀ hpos, pow_mul_lastPlace]
    exact hhigh.le

theorem roundSignificant_pos (hcount : 0 < count) (hx : 0 < x) : 0 < roundSignificant count x := by
  have hlow : (0 : ℤ) < roundEven (x / lastPlace count (Int.log 10 x)) :=
    lt_of_lt_of_le (by positivity) (roundEven_bounds hcount hx).1
  rw [roundSignificant_of_pos hx]
  exact mul_pos (by exact_mod_cast hlow) (lastPlace_pos _ _)

theorem roundEven_div_ten {n : ℤ} (h : roundEven x = 10 * n) : roundEven (x / 10) = n := by
  have hnear := abs_le.1 (roundEven_eq_iff.1 h).near
  push_cast at hnear
  have hclose : |x / 10 - n| < 1 / 2 := by
    rw [abs_lt]
    constructor <;> linarith
  exact roundEven_eq_iff.2 ⟨hclose.le, fun htie => absurd htie hclose.ne⟩

/-- The place of the leading digit is the same after rounding, unless a power of ten is reached. -/
theorem log_roundSignificant (hcount : 0 < count) (hx : 0 < x) :
    (roundEven (x / lastPlace count (Int.log 10 x)) = 10 ^ count ∧
      roundSignificant count x = 10 ^ (Int.log 10 x + 1) ∧
      Int.log 10 (roundSignificant count x) = Int.log 10 x + 1) ∨
    (roundEven (x / lastPlace count (Int.log 10 x)) < 10 ^ count ∧
      Int.log 10 (roundSignificant count x) = Int.log 10 x) := by
  obtain ⟨hlow, hhigh⟩ := roundEven_bounds hcount hx
  rw [roundSignificant_of_pos hx]
  rcases hhigh.eq_or_lt with heq | hlt
  · have hvalue : ((roundEven (x / lastPlace count (Int.log 10 x)) : ℤ) : ℚ) * lastPlace count (Int.log 10 x) =
        10 ^ (Int.log 10 x + 1) := by
      rw [heq, ← pow_mul_lastPlace count]
      push_cast
      rfl
    refine Or.inl ⟨heq, hvalue, ?_⟩
    rw [hvalue]
    exact_mod_cast Int.log_zpow (R := ℚ) (by decide : 1 < 10) (Int.log 10 x + 1)
  · exact Or.inr ⟨hlt, log_mul_lastPlace hcount (by exact_mod_cast hlow) (by exact_mod_cast hlt) _⟩

/-- Where the leading digit is after rounding, the same number of digits rounds to the same number. -/
theorem roundEven_lastPlace (hcount : 0 < count) (hx : 0 < x) :
    let unit := lastPlace count (Int.log 10 (roundSignificant count x))
    roundEven (x / unit) * unit = roundSignificant count x := by
  intro unit
  rcases log_roundSignificant hcount hx with ⟨hcarry, hvalue, hlog⟩ | ⟨-, hlog⟩
  · obtain ⟨places, rfl⟩ := Nat.exists_eq_succ_of_ne_zero hcount.ne'
    have hunit : unit = 10 * lastPlace (places + 1) (Int.log 10 x) := by
      simp only [unit, hlog, lastPlace_succ]
    have hten : roundEven (x / unit) = 10 ^ places := by
      rw [hunit, mul_comm, ← div_div]
      exact roundEven_div_ten (by rw [hcarry, pow_succ, mul_comm])
    rw [hten, hvalue, hunit, ← pow_mul_lastPlace (places + 1)]
    push_cast
    ring
  · simp only [unit, hlog]
    rw [← roundSignificant_of_pos hx]

namespace Decimal

variable {r : Ratio} {width n : ℕ}

theorem ofDigitChars_tailDigits (width n : ℕ) : Nat.ofDigitChars 10 (tailDigits width n) 0 = n % 10 ^ width := by
  induction width with
  | zero => simp [tailDigits, Nat.mod_one]
  | succ width ih =>
    have hstep : tailDigits (width + 1) n = Nat.digitChar (n / Nat.pow 10 width % 10) :: tailDigits width n := by
      simp [tailDigits, List.range_succ]
    have hdigit : n / 10 ^ width % 10 < 10 := Nat.mod_lt _ (by decide)
    rw [hstep, Nat.ofDigitChars_cons, Nat.ofDigitChars_eq_ofDigitChars_zero, ih, length_tailDigits, Nat.pow_eq,
      Nat.mod_pow_succ, Nat.mul_zero, Nat.zero_add, Nat.add_comm]
    congr 2
    exact Nat.toNat_digitChar_sub_48_of_lt_ten hdigit

theorem isDigit_digitChar : ∀ d < 10, d.digitChar.isDigit = true := by decide

theorem isDigit_tailDigits {c : Char} (h : c ∈ tailDigits width n) : c.isDigit = true := by
  obtain ⟨i, -, rfl⟩ := List.mem_map.1 h
  exact isDigit_digitChar _ (Nat.mod_lt _ (by decide))

theorem padded_eq (width n : ℕ) : padded width n = tailDigits width n := lastDigits_eq _ _ _

/-- Digits that a number is written with: `count` of them, the first at the place of its exponent. -/
structure Shows (d : Digits) (count : ℕ) (x : ℚ) : Prop where
  length : d.digits.length = count
  isDigit : ∀ c ∈ d.digits, c.isDigit = true
  value : scaled d.digits (d.exponent + 1 - count) = x
  exponent : d.exponent = Int.log 10 x

theorem round_scale10 (hden : 0 < r.den) (k : ℤ) :
    ((r.scale10 k).round .toEven : ℤ) = roundEven (r.value * 10 ^ k) := by
  rw [Ratio.round_eq (Ratio.den_scale10 hden k), Ratio.value_scale10]

/-- A one and zeros show a power of ten. -/
theorem shows_pow (hcount : 0 < count) (e : ℤ) : Shows ⟨'1' :: zeros (count - 1), e⟩ count (10 ^ e) where
  length := by simp [zeros, Nat.sub_add_cancel hcount]
  isDigit c hc := by
    rcases List.mem_cons.1 hc with rfl | hzero
    · rfl
    · rw [List.eq_of_mem_replicate hzero]
      rfl
  value := by
    have hdigits : Nat.ofDigitChars 10 ('1' :: zeros (count - 1)) 0 = 10 ^ (count - 1) := by
      rw [Nat.ofDigitChars_cons, zeros, Nat.ofDigitChars_replicate_zero]
      exact Nat.mul_one _
    rw [scaled, hdigits, ← pow_pred_mul_lastPlace hcount e, lastPlace]
    push_cast
    rfl
  exponent := by exact_mod_cast (Int.log_zpow (R := ℚ) (by decide : 1 < 10) e).symm

/-- The digits of a number of this length show it, in the place that is asked for. -/
theorem shows_padded (hcount : 0 < count) (hlow : 10 ^ (count - 1) ≤ n) (hhigh : n < 10 ^ count) (e : ℤ) :
    Shows ⟨padded count n, e⟩ count (n * lastPlace count e) where
  length := length_padded _ _
  isDigit c hc := by
    rw [padded_eq] at hc
    exact isDigit_tailDigits hc
  value := by
    rw [scaled, padded_eq, ofDigitChars_tailDigits, Nat.mod_eq_of_lt hhigh]
    rfl
  exponent := (log_mul_lastPlace hcount (by exact_mod_cast hlow) (by exact_mod_cast hhigh) e).symm

/-- The significant digits of a quotient are those of its value rounded to as many digits. -/
theorem shows_significant (hnum : 0 < r.num) (hden : 0 < r.den) (hcount : 0 < count) :
    Shows (significant r count) count (roundSignificant count r.value) := by
  have hpos := Ratio.value_pos hnum hden
  have hround : ((r.scale10 (count - 1 - r.exponent10)).round .toEven : ℤ) =
      roundEven (r.value / lastPlace count (Int.log 10 r.value)) := by
    rw [round_scale10 hden, Ratio.exponent10_eq hnum hden, lastPlace, div_eq_mul_inv, ← zpow_neg]
    congr 3
    ring
  obtain ⟨hlow, hhigh⟩ := roundEven_bounds hcount hpos
  rw [← hround] at hlow hhigh
  rw [roundSignificant_of_pos hpos, ← hround]
  unfold significant
  rw [if_neg hnum.ne']
  dsimp only
  rw [← Ratio.exponent10_eq hnum hden]
  generalize (r.scale10 (count - 1 - r.exponent10)).round .toEven = n at hlow hhigh
  split_ifs with hcarry
  · have hvalue : ((n : ℤ) : ℚ) * lastPlace count r.exponent10 = 10 ^ (r.exponent10 + 1) := by
      rw [hcarry, ← pow_mul_lastPlace count, Nat.pow_eq]
      push_cast
      rfl
    rw [hvalue]
    exact shows_pow hcount _
  · have hlt : n < 10 ^ count := by
      rw [Nat.pow_eq] at hcarry
      have hle : n ≤ 10 ^ count := by exact_mod_cast hhigh
      omega
    rw [Int.cast_natCast]
    exact shows_padded hcount (by exact_mod_cast hlow) hlt _

end Decimal

end PackedStruct
