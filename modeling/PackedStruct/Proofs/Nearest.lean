import PackedStruct.Proofs.Cell
import PackedStruct.Proofs.Pattern
/-!
Which numbers round to a floating-point number: those in its cell. A number of the precision itself is rounded to
its own pattern, so that a single is the same number in double precision.
-/

namespace PackedStruct

variable {p : Precision} {m : ℕ} {q : ℤ} {x : ℚ}

namespace Precision

open Decimal

variable {r : Ratio}

/-- The exponent of the last place for the numbers around `x`. -/
def place (p : Precision) (x : ℚ) : ℤ := max p.least (Int.log 2 x - p.fraction)

/-- The coefficient of a number in its place has no more digits than there are, and no fewer unless the exponent is
the least one. -/
theorem place_bounds (p : Precision) (hx : 0 < x) :
    x / 2 ^ p.place x < 2 * 2 ^ p.fraction ∧ (p.least < p.place x → 2 ^ p.fraction ≤ x / 2 ^ p.place x) := by
  have hpower (k : ℤ) : (0 : ℚ) < 2 ^ k := zpow_pos (by norm_num) k
  have htwo : (2 : ℚ) ≠ 0 := by norm_num
  constructor
  · have hhigh : x < (2 : ℚ) ^ (Int.log 2 x + 1) := by exact_mod_cast Int.lt_zpow_succ_log_self (by decide) x
    have hle : Int.log 2 x + 1 ≤ 1 + p.fraction + p.place x := by
      have hmax := le_max_right p.least (Int.log 2 x - p.fraction)
      rw [place]
      omega
    rw [div_lt_iff₀ (hpower _)]
    calc x
      _ < 2 ^ (Int.log 2 x + 1) := hhigh
      _ ≤ 2 ^ (1 + p.fraction + p.place x : ℤ) := zpow_le_zpow_right₀ (by norm_num) hle
      _ = 2 * 2 ^ p.fraction * 2 ^ p.place x := by
        rw [zpow_add₀ htwo, zpow_add₀ htwo, zpow_one, zpow_natCast]
  · intro hnormal
    have hlow : (2 : ℚ) ^ Int.log 2 x ≤ x := by exact_mod_cast Int.zpow_log_le_self (by decide) hx
    have hplace : (p.fraction : ℤ) + p.place x = Int.log 2 x := by
      rw [place] at hnormal ⊢
      omega
    rw [le_div_iff₀ (hpower _), ← zpow_natCast, ← zpow_add₀ htwo, hplace]
    exact hlow

/-- Only one place has such a coefficient. -/
theorem place_eq (hx : 0 < x) (hleast : p.least ≤ q) (hhigh : x / 2 ^ q < 2 * 2 ^ p.fraction)
    (hlow : p.least < q → 2 ^ p.fraction ≤ x / 2 ^ q) : p.place x = q := by
  have hpower : (0 : ℚ) < 2 ^ q := zpow_pos (by norm_num) q
  have htwo : (2 : ℚ) ≠ 0 := by norm_num
  have hlt : Int.log 2 x < 1 + p.fraction + q := by
    apply (Int.lt_zpow_iff_log_lt (by decide) hx).1
    rw [div_lt_iff₀ hpower] at hhigh
    push_cast
    rwa [zpow_add₀ htwo, zpow_add₀ htwo, zpow_one, zpow_natCast]
  rcases hleast.eq_or_lt with rfl | hnormal
  · rw [place]
    omega
  · have hle : p.fraction + q ≤ Int.log 2 x := by
      apply (Int.zpow_le_iff_le_log (by decide) hx).1
      have hlow' := hlow hnormal
      rw [le_div_iff₀ hpower] at hlow'
      push_cast
      rwa [zpow_add₀ htwo, zpow_natCast]
    rw [place]
    omega

/-- A quotient is rounded to an integer in its place, and past the last number to infinity. -/
theorem nearest_eq (hnum : 0 < r.num) (hden : 0 < r.den) :
    p.nearest r =
      min (p.pattern (roundEven (r.value / 2 ^ p.place r.value)).toNat (p.place r.value)) (p.top * 2 ^ p.fraction) := by
  have hplace : max p.least (r.exponent2 - p.fraction) = p.place r.value := by
    rw [Ratio.exponent2_eq hnum hden, place]
  have hround : ((r.scale2 (-p.place r.value)).round .toEven : ℤ) = roundEven (r.value / 2 ^ p.place r.value) := by
    rw [Ratio.round_eq (Ratio.den_scale2 hden _), Ratio.value_scale2, zpow_neg, div_eq_mul_inv]
  rw [nearest, if_neg hnum.ne']
  dsimp only
  rw [hplace, ← hround, Int.toNat_natCast]
  rfl

/-- Rounding depends on the value of a quotient only. -/
theorem nearest_congr {r' : Ratio} (hden : 0 < r.den) (hden' : 0 < r'.den) (h : r.value = r'.value) :
    p.nearest r = p.nearest r' := by
  have hzero {s : Ratio} (hs : 0 < s.den) : s.value = 0 ↔ s.num = 0 := by
    have hne : (s.den : ℚ) ≠ 0 := by exact_mod_cast hs.ne'
    rw [Ratio.value, div_eq_zero_iff, or_iff_left hne, Nat.cast_eq_zero]
  by_cases hnum : r.num = 0
  · have hnum' : r'.num = 0 := by rw [← hzero hden', ← h, hzero hden, hnum]
    rw [nearest, nearest, if_pos hnum, if_pos hnum']
  · have hnum' : r'.num ≠ 0 := by rwa [ne_eq, ← hzero hden', ← h, hzero hden]
    rw [nearest_eq (Nat.pos_of_ne_zero hnum) hden, nearest_eq (Nat.pos_of_ne_zero hnum') hden', h]

/-- A coefficient that is one digit too long is the smallest one with the next exponent. -/
theorem pattern_carry (h : p.least ≤ q) : p.pattern (2 * 2 ^ p.fraction) q = p.pattern (2 ^ p.fraction) (q + 1) := by
  have hsucc : (q + 1 - p.least).toNat = (q - p.least).toNat + 1 := by omega
  rw [pattern, pattern, hsucc]
  ring

/-- The pattern says which canonical number it is of. -/
theorem Canonical.unique {m' : ℕ} {q' : ℤ} (h : p.Canonical m q) (h' : p.Canonical m' q')
    (heq : p.pattern m q = p.pattern m' q') : m = m' ∧ q = q' := by
  have hread : p.read (p.signBit false + p.pattern m q) = .finite false m q := h.read
  rw [heq, h'.read] at hread
  cases hread
  exact ⟨rfl, rfl⟩

/-- A number lies in the cell of the one that its coefficient is rounded to. -/
theorem contains_of_nearestEven (hm : 0 < m) (h : NearestEven (x / 2 ^ q) m)
    (hlow : p.least < q → 2 ^ p.fraction ≤ x / 2 ^ q) : (cell p m q).Contains x := by
  have hnear := abs_le.1 h.near
  push_cast at hnear
  rw [contains_cell hm]
  refine ⟨?_, by linarith, fun hodd => ⟨fun htie => ?_, fun htie => ?_⟩⟩
  · rw [below]
    split_ifs with hpower
    · have hle := hlow hpower.2
      rw [hpower.1]
      push_cast
      linarith
    · push_cast
      linarith
  · rw [below] at htie
    split_ifs at htie with hpower
    · have hle := hlow hpower.2
      rw [hpower.1] at htie
      push_cast at htie
      linarith
    · have heven := h.even (by
        push_cast at htie ⊢
        rw [show x / 2 ^ q - m = -(1 / 2) by linarith]
        norm_num)
      rw [Int.even_coe_nat, Nat.even_iff] at heven
      omega
  · have heven := h.even (by
      push_cast
      rw [show x / 2 ^ q - m = 1 / 2 by linarith]
      norm_num)
    rw [Int.even_coe_nat, Nat.even_iff] at heven
    omega

/-- Just under a power of two, the numbers that are rounded up to it lie in its cell. -/
theorem contains_of_carry (hfraction : 0 < p.fraction) (hleast : p.least ≤ q)
    (h : NearestEven (x / 2 ^ q) (2 * 2 ^ p.fraction : ℕ)) (hhigh : x / 2 ^ q < 2 * 2 ^ p.fraction) :
    (cell p (2 ^ p.fraction) (q + 1)).Contains x := by
  have hnear := abs_le.1 h.near
  have hhalf : x / 2 ^ (q + 1) = x / 2 ^ q / 2 := by
    rw [zpow_add_one₀ (by norm_num), div_div]
  have heven : 2 ^ p.fraction % 2 = 0 := Nat.even_iff.1 (Nat.even_pow.2 ⟨even_two, hfraction.ne'⟩)
  have hbelow : below p (2 ^ p.fraction) (q + 1) = 1 := if_pos ⟨rfl, by omega⟩
  rw [contains_cell (Nat.pow_pos (by decide)), hhalf, hbelow]
  push_cast at hnear ⊢
  exact ⟨by linarith, by linarith, fun hodd => by omega⟩

/-- In the cell of a number the coefficient is rounded to that of the number. -/
theorem nearestEven_of_contains (hm : 0 < m) (h : (cell p m q).Contains x) : NearestEven (x / 2 ^ q) m := by
  obtain ⟨hlow, hhigh, hinner⟩ := (contains_cell hm).1 h
  have hbelow : (below p m q : ℚ) ≤ 2 := by exact_mod_cast (below_pos p m q).2
  constructor
  · push_cast
    rw [abs_le]
    constructor <;> linarith
  · intro htie
    rw [Int.even_coe_nat, Nat.even_iff]
    by_contra hodd
    obtain ⟨hlow', hhigh'⟩ := hinner (by omega)
    push_cast at htie
    rcases (abs_eq (by norm_num)).1 htie with hup | hdown
    · exact hhigh' (by linarith)
    · exact hlow' (by linarith)

/-- Under a power of two, the coefficient is rounded up to the next digit. -/
theorem nearestEven_carry (hnormal : p.least < q) (h : (cell p (2 ^ p.fraction) q).Contains x)
    (hlt : x / 2 ^ q < 2 ^ p.fraction) :
    p.place x = q - 1 ∧ NearestEven (x / 2 ^ (q - 1)) (2 * 2 ^ p.fraction : ℕ) := by
  obtain ⟨hlow, -, -⟩ := (contains_cell (Nat.pow_pos (by decide))).1 h
  have hone : (1 : ℚ) ≤ 2 ^ p.fraction := one_le_pow₀ (by norm_num)
  have hdouble : x / 2 ^ (q - 1) = 2 * (x / 2 ^ q) := by
    rw [zpow_sub_one₀ (by norm_num)]
    field_simp
  have hx := pos_of_contains (Nat.pow_pos (by decide)) h
  rw [below, if_pos ⟨rfl, hnormal⟩] at hlow
  push_cast at hlow
  constructor
  · apply place_eq hx (by omega)
    · rw [hdouble]
      linarith
    · intro _
      rw [hdouble]
      linarith
  · have hnear : |x / 2 ^ (q - 1) - ((2 * 2 ^ p.fraction : ℕ) : ℤ)| ≤ 1 / 2 := by
      push_cast
      rw [hdouble, abs_le]
      constructor <;> linarith
    refine ⟨hnear, fun _ => ?_⟩
    push_cast
    exact even_two_mul _

/-- The coefficient that a number is rounded to in its place is at most one digit too long. -/
theorem exists_coefficient (p : Precision) (hx : 0 < x) :
    ∃ n : ℕ, roundEven (x / 2 ^ p.place x) = n ∧ n ≤ 2 * 2 ^ p.fraction ∧
      (p.least < p.place x → 2 ^ p.fraction ≤ n) := by
  obtain ⟨hhigh, hlow⟩ := p.place_bounds hx
  obtain ⟨n, hn⟩ : ∃ n : ℕ, roundEven (x / 2 ^ p.place x) = n :=
    Int.eq_ofNat_of_zero_le (le_roundEven (by push_cast; positivity))
  refine ⟨n, hn, ?_, fun hnormal => ?_⟩
  · have hle := roundEven_le (n := (2 * 2 ^ p.fraction : ℕ)) (by push_cast; exact hhigh.le)
    rw [hn] at hle
    exact_mod_cast hle
  · have hle := le_roundEven (n := (2 ^ p.fraction : ℕ)) (by push_cast; exact hlow hnormal)
    rw [hn] at hle
    exact_mod_cast hle

theorem contains_of_nearest (hfraction : 0 < p.fraction) (h : p.Canonical m q) (hm : 0 < m) (hnum : 0 < r.num)
    (hden : 0 < r.den) (heq : p.nearest r = p.pattern m q) : (cell p m q).Contains r.value := by
  have hx := Ratio.value_pos hnum hden
  obtain ⟨hhigh, hlow⟩ := p.place_bounds hx
  obtain ⟨n, hn, hle, hnormal⟩ := p.exists_coefficient hx
  have hround := nearestEven_roundEven (r.value / 2 ^ p.place r.value)
  have hleast : p.least ≤ p.place r.value := le_max_left _ _
  rw [nearest_eq hnum hden, hn, Int.toNat_natCast] at heq
  rw [hn] at hround
  have hpattern : p.pattern n (p.place r.value) = p.pattern m q := by
    have hfinite := h.finite
    omega
  rcases hle.eq_or_lt with rfl | hlt
  · -- the coefficient is carried to the next power of two
    rw [pattern_carry hleast] at hpattern
    have hpower := Nat.two_pow_pos p.fraction
    have hcanonical : p.Canonical (2 ^ p.fraction) (p.place r.value + 1) :=
      ⟨by omega, by omega, fun _ => le_refl _, hpattern ▸ h.finite⟩
    obtain ⟨rfl, rfl⟩ := h.unique hcanonical hpattern.symm
    exact contains_of_carry hfraction hleast hround hhigh
  · obtain ⟨rfl, rfl⟩ := h.unique ⟨hleast, hlt, hnormal, hpattern ▸ h.finite⟩ hpattern.symm
    exact contains_of_nearestEven hm hround hlow

theorem nearest_of_contains (h : p.Canonical m q) (hm : 0 < m) (hnum : 0 < r.num) (hden : 0 < r.den)
    (hcell : (cell p m q).Contains r.value) : p.nearest r = p.pattern m q := by
  have hx := Ratio.value_pos hnum hden
  obtain ⟨hlow, hhigh, -⟩ := (contains_cell hm).1 hcell
  rw [nearest_eq hnum hden]
  by_cases hplace : p.least < q → (2 : ℚ) ^ p.fraction ≤ r.value / 2 ^ q
  · have hsmall : r.value / 2 ^ q < 2 * 2 ^ p.fraction := by
      have hcoefficient : (m : ℚ) + 1 ≤ 2 * 2 ^ p.fraction := by exact_mod_cast h.coefficient
      linarith
    rw [place_eq hx h.least hsmall hplace, roundEven_eq_iff.2 (nearestEven_of_contains hm hcell), Int.toNat_natCast]
    exact Nat.min_eq_left h.finite.le
  · -- below a power of two that is in the cell, the coefficient is carried
    obtain ⟨hnormal, hlt⟩ := Classical.not_imp.1 hplace
    have hpower : m = 2 ^ p.fraction := by
      have hbelow : (below p m q : ℚ) ≤ 2 := by exact_mod_cast (below_pos p m q).2
      have hle : (m : ℚ) < 2 ^ p.fraction + 1 := by linarith
      exact le_antisymm (Nat.lt_succ_iff.1 (by exact_mod_cast hle)) (h.normal hnormal)
    subst hpower
    obtain ⟨hprevious, hnear⟩ := nearestEven_carry hnormal hcell (not_le.1 hlt)
    rw [hprevious, roundEven_eq_iff.2 hnear, Int.toNat_natCast, pattern_carry (by omega), sub_add_cancel]
    exact Nat.min_eq_left h.finite.le

/-- The numbers in the cell of a canonical number are those that are rounded to its pattern. -/
theorem nearest_eq_pattern_iff (hfraction : 0 < p.fraction) (h : p.Canonical m q) (hm : 0 < m) (hnum : 0 < r.num)
    (hden : 0 < r.den) : p.nearest r = p.pattern m q ↔ (cell p m q).Contains r.value :=
  ⟨contains_of_nearest hfraction h hm hnum hden, nearest_of_contains h hm hnum hden⟩

/-- A number of the precision is rounded to itself. -/
theorem nearest_ofDyadic {k : ℕ} {e : ℤ} (hfraction : 0 < p.fraction) (h : p.Canonical m q) (hm : 0 < m)
    (hvalue : (k * 2 ^ e : ℚ) = m * 2 ^ q) : p.nearest (.ofDyadic k e) = p.pattern m q := by
  have hk : 0 < k := by
    have hpos : (0 : ℚ) < k * 2 ^ e := by
      rw [hvalue]
      positivity
    exact_mod_cast (pos_iff_pos_of_mul_pos hpos).2 (zpow_pos (by norm_num) e)
  rw [nearest_eq_pattern_iff hfraction h hm (Ratio.num_ofDyadic hk e) (Ratio.den_ofDyadic k e), Ratio.value_ofDyadic,
    hvalue]
  exact contains_self hm

end Precision

/-- Moving the leading bit of a number to place 52 makes it as long as the coefficient of a double. -/
theorem shifted_bounds (hm : 0 < m) (hbits : m.log2 ≤ 52) :
    2 ^ 52 ≤ m * 2 ^ (52 - m.log2) ∧ m * 2 ^ (52 - m.log2) < 2 * 2 ^ 52 := by
  have hsplit : 2 ^ m.log2 * 2 ^ (52 - m.log2) = 2 ^ 52 := by rw [← Nat.pow_add, Nat.add_sub_cancel' hbits]
  have hshift : 0 < 2 ^ (52 - m.log2) := Nat.two_pow_pos _
  constructor
  · rw [← hsplit]
    exact Nat.mul_le_mul_right _ (Nat.log2_self_le hm.ne')
  · rw [← hsplit, ← Nat.mul_assoc, ← Nat.pow_succ']
    exact Nat.mul_lt_mul_of_pos_right Nat.lt_log2_self hshift

/-- The coefficient of a single fills that of a double when it is moved up. -/
theorem canonical_double (h : Precision.single.Canonical m q) (hm : 0 < m) :
    Precision.double.Canonical (m * 2 ^ (52 - m.log2)) (q - (52 - m.log2 : ℕ)) := by
  have hleast : -149 ≤ q := h.least
  have hfinite : (q - -149).toNat * 2 ^ 23 + m < 255 * 2 ^ 23 := h.finite
  have hbits : m.log2 < 24 := (Nat.log2_lt hm.ne').2 h.coefficient
  obtain ⟨hlow, hhigh⟩ := shifted_bounds hm (by omega)
  generalize m * 2 ^ (52 - m.log2) = wide at hlow hhigh
  have hdouble : Precision.double.least = -1074 ∧ Precision.double.top = 2047 := by decide
  constructor
  · rw [hdouble.1]
    omega
  · exact hhigh
  · exact fun _ => hlow
  · have hplace : (q - (52 - m.log2 : ℕ) - -1074).toNat < 2045 := by omega
    rw [Precision.pattern, hdouble.1, hdouble.2]
    calc (q - (52 - m.log2 : ℕ) - -1074).toNat * 2 ^ 52 + wide
      _ < (q - (52 - m.log2 : ℕ) - -1074).toNat * 2 ^ 52 + 2 * 2 ^ 52 := Nat.add_lt_add_left hhigh _
      _ = ((q - (52 - m.log2 : ℕ) - -1074).toNat + 2) * 2 ^ 52 := (Nat.add_mul _ _ _).symm
      _ ≤ 2047 * 2 ^ 52 := Nat.mul_le_mul_right _ (by omega)

/-- A single is the same number in double precision, where the unit of its last place is smaller. -/
theorem exists_widened (h : Precision.single.Canonical m q) :
    ∃ m' q', Precision.double.Canonical m' q' ∧ (m' * 2 ^ q' : ℚ) = m * 2 ^ q ∧ (0 < m → q' + 2 ≤ q) ∧
      Precision.double.nearest (.ofDyadic m q) = Precision.double.pattern m' q' := by
  rcases Nat.eq_zero_or_pos m with rfl | hm
  · refine ⟨0, Precision.double.least, ?_, by simp, fun hpos => absurd hpos (lt_irrefl 0), ?_⟩
    · exact ⟨le_refl _, by decide, fun hlt => absurd hlt (lt_irrefl _), by decide⟩
    · simp [Precision.nearest, Ratio.ofDyadic, Precision.pattern]
  · have hwide := canonical_double h hm
    have hbits : m.log2 < 24 := (Nat.log2_lt hm.ne').2 h.coefficient
    have hvalue : ((m * 2 ^ (52 - m.log2) : ℕ) * 2 ^ (q - (52 - m.log2 : ℕ)) : ℚ) = m * 2 ^ q := by
      rw [zpow_sub₀ (by norm_num), zpow_natCast]
      push_cast
      field_simp
    exact ⟨_, _, hwide, hvalue, fun _ => by omega,
      Precision.nearest_ofDyadic (by decide) hwide (by positivity) hvalue.symm⟩

theorem Binary32.canonical_of_read {x : Binary32} {negative : Bool} (h : x.read = .finite negative m q) :
    Precision.single.Canonical m q :=
  (Precision.canonical_of_read (p := Precision.single) x.bits.toNat_lt h).1

theorem Binary64.canonical_of_read {x : Binary64} {negative : Bool} (h : x.read = .finite negative m q) :
    Precision.double.Canonical m q :=
  (Precision.canonical_of_read (p := Precision.double) x.bits.toNat_lt h).1

/-- A finite single is read again after it is widened. -/
theorem Binary32.read_widen {x : Binary32} {negative : Bool} {m' : ℕ} {q' : ℤ} (h : x.read = .finite negative m q)
    (hwide : Precision.double.Canonical m' q')
    (hnearest : Precision.double.nearest (.ofDyadic m q) = Precision.double.pattern m' q') :
    x.widen.read = .finite negative m' q' := by
  simp only [widen, h]
  rw [Binary64.read_ofRatio, hnearest, hwide.read]

end PackedStruct
