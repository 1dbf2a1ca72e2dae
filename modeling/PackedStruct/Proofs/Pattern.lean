import Mathlib.Tactic.Ring
import PackedStruct.Binary
/-!
Bit patterns and what they stand for. A finite number has one coefficient and one exponent that a pattern
can hold, and its pattern is read as these again. The sign bit changes the sign of a reading and nothing else.
-/

namespace PackedStruct

/-- Whether a reading is below zero, or the negative zero. -/
def Reading.negative : Reading → Bool
  | .finite negative _ _ => negative
  | .infinite negative => negative
  | .nan => false

namespace Precision

variable {p : Precision} {m bits : Nat} {q : Int} {negative : Bool}

/-- The pattern of `m · 2^q` without its sign bit. -/
def pattern (p : Precision) (m : Nat) (q : Int) : Nat := (q - p.least).toNat * 2 ^ p.fraction + m

/-- A coefficient and an exponent as a pattern holds them: as many fraction bits as there are, unless the
exponent is the least one. -/
structure Canonical (p : Precision) (m : Nat) (q : Int) : Prop where
  least : p.least ≤ q
  coefficient : m < 2 * 2 ^ p.fraction
  normal : p.least < q → 2 ^ p.fraction ≤ m
  finite : p.pattern m q < p.top * 2 ^ p.fraction

theorem top_lt (p : Precision) : p.top < 2 ^ p.exponent := by
  have hpos : 0 < 2 ^ p.exponent := Nat.two_pow_pos _
  simp only [top, Nat.pow_eq]
  omega

/-- A pattern without its sign bit leaves the place of that bit free. -/
theorem lt_signPlace (h : bits ≤ p.top * 2 ^ p.fraction) : bits < 2 ^ (p.fraction + p.exponent) := by
  calc bits
    _ ≤ p.top * 2 ^ p.fraction := h
    _ < 2 ^ p.exponent * 2 ^ p.fraction := Nat.mul_lt_mul_of_pos_right p.top_lt (Nat.two_pow_pos _)
    _ = 2 ^ (p.fraction + p.exponent) := by rw [Nat.mul_comm, ← Nat.pow_add]

theorem testBit_sign (h : bits < 2 ^ (p.fraction + p.exponent)) :
    (p.signBit negative + bits).testBit (p.fraction + p.exponent) = negative := by
  cases negative with
  | false => simpa [signBit] using Nat.testBit_lt_two_pow h
  | true => simp [signBit, Nat.testBit_two_pow_add_eq, Nat.testBit_lt_two_pow h]

theorem fields_sign (negative : Bool) (h : bits < 2 ^ (p.fraction + p.exponent)) :
    (p.signBit negative + bits) / 2 ^ p.fraction % 2 ^ p.exponent = bits / 2 ^ p.fraction ∧
      (p.signBit negative + bits) % 2 ^ p.fraction = bits % 2 ^ p.fraction := by
  have hpos : 0 < 2 ^ p.fraction := Nat.two_pow_pos _
  have hfield : bits / 2 ^ p.fraction < 2 ^ p.exponent := by
    rwa [Nat.div_lt_iff_lt_mul hpos, Nat.mul_comm, ← Nat.pow_add]
  cases negative with
  | false => simp [signBit, Nat.mod_eq_of_lt hfield]
  | true =>
    have hplace : p.signBit true = 2 ^ p.fraction * 2 ^ p.exponent := by simp [signBit, Nat.pow_add]
    rw [hplace, Nat.mul_add_div hpos, Nat.add_mod_left, Nat.mod_eq_of_lt hfield, Nat.mul_add_mod]
    exact ⟨rfl, rfl⟩

/-- A pattern is read by its fields. -/
theorem read_sign (h : bits < 2 ^ (p.fraction + p.exponent)) :
    p.read (p.signBit negative + bits) =
      if bits / 2 ^ p.fraction = p.top then if bits % 2 ^ p.fraction = 0 then .infinite negative else .nan
      else if bits / 2 ^ p.fraction = 0 then .finite negative (bits % 2 ^ p.fraction) p.least
      else .finite negative (2 ^ p.fraction + bits % 2 ^ p.fraction)
        (p.least + (bits / 2 ^ p.fraction : Nat) - 1) := by
  obtain ⟨hfield, hfrac⟩ := fields_sign negative h
  simp only [read, Nat.pow_eq, testBit_sign h, hfield, hfrac]

/-- A pattern of up to infinity has the sign that is set. -/
theorem negative_read (h : bits ≤ p.top * 2 ^ p.fraction) :
    (p.read (p.signBit negative + bits)).negative = negative := by
  rw [read_sign (lt_signPlace h)]
  split_ifs with htop hzero
  · rfl
  · -- past infinity only
    have hpast : p.top * 2 ^ p.fraction < bits := by
      have hsplit := Nat.div_add_mod' bits (2 ^ p.fraction)
      rw [htop] at hsplit
      omega
    omega
  · rfl
  · rfl

/-- The pattern of a canonical number is read as that number. -/
theorem Canonical.read (h : p.Canonical m q) :
    p.read (p.signBit negative + p.pattern m q) = .finite negative m q := by
  have hpos : 0 < 2 ^ p.fraction := Nat.two_pow_pos _
  have hleast := h.least
  have hfinite : p.pattern m q / 2 ^ p.fraction ≠ p.top := ((Nat.div_lt_iff_lt_mul hpos).2 h.finite).ne
  rw [read_sign (lt_signPlace h.finite.le), if_neg hfinite]
  by_cases hnormal : 2 ^ p.fraction ≤ m
  · -- the leading bit of the coefficient is carried into the exponent field
    obtain ⟨frac, rfl⟩ := Nat.exists_eq_add_of_le hnormal
    have hfrac : frac < 2 ^ p.fraction := by
      have hlt := h.coefficient
      omega
    have hpattern : p.pattern (2 ^ p.fraction + frac) q = 2 ^ p.fraction * ((q - p.least).toNat + 1) + frac := by
      rw [pattern]
      ring
    rw [hpattern, Nat.mul_add_div hpos, Nat.div_eq_of_lt hfrac, Nat.mul_add_mod, Nat.mod_eq_of_lt hfrac,
      if_neg (by omega)]
    congr 1
    omega
  · have hq : q = p.least := by
      by_contra hne
      exact hnormal (h.normal (by omega))
    have hsmall : m < 2 ^ p.fraction := Nat.not_le.1 hnormal
    have hpattern : p.pattern m q = m := by simp [pattern, hq]
    rw [hpattern, if_pos (Nat.div_eq_of_lt hsmall), Nat.mod_eq_of_lt hsmall, hq]

theorem exists_sign (h : bits < 2 ^ (p.fraction + p.exponent + 1)) :
    ∃ negative low, bits = p.signBit negative + low ∧ low < 2 ^ (p.fraction + p.exponent) := by
  rw [Nat.pow_succ] at h
  by_cases hlow : bits < 2 ^ (p.fraction + p.exponent)
  · exact ⟨false, bits, by simp [signBit], hlow⟩
  · refine ⟨true, bits - 2 ^ (p.fraction + p.exponent), ?_, by omega⟩
    simp only [signBit, Nat.pow_eq, if_true]
    omega

/-- What is read as a finite number is the pattern of that number. -/
theorem canonical_of_read (hbits : bits < 2 ^ (p.fraction + p.exponent + 1))
    (h : p.read bits = .finite negative m q) :
    p.Canonical m q ∧ bits = p.signBit negative + p.pattern m q := by
  have hpos : 0 < 2 ^ p.fraction := Nat.two_pow_pos _
  obtain ⟨sign, low, rfl, hlow⟩ := exists_sign hbits
  have hsplit := Nat.div_add_mod' low (2 ^ p.fraction)
  have hfrac : low % 2 ^ p.fraction < 2 ^ p.fraction := Nat.mod_lt _ hpos
  have hfield : low / 2 ^ p.fraction < 2 ^ p.exponent := by
    rwa [Nat.div_lt_iff_lt_mul hpos, Nat.mul_comm, ← Nat.pow_add]
  rw [read_sign hlow] at h
  have hfinite : low / 2 ^ p.fraction ≠ p.top := by
    intro htop
    rw [if_pos htop] at h
    split_ifs at h
  rw [if_neg hfinite] at h
  have htop : low < p.top * 2 ^ p.fraction := by
    have hlt : low / 2 ^ p.fraction < p.top := by
      have heq : p.top = 2 ^ p.exponent - 1 := rfl
      omega
    rwa [← Nat.div_lt_iff_lt_mul hpos]
  split_ifs at h with hzero
  · cases h
    have hsame : low % 2 ^ p.fraction = low := by
      rw [hzero] at hsplit
      omega
    have hpattern : p.pattern (low % 2 ^ p.fraction) p.least = low := by simp [pattern, hsame]
    refine ⟨⟨le_refl _, by omega, fun hlt => absurd hlt (lt_irrefl _), ?_⟩, by rw [hpattern]⟩
    rwa [hpattern]
  · cases h
    obtain ⟨field, hfield⟩ := Nat.exists_eq_succ_of_ne_zero hzero
    rw [hfield] at hsplit ⊢
    have hexp : (p.least + ((field.succ : Nat) : Int) - 1 - p.least).toNat = field := by omega
    have hpattern : p.pattern (2 ^ p.fraction + low % 2 ^ p.fraction) (p.least + (field.succ : Nat) - 1) = low := by
      rw [pattern, hexp]
      rw [Nat.succ_mul] at hsplit
      omega
    refine ⟨⟨by omega, by omega, fun _ => by omega, ?_⟩, by rw [hpattern]⟩
    rwa [hpattern]

/-- No number is rounded past infinity. -/
theorem nearest_le (p : Precision) (r : Ratio) : p.nearest r ≤ p.top * 2 ^ p.fraction := by
  unfold nearest
  split_ifs
  · exact Nat.zero_le _
  · exact Nat.min_le_right _ _

end Precision

namespace Binary64

theorem toNat_ofRatio (negative : Bool) (r : Ratio) :
    (ofRatio negative r).bits.toNat = Precision.double.signBit negative + Precision.double.nearest r := by
  have hnearest : Precision.double.nearest r ≤ 2047 * 2 ^ 52 := Precision.double.nearest_le r
  have hsign : Precision.double.signBit negative ≤ 2 ^ 63 := by cases negative <;> decide
  have hfits : Precision.double.signBit negative + Precision.double.nearest r < UInt64.size := by
    change _ < 2 ^ 64
    omega
  exact UInt64.toNat_ofNat_of_lt' hfits

theorem read_ofRatio (negative : Bool) (r : Ratio) :
    (ofRatio negative r).read =
      Precision.double.read (Precision.double.signBit negative + Precision.double.nearest r) := by
  rw [read, toNat_ofRatio]

/-- Quotients of one sign give the same number exactly if they are rounded to the same pattern. -/
theorem ofRatio_eq_iff {negative : Bool} {r r' : Ratio} :
    ofRatio negative r = ofRatio negative r' ↔ Precision.double.nearest r = Precision.double.nearest r' := by
  constructor
  · intro h
    have hbits := congrArg (fun x : Binary64 => x.bits.toNat) h
    simp only [toNat_ofRatio] at hbits
    omega
  · intro h
    rw [ofRatio, ofRatio, h]

theorem negative_ofRatio (negative : Bool) (r : Ratio) : (ofRatio negative r).read.negative = negative := by
  rw [read_ofRatio, Precision.negative_read (Precision.double.nearest_le r)]

theorem negative_ofInt (v : Int) : (ofInt v).read.negative = decide (v < 0) := negative_ofRatio _ _

end Binary64

end PackedStruct
