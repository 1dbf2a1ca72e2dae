import PackedStruct.Error
import PackedStruct.Proofs.Pattern
import PackedStruct.Proofs.Significant
/-!
General notation: a number rounded to significant digits, with the point where it belongs or with an exponent.
Both forms denote the rounded number, with the zeros at their end or without them.
-/

namespace PackedStruct

namespace Decimal

variable {whole fraction tail : List Char} {x : ℚ} {c : Char}

/-- What stands in front of the exponent. -/
def coefficient (s : List Char) : List Char := s.takeWhile fun c => !isMarker c

theorem not_isMarker_of_isDigit (h : c.isDigit = true) : isMarker c = false := by
  by_contra hmarker
  rw [Bool.not_eq_false] at hmarker
  rw [(not_isDigit_of_isMarker hmarker).1] at h
  cases h

theorem ne_point_of_isDigit (h : c.isDigit = true) : c ≠ '.' := by
  rintro rfl
  cases h

/-- The characters of a mantissa are digits and at most one point. -/
theorem mem_mantissa (h : c ∈ mantissa whole fraction) : c ∈ whole ∨ c ∈ fraction ∨ c = '.' := by
  rcases List.mem_append.1 h with hwhole | hrest
  · exact .inl hwhole
  · split_ifs at hrest with hnone
    · cases hrest
    · rcases List.mem_cons.1 hrest with hpoint | hfraction
      · exact .inr (.inr hpoint)
      · exact .inr (.inl hfraction)

theorem getLast?_mantissa (h : fraction ≠ []) : (mantissa whole fraction).getLast? = fraction.getLast? := by
  rw [mantissa, if_neg h, List.getLast?_append_of_ne_nil _ (List.cons_ne_nil _ _), List.getLast?_cons_of_ne_nil h]

namespace Written

theorem not_isMarker (h : Written whole fraction tail x) (hc : c ∈ mantissa whole fraction) :
    isMarker c = false := by
  rcases mem_mantissa hc with hwhole | hfraction | rfl
  · exact not_isMarker_of_isDigit (h.isDigit_whole c hwhole)
  · exact not_isMarker_of_isDigit (h.isDigit_fraction c hfraction)
  · rfl

theorem coefficient_eq (h : Written whole fraction tail x) :
    coefficient (mantissa whole fraction ++ tail) = mantissa whole fraction := by
  obtain ⟨e, htail, -⟩ := h.value
  have hrest : tail.takeWhile (fun c => !isMarker c) = [] := by
    cases tail with
    | nil => rfl
    | cons c tail => simp [isMarker_of_exponent? htail rfl]
  rw [coefficient, List.takeWhile_append_of_pos fun c hc => by rw [h.not_isMarker hc]; rfl, hrest, List.append_nil]

theorem isMarker_iff (h : Written whole fraction tail x) :
    (∃ c ∈ mantissa whole fraction ++ tail, isMarker c = true) ↔ tail ≠ [] := by
  obtain ⟨e, htail, -⟩ := h.value
  constructor
  · rintro ⟨c, hc, hmarker⟩ rfl
    rw [List.append_nil] at hc
    rw [h.not_isMarker hc] at hmarker
    cases hmarker
  · intro hne
    obtain ⟨c, rest, rfl⟩ := List.exists_cons_of_ne_nil hne
    exact ⟨c, by simp, isMarker_of_exponent? htail rfl⟩

/-- The digits of a mantissa are all its characters but the point. -/
theorem filter_mantissa (h : Written whole fraction tail x) :
    (mantissa whole fraction).filter Char.isDigit = whole ++ fraction := by
  rw [mantissa, List.filter_append, List.filter_eq_self.2 h.isDigit_whole]
  split_ifs with hnone
  · rw [hnone, List.filter_nil]
  · rw [List.filter_cons_of_neg (by decide), List.filter_eq_self.2 h.isDigit_fraction]

/-- Zeros at the end of the fraction do not count. -/
theorem dropZeros (h : Written whole fraction tail x) :
    Written whole (Text.dropEndWhile (· = '0') fraction) tail x := by
  obtain ⟨k, hzeros⟩ := exists_zeros fraction
  obtain ⟨e, htail, hvalue⟩ := h.value
  refine ⟨h.ne_nil, h.isDigit_whole, fun c hc => h.isDigit_fraction c ?_, e, htail, ?_⟩
  · rw [hzeros]
    exact List.mem_append_left _ hc
  · rw [← hvalue]
    conv_rhs => rw [hzeros, ← List.append_assoc, scaled_append_zeros, List.length_append, zeros,
      List.length_replicate]
    congr 1
    push_cast
    ring

/-- A fraction without zeros at its end leaves neither a zero nor the point at the end. -/
theorem getLast?_dropZeros (h : Written whole fraction tail x)
    (hpoint : '.' ∈ mantissa whole (Text.dropEndWhile (· = '0') fraction))
    (hc : (mantissa whole (Text.dropEndWhile (· = '0') fraction)).getLast? = some c) : c ≠ '0' ∧ c ≠ '.' := by
  by_cases hnone : Text.dropEndWhile (· = '0') fraction = []
  · simp only [mantissa, hnone, if_true, List.append_nil] at hpoint
    exact absurd rfl (ne_point_of_isDigit (h.isDigit_whole '.' hpoint))
  · rw [getLast?_mantissa hnone] at hc
    refine ⟨by simpa using Text.getLast?_dropEndWhile hc, ?_⟩
    exact ne_point_of_isDigit (h.dropZeros.isDigit_fraction c (List.mem_of_getLast? hc))

end Written

/-- A point at the end is dropped. -/
theorem dropEndWhile_point (hwhole : ∀ c ∈ whole, c.isDigit = true) (hfraction : ∀ c ∈ fraction, c.isDigit = true) :
    Text.dropEndWhile (· = '.') (whole ++ '.' :: fraction) = mantissa whole fraction := by
  by_cases hnone : fraction = []
  · rw [hnone, Text.dropEndWhile_append (by simp), mantissa, if_pos rfl, List.append_nil]
    exact Text.dropEndWhile_eq_self fun c hc => by
      simpa using ne_point_of_isDigit (hwhole c (List.mem_of_getLast? hc))
  · have hmantissa : whole ++ '.' :: fraction = mantissa whole fraction := by rw [mantissa, if_neg hnone]
    rw [hmantissa]
    apply Text.dropEndWhile_eq_self
    intro c hc
    rw [getLast?_mantissa hnone] at hc
    simpa using ne_point_of_isDigit (hfraction c (List.mem_of_getLast? hc))

/-- Dropping the zeros of a mantissa drops those of its fraction, and the point with the last of them. -/
theorem dropZeros_mantissa (h : Written whole fraction tail x) :
    Format.dropZeros (mantissa whole fraction) = mantissa whole (Text.dropEndWhile (· = '0') fraction) := by
  by_cases hnone : fraction = []
  · have hpoint : '.' ∉ whole := fun hin => ne_point_of_isDigit (h.isDigit_whole '.' hin) rfl
    simp [hnone, mantissa, Format.dropZeros, hpoint, Text.dropEndWhile]
  · have hpoint : '.' ∈ mantissa whole fraction := by simp [mantissa, hnone]
    rw [Format.dropZeros, if_pos hpoint, mantissa, if_neg hnone, Text.dropEndWhile_append_cons (by decide),
      dropEndWhile_point h.isDigit_whole h.dropZeros.isDigit_fraction]

/-- The digits of a number that is written to `count` significant digits are as many, leading zeros left out. -/
theorem length_significant {ds : List Char} {count : ℕ} (hds : ∀ c ∈ ds, c.isDigit = true) (hx : 0 < x)
    (hcount : 0 < count) (hvalue : scaled ds (Int.log 10 x + 1 - count) = x) :
    (ds.dropWhile (· = '0')).length = count := by
  have hplace := lastPlace_pos count (Int.log 10 x)
  obtain ⟨hlow, hhigh⟩ := log_bounds hx
  rw [← pow_pred_mul_lastPlace hcount] at hlow
  rw [← pow_mul_lastPlace count] at hhigh
  change (Nat.ofDigitChars 10 ds 0 : ℚ) * lastPlace count (Int.log 10 x) = x at hvalue
  generalize lastPlace count (Int.log 10 x) = unit at hplace hlow hhigh hvalue
  rw [← hvalue, mul_le_mul_iff_of_pos_right hplace] at hlow
  rw [← hvalue, mul_lt_mul_iff_of_pos_right hplace] at hhigh
  exact length_dropWhile hds (by exact_mod_cast hlow) (by exact_mod_cast hhigh)

/-- The digits of a number that is rounded to a number of places, with the point among them. -/
def places (r : Ratio) (count : ℕ) : List Char × List Char :=
  let n := (r.scale10 count).round .toEven
  (digitsOf (n / 10 ^ count), padded count (n % 10 ^ count))

variable {r : Ratio} {count : ℕ}

theorem fixed_eq (r : Ratio) (count : ℕ) : fixed r count = mantissa (places r count).1 (places r count).2 := by
  have hnil : (places r count).2 = [] ↔ count = 0 := by
    rw [← List.length_eq_zero_iff, places, length_padded]
  rw [fixed, mantissa]
  simp only [hnil]
  rfl

theorem scaled_places (hden : 0 < r.den) (count : ℕ) :
    scaled ((places r count).1 ++ (places r count).2) (-count) =
      roundEven (r.value * 10 ^ (count : ℤ)) * 10 ^ (-(count : ℤ)) := by
  have hdigits : Nat.ofDigitChars 10 ((places r count).1 ++ (places r count).2) 0 =
      (r.scale10 count).round .toEven := by
    rw [Nat.ofDigitChars_append, Nat.ofDigitChars_eq_ofDigitChars_zero, places, digitsOf,
      Nat.ofDigitChars_ten_toDigits, padded_eq, ofDigitChars_tailDigits, Nat.mod_mod, length_tailDigits]
    exact Nat.div_add_mod _ _
  rw [scaled, hdigits, ← round_scale10 hden]
  push_cast
  rfl

theorem written_places (hden : 0 < r.den) (count : ℕ)
    (hx : roundEven (r.value * 10 ^ (count : ℤ)) * 10 ^ (-(count : ℤ)) = x) :
    Written (places r count).1 (places r count).2 [] x where
  ne_nil := by simp [places, digitsOf]
  isDigit_whole _ hc := Nat.isDigit_of_mem_toDigits (by decide) (by decide) hc
  isDigit_fraction c hc := by
    rw [places, padded_eq] at hc
    exact isDigit_tailDigits hc
  value := by
    refine ⟨0, rfl, ?_⟩
    have hlength : (places r count).2.length = count := length_padded _ _
    rw [hlength, zero_sub, scaled_places hden, hx]

end Decimal

namespace Format

open Decimal

variable {f : Format} {r : Ratio} {count : ℕ}

/-- A fraction with the zeros at its end or without them. -/
def trimmed (keepZeros : Bool) (fraction : List Char) : List Char :=
  if keepZeros then fraction else Text.dropEndWhile (· = '0') fraction

theorem trim_mantissa (keepZeros : Bool) {whole fraction tail : List Char} {x : ℚ} (h : Written whole fraction tail x) :
    (if keepZeros then mantissa whole fraction else dropZeros (mantissa whole fraction)) =
      mantissa whole (trimmed keepZeros fraction) := by
  cases keepZeros with
  | true => rfl
  | false => exact dropZeros_mantissa h

theorem written_trimmed (keepZeros : Bool) {whole fraction tail : List Char} {x : ℚ}
    (h : Written whole fraction tail x) : Written whole (trimmed keepZeros fraction) tail x := by
  cases keepZeros with
  | true => exact h
  | false => exact h.dropZeros

/-- The rounded number without an exponent: the last significant digit is one of the digits after the point. -/
theorem general_positional (hnum : 0 < r.num) (hden : 0 < r.den) (hcount : 0 < count)
    (hplace : (significant r count).exponent < count) :
    ∃ whole fraction, fixed r (count - 1 - (significant r count).exponent).toNat = mantissa whole fraction ∧
      Written whole fraction [] (roundSignificant count r.value) ∧
      scaled (whole ++ fraction) ((significant r count).exponent + 1 - count) = roundSignificant count r.value := by
  have hround := roundEven_lastPlace hcount (Ratio.value_pos hnum hden)
  rw [← (shows_significant hnum hden hcount).exponent] at hround
  generalize (significant r count).exponent = e at hplace hround
  obtain ⟨last, hlast⟩ := Int.eq_ofNat_of_zero_le (by omega : 0 ≤ (count : ℤ) - 1 - e)
  have he : e + 1 - (count : ℤ) = -last := by omega
  dsimp only at hround
  rw [lastPlace, he, zpow_neg, div_inv_eq_mul, ← zpow_neg] at hround
  refine ⟨_, _, ?_, written_places hden last hround, ?_⟩
  · rw [hlast, Int.toNat_natCast, fixed_eq]
  · rw [he, scaled_places hden, hround]

/-- The rounded number with an exponent: its digits are the significant ones. -/
theorem general_scientific (upper : Bool) (hnum : 0 < r.num) (hden : 0 < r.den) (hcount : 0 < count) :
    ∃ whole fraction, leading (significant r count).digits = mantissa whole fraction ∧
      Written whole fraction (exponentText upper (significant r count).exponent) (roundSignificant count r.value) ∧
      scaled (whole ++ fraction) ((significant r count).exponent + 1 - count) = roundSignificant count r.value := by
  have hshows := shows_significant hnum hden hcount
  generalize hdigits : significant r count = d at hshows
  obtain ⟨digits, e⟩ := d
  obtain ⟨c, cs, rfl⟩ := List.exists_cons_of_length_pos (hshows.length.symm ▸ hcount)
  have hplace : e - cs.length = e + 1 - count := by
    rw [← hshows.length, List.length_cons]
    push_cast
    ring
  have hwritten := written_leading hshows.isDigit (exponent?_exponentText upper e)
  rw [hplace, hshows.value] at hwritten
  exact ⟨[c], cs, leading_eq c cs, hwritten, hshows.value⟩

/-- How many decimal places or significant digits general notation asks for. Where there is no exponent, the last
significant digit is at the last place after the point. -/
def generalDigits (keepZeros : Bool) (precision : ℕ) (x : ℚ) : ℕ :=
  let count := max precision 1
  let e := Int.log 10 (roundSignificant count x)
  if x = 0 then if keepZeros then count - 1 else 0
  else if -4 ≤ e ∧ e < count then max count (count - 1 - e).toNat
  else count

/-- Below one there are three places more at most. -/
theorem generalDigits_le (keepZeros : Bool) (precision : ℕ) (x : ℚ) :
    generalDigits keepZeros precision x ≤ max precision 1 + 3 := by
  unfold generalDigits
  dsimp only
  generalize Int.log 10 (roundSignificant (max precision 1) x) = e
  split_ifs <;> omega

/-- Zero is written with the places that the precision asks for, or as it is. -/
theorem general?_zero (upper keepZeros : Bool) (precision : ℕ) (hnum : r.num = 0) :
    general? upper keepZeros precision r =
      if generalDigits keepZeros precision r.value ≤ digitLimit then
        some (if keepZeros then fixed r (max precision 1 - 1) else ['0'])
      else none := by
  have hvalue : r.value = 0 := by simp [Ratio.value, hnum]
  rw [general?, generalDigits, if_pos hnum, if_pos hvalue]
  cases keepZeros with
  | true => rfl
  | false => rfl

theorem general?_positional (upper keepZeros : Bool) {precision : ℕ} (hcount : count = max precision 1)
    (hnum : r.num ≠ 0)
    (hplace : -4 ≤ (significant r count).exponent ∧ (significant r count).exponent < count) :
    general? upper keepZeros precision r =
      if max count (count - 1 - (significant r count).exponent).toNat ≤ digitLimit then
        some (if keepZeros then fixed r (count - 1 - (significant r count).exponent).toNat
          else dropZeros (fixed r (count - 1 - (significant r count).exponent).toNat))
      else none := by
  simp only [general?, if_neg hnum, ← hcount, max_le_iff]
  by_cases hdigits : count ≤ digitLimit
  · rw [significant?, if_pos hdigits, Option.bind_some, if_pos hplace, fixed?]
    simp only [hdigits, true_and]
    split_ifs <;> rfl
  · rw [significant?, if_neg hdigits, Option.bind_none, if_neg fun h => hdigits h.1]

theorem general?_scientific (upper keepZeros : Bool) {precision : ℕ} (hcount : count = max precision 1)
    (hnum : r.num ≠ 0)
    (hplace : ¬(-4 ≤ (significant r count).exponent ∧ (significant r count).exponent < count)) :
    general? upper keepZeros precision r =
      if count ≤ digitLimit then
        some ((if keepZeros then leading (significant r count).digits
          else dropZeros (leading (significant r count).digits)) ++ exponentText upper (significant r count).exponent)
      else none := by
  simp only [general?, if_neg hnum, ← hcount]
  by_cases hdigits : count ≤ digitLimit
  · rw [significant?, if_pos hdigits, Option.bind_some, if_neg hplace, if_pos hdigits]
  · rw [significant?, if_neg hdigits, Option.bind_none, if_neg hdigits]

/-- General notation writes the number that is rounded to the significant digits, with an exponent or without one
by the place of the leading digit after rounding, unless it asks for too many digits. -/
theorem general?_written (upper keepZeros : Bool) (precision : ℕ) (hnum : 0 < r.num) (hden : 0 < r.den) :
    let count := max precision 1
    let rounded := roundSignificant count r.value
    let e := Int.log 10 rounded
    ∃ whole fraction tail,
      general? upper keepZeros precision r =
        (if generalDigits keepZeros precision r.value ≤ digitLimit then
          some (mantissa whole (trimmed keepZeros fraction) ++ tail)
        else none) ∧
      Written whole fraction tail rounded ∧ (tail ≠ [] ↔ e < -4 ∨ count ≤ e) ∧
      scaled (whole ++ fraction) (e + 1 - count) = rounded := by
  intro count rounded e
  have hcount : 0 < count := by omega
  have hvalue : r.value ≠ 0 := (Ratio.value_pos hnum hden).ne'
  have hexponent : (significant r count).exponent = e := (shows_significant hnum hden hcount).exponent
  by_cases hplace : -4 ≤ (significant r count).exponent ∧ (significant r count).exponent < count
  · obtain ⟨whole, fraction, hfixed, hwritten, hscaled⟩ := general_positional hnum hden hcount hplace.2
    have hdigits : generalDigits keepZeros precision r.value = max count (count - 1 - e).toNat := by
      rw [hexponent] at hplace
      simp only [generalDigits, if_neg hvalue]
      exact if_pos hplace
    have hshown := general?_positional upper keepZeros rfl hnum.ne' hplace
    rw [hfixed, trim_mantissa keepZeros hwritten, hexponent] at hshown
    rw [hexponent] at hscaled hplace
    refine ⟨whole, fraction, [], ?_, hwritten, ?_, hscaled⟩
    · rw [hdigits, hshown, List.append_nil]
    · simp only [ne_eq, not_true, false_iff]
      omega
  · obtain ⟨whole, fraction, hleading, hwritten, hscaled⟩ := general_scientific upper hnum hden hcount
    have hdigits : generalDigits keepZeros precision r.value = count := by
      rw [hexponent] at hplace
      simp only [generalDigits, if_neg hvalue]
      exact if_neg hplace
    have hshown := general?_scientific upper keepZeros rfl hnum.ne' hplace
    rw [hleading, trim_mantissa keepZeros hwritten] at hshown
    rw [hexponent] at hscaled hplace
    refine ⟨whole, fraction, _, ?_, hwritten, ?_, hscaled⟩
    · rw [hdigits, hshown]
    · have hne : exponentText upper (significant r count).exponent ≠ [] := List.cons_ne_nil _ _
      simp only [ne_eq, hne, not_false_eq_true, true_iff]
      omega

/-- What general notation shows of a positive quotient, to the digits and to the end of the fraction. -/
theorem general?_shows (upper keepZeros : Bool) (precision : ℕ) (hnum : 0 < r.num) (hden : 0 < r.den) :
    let count := max precision 1
    let rounded := roundSignificant count r.value
    let e := Int.log 10 rounded
    ∃ body,
      general? upper keepZeros precision r =
        (if generalDigits keepZeros precision r.value ≤ digitLimit then some body else none) ∧
      (∀ negative, number? (Spelling.minus negative ++ body) = some (if negative then -rounded else rounded)) ∧
      ((∃ c ∈ body, isMarker c = true) ↔ e < -4 ∨ count ≤ e) ∧
      (keepZeros = false → '.' ∈ coefficient body → ∀ c, (coefficient body).getLast? = some c → c ≠ '0' ∧ c ≠ '.') ∧
      (keepZeros = true → (((coefficient body).filter Char.isDigit).dropWhile (· = '0')).length = count) := by
  intro count rounded e
  obtain ⟨whole, fraction, tail, hgeneral, hwritten, htail, hscaled⟩ :=
    general?_written upper keepZeros precision hnum hden
  have htrimmed := written_trimmed keepZeros hwritten
  have hcount : 0 < count := by omega
  refine ⟨_, hgeneral, htrimmed.number?_eq, htrimmed.isMarker_iff.trans htail, fun hdrop hpoint c hc => ?_,
    fun hkeep => ?_⟩
  · rw [htrimmed.coefficient_eq, hdrop] at hpoint hc
    exact hwritten.getLast?_dropZeros hpoint hc
  · rw [htrimmed.coefficient_eq, htrimmed.filter_mantissa, hkeep]
    refine length_significant (fun c hc => ?_) (roundSignificant_pos hcount (Ratio.value_pos hnum hden)) hcount hscaled
    exact (List.mem_append.1 hc).elim (hwritten.isDigit_whole c) (hwritten.isDigit_fraction c)

/-- The formats in general notation: by their type, or with a precision and no type. -/
def IsGeneral (f : Format) : Prop :=
  f.kind = some .lowerGeneral ∨ f.kind = some .upperGeneral ∨ f.kind = some .number ∨
    f.kind = none ∧ f.precision.isSome = true

/-- Such a format shows finite numbers in general notation. -/
theorem IsGeneral.finite? (h : f.IsGeneral) (m : Nat) (q : Int) :
    ∃ upper, f.finite? m q = some (general? upper f.alternate (f.precision.getD 6) (.ofDyadic m q)) := by
  rcases h with hkind | hkind | hkind | ⟨hkind, hprecision⟩
  · exact ⟨false, by simp only [Format.finite?, hkind]⟩
  · exact ⟨true, by simp only [Format.finite?, hkind]⟩
  · exact ⟨false, by simp only [Format.finite?, hkind]⟩
  · obtain ⟨precision, hprecision⟩ := Option.isSome_iff_exists.1 hprecision
    exact ⟨false, by simp only [Format.finite?, hkind, hprecision, Option.getD_some]⟩

/-- In general notation, with three decimal places to spare, a number has the text of its value rounded to the
significant digits, half to even. There is an exponent where the leading digit of the rounded number is too far from
the point. Zeros at the end of the fraction are left out, and the point with them; in the alternate form all
significant digits are there. -/
theorem float_general (hf : f.IsGeneral) {x : Binary64} {negative : Bool} {m : Nat} {q : Int}
    (hread : x.read = .finite negative m q) (hm : m ≠ 0) (hlimit : max (f.precision.getD 6) 1 + 3 ≤ digitLimit) :
    let count := max (f.precision.getD 6) 1
    let value : ℚ := if negative then -(m * 2 ^ q) else m * 2 ^ q
    let rounded := roundSignificant count value
    let e := Int.log 10 |rounded|
    ∃ body, f.float? x = some (f.pad .right ⟨f.signText negative, body⟩) ∧
      number? (Spelling.minus negative ++ body) = some rounded ∧
      ((∃ c ∈ body, isMarker c = true) ↔ e < -4 ∨ count ≤ e) ∧
      (f.alternate = false → '.' ∈ coefficient body →
        ∀ c, (coefficient body).getLast? = some c → c ≠ '0' ∧ c ≠ '.') ∧
      (f.alternate = true → (((coefficient body).filter Char.isDigit).dropWhile (· = '0')).length = count) := by
  intro count value rounded e
  obtain ⟨upper, hfinite⟩ := hf.finite? m q
  obtain ⟨body, hbody, hnumber, hmarker, hdrop, hkeep⟩ := general?_shows upper f.alternate (f.precision.getD 6)
    (Ratio.num_ofDyadic (Nat.pos_of_ne_zero hm) q) (Ratio.den_ofDyadic m q)
  rw [if_pos ((generalDigits_le _ _ _).trans hlimit)] at hbody
  rw [Ratio.value_ofDyadic] at hnumber hmarker
  have hpos : 0 < roundSignificant count (m * 2 ^ q : ℚ) := roundSignificant_pos (by omega) (by positivity)
  have hround : rounded =
      if negative then -roundSignificant count (m * 2 ^ q) else roundSignificant count (m * 2 ^ q) := by
    cases negative with
    | true => exact roundSignificant_neg count _
    | false => rfl
  have habs : |rounded| = roundSignificant count (m * 2 ^ q) := by
    rw [hround]
    split_ifs
    · rw [abs_neg, abs_of_pos hpos]
    · exact abs_of_pos hpos
  refine ⟨body, ?_, ?_, ?_, hdrop, hkeep⟩
  · simp only [float?, hread, hfinite, hbody, Option.map_some]
  · rw [hnumber, hround]
  · simp only [e, habs]
    exact hmarker

/-- A number just under a power of ten that rounding to six digits reaches: it is written without an exponent, as the
rounded number is large enough, and with six digits. -/
theorem float_general_carried :
    let f : Format := ⟨' ', none, .minus, true, 0, none, none, some .lowerGeneral⟩
    let x : Binary64 := ⟨0xBF1A36E2E6B65CCC⟩
    Format.read "#g" = .ok f ∧ f.IsGeneral ∧ x.read = .finite true 7378697555696844 (-66) ∧
      7378697555696844 ≠ 0 ∧ max (f.precision.getD 6) 1 + 3 ≤ digitLimit ∧
      f.float? x = some "-0.000100000".toList ∧
      number? "-0.000100000".toList = some (roundSignificant 6 (-(7378697555696844 * 2 ^ (-66 : ℤ)))) := by
  intro f x
  have hgeneral : f.IsGeneral := .inl rfl
  have hread : x.read = .finite true 7378697555696844 (-66) := by decide +kernel
  have hlimit : max (f.precision.getD 6) 1 + 3 ≤ digitLimit := by decide
  have hfloat : f.float? x = some "-0.000100000".toList := by decide +kernel
  refine ⟨by rfl, hgeneral, hread, by decide, hlimit, hfloat, ?_⟩
  obtain ⟨body, hpad, hnumber, -⟩ := float_general hgeneral hread (by decide) hlimit
  rw [pad_of_le (Nat.zero_le _)] at hpad
  have hbody : Spelling.minus true ++ body = "-0.000100000".toList := Option.some.inj (hpad.symm.trans hfloat)
  rw [hbody] at hnumber
  exact_mod_cast hnumber

end Format

end PackedStruct
