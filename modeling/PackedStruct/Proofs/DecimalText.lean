import Mathlib.Algebra.Order.Field.Power
import Mathlib.Tactic.Ring
import PackedStruct.Format.Number
import PackedStruct.Text.Numeral
/-!
Decimal texts and the numbers they denote: digits, perhaps a point and more digits, perhaps an exponent.
Zeros at either end of the digits change nothing but how many digits there are.
-/

namespace PackedStruct.Decimal

variable {s ds whole fraction tail : List Char} {c : Char} {e : ℤ} {x : ℚ}

/-- The number with these digits before a point that is then moved by `e` places. -/
def scaled (ds : List Char) (e : ℤ) : ℚ := (Nat.ofDigitChars 10 ds 0 : ℚ) * 10 ^ e

def isMarker (c : Char) : Bool := c = 'e' || c = 'E'

/-- A whole number with or without a sign. -/
def signed? : List Char → Option ℤ
  | '-' :: s => (Text.natural? 10 s).map fun n => -(n : ℤ)
  | '+' :: s => (Text.natural? 10 s).map Int.ofNat
  | s => (Text.natural? 10 s).map Int.ofNat

/-- An exponent after its marker; without one it is zero. -/
def exponent? : List Char → Option ℤ
  | [] => some 0
  | c :: s => if isMarker c then signed? s else none

/-- A point and the digits after it, if there is one, and what follows. -/
def cutFraction : List Char → List Char × List Char
  | '.' :: s => (s.takeWhile Text.isDigit, s.dropWhile Text.isDigit)
  | s => ([], s)

/-- The number that a decimal text denotes. -/
def value? (s : List Char) : Option ℚ :=
  let whole := s.takeWhile Text.isDigit
  let (fraction, tail) := cutFraction (s.dropWhile Text.isDigit)
  if whole = [] then none
  else (exponent? tail).map fun e => scaled (whole ++ fraction) (e - fraction.length)

/-- The number that a decimal text with an optional minus denotes. -/
def number? : List Char → Option ℚ
  | '-' :: s => (value? s).map Neg.neg
  | s => value? s

/-- Digits with a point in front of the fraction, if there is one. -/
def mantissa (whole fraction : List Char) : List Char :=
  whole ++ if fraction = [] then [] else '.' :: fraction

/-- An exponent begins with its marker, if there is one. -/
theorem isMarker_of_exponent? (h : exponent? s = some e) (hc : s.head? = some c) : isMarker c = true := by
  cases s with
  | nil => cases hc
  | cons d s =>
    cases hc
    by_contra hmarker
    simp [exponent?, hmarker] at h

theorem not_isDigit_of_isMarker (h : isMarker c = true) : c.isDigit = false ∧ c ≠ '.' := by
  simp only [isMarker, Bool.or_eq_true, decide_eq_true_eq] at h
  rcases h with rfl | rfl <;> decide

/-- A text that is put together from digits and an exponent denotes what they say. -/
theorem value?_mantissa (hne : whole ≠ []) (hwhole : ∀ c ∈ whole, c.isDigit = true)
    (hfraction : ∀ c ∈ fraction, c.isDigit = true) (htail : exponent? tail = some e) :
    value? (mantissa whole fraction ++ tail) = some (scaled (whole ++ fraction) (e - fraction.length)) := by
  have hmarker : ∀ c, tail.head? = some c → c.isDigit = false ∧ c ≠ '.' := fun c hc =>
    not_isDigit_of_isMarker (isMarker_of_exponent? htail hc)
  by_cases hnone : fraction = []
  · obtain ⟨htake, hdrop⟩ := Text.takeWhile_digits hwhole fun c hc => (hmarker c hc).1
    have hcut : cutFraction tail = ([], tail) := by
      unfold cutFraction
      split
      · exact absurd rfl (hmarker '.' rfl).2
      · rfl
    simp [value?, mantissa, hnone, htake, hdrop, hcut, hne, htail]
  · obtain ⟨htake, hdrop⟩ := Text.takeWhile_digits hwhole (s := '.' :: (fraction ++ tail))
      (by simp only [List.head?_cons, Option.some.injEq]; rintro c rfl; decide)
    obtain ⟨htake', hdrop'⟩ := Text.takeWhile_digits hfraction fun c hc => (hmarker c hc).1
    have hcut : cutFraction ('.' :: (fraction ++ tail)) = (fraction, tail) := by
      rw [cutFraction, htake', hdrop']
    simp [value?, mantissa, hnone, htake, hdrop, hcut, hne, htail]

/-- The parts of a decimal text, and the number that they denote. -/
structure Written (whole fraction tail : List Char) (x : ℚ) : Prop where
  ne_nil : whole ≠ []
  isDigit_whole : ∀ c ∈ whole, c.isDigit = true
  isDigit_fraction : ∀ c ∈ fraction, c.isDigit = true
  value : ∃ e, exponent? tail = some e ∧ scaled (whole ++ fraction) (e - fraction.length) = x

namespace Written

theorem value?_eq (h : Written whole fraction tail x) : value? (mantissa whole fraction ++ tail) = some x := by
  obtain ⟨e, htail, hvalue⟩ := h.value
  rw [value?_mantissa h.ne_nil h.isDigit_whole h.isDigit_fraction htail, hvalue]

theorem number?_eq (h : Written whole fraction tail x) (negative : Bool) :
    number? (Spelling.minus negative ++ (mantissa whole fraction ++ tail)) = some (if negative then -x else x) := by
  have hvalue := h.value?_eq
  cases negative with
  | true => simp [Spelling.minus, number?, hvalue]
  | false =>
    obtain ⟨d, ds, rfl⟩ := List.exists_cons_of_ne_nil h.ne_nil
    have hd : d ≠ '-' := by
      rintro rfl
      exact absurd (h.isDigit_whole '-' (by simp)) (by decide)
    rw [Spelling.minus, if_neg Bool.false_ne_true, List.nil_append, if_neg Bool.false_ne_true, ← hvalue]
    simp only [mantissa, List.cons_append]
    unfold number?
    split
    · next heq => exact absurd (List.cons.inj heq).1 hd
    · rfl

end Written

theorem leading_eq (c : Char) (ds : List Char) : leading (c :: ds) = mantissa [c] ds := by
  cases ds <;> rfl

/-- Digits with the point after the first of them, and an exponent. -/
theorem written_leading (hds : ∀ d ∈ c :: ds, d.isDigit = true) (htail : exponent? tail = some e) :
    Written [c] ds tail (scaled (c :: ds) (e - ds.length)) where
  ne_nil := List.cons_ne_nil _ _
  isDigit_whole d hd := hds d (by simp_all)
  isDigit_fraction d hd := hds d (List.mem_cons_of_mem _ hd)
  value := ⟨e, htail, rfl⟩

theorem natural?_zeros (k n : Nat) : Text.natural? 10 (zeros k ++ digitsOf n) = some n := by
  refine Text.natural?_ten_eq_some_iff.2 ⟨by simp [digitsOf], fun c hc => ?_, ?_⟩
  · rcases List.mem_append.1 hc with hzero | hdigit
    · rw [List.eq_of_mem_replicate hzero]
      decide
    · exact Nat.isDigit_of_mem_toDigits (by decide) (by decide) hdigit
  · rw [Nat.ofDigitChars_append, zeros, Nat.ofDigitChars_replicate_zero, Nat.mul_zero, digitsOf,
      Nat.ofDigitChars_ten_toDigits]

/-! A sign in front of a number, and none. -/

theorem signed?_minus {n : Nat} (h : Text.natural? 10 s = some n) : signed? ('-' :: s) = some (-(n : ℤ)) := by
  rw [signed?, h]
  rfl

theorem signed?_plus {n : Nat} (h : Text.natural? 10 s = some n) : signed? ('+' :: s) = some n := by
  rw [signed?, h]
  rfl

theorem signed?_natural {n : Nat} (h : Text.natural? 10 s = some n) : signed? s = some n := by
  obtain ⟨-, hdigits, -⟩ := Text.natural?_ten_eq_some_iff.1 h
  unfold signed?
  split
  · exact absurd (hdigits '-' (by simp)) (by decide)
  · exact absurd (hdigits '+' (by simp)) (by decide)
  · rw [h]
    rfl

/-- The exponent that is written is read. -/
theorem exponent?_exponentText (upper : Bool) (e : ℤ) : exponent? (Format.exponentText upper e) = some e := by
  have hread := natural?_zeros (2 - (digitsOf e.natAbs).length) e.natAbs
  have hmarker : isMarker (if upper then 'E' else 'e') = true := by cases upper <;> decide
  simp only [Format.exponentText, List.cons_append, exponent?, hmarker, if_true]
  split_ifs with hneg
  · rw [signed?_minus hread]
    exact congrArg some (by omega)
  · rw [signed?_plus hread]
    exact congrArg some (by omega)

/-- So is one whose plus may be left out. -/
theorem exponent?_signed (plus : Bool) (e : ℤ) :
    exponent? ('e' :: (if e < 0 then ['-'] else if plus then ['+'] else []) ++ digitsOf e.natAbs) = some e := by
  have hread : Text.natural? 10 (digitsOf e.natAbs) = some e.natAbs := natural?_zeros 0 e.natAbs
  have hmarker : isMarker 'e' = true := by decide
  simp only [List.cons_append, exponent?, hmarker, if_true]
  split_ifs with hneg hplus
  · rw [List.singleton_append, signed?_minus hread]
    exact congrArg some (by omega)
  · rw [List.singleton_append, signed?_plus hread]
    exact congrArg some (by omega)
  · rw [List.nil_append, signed?_natural hread]
    exact congrArg some (by omega)

/-! The values of runs of digits. -/

theorem toNat_sub_lt (h : c.isDigit = true) : c.toNat - '0'.toNat < 10 := by
  have hbounds := Text.toNat_bounds_of_isDigit h
  change c.toNat - 48 < 10
  omega

theorem ofDigitChars_lt (h : ∀ c ∈ ds, c.isDigit = true) : Nat.ofDigitChars 10 ds 0 < 10 ^ ds.length := by
  induction ds with
  | nil => simp
  | cons c ds ih =>
    have hc := toNat_sub_lt (h c (by simp))
    have hds := ih fun d hd => h d (by simp [hd])
    rw [Nat.ofDigitChars_cons, Nat.ofDigitChars_eq_ofDigitChars_zero, List.length_cons, Nat.pow_succ]
    calc 10 ^ ds.length * (10 * 0 + (c.toNat - '0'.toNat)) + Nat.ofDigitChars 10 ds 0
      _ < 10 ^ ds.length * (10 * 0 + (c.toNat - '0'.toNat)) + 10 ^ ds.length := by omega
      _ = 10 ^ ds.length * (c.toNat - '0'.toNat + 1) := by ring
      _ ≤ 10 ^ ds.length * 10 := Nat.mul_le_mul_left _ hc

/-- A leading digit that is no zero makes the number as long as its digits. -/
theorem le_ofDigitChars (ds : List Char) (hc : c.isDigit = true) (hzero : c ≠ '0') :
    10 ^ ds.length ≤ Nat.ofDigitChars 10 (c :: ds) 0 := by
  have hpos : 1 ≤ c.toNat - '0'.toNat := by
    have hbounds := Text.toNat_bounds_of_isDigit hc
    have hne : c.toNat ≠ '0'.toNat := fun h => hzero (Char.toNat_inj.1 h)
    change c.toNat ≠ 48 at hne
    change 1 ≤ c.toNat - 48
    omega
  rw [Nat.ofDigitChars_cons, Nat.ofDigitChars_eq_ofDigitChars_zero]
  calc 10 ^ ds.length
    _ = 10 ^ ds.length * 1 := (Nat.mul_one _).symm
    _ ≤ 10 ^ ds.length * (10 * 0 + (c.toNat - '0'.toNat)) := Nat.mul_le_mul_left _ (by omega)
    _ ≤ _ := Nat.le_add_right _ _

theorem ofDigitChars_dropWhile (ds : List Char) :
    Nat.ofDigitChars 10 (ds.dropWhile (· = '0')) 0 = Nat.ofDigitChars 10 ds 0 := by
  induction ds with
  | nil => rfl
  | cons c ds ih =>
    by_cases hc : c = '0'
    · rw [List.dropWhile_cons_of_pos (by simp [hc]), ih, Nat.ofDigitChars_cons, hc]
      rfl
    · rw [List.dropWhile_cons_of_neg (by simp [hc])]

/-- Without leading zeros there are as many digits as the size of the number asks for. -/
theorem length_dropWhile {count : Nat} (h : ∀ c ∈ ds, c.isDigit = true)
    (hlow : 10 ^ (count - 1) ≤ Nat.ofDigitChars 10 ds 0) (hhigh : Nat.ofDigitChars 10 ds 0 < 10 ^ count) :
    (ds.dropWhile (· = '0')).length = count := by
  have hvalue := ofDigitChars_dropWhile ds
  have hdigits : ∀ c ∈ ds.dropWhile (· = '0'), c.isDigit = true := fun c hc =>
    h c ((List.dropWhile_sublist _).mem hc)
  have hpos : 0 < 10 ^ (count - 1) := Nat.pow_pos (by decide)
  cases hrest : ds.dropWhile (· = '0') with
  | nil =>
    rw [hrest, Nat.ofDigitChars_nil] at hvalue
    omega
  | cons c rest =>
    rw [hrest] at hvalue hdigits
    have hne : c ≠ '0' := by
      have hhead := List.head?_dropWhile_not (fun c => decide (c = '0')) ds
      rw [hrest] at hhead
      simpa using hhead
    have hle := le_ofDigitChars rest (hdigits c (by simp)) hne
    have hlt := ofDigitChars_lt hdigits
    rw [hvalue] at hle hlt
    have hshort : rest.length < count := (Nat.pow_lt_pow_iff_right (by decide)).1 (hle.trans_lt hhigh)
    have hlong : count - 1 < (c :: rest).length := (Nat.pow_lt_pow_iff_right (by decide)).1 (hlow.trans_lt hlt)
    rw [List.length_cons] at hlong ⊢
    omega

/-- Zeros at the end of the digits move the point. -/
theorem scaled_append_zeros (ds : List Char) (k : Nat) (e : ℤ) : scaled (ds ++ zeros k) e = scaled ds (e + k) := by
  rw [scaled, scaled, Nat.ofDigitChars_append, zeros, Nat.ofDigitChars_replicate_zero, zpow_add₀ (by norm_num),
    zpow_natCast]
  push_cast
  ring

theorem exists_zeros (ds : List Char) : ∃ k, ds = Text.dropEndWhile (· = '0') ds ++ zeros k := by
  obtain ⟨t, hds, ht⟩ := Text.exists_dropEndWhile_append (· = '0') ds
  exact ⟨t.length, by rw [zeros, ← List.eq_replicate_iff.2 ⟨rfl, fun c hc => by simpa using ht c hc⟩, ← hds]⟩

end PackedStruct.Decimal
