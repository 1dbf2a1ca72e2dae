import PackedStruct.Data.Text
import PackedStruct.Proofs.Alignment
import PackedStruct.Proofs.Shortest
/-!
Formats that ask for a sign and a width only. A double keeps the digits that it is shown with anyway; a single is
shown as the double that is the same number, which may need more digits to be told apart.
-/

namespace PackedStruct

namespace Spelling

open Decimal

variable {d : Digits}

/-- Leading zeros do not count. -/
theorem ofDigitChars_zeros (k : ℕ) (ds : List Char) :
    Nat.ofDigitChars 10 (zeros k ++ ds) 0 = Nat.ofDigitChars 10 ds 0 := by
  rw [Nat.ofDigitChars_append, zeros, Nat.ofDigitChars_replicate_zero, Nat.mul_zero]

theorem isDigit_zeros {k : ℕ} {c : Char} (h : c ∈ zeros k) : c.isDigit = true := by
  rw [List.eq_of_mem_replicate h]
  rfl

/-- All digits after the point, with zeros in front. -/
theorem written_small {ds : List Char} (hdigits : ∀ c ∈ ds, c.isDigit = true) (k : ℕ) :
    Written ['0'] (zeros k ++ ds) [] (scaled ds (-(k + ds.length : ℕ))) where
  ne_nil := List.cons_ne_nil _ _
  isDigit_whole := List.forall_mem_singleton.2 rfl
  isDigit_fraction c hc := (List.mem_append.1 hc).elim isDigit_zeros (hdigits c)
  value := by
    refine ⟨0, rfl, ?_⟩
    have hvalue : Nat.ofDigitChars 10 (['0'] ++ (zeros k ++ ds)) 0 = Nat.ofDigitChars 10 ds 0 := by
      rw [List.singleton_append, Nat.ofDigitChars_cons]
      exact ofDigitChars_zeros _ _
    rw [scaled, scaled, hvalue, List.length_append, zeros, List.length_replicate, zero_sub]

/-- All digits before the point, with zeros behind. -/
theorem written_large {ds : List Char} (hne : ds ≠ []) (hdigits : ∀ c ∈ ds, c.isDigit = true) (k : ℕ) :
    Written (ds ++ zeros k) ['0'] [] (scaled ds k) where
  ne_nil := by simp [hne]
  isDigit_whole c hc := (List.mem_append.1 hc).elim (hdigits c) isDigit_zeros
  isDigit_fraction := List.forall_mem_singleton.2 rfl
  value := by
    refine ⟨0, rfl, ?_⟩
    have hpoint : ['0'] = zeros 1 := rfl
    rw [hpoint, scaled_append_zeros, scaled_append_zeros]
    congr 1
    simp [zeros]

/-- The point between the digits. -/
theorem written_split {ds : List Char} (hne : ds ≠ []) (hdigits : ∀ c ∈ ds, c.isDigit = true) {k : ℕ} (hk : 0 < k) :
    Written (ds.take k) (ds.drop k) [] (scaled ds (-(ds.length - k : ℕ))) where
  ne_nil := by simp [hne, hk.ne']
  isDigit_whole c hc := hdigits c (List.mem_of_mem_take hc)
  isDigit_fraction c hc := hdigits c (List.mem_of_mem_drop hc)
  value := ⟨0, rfl, by rw [List.take_append_drop, List.length_drop, zero_sub]⟩

/-- The digits with the point where it belongs. -/
theorem written_positional (hne : d.digits ≠ []) (hdigits : ∀ c ∈ d.digits, c.isDigit = true) :
    ∃ whole fraction, positional d = mantissa whole fraction ∧
      Written whole fraction [] (scaled d.digits (unitOf d)) := by
  obtain ⟨ds, e⟩ := d
  simp only [unitOf] at hne hdigits ⊢
  unfold positional
  dsimp only
  by_cases hsmall : e < 0
  · have hunit : e + 1 - ds.length = -((-e).toNat - 1 + ds.length : ℕ) := by omega
    rw [if_pos hsmall, hunit]
    exact ⟨_, _, by simp [mantissa, hne], written_small hdigits _⟩
  · rw [if_neg hsmall]
    split_ifs with hshort
    · have hunit : e + 1 - ds.length = (e.toNat + 1 - ds.length : ℕ) := by omega
      rw [hunit]
      exact ⟨_, _, by simp [mantissa], written_large hne hdigits _⟩
    · have hunit : e + 1 - ds.length = -(ds.length - (e.toNat + 1) : ℕ) := by omega
      have hrest : ds.drop (e.toNat + 1) ≠ [] := by
        rw [ne_eq, List.drop_eq_nil_iff]
        exact hshort
      rw [hunit]
      exact ⟨_, _, by simp [mantissa, hrest], written_split hne hdigits (Nat.succ_pos _)⟩

/-- However they are written, digits denote the number that they stand for. -/
theorem exists_written (s : Spelling) (hne : d.digits ≠ []) (hdigits : ∀ c ∈ d.digits, c.isDigit = true) :
    ∃ whole fraction tail, s.write d = mantissa whole fraction ++ tail ∧
      Written whole fraction tail (scaled d.digits (unitOf d)) := by
  unfold write
  split_ifs with hplace
  · obtain ⟨whole, fraction, htext, hwritten⟩ := written_positional hne hdigits
    exact ⟨whole, fraction, [], by rw [htext, List.append_nil], hwritten⟩
  · obtain ⟨digits, e⟩ := d
    obtain ⟨c, cs, rfl⟩ := List.exists_cons_of_ne_nil hne
    have hunit : unitOf ⟨c :: cs, e⟩ = e - cs.length := by
      rw [unitOf, List.length_cons]
      push_cast
      ring
    rw [hunit]
    exact ⟨[c], cs, _, by rw [scientific, leading_eq, List.append_assoc],
      written_leading hdigits (exponent?_signed s.plus e)⟩

/-- A text of `m · 2^q` for people, with the shortest digits that are rounded to it. -/
def IsShortestText (p : Precision) (m : ℕ) (q : ℤ) (s : List Char) : Prop :=
  ∃ d, IsShortest p m q d ∧ s = display.write d ∧ value? s = some (coefficientOf d * 10 ^ unitOf d : ℚ)

variable {p : Precision} {m : ℕ} {q : ℤ}

theorem value?_magnitude (h : IsShortest p m q (shortest p .up m q)) :
    value? (display.magnitude p m q) =
      some (coefficientOf (shortest p .up m q) * 10 ^ unitOf (shortest p .up m q) : ℚ) := by
  obtain ⟨whole, fraction, tail, htext, hwritten⟩ := display.exists_written h.ne_nil h.isDigit
  rw [← scaled_digits, ← hwritten.value?_eq, ← htext]
  rfl

theorem isShortestText_magnitude (hfraction : 0 < p.fraction) (hprecision : 2 * 2 ^ p.fraction < 10 ^ 16)
    (h : p.Canonical m q) : IsShortestText p m q (display.magnitude p m q) :=
  have hshortest := isShortest_shortest hfraction hprecision h .up
  ⟨_, hshortest, rfl, value?_magnitude hshortest⟩

/-- The two precisions show a single with the same digits exactly if its shortest digits, taken as a double, are the
single again. -/
theorem magnitude_eq_iff {x : Binary32} {negative : Bool} {m' : ℕ} {q' : ℤ} (h : x.read = .finite negative m q)
    (hwide : Precision.double.Canonical m' q') (hvalue : (m' * 2 ^ q' : ℚ) = m * 2 ^ q) (hunit : 0 < m → q' + 2 ≤ q)
    (hnearest : Precision.double.nearest (.ofDyadic m q) = Precision.double.pattern m' q') :
    display.magnitude .double m' q' = display.magnitude .single m q ↔ x.asWritten = x.widen := by
  have hcanonical := x.canonical_of_read h
  have hwritten : x.asWritten = x.widen ↔ ReadsAs .double m' q' (coefficientOf (shortest .single .up m q))
      (unitOf (shortest .single .up m q)) := by
    simp only [Binary32.asWritten, Binary32.widen, h]
    rw [Binary64.ofRatio_eq_iff, hnearest]
    rfl
  rw [hwritten]
  constructor
  · intro heq
    have hshortest := isShortest_shortest (by decide) (by decide) hcanonical .up
    have hshortest' := isShortest_shortest (by decide) (by decide) hwide .up
    apply hshortest'.reads.congr
    rw [← Option.some_inj, ← value?_magnitude hshortest', heq, value?_magnitude hshortest]
  · intro hreads
    have hsame := (shortest_eq_iff (by decide) hcanonical (by decide) (by decide) hwide hvalue hunit
      display.tie).2 hreads
    rw [magnitude, magnitude, hsame]

end Spelling

namespace Format

variable {f : Format}

/-- Whether a format asks for a sign and a width at most. -/
def IsPlain (f : Format) : Prop := f.kind = none ∧ f.precision = none ∧ f.grouping = none

/-- Such a format shows a number as it is shown without one, with a sign and fill characters around. -/
theorem float_of_isPlain (hf : f.IsPlain) {x : Binary64} {negative : Bool} {m : ℕ} {q : ℤ}
    (h : x.read = .finite negative m q) :
    f.float? x = some (f.pad .right ⟨f.signText negative, Spelling.display.magnitude .double m q⟩) := by
  obtain ⟨hkind, hprecision, hgrouping⟩ := hf
  have hfinite : f.finite? m q = some (some (Spelling.display.magnitude .double m q)) := by
    simp only [finite?, hkind, hprecision, groupWhole, group, hgrouping, List.takeWhile_append_dropWhile]
  simp only [float?, h, hfinite, Option.map_some]

end Format

/-- A number with a fraction has no label. -/
theorem Data.scalarText?_of_none {h : Hints} {v : Scalar} (hv : v.integer? = none) :
    (Data.scalar h v).scalarText? = (v.display? h.format).map String.ofList := by
  have hlabel : (Data.scalar h v).label? = none := by simp [Data.label?, hv]
  simp only [scalarText?, hlabel]

/-- A format that asks for a sign and a width at most keeps the digits of a double. A single gets the digits of the
double that is the same number; they are the ones that it is shown with anyway exactly if those, taken as a double,
are the single again. -/
theorem Data.scalarText_plain {f : Format} (hf : f.IsPlain) (labels : Option LabelTable) :
    (∀ (x : Binary64) negative m q, x.read = .finite negative m q →
      ∃ t, Spelling.IsShortestText .double m q t ∧
        (Data.scalar ⟨none, labels⟩ (.double x)).scalarText? = some (String.ofList (Spelling.minus negative ++ t)) ∧
        (Data.scalar ⟨some f, labels⟩ (.double x)).scalarText? =
          some (String.ofList (f.pad .right ⟨f.signText negative, t⟩))) ∧
    (∀ (x : Binary32) negative m q, x.read = .finite negative m q →
      ∃ (m' : ℕ) (q' : ℤ) (t t' : List Char), x.widen.read = .finite negative m' q' ∧
        (m' * 2 ^ q' : ℚ) = m * 2 ^ q ∧ Spelling.IsShortestText .single m q t ∧
        Spelling.IsShortestText .double m' q' t' ∧
        (Data.scalar ⟨none, labels⟩ (.single x)).scalarText? = some (String.ofList (Spelling.minus negative ++ t)) ∧
        (Data.scalar ⟨some f, labels⟩ (.single x)).scalarText? =
          some (String.ofList (f.pad .right ⟨f.signText negative, t'⟩)) ∧
        (t' = t ↔ x.asWritten = x.widen)) := by
  constructor
  · intro x negative m q hread
    refine ⟨_, Spelling.isShortestText_magnitude (by decide) (by decide) (x.canonical_of_read hread), ?_, ?_⟩
    · rw [Data.scalarText?_of_none rfl]
      simp only [Scalar.display?, Binary64.text, hread, Spelling.text, Option.map_some]
    · rw [Data.scalarText?_of_none rfl]
      simp only [Scalar.display?, Format.float_of_isPlain hf hread, Option.map_some]
  · intro x negative m q hread
    have hcanonical := x.canonical_of_read hread
    obtain ⟨m', q', hwide, hvalue, hunit, hnearest⟩ := exists_widened hcanonical
    have hwidened := x.read_widen hread hwide hnearest
    refine ⟨m', q', _, _, hwidened, hvalue, Spelling.isShortestText_magnitude (by decide) (by decide) hcanonical,
      Spelling.isShortestText_magnitude (by decide) (by decide) hwide, ?_, ?_,
      Spelling.magnitude_eq_iff hread hwide hvalue hunit hnearest⟩
    · rw [Data.scalarText?_of_none rfl]
      simp only [Scalar.display?, Binary32.text, hread, Spelling.text, Option.map_some]
    · rw [Data.scalarText?_of_none rfl]
      simp only [Scalar.display?, Format.float_of_isPlain hf hwidened, Option.map_some]

/-- A width of twelve for the number a half, which both precisions show alike. -/
theorem Data.scalarText_plain_half :
    let f : Format := ⟨' ', some .right, .minus, false, 12, none, none, none⟩
    Format.read ">12" = .ok f ∧ f.IsPlain ∧
      (Data.scalar ⟨some f, none⟩ (.double ⟨0xBFE0000000000000⟩)).scalarText? = some "        -0.5" ∧
      (Data.scalar ⟨some f, none⟩ (.single ⟨0xBF000000⟩)).scalarText? = some "        -0.5" := by
  intro f
  have hplain : f.IsPlain := ⟨rfl, rfl, rfl⟩
  have hdouble : Binary64.read ⟨0xBFE0000000000000⟩ = .finite true 4503599627370496 (-53) := by decide +kernel
  have hsingle : Binary32.read ⟨0xBF000000⟩ = .finite true 8388608 (-24) := by decide +kernel
  have hdoubletext : (Data.scalar ⟨none, none⟩ (.double ⟨0xBFE0000000000000⟩)).scalarText? = some "-0.5" := by
    decide +kernel
  have hsingletext : (Data.scalar ⟨none, none⟩ (.single ⟨0xBF000000⟩)).scalarText? = some "-0.5" := by
    decide +kernel
  have hsame : Binary32.asWritten ⟨0xBF000000⟩ = Binary32.widen ⟨0xBF000000⟩ := by decide +kernel
  have hdigits {s : List Char} (h : some (String.ofList (Spelling.minus true ++ s)) = some "-0.5") :
      s = "0.5".toList := by
    have hlist := congrArg String.toList (Option.some.inj h)
    rw [String.toList_ofList] at hlist
    exact List.append_cancel_left hlist
  obtain ⟨t, -, ht, hshown⟩ := (Data.scalarText_plain hplain none).1 _ _ _ _ hdouble
  obtain ⟨m', q', s, s', -, -, -, -, hs, hshown', hiff⟩ := (Data.scalarText_plain hplain none).2 _ _ _ _ hsingle
  obtain rfl : t = "0.5".toList := hdigits (ht.symm.trans hdoubletext)
  obtain rfl : s = "0.5".toList := hdigits (hs.symm.trans hsingletext)
  refine ⟨by rfl, hplain, hshown.trans (by decide +kernel), hshown'.trans ?_⟩
  rw [hiff.2 hsame]
  decide +kernel

/-- With a width, a tenth in single precision is shown with the digits of the double next to it, and they leave no
place for fill characters. -/
theorem Data.scalarText_plain_tenth :
    let f : Format := ⟨' ', some .right, .minus, false, 12, none, none, none⟩
    Format.read ">12" = .ok f ∧ f.IsPlain ∧ Binary32.read ⟨0x3DCCCCCD⟩ = .finite false 13421773 (-27) ∧
      (Data.scalar ⟨none, none⟩ (.single ⟨0x3DCCCCCD⟩)).scalarText? = some "0.1" ∧
      (Data.scalar ⟨some f, none⟩ (.single ⟨0x3DCCCCCD⟩)).scalarText? = some "0.10000000149011612" ∧
      ¬∀ (x : Binary32) negative m q, x.read = .finite negative m q →
        ∃ t, (Data.scalar ⟨none, none⟩ (.single x)).scalarText? = some (String.ofList (Spelling.minus negative ++ t)) ∧
          (Data.scalar ⟨some f, none⟩ (.single x)).scalarText? =
            some (String.ofList (f.pad .right ⟨f.signText negative, t⟩)) := by
  intro f
  have hread : Binary32.read ⟨0x3DCCCCCD⟩ = .finite false 13421773 (-27) := by decide +kernel
  have htext : (Data.scalar ⟨none, none⟩ (.single ⟨0x3DCCCCCD⟩)).scalarText? = some "0.1" := by decide +kernel
  have hshown : (Data.scalar ⟨some f, none⟩ (.single ⟨0x3DCCCCCD⟩)).scalarText? = some "0.10000000149011612" := by
    decide +kernel
  refine ⟨by rfl, ⟨rfl, rfl, rfl⟩, hread, htext, hshown, fun h => ?_⟩
  obtain ⟨t, ht, hpad⟩ := h _ _ _ _ hread
  have hlist := congrArg String.toList (Option.some.inj (ht.symm.trans htext))
  rw [String.toList_ofList] at hlist
  obtain rfl : t = "0.1".toList := hlist
  rw [hshown] at hpad
  exact absurd hpad (by decide +kernel)

end PackedStruct
