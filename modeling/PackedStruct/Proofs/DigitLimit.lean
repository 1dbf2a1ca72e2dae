import PackedStruct.Proofs.GeneralText
/-!
How many digits a format asks for. No number is written with more decimal places or significant digits than the
limit. The precision of a format that can be read keeps to it, but scientific notation has one digit more than the
precision, and general notation of a small number more places; so such a format can still ask for too many.
-/

namespace PackedStruct.Format

open Decimal

variable {f : Format} {r : Ratio}

/-- The types for numbers with a fraction. -/
def fractional : List Presentation :=
  [.lowerExp, .upperExp, .lowerFixed, .upperFixed, .lowerGeneral, .upperGeneral, .number, .percent]

/-- How many decimal places or significant digits a format asks for to show the number `x`. -/
def digitsAsked (f : Format) (x : ℚ) : ℕ :=
  let precision := f.precision.getD 6
  match f.kind, f.precision with
  | some .lowerFixed, _ | some .upperFixed, _ | some .percent, _ => precision
  | some .lowerExp, _ | some .upperExp, _ => precision + 1
  | some .lowerGeneral, _ | some .upperGeneral, _ | some .number, _ | none, some _ =>
    generalDigits f.alternate precision x
  | _, _ => 0

/-- No format asks for more than three digits above its precision. -/
theorem digitsAsked_le (f : Format) (x : ℚ) : f.digitsAsked x ≤ max (f.precision.getD 6) 1 + 3 := by
  have hgeneral := generalDigits_le f.alternate (f.precision.getD 6) x
  unfold digitsAsked
  dsimp only
  split <;> omega

theorem IsGeneral.digitsAsked (h : f.IsGeneral) (x : ℚ) :
    f.digitsAsked x = generalDigits f.alternate (f.precision.getD 6) x := by
  rcases h with hkind | hkind | hkind | ⟨hkind, hprecision⟩
  · simp only [Format.digitsAsked, hkind]
  · simp only [Format.digitsAsked, hkind]
  · simp only [Format.digitsAsked, hkind]
  · obtain ⟨precision, hprecision⟩ := Option.isSome_iff_exists.1 hprecision
    simp only [Format.digitsAsked, hkind, hprecision]

theorem exists_general? (upper keepZeros : Bool) (precision : ℕ) (hden : 0 < r.den) :
    ∃ body, general? upper keepZeros precision r =
      if generalDigits keepZeros precision r.value ≤ digitLimit then some body else none := by
  by_cases hnum : r.num = 0
  · exact ⟨_, general?_zero upper keepZeros precision hnum⟩
  · obtain ⟨whole, fraction, tail, hgeneral, -⟩ :=
      general?_written upper keepZeros precision (Nat.pos_of_ne_zero hnum) hden
    exact ⟨_, hgeneral⟩

theorem exists_scientific? (upper : Bool) (precision : ℕ) (r : Ratio) :
    ∃ body, scientific? upper precision r = if precision + 1 ≤ digitLimit then some body else none := by
  refine ⟨leading (significant r (precision + 1)).digits ++
    exponentText upper (significant r (precision + 1)).exponent, ?_⟩
  rw [scientific?, significant?]
  split_ifs <;> rfl

theorem exists_percent? (f : Format) (precision m : ℕ) (q : ℤ) :
    ∃ body, f.percent? precision m q = if precision ≤ digitLimit then some body else none := by
  unfold percent?
  split
  · next m' q' _ =>
    refine ⟨f.groupWhole (fixed (.ofDyadic m' q') precision) ++ ['%'], ?_⟩
    rw [fixed?]
    split_ifs <;> rfl
  · exact ⟨_, rfl⟩

/-- Every finite number has a text in a type for numbers with a fraction, unless too many digits are asked for. -/
theorem exists_finite? (h : ∀ k, f.kind = some k → k ∈ fractional) (m : Nat) (q : Int) :
    ∃ body, f.finite? m q = some (if f.digitsAsked (m * 2 ^ q) ≤ digitLimit then some body else none) := by
  by_cases hgeneral : f.IsGeneral
  · obtain ⟨upper, hfinite⟩ := hgeneral.finite? m q
    obtain ⟨body, hbody⟩ := exists_general? upper f.alternate (f.precision.getD 6) (Ratio.den_ofDyadic m q)
    rw [Ratio.value_ofDyadic] at hbody
    exact ⟨body, by rw [hfinite, hbody, hgeneral.digitsAsked]⟩
  cases hkind : f.kind with
  | none =>
    cases hprecision : f.precision with
    | none => exact ⟨f.groupWhole (Spelling.display.magnitude .double m q), by simp [finite?, digitsAsked, *]⟩
    | some precision => simp [IsGeneral, hkind, hprecision] at hgeneral
  | some k =>
    have hk := h k hkind
    cases k with
    | binary | character | decimal | octal | lowerHex | upperHex | string => exact absurd hk (by decide)
    | lowerGeneral | upperGeneral | number => simp [IsGeneral, hkind] at hgeneral
    | lowerFixed | upperFixed =>
      refine ⟨f.groupWhole (fixed (.ofDyadic m q) (f.precision.getD 6)), ?_⟩
      simp only [finite?, digitsAsked, hkind, fixed?]
      split_ifs <;> rfl
    | lowerExp =>
      obtain ⟨body, hbody⟩ := exists_scientific? false (f.precision.getD 6) (.ofDyadic m q)
      exact ⟨body, by simp only [finite?, digitsAsked, hkind, hbody]⟩
    | upperExp =>
      obtain ⟨body, hbody⟩ := exists_scientific? true (f.precision.getD 6) (.ofDyadic m q)
      exact ⟨body, by simp only [finite?, digitsAsked, hkind, hbody]⟩
    | percent =>
      obtain ⟨body, hbody⟩ := f.exists_percent? (f.precision.getD 6) m q
      exact ⟨body, by simp only [finite?, digitsAsked, hkind, hbody]⟩

end PackedStruct.Format
