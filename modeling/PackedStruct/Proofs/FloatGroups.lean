import PackedStruct.Proofs.FloatHint
import PackedStruct.Proofs.GeneralText
import PackedStruct.Proofs.Separators
/-!
Separators in numbers with a fraction. A number that is written with fixed decimals, as a percentage or with its
shortest digits has them between the digits in front of the point; in general notation a number has none.
-/

namespace PackedStruct

namespace Decimal

variable {s whole rest fraction tail : List Char} {c : Char} {e : ℤ} {x : ℚ}

/-- A text with the digits at its beginning cut off; what is left holds no separator. -/
structure Cut (s whole rest : List Char) : Prop where
  eq_append : s = whole ++ rest
  isDigit : ∀ c ∈ whole, c.isDigit = true
  stop : ∀ c, rest.head? = some c → c.isDigit = false
  plain : ∀ g : Grouping, g.char ∉ rest

theorem separator_not_mem_digits {ds : List Char} (h : ∀ c ∈ ds, c.isDigit = true) (g : Grouping) : g.char ∉ ds := by
  intro hmem
  have hdigit := h _ hmem
  cases g <;> exact absurd hdigit (by decide)

theorem mem_signed (h : signed? s = some e) (hc : c ∈ s) : c = '-' ∨ c = '+' ∨ c.isDigit = true := by
  have hdigit {s : List Char} (hread : Text.natural? 10 s ≠ none) (hmem : c ∈ s) : c.isDigit = true := by
    obtain ⟨n, hn⟩ := Option.ne_none_iff_exists'.1 hread
    exact (Text.natural?_ten_eq_some_iff.1 hn).2.1 c hmem
  unfold signed? at h
  split at h
  · next s =>
    have hread : Text.natural? 10 s ≠ none := fun hnone => by simp [hnone] at h
    exact (List.mem_cons.1 hc).imp_right fun hmem => .inr (hdigit hread hmem)
  · next s =>
    have hread : Text.natural? 10 s ≠ none := fun hnone => by simp [hnone] at h
    exact .inr ((List.mem_cons.1 hc).imp_right fun hmem => hdigit hread hmem)
  · have hread : Text.natural? 10 s ≠ none := fun hnone => by simp [hnone] at h
    exact .inr (.inr (hdigit hread hc))

/-- An exponent is written with its marker, a sign and digits. -/
theorem mem_exponent (h : exponent? tail = some e) (hc : c ∈ tail) :
    isMarker c = true ∨ c = '-' ∨ c = '+' ∨ c.isDigit = true := by
  cases tail with
  | nil => cases hc
  | cons d s =>
    have hmarker := isMarker_of_exponent? h rfl
    rw [exponent?, if_pos hmarker] at h
    rcases List.mem_cons.1 hc with rfl | hmem
    · exact .inl hmarker
    · exact .inr (mem_signed h hmem)

theorem separator_not_mem_exponent (h : exponent? tail = some e) (g : Grouping) : g.char ∉ tail := by
  intro hmem
  have hchar := mem_exponent h hmem
  cases g <;> exact absurd hchar (by decide)

theorem Written.cut (h : Written whole fraction tail x) :
    Cut (mantissa whole fraction ++ tail) whole ((if fraction = [] then [] else '.' :: fraction) ++ tail) where
  eq_append := by rw [mantissa, List.append_assoc]
  isDigit := h.isDigit_whole
  stop c hc := by
    obtain ⟨e, htail, -⟩ := h.value
    split_ifs at hc with hnone
    · exact (not_isDigit_of_isMarker (isMarker_of_exponent? htail hc)).1
    · cases hc
      rfl
  plain g := by
    obtain ⟨e, htail, -⟩ := h.value
    have hexponent := separator_not_mem_exponent htail g
    have hfraction := separator_not_mem_digits h.isDigit_fraction g
    have hpoint : g.char ≠ '.' := by cases g <;> decide
    split_ifs <;> simp [hexponent, hfraction, hpoint]

theorem exists_cut_fixed {r : Ratio} (hden : 0 < r.den) (count : ℕ) : ∃ whole rest, Cut (fixed r count) whole rest := by
  have hwritten := written_places hden count rfl
  have hcut := hwritten.cut
  rw [List.append_nil, ← fixed_eq] at hcut
  exact ⟨_, _, hcut⟩

theorem exists_cut_magnitude {m : ℕ} {q : ℤ} (h : Precision.double.Canonical m q) :
    ∃ whole rest, Cut (Spelling.display.magnitude .double m q) whole rest := by
  have hshortest := isShortest_shortest (by decide) (by decide) h .up
  obtain ⟨whole, fraction, tail, htext, hwritten⟩ :=
    Spelling.display.exists_written hshortest.ne_nil hshortest.isDigit
  have hcut := hwritten.cut
  rw [← htext] at hcut
  exact ⟨_, _, hcut⟩

theorem exists_cut_general (upper keepZeros : Bool) (precision : ℕ) {r : Ratio} (hden : 0 < r.den) :
    ∃ s whole rest, Cut s whole rest ∧ Format.general? upper keepZeros precision r =
      if Format.generalDigits keepZeros precision r.value ≤ digitLimit then some s else none := by
  by_cases hnum : r.num = 0
  · have hzero := Format.general?_zero upper keepZeros precision hnum
    cases keepZeros with
    | true =>
      obtain ⟨whole, rest, hcut⟩ := exists_cut_fixed hden (max precision 1 - 1)
      exact ⟨_, whole, rest, hcut, hzero⟩
    | false => exact ⟨['0'], ['0'], [], ⟨rfl, by simp, by simp, by simp⟩, hzero⟩
  · obtain ⟨whole, fraction, tail, hgeneral, hwritten, -, -⟩ :=
      Format.general?_written upper keepZeros precision (Nat.pos_of_ne_zero hnum) hden
    exact ⟨_, _, _, (Format.written_trimmed keepZeros hwritten).cut, hgeneral⟩

end Decimal

namespace Format

open Decimal

variable {f : Format} {g : Grouping} {s whole rest : List Char}

/-- The same format with other separators, or with none. -/
def withGrouping (f : Format) (grouping : Option Grouping) : Format := { f with grouping := grouping }

/-- The types that write a number with a point, which are all of those for numbers with a fraction that do not ask
for an exponent. -/
def pointed : List Presentation :=
  [.lowerFixed, .upperFixed, .percent, .lowerGeneral, .upperGeneral, .number]

/-- Only the digits in front get separators. -/
theorem groupWhole_of_cut (h : Cut s whole rest) : f.groupWhole s = f.group 3 whole ++ rest := by
  obtain ⟨htake, hdrop⟩ := Text.takeWhile_digits h.isDigit h.stop
  rw [groupWhole, h.eq_append, htake, hdrop]

theorem Cut.append_percent (h : Cut s whole rest) : Cut (s ++ ['%']) whole (rest ++ ['%']) where
  eq_append := by rw [h.eq_append, List.append_assoc]
  isDigit := h.isDigit
  stop c hc := by
    cases rest with
    | nil =>
      cases hc
      rfl
    | cons d rest => exact h.stop c hc
  plain g := by
    have hpercent : g.char ≠ '%' := by cases g <;> decide
    simp [h.plain g, hpercent]

/-- A percentage is a number with fixed decimals, unless a hundred times the number is too large to be one. -/
theorem exists_percent_cut (f : Format) (precision m : ℕ) (q : ℤ) :
    ∃ s whole rest, Cut s whole rest ∧ ∀ o, (f.withGrouping o).percent? precision m q =
      if precision ≤ digitLimit then some ((f.withGrouping o).group 3 whole ++ rest) else none := by
  have hlarge : Cut "inf%".toList [] "inf%".toList := by
    refine ⟨rfl, by simp, ?_, fun g => by cases g <;> decide⟩
    intro c hc
    cases hc
    rfl
  have hgroup (o : Option Grouping) : (f.withGrouping o).group 3 [] = [] := by cases o <;> rfl
  cases hread : (Binary64.ofRatio false (Ratio.ofDyadic (100 * m) q)).read with
  | finite negative m' q' =>
    obtain ⟨whole, rest, hcut⟩ := exists_cut_fixed (Ratio.den_ofDyadic m' q') precision
    refine ⟨_, whole, _, Cut.append_percent hcut, fun o => ?_⟩
    rw [← List.append_assoc, ← groupWhole_of_cut hcut]
    simp only [percent?, hread, fixed?]
    split_ifs <;> rfl
  | infinite _ | nan =>
    refine ⟨_, [], _, hlarge, fun o => ?_⟩
    rw [hgroup]
    simp only [percent?, hread, List.nil_append]

/-- General notation does not look at the separators that a format asks for. -/
theorem exists_general_cut (h : f.IsGeneral) (m : ℕ) (q : ℤ) :
    ∃ s whole rest, Cut s whole rest ∧ ∀ o, (f.withGrouping o).finite? m q =
      some (if f.digitsAsked (m * 2 ^ q) ≤ digitLimit then some s else none) := by
  have hsame (o : Option Grouping) : (f.withGrouping o).finite? m q = f.finite? m q := by
    rcases h with hkind | hkind | hkind | ⟨hkind, hprecision⟩
    · simp only [finite?, withGrouping, hkind]
    · simp only [finite?, withGrouping, hkind]
    · simp only [finite?, withGrouping, hkind]
    · obtain ⟨precision, hprecision⟩ := Option.isSome_iff_exists.1 hprecision
      simp only [finite?, withGrouping, hkind, hprecision]
  obtain ⟨upper, hfinite⟩ := h.finite? m q
  obtain ⟨s, whole, rest, hcut, hbody⟩ :=
    exists_cut_general upper f.alternate (f.precision.getD 6) (Ratio.den_ofDyadic m q)
  rw [Ratio.value_ofDyadic] at hbody
  refine ⟨s, whole, rest, hcut, fun o => ?_⟩
  rw [hsame, hfinite, hbody, h.digitsAsked]

/-- Any other number has the separators between the digits in front. -/
theorem exists_plain_cut (hkind : ∀ k, f.kind = some k → k ∈ pointed) (hplain : ¬f.IsGeneral) {m : ℕ} {q : ℤ}
    (hcanonical : Precision.double.Canonical m q) :
    ∃ s whole rest, Cut s whole rest ∧ ∀ o, (f.withGrouping o).finite? m q =
      some (if f.digitsAsked (m * 2 ^ q) ≤ digitLimit then some ((f.withGrouping o).group 3 whole ++ rest)
        else none) := by
  cases hk : f.kind with
  | none =>
    cases hprecision : f.precision with
    | none =>
      obtain ⟨whole, rest, hcut⟩ := exists_cut_magnitude hcanonical
      refine ⟨_, whole, rest, hcut, fun o => ?_⟩
      have hshown : f.digitsAsked (m * 2 ^ q) ≤ digitLimit := by simp [digitsAsked, hk, hprecision]
      rw [← groupWhole_of_cut hcut, if_pos hshown]
      simp only [finite?, withGrouping, hk, hprecision]
    | some precision => simp [IsGeneral, hk, hprecision] at hplain
  | some k =>
    have hmem := hkind k hk
    cases k with
    | lowerFixed | upperFixed =>
      obtain ⟨whole, rest, hcut⟩ := exists_cut_fixed (Ratio.den_ofDyadic m q) (f.precision.getD 6)
      refine ⟨_, whole, rest, hcut, fun o => ?_⟩
      rw [← groupWhole_of_cut hcut]
      simp only [finite?, digitsAsked, withGrouping, hk, fixed?]
      split_ifs <;> rfl
    | percent =>
      obtain ⟨s, whole, rest, hcut, hshown⟩ := f.exists_percent_cut (f.precision.getD 6) m q
      refine ⟨s, whole, rest, hcut, fun o => ?_⟩
      have hfinite : (f.withGrouping o).finite? m q =
          some ((f.withGrouping o).percent? (f.precision.getD 6) m q) := by
        simp only [finite?, withGrouping, hk]
      rw [hfinite, hshown]
      simp only [digitsAsked, hk]
    | lowerGeneral | upperGeneral | number => simp [IsGeneral, hk] at hplain
    | binary | character | decimal | octal | lowerHex | upperHex | lowerExp | upperExp | string =>
      exact absurd hmem (by decide)

theorem separator_not_mem_signText (f : Format) (g : Grouping) (negative : Bool) : g.char ∉ f.signText negative := by
  cases negative <;> cases hsign : f.sign <;> cases g <;> simp [signText, hsign, Grouping.char]

theorem filter_of_not_mem (h : g.char ∉ s) : s.filter (· ≠ g.char) = s := by
  apply List.filter_eq_self.2
  intro c hc
  have hne : c ≠ g.char := fun heq => h (heq ▸ hc)
  exact decide_eq_true hne

/-- With a grouping and without a width, deleting the separators from a finite number leaves the text that it has
without a grouping; there is neither text if the format asks for too many digits. The digits in front of the point
stand in groups of three unless the notation is general: there no separator is written, so that they do only if there
are three digits at most. -/
theorem float_grouped (hwidth : f.width = 0) (hgrouping : f.grouping = some g)
    (hkind : ∀ k, f.kind = some k → k ∈ pointed) {x : Binary64} {negative : Bool} {m : ℕ} {q : ℤ}
    (hread : x.read = .finite negative m q) :
    (digitLimit < f.digitsAsked (m * 2 ^ q) → f.float? x = none ∧ (f.withGrouping none).float? x = none) ∧
    (f.digitsAsked (m * 2 ^ q) ≤ digitLimit →
      ∃ shown plain whole rest, f.float? x = some shown ∧ (f.withGrouping none).float? x = some plain ∧
        plain = f.signText negative ++ whole ++ rest ∧
        (∀ c ∈ whole, c.isDigit = true) ∧ (∀ c, rest.head? = some c → c.isDigit = false) ∧
        shown.filter (· ≠ g.char) = plain ∧
        (f.IsGeneral → shown = plain) ∧
        ((∃ grouped, shown = f.signText negative ++ grouped ++ rest ∧ InGroups g.char 3 whole grouped) ↔
          (f.IsGeneral → whole.length ≤ 3))) := by
  have hshown {o : Option Grouping} {body : Option (List Char)} (hfinite : (f.withGrouping o).finite? m q = some body) :
      (f.withGrouping o).float? x = body.map fun body => f.signText negative ++ body := by
    simp only [float?, hread, hfinite]
    congr 1
    funext body
    have hnarrow : (f.withGrouping o).width ≤ (f.signText negative).length + body.length := by
      rw [withGrouping, hwidth]
      exact Nat.zero_le _
    exact pad_of_le hnarrow
  have hself : f.withGrouping (some g) = f := by rw [withGrouping, ← hgrouping]
  have hsign := filter_of_not_mem (f.separator_not_mem_signText g negative)
  by_cases hnotation : f.IsGeneral
  · obtain ⟨s, whole, rest, hcut, hfinite⟩ := exists_general_cut hnotation m q
    have hplain := hshown (hfinite none)
    have hfloat := hshown (hfinite (some g))
    rw [hself] at hfloat
    constructor
    · intro hlong
      rw [if_neg (Nat.not_le.2 hlong)] at hplain hfloat
      exact ⟨hfloat, hplain⟩
    · intro hlimit
      have hwhole := filter_of_not_mem (separator_not_mem_digits hcut.isDigit g)
      have hrest := filter_of_not_mem (hcut.plain g)
      rw [if_pos hlimit, Option.map_some, hcut.eq_append, ← List.append_assoc] at hplain hfloat
      refine ⟨_, _, whole, rest, hfloat, hplain, rfl, hcut.isDigit, hcut.stop, ?_, fun _ => rfl, ?_⟩
      · rw [List.filter_append, List.filter_append, hsign, hwhole, hrest]
      · constructor
        · rintro ⟨grouped, hsame, hgroups⟩ -
          have hdigits : whole = grouped := List.append_cancel_left (List.append_cancel_right hsame)
          rw [← hdigits] at hgroups
          exact inGroups_self_iff.1 hgroups
        · intro hshort
          exact ⟨whole, rfl, inGroups_self_iff.2 (hshort hnotation)⟩
  · obtain ⟨s, whole, rest, hcut, hfinite⟩ := exists_plain_cut hkind hnotation (x.canonical_of_read hread)
    have hplain := hshown (hfinite none)
    have hfloat := hshown (hfinite (some g))
    rw [hself] at hfloat
    constructor
    · intro hlong
      rw [if_neg (Nat.not_le.2 hlong)] at hplain hfloat
      exact ⟨hfloat, hplain⟩
    · intro hlimit
      have hrest := filter_of_not_mem (hcut.plain g)
      have hgroup : f.group 3 whole = separate g.char 3 whole := by rw [group, hgrouping]
      have hnone : (f.withGrouping none).group 3 whole = whole := rfl
      have hdelete : (separate g.char 3 whole).filter (· ≠ g.char) = whole :=
        filter_separate (separator_not_mem_digits hcut.isDigit g)
      rw [if_pos hlimit, Option.map_some, hgroup, ← List.append_assoc] at hfloat
      rw [if_pos hlimit, Option.map_some, hnone, ← List.append_assoc] at hplain
      refine ⟨_, _, whole, rest, hfloat, hplain, rfl, hcut.isDigit, hcut.stop, ?_, fun h => absurd h hnotation, ?_⟩
      · rw [List.filter_append, List.filter_append, hsign, hdelete, hrest]
      · constructor
        · intro _ h
          exact absurd h hnotation
        · intro _
          exact ⟨_, rfl, inGroups_separate (by decide) g.char whole⟩

/-- A percentage below zero: the separators stand between the digits in front of the point only. -/
theorem float_grouped_percent :
    let f : Format := ⟨' ', none, .minus, false, 0, some .comma, some 4, some .percent⟩
    let x : Binary64 := ⟨0xC0F81CD6E9E1B08A⟩
    Format.read ",.4%" = .ok f ∧ f.width = 0 ∧ f.grouping = some .comma ∧ (∀ k, f.kind = some k → k ∈ pointed) ∧
      x.read = .finite true 6787108813516938 (-36) ∧
      f.digitsAsked (6787108813516938 * 2 ^ (-36 : ℤ)) ≤ digitLimit ∧
      f.float? x = some "-9,876,543.2100%".toList ∧ (f.withGrouping none).float? x = some "-9876543.2100%".toList ∧
      ∃ shown plain, f.float? x = some shown ∧ (f.withGrouping none).float? x = some plain ∧
        shown.filter (· ≠ ',') = plain := by
  intro f x
  have hkind : ∀ k, f.kind = some k → k ∈ pointed := by
    intro k hk
    cases hk
    decide
  have hread : x.read = .finite true 6787108813516938 (-36) := by decide +kernel
  have hlimit : f.digitsAsked ((6787108813516938 : ℕ) * 2 ^ (-36 : ℤ)) ≤ digitLimit := by decide
  obtain ⟨shown, plain, -, -, hshown, hplain, -, -, -, hdelete, -⟩ :=
    (float_grouped (g := .comma) rfl rfl hkind hread).2 hlimit
  exact ⟨by rfl, rfl, rfl, hkind, hread, hlimit, by decide +kernel, by decide +kernel, shown, plain, hshown, hplain,
    hdelete⟩

/-- In the type `n` the number 123456 has a separator as a whole number, and none as a number with a fraction. -/
theorem float_grouped_number :
    let f : Format := ⟨' ', none, .minus, false, 0, some .comma, none, some .number⟩
    let x : Binary64 := ⟨0x40FE240000000000⟩
    Format.read ",n" = .ok f ∧ x.read = .finite false 8483831719919616 (-36) ∧
      f.integer? 123456 = some "123,456".toList ∧ f.float? x = some "123456".toList ∧
      (f.withGrouping none).float? x = some "123456".toList ∧
      ¬∃ shown, f.float? x = some shown ∧ InGroups ',' 3 "123456".toList shown := by
  intro f x
  have hfloat : f.float? x = some "123456".toList := by decide +kernel
  refine ⟨by rfl, by decide +kernel, by decide +kernel, hfloat, by decide +kernel, ?_⟩
  rintro ⟨shown, hshown, hgroups⟩
  obtain rfl := Option.some.inj (hfloat.symm.trans hshown)
  rw [inGroups_self_iff] at hgroups
  exact absurd hgroups (by decide)

end Format

end PackedStruct
