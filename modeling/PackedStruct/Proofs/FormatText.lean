import PackedStruct.Proofs.FormatGrammar
/-!
Display formats as texts. A text is a format if and only if it can be divided into parts. The format
holds these parts, and every combination of parts can be written and is read again.
-/

namespace PackedStruct.Format

variable {f : Format} {p q : Parts} {text : String}

/-- The filling that the zero flag asks for. -/
theorem fill_align (p : Parts) :
    (if p.zero && (p.align.map Prod.snd).isNone then ('0', some Align.afterSign)
      else (p.align.elim ' ' fun a => a.1.getD ' ', p.align.map Prod.snd)) = (p.format.fill, p.format.align) := by
  obtain ⟨align, sign, alternate, zero, rest⟩ := p
  cases align <;> cases zero <;> rfl

/-- A text that is made of parts is read as the format of these parts. -/
theorem Parts.Canonical.parse (h : p.Canonical) (htext : p.text = text.toList) :
    Format.parse text = .ok p.format := by
  simp only [Format.parse, ← htext, p.readAlign_text, p.readSign_fromSign, p.readFlag_fromAlternate,
    h.readFlag_fromZero, p.readNumber_fromWidth, p.readGrouping_fromGrouping, p.readPrecision_fromPrecision,
    p.readKind_fromKind, ok_bind, fill_align]
  rfl

/-- What is read is made of parts. -/
theorem exists_parts (h : Format.parse text = .ok f) :
    ∃ p : Parts, p.Canonical ∧ p.text = text.toList ∧ p.format = f := by
  rcases halign : readAlign text.toList with ⟨⟨fill, align⟩, s₁⟩
  rcases hsign : readSign s₁ with ⟨sign, s₂⟩
  rcases halternate : readFlag '#' s₂ with ⟨alternate, s₃⟩
  rcases hzero : readFlag '0' s₃ with ⟨zero, s₄⟩
  simp only [Format.parse, halign, hsign, halternate, hzero] at h
  obtain ⟨⟨n, s₅⟩, hwidth, h⟩ := bind_eq_ok.1 h
  rcases hgrouping : readGrouping s₅ with ⟨grouping, s₆⟩
  simp only [hgrouping] at h
  obtain ⟨⟨m, s₇⟩, hprecision, h⟩ := bind_eq_ok.1 h
  obtain ⟨kind, hkind, h⟩ := bind_eq_ok.1 h
  obtain ⟨a, htext, rfl, rfl⟩ := exists_readAlign halign
  obtain ⟨o, rfl, rfl⟩ := exists_readSign hsign
  obtain ⟨rfl, -⟩ := eq_of_readFlag halternate
  obtain ⟨rfl, hcanonical⟩ := eq_of_readFlag hzero
  obtain ⟨width, rfl, rfl⟩ := exists_readNumber hwidth
  obtain rfl := eq_of_readGrouping hgrouping
  obtain ⟨precision, rfl, rfl⟩ := exists_readPrecision hprecision
  obtain rfl := eq_of_readKind hkind
  let p : Parts := ⟨a, o, alternate, zero, width, grouping, precision, kind⟩
  refine ⟨p, hcanonical, htext.symm, ?_⟩
  have hfill := fill_align p
  simp only [p] at hfill
  rw [hfill] at h
  exact Except.ok.inj h

/-! A part is determined by its text. -/

theorem char_injective {α : Type} {char : α → Char} {ofChar? : Char → Option α}
    (h : ∀ a, ofChar? (char a) = some a) : Function.Injective char := by
  intro a b hab
  have hread := h a
  rw [hab, h b] at hread
  exact (Option.some.inj hread).symm

theorem signChar_injective : Function.Injective Sign.char := by
  intro a b h
  cases a <;> cases b <;> first | rfl | cases h

theorem toList_map_injective {α : Type} {char : α → Char} (h : Function.Injective char) :
    Function.Injective fun o : Option α => (o.map char).toList := by
  intro a b hab
  cases a <;> cases b <;> simp_all [h.eq_iff]

theorem alignText_injective : Function.Injective alignText := by
  have hchar := char_injective Align.ofChar?_char
  intro a b h
  rcases a with _ | ⟨_ | c, a⟩ <;> rcases b with _ | ⟨_ | d, b⟩ <;> simp_all [alignText, hchar.eq_iff]

theorem flagText_injective (c : Char) : Function.Injective (flagText c) := by
  intro a b h
  cases a <;> cases b <;> simp_all [flagText]

theorem numeralText_injective : Function.Injective numeralText := by
  intro m n h
  cases m with
  | none =>
    cases n with
    | none => rfl
    | some n => exact absurd h.symm n.ne_nil
  | some m =>
    cases n with
    | none => exact absurd h m.ne_nil
    | some n => exact congrArg some (Numeral.ext h)

theorem precisionText_injective : Function.Injective precisionText := by
  intro m n h
  cases m with
  | none =>
    cases n with
    | none => rfl
    | some n => cases h
  | some m =>
    cases n with
    | none => cases h
    | some n => exact congrArg some (Numeral.ext (List.cons.inj h).2)

/-- A text is divided in one way only: every reader leaves the same rest of it, and so the parts in front
of the rests are the same. -/
theorem Parts.Canonical.unique (hp : p.Canonical) (hq : q.Canonical) (h : p.text = q.text) : p = q := by
  have hsign : p.fromSign = q.fromSign := by
    simpa [Parts.readAlign_text] using congrArg (fun s => (readAlign s).2) h
  have halternate : p.fromAlternate = q.fromAlternate := by
    simpa [Parts.readSign_fromSign] using congrArg (fun s => (readSign s).2) hsign
  have hzero : p.fromZero = q.fromZero := by
    simpa [Parts.readFlag_fromAlternate] using congrArg (fun s => (readFlag '#' s).2) halternate
  have hwidth : p.fromWidth = q.fromWidth := by
    simpa [hp.readFlag_fromZero, hq.readFlag_fromZero] using congrArg (fun s => (readFlag '0' s).2) hzero
  have hgrouping : p.width.map Numeral.value = q.width.map Numeral.value ∧ p.fromGrouping = q.fromGrouping := by
    simpa [Parts.readNumber_fromWidth] using congrArg (readNumber .widthTooLarge) hwidth
  have hprecision : p.fromPrecision = q.fromPrecision := by
    simpa [Parts.readGrouping_fromGrouping] using congrArg (fun s => (readGrouping s).2) hgrouping.2
  have hkind : p.precision.map Numeral.value = q.precision.map Numeral.value ∧ p.fromKind = q.fromKind := by
    simpa [Parts.readPrecision_fromPrecision] using congrArg readPrecision hprecision
  apply Parts.ext
  · exact alignText_injective (List.append_inj_left' h (by rw [hsign]))
  · exact toList_map_injective signChar_injective (List.append_inj_left' hsign (by rw [halternate]))
  · exact flagText_injective '#' (List.append_inj_left' halternate (by rw [hzero]))
  · exact flagText_injective '0' (List.append_inj_left' hzero (by rw [hwidth]))
  · exact numeralText_injective (List.append_inj_left' hwidth (by rw [hgrouping.2]))
  · exact toList_map_injective (char_injective Grouping.ofChar?_char)
      (List.append_inj_left' hgrouping.2 (by rw [hprecision]))
  · exact precisionText_injective (List.append_inj_left' hprecision (by rw [hkind.2]))
  · exact toList_map_injective (char_injective Presentation.ofChar?_char) hkind.2

/-- Digits after a zero are a numeral themselves, or none. -/
theorem exists_numeralText_tail {n : Numeral} {ds : List Char} (h : n.digits = '0' :: ds) :
    ∃ m, numeralText m = ds := by
  by_cases hnil : ds = []
  · exact ⟨none, hnil.symm⟩
  · have hlimit := n.le_limit
    rw [h, Nat.ofDigitChars_cons] at hlimit
    exact ⟨some ⟨ds, hnil, fun c hc => n.isDigit c (by simp [h, hc]), hlimit⟩, rfl⟩

/-- Where a zero begins the width, it can be taken as the zero flag. -/
theorem Parts.exists_canonical (p : Parts) : ∃ q : Parts, q.Canonical ∧ q.text = p.text := by
  by_cases hcanonical : p.Canonical
  · exact ⟨p, hcanonical, rfl⟩
  obtain ⟨hzero, hhead⟩ : p.zero = false ∧ p.fromWidth.head? = some '0' := by
    simpa [Parts.Canonical] using hcanonical
  cases hwidth : p.width with
  | none =>
    have hrest : p.fromGrouping.head? = some '0' := by simpa [fromWidth, numeralText, hwidth] using hhead
    exact absurd (p.opens_fromGrouping '0' hrest) (by decide)
  | some n =>
    obtain ⟨d, ds, hdigits⟩ := List.exists_cons_of_ne_nil n.ne_nil
    obtain rfl : d = '0' := by simpa [fromWidth, numeralText, hwidth, hdigits] using hhead
    obtain ⟨m, hm⟩ := exists_numeralText_tail hdigits
    refine ⟨{ p with zero := true, width := m }, fun h => (by cases h), ?_⟩
    have hsame : Parts.fromZero { p with zero := true, width := m } = p.fromZero := by
      rw [fromZero, fromZero, fromWidth, fromWidth, hm, hwidth, hzero]
      simp [flagText, numeralText, hdigits, fromGrouping, fromPrecision, fromKind]
    rw [Parts.text, Parts.text, fromSign, fromSign, fromAlternate, fromAlternate, hsame]

/-- What a format that can be written looks like. -/
structure Writable (f : Format) : Prop where
  fill : f.align = none → f.fill = ' '
  width : f.width ≤ limit
  precision : ∀ n, f.precision = some n → n ≤ limit

/-- The format as a text, with its fill character in front of the alignment. -/
def print (f : Format) : String :=
  String.ofList (alignText (f.align.map fun a => (some f.fill, a)) ++
    ((if f.sign = .minus then [] else [f.sign.char]) ++
      (flagText '#' f.alternate ++ ((if f.width = 0 then [] else Nat.toDigits 10 f.width) ++
        ((f.grouping.map Grouping.char).toList ++ ((f.precision.elim [] fun n => '.' :: Nat.toDigits 10 n) ++
          (f.kind.map Presentation.char).toList))))))

theorem Numeral.value_le (n : Numeral) : n.value ≤ limit := n.le_limit

theorem Parts.writable (p : Parts) : p.format.Writable where
  fill h := by
    rcases p with ⟨_ | a, _, _, _ | _, rest⟩
    · rfl
    all_goals cases h
  width := by
    cases hw : p.width with
    | none => simp [format, hw]
    | some n => simpa [format, hw] using n.value_le
  precision n h := by
    obtain ⟨m, -, rfl⟩ := Option.map_eq_some_iff.1 h
    exact m.value_le

theorem exists_width {n : Nat} (h : n ≤ limit) :
    ∃ m, numeralText m = (if n = 0 then [] else Nat.toDigits 10 n) ∧ (m.map Numeral.value).getD 0 = n ∧
      (numeralText m).head? ≠ some '0' := by
  by_cases hzero : n = 0
  · exact ⟨none, by simp [hzero, numeralText], hzero.symm, by simp [numeralText]⟩
  · refine ⟨some (.ofNat n h), by simp [hzero, numeralText, Numeral.ofNat], Numeral.value_ofNat h, ?_⟩
    exact Text.head?_toDigits (by decide) (Nat.pos_of_ne_zero hzero)

theorem exists_precision {o : Option Nat} (h : ∀ n, o = some n → n ≤ limit) :
    ∃ m, precisionText m = (o.elim [] fun n => '.' :: Nat.toDigits 10 n) ∧ m.map Numeral.value = o := by
  cases o with
  | none => exact ⟨none, rfl, rfl⟩
  | some n => exact ⟨some (.ofNat n (h n rfl)), rfl, congrArg some (Numeral.value_ofNat _)⟩

theorem Writable.exists_parts (h : f.Writable) :
    ∃ p : Parts, p.Canonical ∧ p.text = f.print.toList ∧ p.format = f := by
  obtain ⟨width, hwidth, hvalue, hhead⟩ := exists_width h.width
  obtain ⟨precision, hprecision, hread⟩ := exists_precision h.precision
  let p : Parts := {
    align := f.align.map fun a => (some f.fill, a)
    sign := if f.sign = .minus then none else some f.sign
    alternate := f.alternate
    zero := false
    width := width
    grouping := f.grouping
    precision := precision
    kind := f.kind }
  refine ⟨p, fun _ hzero => ?_, ?_, ?_⟩
  · -- the width does not begin with a zero, and nothing after it does
    rw [Parts.fromWidth, List.head?_append, Option.or_eq_some_iff] at hzero
    rcases hzero with hfirst | ⟨-, hrest⟩
    · exact hhead hfirst
    · exact absurd (p.opens_fromGrouping '0' hrest) (by decide)
  · have hsign : (p.sign.map Sign.char).toList = if f.sign = .minus then [] else [f.sign.char] := by
      by_cases hminus : f.sign = .minus <;> simp [p, hminus]
    rw [print, String.toList_ofList, ← hwidth, ← hprecision, ← hsign]
    rfl
  · have hsign : p.sign.getD .minus = f.sign := by
      by_cases hminus : f.sign = .minus <;> simp [p, hminus]
    have hfill : p.format.fill = f.fill ∧ p.format.align = f.align := by
      cases halign : f.align with
      | none => simp [p, Parts.format, halign, h.fill halign]
      | some a => simp [p, Parts.format, halign]
    calc p.format
      _ = ⟨p.format.fill, p.format.align, p.sign.getD .minus, f.alternate,
            (width.map Numeral.value).getD 0, f.grouping, precision.map Numeral.value, f.kind⟩ := rfl
      _ = f := by rw [hfill.1, hfill.2, hsign, hvalue, hread]

theorem read_eq_ok : Format.read text = .ok f ↔ Format.parse text = .ok f := mapError_eq_ok

theorem Parts.Canonical.read (h : p.Canonical) (htext : p.text = text.toList) :
    Format.read text = .ok p.format := read_eq_ok.2 (h.parse htext)

theorem exists_of_read (h : Format.read text = .ok f) :
    ∃ p : Parts, p.Canonical ∧ p.text = text.toList ∧ p.format = f := exists_parts (read_eq_ok.1 h)

/-- A text is read as a format if and only if it can be divided into parts. With a zero in front of the
width taken as the zero flag it can be divided in one way, and the format holds just these parts. Any
other text is refused. Parts that are written one after another, and formats that are printed, are read
as they were. -/
theorem read_iff_parts (text : String) :
    (∀ f, Format.read text = .ok f ↔ ∃ p : Parts, p.Canonical ∧ p.text = text.toList ∧ p.format = f) ∧
    ((∃ f, Format.read text = .ok f) ↔ ∃ p : Parts, p.text = text.toList) ∧
    (∀ p q : Parts, p.Canonical → q.Canonical → p.text = text.toList → q.text = text.toList → p = q) ∧
    ((¬∃ p : Parts, p.text = text.toList) → ∃ fault, Format.read text = .error (.invalidFormat text fault)) ∧
    (∀ p : Parts, p.Canonical → Format.read (String.ofList p.text) = .ok p.format ∧
      ∀ q : Parts, q.Canonical → q.text = p.text → q = p) ∧
    (∀ f, Format.read text = .ok f → f.Writable) ∧ ∀ f : Format, f.Writable → Format.read f.print = .ok f := by
  have hparts (f : Format) : Format.read text = .ok f ↔
      ∃ p : Parts, p.Canonical ∧ p.text = text.toList ∧ p.format = f := by
    refine ⟨exists_of_read, ?_⟩
    rintro ⟨p, hp, htext, rfl⟩
    exact hp.read htext
  have hreadable : (∃ f, Format.read text = .ok f) ↔ ∃ p : Parts, p.text = text.toList := by
    constructor
    · rintro ⟨f, hf⟩
      obtain ⟨p, -, htext, -⟩ := exists_of_read hf
      exact ⟨p, htext⟩
    · rintro ⟨p, htext⟩
      obtain ⟨q, hq, hsame⟩ := p.exists_canonical
      exact ⟨q.format, hq.read (hsame.trans htext)⟩
  refine ⟨hparts, hreadable, fun p q hp hq hptext hqtext => hp.unique hq (hptext.trans hqtext.symm),
    fun hnone => ?_, fun p hp => ⟨hp.read String.toList_ofList.symm, fun q hq h => hq.unique hp h⟩,
    fun f hf => ?_, fun f hf => ?_⟩
  · cases hread : Format.parse text with
    | ok f => exact absurd (hreadable.1 ⟨f, read_eq_ok.2 hread⟩) hnone
    | error fault => exact ⟨fault, by rw [Format.read, hread]; rfl⟩
  · obtain ⟨p, -, -, rfl⟩ := exists_of_read hf
    exact p.writable
  · obtain ⟨p, hp, htext, rfl⟩ := hf.exists_parts
    exact hp.read htext

/-- A fill character may look like any other part, but no part may follow itself. -/
theorem read_iff_parts_fill :
    let f : Format := ⟨'=', some .center, .plus, true, 12, some .comma, some 3, some .lowerFixed⟩
    Format.read "=^+#012,.3f" = .ok f ∧
      (∃ p : Parts, p.Canonical ∧ p.text = "=^+#012,.3f".toList ∧ p.format = f) ∧
      f.Writable ∧ Format.read f.print = .ok f ∧
      ∃ fault, Format.read "<<<" = .error (.invalidFormat "<<<" fault) := by
  intro f
  have hread : Format.read "=^+#012,.3f" = .ok f := by rfl
  obtain ⟨hparts, -, -, -, -, hwritable, hprint⟩ := read_iff_parts "=^+#012,.3f"
  obtain ⟨-, hreadable, -, hrefused, -⟩ := read_iff_parts "<<<"
  refine ⟨hread, (hparts f).1 hread, hwritable f hread, hprint f (hwritable f hread), hrefused fun hparts => ?_⟩
  obtain ⟨g, hg⟩ := hreadable.2 hparts
  have hok : (Format.read "<<<").isOk = true := by rw [hg]; rfl
  exact absurd hok (by decide +kernel)

end PackedStruct.Format
