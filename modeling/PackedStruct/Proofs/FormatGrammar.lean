import PackedStruct.Proofs.Outcome
import Mathlib.Data.List.TakeWhile
/-!
The texts that are display formats: optional parts in a fixed order. Where one part ends is decided by
the character after it, so a text has at most one reading, except that a zero may be the zero flag or
begin the width. The parser takes it as the flag.
-/

namespace PackedStruct.Format

/-- The digits of a width or a precision. -/
structure Numeral where
  digits : List Char
  ne_nil : digits ≠ []
  isDigit : ∀ c ∈ digits, c.isDigit = true
  le_limit : Nat.ofDigitChars 10 digits 0 ≤ limit

namespace Numeral

def value (n : Numeral) : Nat := Nat.ofDigitChars 10 n.digits 0

@[ext] theorem ext {m n : Numeral} (h : m.digits = n.digits) : m = n := by
  cases m
  cases n
  cases h
  rfl

/-- The shortest digits of a number. -/
def ofNat (n : Nat) (h : n ≤ limit) : Numeral where
  digits := Nat.toDigits 10 n
  ne_nil := Nat.toDigits_ne_nil
  isDigit _ hc := Nat.isDigit_of_mem_toDigits (by decide) (by decide) hc
  le_limit := by rwa [Nat.ofDigitChars_ten_toDigits]

theorem value_ofNat {n : Nat} (h : n ≤ limit) : (ofNat n h).value = n := Nat.ofDigitChars_ten_toDigits

end Numeral

/-- The parts of a format as they are written. A fill character is given with an alignment only. -/
@[ext] structure Parts where
  align : Option (Option Char × Align)
  sign : Option Sign
  alternate : Bool
  zero : Bool
  width : Option Numeral
  grouping : Option Grouping
  precision : Option Numeral
  kind : Option Presentation

/-- A flag, if it is set. -/
def flagText (c : Char) (set : Bool) : List Char := if set then [c] else []

def numeralText (n : Option Numeral) : List Char := n.elim [] Numeral.digits

def alignText : Option (Option Char × Align) → List Char
  | none => []
  | some (fill, a) => fill.toList ++ [a.char]

def precisionText (n : Option Numeral) : List Char := n.elim [] fun n => '.' :: n.digits

namespace Parts

variable (p : Parts)

def fromKind : List Char := (p.kind.map Presentation.char).toList

def fromPrecision : List Char := precisionText p.precision ++ p.fromKind

def fromGrouping : List Char := (p.grouping.map Grouping.char).toList ++ p.fromPrecision

def fromWidth : List Char := numeralText p.width ++ p.fromGrouping

def fromZero : List Char := flagText '0' p.zero ++ p.fromWidth

def fromAlternate : List Char := flagText '#' p.alternate ++ p.fromZero

def fromSign : List Char := (p.sign.map Sign.char).toList ++ p.fromAlternate

/-- All parts one after another. -/
def text : List Char := alignText p.align ++ p.fromSign

/-- Without a fill character blanks are filled in. The zero flag asks for zeros after the sign, unless
an alignment is given. -/
def format : Format where
  fill := p.align.elim (if p.zero then '0' else ' ') fun a => a.1.getD ' '
  align := p.align.elim (if p.zero then some .afterSign else none) fun a => some a.2
  sign := p.sign.getD .minus
  alternate := p.alternate
  width := (p.width.map Numeral.value).getD 0
  grouping := p.grouping
  precision := p.precision.map Numeral.value
  kind := p.kind

/-- A zero in front of the width is the zero flag. -/
def Canonical : Prop := p.zero = false → p.fromWidth.head? ≠ some '0'

end Parts

variable {s t : List Char} {c : Char} {k : Nat}

/-- The place of the part that a character can begin. The zero flag begins like a width. -/
def stage (c : Char) : Nat :=
  if (Align.ofChar? c).isSome then 0
  else if c = '+' || c = '-' || c = ' ' then 1
  else if c = '#' then 2
  else if c.isDigit then 3
  else if (Grouping.ofChar? c).isSome then 4
  else if c = '.' then 5
  else 6

/-- What is left of a text begins with a part in this place or a later one. -/
def Opens (k : Nat) (s : List Char) : Prop := ∀ c, s.head? = some c → k ≤ stage c

theorem Opens.mono {j : Nat} (h : Opens k s) (hle : j ≤ k) : Opens j s := fun c hc => hle.trans (h c hc)

theorem Opens.append (hs : Opens k s) (ht : Opens k t) : Opens k (s ++ t) := by
  intro c hc
  rw [List.head?_append, Option.or_eq_some_iff] at hc
  rcases hc with hfirst | ⟨-, hrest⟩
  · exact hs c hfirst
  · exact ht c hrest

theorem opens_of_mem (h : ∀ c ∈ s, k ≤ stage c) : Opens k s := fun c hc => h c (List.mem_of_head? hc)

theorem stage_digit (h : c.isDigit = true) : stage c = 3 := by
  unfold stage Align.ofChar?
  split_ifs with halign hsign hflag
  · split at halign <;> first | cases h | cases halign
  · simp only [Bool.or_eq_true, decide_eq_true_eq] at hsign
    rcases hsign with (rfl | rfl) | rfl <;> cases h
  · cases hflag
    cases h
  · rfl

/-- A character of a part in an earlier place does not come next. -/
theorem Opens.ne (h : Opens k (c :: s)) {d : Char} (hd : stage d < k) : c ≠ d := by
  rintro rfl
  exact absurd (h c rfl) (Nat.not_le.2 hd)

theorem Opens.not_isDigit (h : Opens 4 s) : ∀ c, s.head? = some c → c.isDigit = false := by
  intro c hc
  have hstage := h c hc
  by_contra hdigit
  rw [stage_digit (by simpa using hdigit)] at hstage
  omega

theorem readSign_append (sign : Option Sign) (h : Opens 2 s) :
    readSign ((sign.map Sign.char).toList ++ s) = (sign.getD .minus, s) := by
  cases sign with
  | some sign => cases sign <;> rfl
  | none =>
    cases s with
    | nil => rfl
    | cons c s =>
      change readSign (c :: s) = (.minus, c :: s)
      unfold readSign
      split
      · next heq => exact absurd (List.cons.inj heq).1 (h.ne (by decide))
      · next heq => exact absurd (List.cons.inj heq).1 (h.ne (by decide))
      · next heq => exact absurd (List.cons.inj heq).1 (h.ne (by decide))
      · rfl

theorem readFlag_append {set : Bool} (h : set = false → s.head? ≠ some c) :
    readFlag c (flagText c set ++ s) = (set, s) := by
  cases set with
  | true => simp [flagText, readFlag]
  | false =>
    cases s with
    | nil => rfl
    | cons d s =>
      have hne : d ≠ c := by simpa using h rfl
      simp [flagText, readFlag, hne]

theorem takeWhile_numeralText (n : Option Numeral) (h : Opens 4 s) :
    (numeralText n ++ s).takeWhile Text.isDigit = numeralText n ∧
      (numeralText n ++ s).dropWhile Text.isDigit = s := by
  have hdigits : ∀ c ∈ numeralText n, c.isDigit = true := by
    cases n with
    | none => simp [numeralText]
    | some n => exact n.isDigit
  exact Text.takeWhile_digits hdigits h.not_isDigit

theorem Numeral.natural? (n : Numeral) : Text.natural? 10 n.digits = some n.value :=
  Text.natural?_ten_eq_some_iff.2 ⟨n.ne_nil, n.isDigit, rfl⟩

theorem readNumber_append (fault : Fault) (n : Option Numeral) (h : Opens 4 s) :
    readNumber fault (numeralText n ++ s) = .ok (n.map Numeral.value, s) := by
  obtain ⟨htake, hdrop⟩ := takeWhile_numeralText n h
  simp only [readNumber, htake, hdrop]
  cases n with
  | none => rfl
  | some n =>
    have hlimit : n.value ≤ limit := n.le_limit
    simp [numeralText, n.natural?, hlimit]

theorem readGrouping_append (g : Option Grouping) (h : Opens 5 s) :
    readGrouping ((g.map Grouping.char).toList ++ s) = (g, s) := by
  cases g with
  | some g => simp [readGrouping, Grouping.ofChar?_char]
  | none =>
    cases s with
    | nil => rfl
    | cons c s =>
      have hnone : Grouping.ofChar? c = none := by
        unfold Grouping.ofChar?
        split
        · exact absurd rfl (h.ne (by decide))
        · exact absurd rfl (h.ne (by decide))
        · rfl
      simp [readGrouping, hnone]

theorem readPrecision_append (n : Option Numeral) (h : Opens 6 s) :
    readPrecision (precisionText n ++ s) = .ok (n.map Numeral.value, s) := by
  cases n with
  | some n =>
    have hread := readNumber_append .precisionTooLarge (some n) (h.mono (by decide))
    simp only [precisionText, Option.elim_some, List.cons_append, readPrecision]
    change (readNumber .precisionTooLarge (numeralText (some n) ++ s) >>= _) = _
    rw [hread]
    rfl
  | none =>
    cases s with
    | nil => rfl
    | cons c s =>
      change readPrecision (c :: s) = .ok (none, c :: s)
      unfold readPrecision
      split
      · next heq => exact absurd (List.cons.inj heq).1 (h.ne (by decide))
      · rfl

theorem readKind_text (k : Option Presentation) : readKind (k.map Presentation.char).toList = .ok k := by
  cases k with
  | none => rfl
  | some k => simp [readKind, Presentation.ofChar?_char]

theorem readAlign_append (a : Option (Option Char × Align)) (h : ∀ c ∈ s, Align.ofChar? c = none) :
    readAlign (alignText a ++ s) = ((a.elim ' ' fun a => a.1.getD ' ', a.map Prod.snd), s) := by
  cases a with
  | none =>
    cases s with
    | nil => rfl
    | cons c s =>
      have hc := h c (by simp)
      cases s with
      | nil => simp [alignText, readAlign, hc]
      | cons d s => simp [alignText, readAlign, hc, h d (by simp)]
  | some a =>
    obtain ⟨fill, a⟩ := a
    cases fill with
    | some fill => simp [alignText, readAlign, Align.ofChar?_char]
    | none =>
      cases s with
      | nil => simp [alignText, readAlign, Align.ofChar?_char]
      | cons d s => simp [alignText, readAlign, Align.ofChar?_char, h d (by simp)]

/-! What a reader takes off the front is a part. -/

theorem exists_readAlign {fill : Char} {align : Option Align} (h : readAlign s = ((fill, align), t)) :
    ∃ a, s = alignText a ++ t ∧ fill = a.elim ' ' (fun a => a.1.getD ' ') ∧ align = a.map Prod.snd := by
  unfold readAlign at h
  split at h
  · cases h
    exact ⟨none, rfl, rfl, rfl⟩
  · next c =>
    split at h
    · next a ha =>
      cases h
      exact ⟨some (none, a), by simp [alignText, Align.eq_char_of_ofChar? ha], rfl, rfl⟩
    · cases h
      exact ⟨none, rfl, rfl, rfl⟩
  · next c d s =>
    split at h
    · next _ _ a ha =>
      cases h
      exact ⟨some (some _, a), by simp [alignText, Align.eq_char_of_ofChar? ha], rfl, rfl⟩
    · next _ _ a _ ha =>
      cases h
      exact ⟨some (none, a), by simp [alignText, Align.eq_char_of_ofChar? ha], rfl, rfl⟩
    · cases h
      exact ⟨none, rfl, rfl, rfl⟩

theorem exists_readSign {sign : Sign} (h : readSign s = (sign, t)) :
    ∃ o : Option Sign, s = (o.map Sign.char).toList ++ t ∧ sign = o.getD .minus := by
  unfold readSign at h
  split at h <;> cases h
  · exact ⟨some .plus, rfl, rfl⟩
  · exact ⟨some .space, rfl, rfl⟩
  · exact ⟨some .minus, rfl, rfl⟩
  · exact ⟨none, rfl, rfl⟩

theorem eq_of_readFlag {set : Bool} (h : readFlag c s = (set, t)) :
    s = flagText c set ++ t ∧ (set = false → t.head? ≠ some c) := by
  cases s with
  | nil =>
    cases h
    exact ⟨rfl, fun _ => by simp⟩
  | cons d s =>
    rw [readFlag] at h
    split at h
    · next hd =>
      cases h
      exact ⟨by simp [flagText, hd], fun hset => by cases hset⟩
    · next hd =>
      cases h
      exact ⟨rfl, fun _ => by simpa using hd⟩

theorem exists_readNumber {fault : Fault} {n : Option Nat} (h : readNumber fault s = .ok (n, t)) :
    ∃ m, s = numeralText m ++ t ∧ n = m.map Numeral.value := by
  simp only [readNumber] at h
  split at h
  · cases h
    exact ⟨none, rfl, rfl⟩
  · next n hread =>
    split at h
    · next hlimit =>
      cases h
      obtain ⟨hne, hdigits, rfl⟩ := Text.natural?_ten_eq_some_iff.1 hread
      exact ⟨some ⟨_, hne, hdigits, hlimit⟩, List.takeWhile_append_dropWhile.symm, rfl⟩
    · cases h

theorem eq_of_readGrouping {g : Option Grouping} (h : readGrouping s = (g, t)) :
    s = (g.map Grouping.char).toList ++ t := by
  unfold readGrouping at h
  split at h
  · cases h
    rfl
  · split at h
    · next hg =>
      cases h
      simp [Grouping.eq_char_of_ofChar? hg]
    · cases h
      rfl

theorem exists_readPrecision {n : Option Nat} (h : readPrecision s = .ok (n, t)) :
    ∃ m, s = precisionText m ++ t ∧ n = m.map Numeral.value := by
  unfold readPrecision at h
  split at h
  · next s =>
    obtain ⟨⟨n, rest⟩, hread, h⟩ := bind_eq_ok.1 h
    obtain ⟨m, rfl, rfl⟩ := exists_readNumber hread
    cases m with
    | none => cases h
    | some m =>
      cases h
      exact ⟨some m, rfl, rfl⟩
  · cases h
    exact ⟨none, rfl, rfl⟩

theorem eq_of_readKind {k : Option Presentation} (h : readKind s = .ok k) :
    s = (k.map Presentation.char).toList := by
  unfold readKind at h
  split at h
  · cases h
    rfl
  · split at h
    · cases h
    · next hk =>
      cases h
      simp [Presentation.eq_char_of_ofChar? hk]
    · cases h

/-! The characters that a part begins with. -/

theorem stage_sign (sign : Sign) : stage sign.char = 1 := by cases sign <;> rfl

theorem stage_grouping (g : Grouping) : stage g.char = 4 := by cases g <;> rfl

theorem stage_presentation (k : Presentation) : stage k.char = 6 := by cases k <;> rfl

theorem stage_of_mem_flagText {d : Char} {set : Bool} (h : c ∈ flagText d set) : stage c = stage d := by
  cases set with
  | false => simp [flagText] at h
  | true =>
    obtain rfl : c = d := by simpa [flagText] using h
    rfl

theorem stage_of_mem_numeralText {n : Option Numeral} (h : c ∈ numeralText n) : stage c = 3 := by
  cases n with
  | none => simp [numeralText] at h
  | some n => exact stage_digit (n.isDigit c h)

theorem stage_of_mem_map {α : Type} {char : α → Char} {o : Option α} (hchar : ∀ a, stage (char a) = k)
    (h : c ∈ (o.map char).toList) : stage c = k := by
  obtain ⟨a, -, rfl⟩ : ∃ a, o = some a ∧ char a = c := by simpa using h
  exact hchar a

namespace Parts

theorem opens_fromKind (p : Parts) : Opens 6 p.fromKind :=
  opens_of_mem fun _ hc => (stage_of_mem_map stage_presentation hc).ge

theorem opens_fromPrecision (p : Parts) : Opens 5 p.fromPrecision := by
  refine Opens.append (fun c hc => ?_) (p.opens_fromKind.mono (by decide))
  cases hp : p.precision with
  | none => simp [precisionText, hp] at hc
  | some n =>
    obtain rfl : '.' = c := by simpa [precisionText, hp] using hc
    decide

theorem opens_fromGrouping (p : Parts) : Opens 4 p.fromGrouping :=
  Opens.append (opens_of_mem fun _ hc => (stage_of_mem_map stage_grouping hc).ge)
    (p.opens_fromPrecision.mono (by decide))

theorem opens_fromWidth (p : Parts) : Opens 3 p.fromWidth :=
  Opens.append (opens_of_mem fun _ hc => (stage_of_mem_numeralText hc).ge)
    (p.opens_fromGrouping.mono (by decide))

theorem opens_fromZero (p : Parts) : Opens 3 p.fromZero :=
  Opens.append (opens_of_mem fun _ hc => (stage_of_mem_flagText hc).ge) p.opens_fromWidth

theorem opens_fromAlternate (p : Parts) : Opens 2 p.fromAlternate :=
  Opens.append (opens_of_mem fun _ hc => (stage_of_mem_flagText hc).ge) (p.opens_fromZero.mono (by decide))

theorem stage_pos_of_mem_fromSign {p : Parts} (h : c ∈ p.fromSign) : 0 < stage c := by
  simp only [fromSign, fromAlternate, fromZero, fromWidth, fromGrouping, fromPrecision, fromKind,
    List.mem_append] at h
  rcases h with hsign | hflag | hzero | hwidth | hgroup | hprecision | hkind
  · simp [stage_of_mem_map stage_sign hsign]
  · rw [stage_of_mem_flagText hflag]
    decide
  · rw [stage_of_mem_flagText hzero]
    decide
  · simp [stage_of_mem_numeralText hwidth]
  · simp [stage_of_mem_map stage_grouping hgroup]
  · cases hp : p.precision with
    | none => simp [precisionText, hp] at hprecision
    | some n =>
      rw [precisionText, hp, Option.elim_some, List.mem_cons] at hprecision
      rcases hprecision with rfl | hdigit
      · decide
      · simp [stage_digit (n.isDigit c hdigit)]
  · simp [stage_of_mem_map stage_presentation hkind]

/-- An alignment stands at the front or nowhere, also where its character could be a fill. -/
theorem ofChar?_of_mem_fromSign {p : Parts} (h : c ∈ p.fromSign) : Align.ofChar? c = none := by
  have hstage := stage_pos_of_mem_fromSign h
  unfold stage at hstage
  split at hstage
  · exact absurd hstage (Nat.lt_irrefl 0)
  · next hnone => simpa using hnone

/-! Each reader takes its part and leaves the others. -/

theorem readAlign_text (p : Parts) :
    readAlign p.text = ((p.align.elim ' ' fun a => a.1.getD ' ', p.align.map Prod.snd), p.fromSign) :=
  readAlign_append p.align fun _ => ofChar?_of_mem_fromSign

theorem readSign_fromSign (p : Parts) : readSign p.fromSign = (p.sign.getD .minus, p.fromAlternate) :=
  readSign_append p.sign p.opens_fromAlternate

theorem readFlag_fromAlternate (p : Parts) : readFlag '#' p.fromAlternate = (p.alternate, p.fromZero) :=
  readFlag_append fun _ heq => absurd (p.opens_fromZero _ heq) (by decide)

theorem Canonical.readFlag_fromZero {p : Parts} (h : p.Canonical) : readFlag '0' p.fromZero = (p.zero, p.fromWidth) :=
  readFlag_append h

theorem readNumber_fromWidth (p : Parts) :
    readNumber .widthTooLarge p.fromWidth = .ok (p.width.map Numeral.value, p.fromGrouping) :=
  readNumber_append .widthTooLarge p.width p.opens_fromGrouping

theorem readGrouping_fromGrouping (p : Parts) : readGrouping p.fromGrouping = (p.grouping, p.fromPrecision) :=
  readGrouping_append p.grouping p.opens_fromPrecision

theorem readPrecision_fromPrecision (p : Parts) :
    readPrecision p.fromPrecision = .ok (p.precision.map Numeral.value, p.fromKind) :=
  readPrecision_append p.precision p.opens_fromKind

theorem readKind_fromKind (p : Parts) : readKind p.fromKind = .ok p.kind := readKind_text p.kind

end Parts

end PackedStruct.Format
