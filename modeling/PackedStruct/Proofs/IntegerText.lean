import Mathlib.Algebra.Order.Ring.Nat
import PackedStruct.Data.Text
import PackedStruct.Schema.Document
/-!
Integers as they are shown. A format without separators that marks its radix shows every integer of up to
127 bits in such a way that it is read back, whatever sign, width and padding the format asks for.
-/

namespace PackedStruct

namespace Text

variable {before sign s after : List Char} {v : Int}

/-- Blanks around an integer make no difference, nor does a plus. -/
theorem integer?_of_magnitude? (hbefore : ∀ c ∈ before, isBlank c = true)
    (hsign : sign = ['-'] ∧ v < 0 ∨ (sign = [] ∨ sign = ['+']) ∧ 0 ≤ v)
    (hafter : ∀ c ∈ after, isBlank c = true) (hne : s ≠ [])
    (hs : ∀ c ∈ s, isBlank c = false ∧ c ≠ '+' ∧ c ≠ '-') (hread : magnitude? s = some v.natAbs) :
    integer? (before ++ (sign ++ s) ++ after) = some v := by
  have hblank : ∀ c ∈ sign ++ s, isBlank c = false := by
    refine List.forall_mem_append.2 ⟨?_, fun c hc => (hs c hc).1⟩
    rcases hsign with ⟨rfl, -⟩ | ⟨rfl | rfl, -⟩ <;> simp [isBlank]
  rw [integer?, trim_append hbefore hafter (by simp [hne]) hblank]
  rcases hsign with ⟨rfl, hv⟩ | ⟨rfl | rfl, hv⟩
  · simp only [List.cons_append, List.nil_append, hread]
    change some (-(v.natAbs : Int)) = some v
    rw [Int.ofNat_natAbs_of_nonpos (by omega), Int.neg_neg]
  · rw [List.nil_append]
    obtain ⟨c, rest, rfl⟩ := List.exists_cons_of_ne_nil hne
    obtain ⟨-, hplus, hminus⟩ := hs c List.mem_cons_self
    split
    · next heq => exact absurd (List.cons.inj heq).1 hminus
    · next heq => exact absurd (List.cons.inj heq).1 hplus
    · rw [hread, Option.map_some]
      exact congrArg some (Int.natAbs_of_nonneg hv)
  · change (magnitude? s).map Int.ofNat = some v
    rw [hread, Option.map_some]
    exact congrArg some (Int.natAbs_of_nonneg hv)

end Text

namespace Format

/-- A format whose integers can be read back: no separators, a mark for any radix but ten, and padding
with blanks around the number or with zeros in it. -/
structure Readable (f : Format) : Prop where
  grouping : f.grouping = none
  kind : f.kind ∈ [none, some .decimal, some .number] ∨
    f.alternate = true ∧ f.kind ∈ [some .lowerHex, some .upperHex, some .octal, some .binary]
  padding : Text.isBlank f.fill = true ∧ f.align ≠ some .afterSign ∨ f.fill = '0' ∧ f.align = some .afterSign

variable {f : Format} {v : Int} {radix every : Nat} {mark : String} {upper : Bool}

/-- Padding with blanks stays outside of a number; padding with zeros goes in front of its digits. -/
theorem Readable.exists_pad (h : f.Readable) (p : Padded) :
    ∃ before zeros after, f.pad .right p = before ++ (p.lead ++ (List.replicate zeros '0' ++ p.body)) ++ after ∧
      (∀ c ∈ before, Text.isBlank c = true) ∧ ∀ c ∈ after, Text.isBlank c = true := by
  obtain ⟨lead, body⟩ := p
  rcases h.padding with ⟨hblank, halign⟩ | ⟨hfill, halign⟩
  · have hfill (n : Nat) : ∀ c ∈ List.replicate n f.fill, Text.isBlank c = true := by
      intro c hc
      rwa [List.eq_of_mem_replicate hc]
    simp only [pad]
    generalize f.width - (lead.length + body.length) = missing
    split
    · exact ⟨[], 0, List.replicate missing f.fill, by simp, by simp, hfill _⟩
    · exact ⟨List.replicate missing f.fill, 0, [], by simp, hfill _, by simp⟩
    · exact ⟨List.replicate (missing / 2) f.fill, 0, List.replicate (missing - missing / 2) f.fill, by simp,
        hfill _, hfill _⟩
    · next hafter =>
      rw [Option.getD_eq_iff] at hafter
      simp [halign] at hafter
  · exact ⟨[], f.width - (lead.length + body.length), [], by simp [pad, halign, hfill], by simp, by simp⟩

theorem exists_signText (f : Format) (v : Int) :
    ∃ before sign, f.signText (v < 0) = before ++ sign ∧ (∀ c ∈ before, Text.isBlank c = true) ∧
      (sign = ['-'] ∧ v < 0 ∨ (sign = [] ∨ sign = ['+']) ∧ 0 ≤ v) := by
  by_cases hv : v < 0
  · exact ⟨[], ['-'], by simp [signText, hv], by simp, .inl ⟨rfl, hv⟩⟩
  · have hv' : 0 ≤ v := Int.not_lt.1 hv
    cases hsign : f.sign with
    | minus => exact ⟨[], [], by simp [signText, hv, hsign], by simp, .inr ⟨.inl rfl, hv'⟩⟩
    | plus => exact ⟨[], ['+'], by simp [signText, hv, hsign], by simp, .inr ⟨.inr rfl, hv'⟩⟩
    | space => exact ⟨[' '], [], by simp [signText, hv, hsign], by simp [Text.isBlank], .inr ⟨.inl rfl, hv'⟩⟩

/-- Whether a text in front of digits says what their radix is. -/
structure Marks (mark : List Char) (radix : Nat) : Prop where
  base : 1 < radix ∧ radix ≤ 16
  char : ∀ c ∈ mark, Text.isBlank c = false ∧ c ≠ '+' ∧ c ≠ '-'
  read : ∀ s, (∀ c ∈ s, ∃ d, Text.digit? radix c = some d) → Text.radixMark (mark ++ s) = (radix, s)

theorem marks_ten : Marks [] 10 where
  base := by decide
  char := by simp
  read s hs := by
    have hdigit : ∀ c ∈ s, c.isDigit = true := fun c hc =>
      (hs c hc).elim fun _ hd => Text.isDigit_of_digit?_ten hd
    rw [List.nil_append]
    unfold Text.radixMark
    split
    · exact absurd (hdigit 'x' (by simp)) (by decide)
    · exact absurd (hdigit 'X' (by simp)) (by decide)
    · exact absurd (hdigit 'o' (by simp)) (by decide)
    · exact absurd (hdigit 'O' (by simp)) (by decide)
    · exact absurd (hdigit 'b' (by simp)) (by decide)
    · exact absurd (hdigit 'B' (by simp)) (by decide)
    · rfl

theorem marks_lowerHex : Marks "0x".toList 16 := ⟨by decide, by simp [Text.isBlank], fun _ _ => rfl⟩

theorem marks_upperHex : Marks "0X".toList 16 := ⟨by decide, by simp [Text.isBlank], fun _ _ => rfl⟩

theorem marks_octal : Marks "0o".toList 8 := ⟨by decide, by simp [Text.isBlank], fun _ _ => rfl⟩

theorem marks_binary : Marks "0b".toList 2 := ⟨by decide, by simp [Text.isBlank], fun _ _ => rfl⟩

/-- The digits of a number, with small or capital letters. -/
def digitsText (radix n : Nat) (upper : Bool) : List Char :=
  if upper then (Nat.toDigits radix n).map Char.toUpper else Nat.toDigits radix n

theorem foldDigits?_digitsText (hbase : 1 < radix ∧ radix ≤ 16) (n : Nat) :
    Text.foldDigits? radix 0 (digitsText radix n upper) = some n := by
  cases upper with
  | true => exact Text.foldDigits?_toDigits hbase.1 hbase.2 Text.digit?_toUpper n
  | false =>
    calc Text.foldDigits? radix 0 (Nat.toDigits radix n)
      _ = Text.foldDigits? radix 0 ((Nat.toDigits radix n).map id) := by rw [List.map_id]
      _ = some n := Text.foldDigits?_toDigits hbase.1 hbase.2 Text.digit?_digitChar n

theorem digitsText_ne_nil (radix n : Nat) (upper : Bool) : digitsText radix n upper ≠ [] := by
  cases upper <;> simp [digitsText, Nat.toDigits_ne_nil]

theorem foldDigits?_padded (hbase : 1 < radix ∧ radix ≤ 16) (zeros n : Nat) :
    Text.foldDigits? radix 0 (List.replicate zeros '0' ++ digitsText radix n upper) = some n := by
  rw [Text.foldDigits?_zeros (Nat.zero_lt_of_lt hbase.1), foldDigits?_digitsText hbase]

/-- A number is read from its mark and its digits, also with zeros between them. -/
theorem Marks.magnitude? {s : List Char} {n zeros : Nat} (h : Marks s radix) (hn : n < 2 ^ 127) :
    Text.magnitude? (s ++ (List.replicate zeros '0' ++ digitsText radix n upper)) = some n := by
  have hread : Text.foldDigits? radix 0 (List.replicate zeros '0' ++ digitsText radix n upper) = some n :=
    foldDigits?_padded h.base zeros n
  have hne : (List.replicate zeros '0' ++ digitsText radix n upper).isEmpty = false := by
    simp [digitsText_ne_nil]
  simp only [Text.magnitude?, h.read _ (Text.exists_digit? hread), Text.natural?, hne, hread]
  exact if_pos (decide_eq_true hn)

theorem Marks.char_of_mem {s : List Char} {n zeros : Nat} (h : Marks s radix) :
    ∀ c ∈ s ++ (List.replicate zeros '0' ++ digitsText radix n upper),
      Text.isBlank c = false ∧ c ≠ '+' ∧ c ≠ '-' := by
  refine List.forall_mem_append.2 ⟨h.char, fun c hc => ?_⟩
  obtain ⟨d, hd⟩ := Text.exists_digit? (foldDigits?_padded h.base zeros n) c hc
  refine ⟨Text.isBlank_of_digit? hd, ?_, ?_⟩
  all_goals
    rintro rfl
    exact absurd (Text.digit?_bounds hd) (by decide)

/-- An integer in a marked radix is read back from any padding that does not hide it. -/
theorem Readable.integer?_radixText (h : f.Readable)
    (hmarks : Marks (if f.alternate then mark.toList else []) radix) (hv : v.natAbs < 2 ^ 127) :
    Text.integer? (f.radixText v radix every mark upper) = some v := by
  have hgroup (s : List Char) : f.group every s = s := by rw [group, h.grouping]
  obtain ⟨blanks, sign, hsign, hblanks, hsigned⟩ := f.exists_signText v
  obtain ⟨before, zeros, after, hpad, hbefore, hafter⟩ := h.exists_pad
    ⟨f.signText (v < 0) ++ (if f.alternate then mark.toList else []), digitsText radix v.natAbs upper⟩
  have htext : f.radixText v radix every mark upper = (before ++ blanks) ++ (sign ++
      ((if f.alternate then mark.toList else []) ++
        (List.replicate zeros '0' ++ digitsText radix v.natAbs upper))) ++ after := by
    calc f.radixText v radix every mark upper
      _ = f.pad .right ⟨f.signText (v < 0) ++ (if f.alternate then mark.toList else []),
            f.group every (digitsText radix v.natAbs upper)⟩ := rfl
      _ = _ := by rw [hgroup, hpad, hsign]; simp only [List.append_assoc]
  rw [htext]
  exact Text.integer?_of_magnitude? (List.forall_mem_append.2 ⟨hbefore, hblanks⟩) hsigned hafter
    (by simp [digitsText_ne_nil]) hmarks.char_of_mem (hmarks.magnitude? hv)

theorem Readable.integer? (h : f.Readable) (hv : v.natAbs < 2 ^ 127) :
    ∃ shown, f.integer? v = some shown ∧ Text.integer? shown = some v := by
  rcases h.kind with hkind | ⟨halternate, hkind⟩
  · have hten : Marks (if f.alternate then "".toList else []) 10 := by
      rw [String.toList_empty, ite_self]
      exact marks_ten
    have hshown : f.integer? v = some (f.radixText v 10 3 "" false) := by
      simp only [List.mem_cons, List.not_mem_nil, or_false] at hkind
      rcases hkind with hkind | hkind | hkind <;> rw [Format.integer?, hkind]
    exact ⟨_, hshown, h.integer?_radixText hten hv⟩
  · have hmarked {mark : String} {radix : Nat} (hmark : Marks mark.toList radix) :
        Marks (if f.alternate then mark.toList else []) radix := by rwa [if_pos halternate]
    simp only [List.mem_cons, List.not_mem_nil, or_false] at hkind
    rcases hkind with hkind | hkind | hkind | hkind <;> rw [Format.integer?, hkind]
    · exact ⟨_, rfl, h.integer?_radixText (hmarked marks_lowerHex) hv⟩
    · exact ⟨_, rfl, h.integer?_radixText (hmarked marks_upperHex) hv⟩
    · exact ⟨_, rfl, h.integer?_radixText (hmarked marks_octal) hv⟩
    · exact ⟨_, rfl, h.integer?_radixText (hmarked marks_binary) hv⟩

theorem readable_hex : Format.hex.Readable := ⟨by decide, by decide, by decide⟩

end Format

/-- Every integer of up to 127 bits is read back from its text in a readable format. Without a format
whole numbers and pointers are shown in one, so that their text can be the key of a label. -/
theorem integer?_integer :
    (∀ f : Format, f.Readable → ∀ v : Int, -2 ^ 127 < v → v < 2 ^ 127 →
      ∃ shown, f.integer? v = some shown ∧ Text.integer? shown = some v) ∧
    (∀ v : Int, -2 ^ 63 ≤ v → v < 2 ^ 63 →
      ∃ shown, (Scalar.signed v).display? none = some shown ∧
        Schema.labelKey? (.string (String.ofList shown)) = some v) ∧
    ∀ n : Nat, n < 2 ^ 64 →
      ∃ shown, (Scalar.unsigned n).display? none = some shown ∧ (Scalar.pointer n).display? none = some shown ∧
        Schema.labelKey? (.string (String.ofList shown)) = some (n : Int) := by
  have hkey (v : Int) (hv : v.natAbs < 2 ^ 127) :
      ∃ shown, Format.hex.integer? v = some shown ∧ Schema.labelKey? (.string (String.ofList shown)) = some v := by
    obtain ⟨shown, hshown, hread⟩ := Format.readable_hex.integer? hv
    exact ⟨shown, hshown, by rwa [Schema.labelKey?, String.toList_ofList]⟩
  refine ⟨fun f hf v hlow hhigh => hf.integer? (by omega), fun v hlow hhigh => hkey v (by omega), fun n hn => ?_⟩
  obtain ⟨shown, hshown, hread⟩ := hkey n (by omega)
  exact ⟨shown, hshown, hshown, hread⟩

/-- Zeros between the mark and the digits of a negative number, and the widest address. -/
theorem integer?_integer_zeros :
    let f : Format := ⟨'0', some .afterSign, .space, true, 12, none, some 3, some .upperHex⟩
    f.integer? (-43981) = some "-0X00000ABCD".toList ∧
      (∃ shown, f.integer? (-43981) = some shown ∧ Text.integer? shown = some (-43981)) ∧
      ∃ shown, (Scalar.pointer (2 ^ 64 - 1)).display? none = some shown ∧
        Schema.labelKey? (.string (String.ofList shown)) = some ((2 ^ 64 - 1 : Nat) : Int) := by
  intro f
  have hf : f.Readable := ⟨by decide, by decide, by decide⟩
  obtain ⟨shown, -, hshown, hread⟩ := integer?_integer.2.2 (2 ^ 64 - 1) (by decide)
  exact ⟨by decide +kernel, integer?_integer.1 f hf _ (by decide) (by decide), shown, hshown, hread⟩

end PackedStruct
