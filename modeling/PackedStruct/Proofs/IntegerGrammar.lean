import Mathlib.Data.Nat.Digits.Defs
import PackedStruct.CommandLine.Arguments
import PackedStruct.Proofs.IntegerText
/-!
The texts that are integers: a sign or none, the mark of a radix or none, then digits of that radix. The reader takes
these texts and no others, so there is one sign at most, it stands in front of the mark, and no mark stands alone.
-/

namespace PackedStruct

namespace Text

/-- `c` is the digit `d`; letters may be capitals. -/
def StandsFor (radix : Nat) (c : Char) (d : Nat) : Prop :=
  d < radix ∧ (c = d.digitChar ∨ c = d.digitChar.toUpper)

/-- A run of digits, the first of them worth the most. -/
def Numeral (radix : Nat) (s : List Char) (m : Nat) : Prop :=
  s ≠ [] ∧ ∃ ds, List.Forall₂ (StandsFor radix) s ds ∧ m = Nat.ofDigits radix ds.reverse

/-- What can stand in front of digits to tell their radix. -/
inductive RadixMark : List Char → Nat → Prop where
  | decimal : RadixMark [] 10
  | hex {c : Char} (hc : c = 'x' ∨ c = 'X') : RadixMark ['0', c] 16
  | octal {c : Char} (hc : c = 'o' ∨ c = 'O') : RadixMark ['0', c] 8
  | binary {c : Char} (hc : c = 'b' ∨ c = 'B') : RadixMark ['0', c] 2

/-- The integer that a sign makes of a number. -/
inductive Sign : List Char → Nat → Int → Prop where
  | none (m : Nat) : Sign [] m m
  | plus (m : Nat) : Sign ['+'] m m
  | minus (m : Nat) : Sign ['-'] m (-m)

/-- What a text without blanks at its ends spells. -/
inductive SpellsInteger : List Char → Int → Prop where
  | mk {sign mark digits : List Char} {radix m : Nat} {v : Int} (hsign : Sign sign m v) (hmark : RadixMark mark radix)
      (hdigits : Numeral radix digits m) (hm : m ≤ 2 ^ 127 - 1) : SpellsInteger (sign ++ (mark ++ digits)) v

variable {radix acc m n d : Nat} {c : Char} {s mark digits : List Char} {v : Int}

/-- A digit stands in one of three ranges of characters. -/
theorem toNat_of_digit? (h : digit? radix c = some d) :
    d < 10 ∧ c.toNat = d + 48 ∨ 10 ≤ d ∧ (c.toNat = d + 87 ∨ c.toNat = d + 55) := by
  have hle (a : Char) : a ≤ c ↔ a.toNat ≤ c.toNat := UInt32.le_iff_toNat_le
  have hge (a : Char) : c ≤ a ↔ c.toNat ≤ a.toNat := UInt32.le_iff_toNat_le
  simp only [digit?, hle, hge] at h
  grind

theorem digit?_eq_some_iff (hradix : radix ≤ 16) : digit? radix c = some d ↔ StandsFor radix c d := by
  have hsmall : ∀ d < 10, Char.ofNat (d + 48) = d.digitChar := by decide
  have hletter : ∀ d < 16, 10 ≤ d → Char.ofNat (d + 87) = d.digitChar := by decide
  have hcapital : ∀ d < 16, 10 ≤ d → Char.ofNat (d + 55) = d.digitChar.toUpper := by decide
  constructor
  · intro h
    have hd : d < radix := digit?_lt h
    refine ⟨hd, ?_⟩
    rw [← Char.ofNat_toNat c]
    rcases toNat_of_digit? h with ⟨hlt, hc⟩ | ⟨hle, hc | hc⟩
    · left
      rw [hc, hsmall d hlt]
    · left
      rw [hc, hletter d (by omega) hle]
    · right
      rw [hc, hcapital d (by omega) hle]
  · intro h
    obtain ⟨hd, rfl | rfl⟩ := h
    · exact digit?_of_le (digit?_digitChar d (by omega)) hd hradix
    · exact digit?_of_le (digit?_toUpper d (by omega)) hd hradix

/-- The number that was read before counts for as many places as there are digits. -/
theorem foldDigits?_eq_some_iff (hradix : radix ≤ 16) :
    foldDigits? radix acc s = some n ↔
      ∃ ds, List.Forall₂ (StandsFor radix) s ds ∧ n = Nat.ofDigits radix ds.reverse + acc * radix ^ ds.length := by
  induction s generalizing acc with
  | nil =>
    rw [foldDigits?, Option.some.injEq]
    constructor
    · intro h
      exact ⟨[], .nil, by simp [h]⟩
    · intro h
      obtain ⟨ds, hds, hn⟩ := h
      cases hds
      simpa using hn.symm
  | cons c s ih =>
    have hplace (d : Nat) (ds : List Nat) : Nat.ofDigits radix ds.reverse + (acc * radix + d) * radix ^ ds.length =
        Nat.ofDigits radix (d :: ds).reverse + acc * radix ^ (d :: ds).length := by
      rw [List.reverse_cons, Nat.ofDigits_append, Nat.ofDigits_singleton, List.length_reverse, List.length_cons,
        Nat.pow_succ]
      ring
    simp only [foldDigits?, Option.bind_eq_bind, Option.bind_eq_some_iff]
    constructor
    · intro h
      obtain ⟨d, hd, hrest⟩ := h
      obtain ⟨ds, hds, hn⟩ := ih.1 hrest
      exact ⟨d :: ds, .cons ((digit?_eq_some_iff hradix).1 hd) hds, by rw [hn, hplace]⟩
    · intro h
      obtain ⟨ds, hds, hn⟩ := h
      cases hds with
      | @cons _ d _ ds hd hds =>
        exact ⟨d, (digit?_eq_some_iff hradix).2 hd, ih.2 ⟨ds, hds, by rw [hn, hplace]⟩⟩

theorem natural?_eq_some_iff (hradix : radix ≤ 16) : natural? radix s = some m ↔ Numeral radix s m := by
  rw [natural?, Option.ite_none_left_eq_some, foldDigits?_eq_some_iff hradix, List.isEmpty_iff]
  simp [Numeral]

theorem RadixMark.radix_le (h : RadixMark mark radix) : radix ≤ 16 := by
  cases h <;> decide

theorem exists_radixMark (s : List Char) :
    ∃ mark, RadixMark mark (radixMark s).1 ∧ s = mark ++ (radixMark s).2 := by
  unfold radixMark
  split
  · exact ⟨['0', 'x'], .hex (.inl rfl), rfl⟩
  · exact ⟨['0', 'X'], .hex (.inr rfl), rfl⟩
  · exact ⟨['0', 'o'], .octal (.inl rfl), rfl⟩
  · exact ⟨['0', 'O'], .octal (.inr rfl), rfl⟩
  · exact ⟨['0', 'b'], .binary (.inl rfl), rfl⟩
  · exact ⟨['0', 'B'], .binary (.inr rfl), rfl⟩
  · exact ⟨[], .decimal, rfl⟩

/-- The mark in front of digits is split off. Where there is none, the digits do not look like one. -/
theorem RadixMark.radixMark_append (h : RadixMark mark radix) (hdigits : Numeral radix digits m) :
    radixMark (mark ++ digits) = (radix, digits) := by
  cases h with
  | decimal =>
    have hread : natural? 10 digits = some m := (natural?_eq_some_iff (by decide)).2 hdigits
    apply Format.marks_ten.read
    exact exists_digit? (Option.ite_none_left_eq_some.1 hread).2
  | hex hc => rcases hc with rfl | rfl <;> rfl
  | octal hc => rcases hc with rfl | rfl <;> rfl
  | binary hc => rcases hc with rfl | rfl <;> rfl

theorem magnitude?_eq_some_iff :
    magnitude? s = some m ↔
      ∃ mark digits radix, s = mark ++ digits ∧ RadixMark mark radix ∧ Numeral radix digits m ∧ m ≤ 2 ^ 127 - 1 := by
  have hlimit : decide (m < Nat.pow 2 127) = true ↔ m ≤ 2 ^ 127 - 1 := by
    rw [decide_eq_true_iff, Nat.le_sub_one_iff_lt (by decide)]
    exact Iff.rfl
  rw [magnitude?, Option.filter_eq_some_iff, hlimit]
  constructor
  · intro h
    obtain ⟨hread, hm⟩ := h
    obtain ⟨mark, hmark, hs⟩ := exists_radixMark s
    exact ⟨mark, _, _, hs, hmark, (natural?_eq_some_iff hmark.radix_le).1 hread, hm⟩
  · intro h
    obtain ⟨mark, digits, radix, rfl, hmark, hdigits, hm⟩ := h
    rw [hmark.radixMark_append hdigits]
    exact ⟨(natural?_eq_some_iff hmark.radix_le).2 hdigits, hm⟩

/-- A sign is no part of a number, so none follows the first one. -/
theorem magnitude?_sign (s : List Char) : magnitude? ('+' :: s) = none ∧ magnitude? ('-' :: s) = none :=
  ⟨rfl, rfl⟩

theorem integer?_eq_some_iff :
    integer? s = some v ↔ ∃ sign rest m, trim s = sign ++ rest ∧ Sign sign m v ∧ magnitude? rest = some m := by
  constructor
  · intro h
    unfold integer? at h
    split at h
    · next rest heq =>
      obtain ⟨_, hsize, rfl⟩ := Option.map_eq_some_iff.1 h
      obtain ⟨m, hm, hcast⟩ := Option.bind_eq_some_iff.1 hsize
      obtain rfl := Option.some.inj hcast
      exact ⟨['-'], rest, m, heq, .minus m, hm⟩
    · next rest heq =>
      obtain ⟨m, hm, rfl⟩ := Option.map_eq_some_iff.1 h
      exact ⟨['+'], rest, m, heq, .plus m, hm⟩
    · obtain ⟨m, hm, rfl⟩ := Option.map_eq_some_iff.1 h
      exact ⟨[], _, m, rfl, .none m, hm⟩
  · intro h
    obtain ⟨sign, rest, m, htrim, hsign, hm⟩ := h
    rw [integer?, htrim]
    cases hsign with
    | none =>
      rw [List.nil_append]
      split
      · next rest =>
        rw [(magnitude?_sign rest).2] at hm
        cases hm
      · next rest =>
        rw [(magnitude?_sign rest).1] at hm
        cases hm
      · rw [hm]
        rfl
    | plus => simp [hm]
    | minus => simp [hm]

theorem integer?_eq_some_iff_spells : integer? s = some v ↔ SpellsInteger (trim s) v := by
  rw [integer?_eq_some_iff]
  constructor
  · intro h
    obtain ⟨sign, rest, m, htrim, hsign, hm⟩ := h
    obtain ⟨mark, digits, radix, rfl, hmark, hdigits, hlimit⟩ := magnitude?_eq_some_iff.1 hm
    rw [htrim]
    exact .mk hsign hmark hdigits hlimit
  · intro h
    generalize trim s = text at h
    cases h with
    | mk hsign hmark hdigits hlimit =>
      exact ⟨_, _, _, rfl, hsign, magnitude?_eq_some_iff.2 ⟨_, _, _, rfl, hmark, hdigits, hlimit⟩⟩

end Text

theorem CommandLine.offset?_eq_some_iff {s : String} {n : Nat} :
    offset? s = some n ↔ Text.integer? s.toList = some (n : Int) ∧ n < 2 ^ 64 := by
  rw [offset?]
  constructor
  · intro h
    split at h
    · next m hread =>
      obtain ⟨hm, hn⟩ := Option.ite_none_right_eq_some.1 h
      cases hn
      exact ⟨hread, hm⟩
    · cases h
  · intro h
    obtain ⟨hread, hn⟩ := h
    rw [hread]
    exact if_pos hn

/-- An integer is read from a text if and only if the text, without the blanks at its ends, spells that integer; and an
offset is one that is not negative and fits into 64 bits. -/
theorem integer?_iff_spells (text : String) :
    (∀ v, Text.integer? text.toList = some v ↔ Text.SpellsInteger (Text.trim text.toList) v) ∧
    ∀ n, CommandLine.offset? text = some n ↔ Text.SpellsInteger (Text.trim text.toList) n ∧ n < 2 ^ 64 := by
  constructor
  · intro v
    exact Text.integer?_eq_some_iff_spells
  · intro n
    rw [CommandLine.offset?_eq_some_iff, Text.integer?_eq_some_iff_spells]

example : Text.integer? "\t-0X0fF ".toList = some (-255) ∧ Text.integer? "0x-1".toList = none ∧
    CommandLine.offset? "-0" = some 0 := by decide +kernel

end PackedStruct
