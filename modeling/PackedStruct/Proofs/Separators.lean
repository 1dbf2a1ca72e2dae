import Mathlib.Data.List.Basic
import PackedStruct.Proofs.Alignment
import PackedStruct.Proofs.IntegerText
/-!
Separators between digits. They are all that grouping adds: each digit of a whole number has one in front of it or
not by the number of digits from it to the end, and without them the numeral is left.
-/

namespace PackedStruct.Format

variable {f : Format} {separator : Char} {every : Nat} {digits shown : List Char}

/-- Digits where a separator stands before each that is not the first and with which a multiple of `every` digits is
still to come. -/
def separated (separator : Char) (every : Nat) (digits : List Char) : List Char :=
  digits.zipIdx.flatMap fun (d, i) => if 0 < i ∧ every ∣ digits.length - i then [separator, d] else [d]

/-- Digits in groups of `every`, counted from the last digit, so that only the first group may be shorter. -/
def InGroups (separator : Char) (every : Nat) (digits shown : List Char) : Prop :=
  ∃ first groups, (first = [] → groups = []) ∧ first.length ≤ every ∧ (∀ group ∈ groups, group.length = every) ∧
    digits = first ++ groups.flatten ∧ shown = first ++ groups.flatMap (separator :: ·)

/-- After the first digit the separators are placed by what is left, wherever the counting of the digits begins. -/
theorem separate_cons (separator : Char) (every : Nat) (d : Char) (ds : List Char) (k : Nat) :
    separate separator every (d :: ds) =
      d :: (ds.zipIdx k).flatMap fun p => if every ∣ k + ds.length - p.2 then [separator, p.1] else [p.1] := by
  induction ds generalizing d k with
  | nil => rfl
  | cons e ds ih =>
    have hleft : k + 1 + ds.length - k = ds.length + 1 := by omega
    have hlength : k + (e :: ds).length = k + 1 + ds.length := by simp; omega
    rw [separate, ih e (k + 1), List.zipIdx_cons, List.flatMap_cons]
    simp only [hlength, hleft, Nat.dvd_iff_mod_eq_zero]
    split <;> rfl

theorem separate_eq (separator : Char) (every : Nat) (digits : List Char) :
    separate separator every digits = separated separator every digits := by
  cases digits with
  | nil => rfl
  | cons d ds =>
    have hrest : ∀ p ∈ ds.zipIdx 1,
        (if every ∣ 1 + ds.length - p.2 then [separator, p.1] else [p.1]) =
          if 0 < p.2 ∧ every ∣ (d :: ds).length - p.2 then [separator, p.1] else [p.1] := by
      intro p hp
      have hpos : 0 < p.2 := List.le_snd_of_mem_zipIdx hp
      simp [hpos, Nat.add_comm]
    rw [separate_cons separator every d ds 1, List.flatMap_congr hrest, separated, List.zipIdx_cons,
      List.flatMap_cons]
    rfl

/-- Without its separators the text is the digits again. -/
theorem filter_separate (h : separator ∉ digits) :
    (separate separator every digits).filter (· ≠ separator) = digits := by
  induction digits using separate.induct every with
  | case1 => rfl
  | case2 d =>
    have hd : d ≠ separator := fun heq => h (by simp [heq])
    simp [separate, hd]
  | case3 d e ds hlast ih | case4 d e ds hlast ih =>
    have hd : d ≠ separator := fun heq => h (by simp [heq])
    have hrest := ih fun hmem => h (List.mem_cons_of_mem d hmem)
    simpa [separate, hlast, hd] using hrest

theorem length_flatten_groups {groups : List (List Char)} (h : ∀ group ∈ groups, group.length = every) :
    groups.flatten.length = every * groups.length := by
  have hlengths : groups.map List.length = List.replicate groups.length every := List.map_eq_replicate_iff.2 h
  rw [List.length_flatten, hlengths, List.sum_replicate_nat, Nat.mul_comm]

theorem length_flatMap_groups (separator : Char) (groups : List (List Char)) :
    (groups.flatMap (separator :: ·)).length = groups.flatten.length + groups.length := by
  induction groups with
  | nil => rfl
  | cons group groups ih =>
    rw [List.flatMap_cons, List.length_append, ih, List.flatten_cons, List.length_append, List.length_cons,
      List.length_cons]
    omega

theorem inGroups_separate (hevery : 0 < every) (separator : Char) (digits : List Char) :
    InGroups separator every digits (separate separator every digits) := by
  induction digits using separate.induct every with
  | case1 => exact ⟨[], [], fun _ => rfl, Nat.zero_le _, by simp, rfl, rfl⟩
  | case2 d => exact ⟨[d], [], fun _ => rfl, hevery, by simp, rfl, rfl⟩
  | case3 d e ds hlast ih =>
    obtain ⟨first, groups, hne, hfirst, hgroups, hdigits, hshown⟩ := ih
    -- the digits so far fill their groups, so that `d` is a group of its own
    have hfull : first.length = every := by
      have hlength := congrArg List.length hdigits
      rw [List.length_append, length_flatten_groups hgroups, List.length_cons] at hlength
      rw [hlength, Nat.add_mul_mod_self_left] at hlast
      have hpos : 0 < first.length := by
        apply List.length_pos_of_ne_nil
        intro hnil
        simp [hnil, hne hnil] at hdigits
      exact Nat.le_antisymm hfirst (Nat.le_of_dvd hpos (Nat.dvd_of_mod_eq_zero hlast))
    refine ⟨[d], first :: groups, by simp, hevery, List.forall_mem_cons.2 ⟨hfull, hgroups⟩, ?_, ?_⟩
    · rw [hdigits]
      rfl
    · rw [separate, if_pos hlast, hshown]
      rfl
  | case4 d e ds hlast ih =>
    obtain ⟨first, groups, hne, hfirst, hgroups, hdigits, hshown⟩ := ih
    have hroom : first.length ≠ every := by
      intro hfull
      have hlength := congrArg List.length hdigits
      rw [List.length_append, length_flatten_groups hgroups, List.length_cons, hfull] at hlength
      rw [hlength, Nat.add_mul_mod_self_left, Nat.mod_self] at hlast
      exact hlast rfl
    have hlonger : (d :: first).length ≤ every := Nat.lt_of_le_of_ne hfirst hroom
    refine ⟨d :: first, groups, by simp, hlonger, hgroups, ?_, ?_⟩
    · rw [hdigits]
      rfl
    · rw [separate, if_neg hlast, hshown]
      rfl

/-- Digits without separators are in groups only if there are enough for one group. -/
theorem inGroups_self_iff : InGroups separator every digits digits ↔ digits.length ≤ every := by
  constructor
  · rintro ⟨first, groups, -, hfirst, hgroups, hdigits, hshown⟩
    have hsame : groups.flatten = groups.flatMap (separator :: ·) :=
      List.append_cancel_left (hdigits.symm.trans hshown)
    have hnone : groups = [] := by
      have hlength := congrArg List.length hsame
      rw [length_flatMap_groups] at hlength
      exact List.length_eq_zero_iff.1 (by omega)
    rw [hdigits, hnone]
    simpa using hfirst
  · intro h
    exact ⟨digits, [], fun _ => rfl, h, by simp, by simp, by simp⟩

/-! Numerals. -/

/-- The digits of a number in a radix, with small or capital letters and without needless zeros. -/
structure IsNumeral (radix : Nat) (upper : Bool) (n : Nat) (digits : List Char) : Prop where
  value : Text.natural? radix digits = some n
  leading : digits.head? = some '0' → digits = ['0']
  letters : ∀ c ∈ digits, if upper then c.isLower = false else c.isUpper = false

theorem exists_of_mem_toDigits {radix n : Nat} (hradix : 1 < radix) {c : Char} (h : c ∈ Nat.toDigits radix n) :
    ∃ d < radix, c = d.digitChar := by
  induction n using Nat.strongRecOn with
  | _ n ih =>
    rw [Nat.toDigits_eq_if hradix] at h
    split at h
    · next hsmall => exact ⟨n, hsmall, List.mem_singleton.1 h⟩
    · next hlarge =>
      rcases List.mem_append.1 h with hrest | hlast
      · exact ih _ (Nat.div_lt_self (by omega) hradix) hrest
      · exact ⟨n % radix, Nat.mod_lt _ (by omega), List.mem_singleton.1 hlast⟩

theorem isNumeral_digitsText {radix : Nat} (hbase : 1 < radix ∧ radix ≤ 16) (upper : Bool) (n : Nat) :
    IsNumeral radix upper n (digitsText radix n upper) where
  value := by
    have hne : (digitsText radix n upper).isEmpty = false := by simp [digitsText_ne_nil]
    simp [Text.natural?, hne, foldDigits?_digitsText hbase]
  leading := by
    intro hzero
    have hhead : (Nat.toDigits radix n).head? = some '0' := by
      cases upper with
      | false => exact hzero
      | true =>
        rw [digitsText, if_pos rfl, List.head?_map, Option.map_eq_some_iff] at hzero
        obtain ⟨c, hc, hupper⟩ := hzero
        obtain ⟨d, hd, rfl⟩ := exists_of_mem_toDigits hbase.1 (List.mem_of_head? hc)
        have hnone : ∀ d < 16, d.digitChar.toUpper = '0' → d.digitChar = '0' := by decide
        rw [hc, hnone d (by omega) hupper]
    have hn : n = 0 := by
      by_contra hn
      exact Text.head?_toDigits hbase.1 (Nat.pos_of_ne_zero hn) hhead
    have hdigits : Nat.toDigits radix 0 = ['0'] := by
      rw [Nat.toDigits_eq_if hbase.1, if_pos (by omega)]
      rfl
    rw [hn, digitsText, hdigits]
    cases upper <;> rfl
  letters := by
    have hsmall : ∀ d < 16, d.digitChar.isUpper = false := by decide
    have hcapital : ∀ d < 16, d.digitChar.toUpper.isLower = false := by decide
    intro c hc
    cases upper with
    | false =>
      obtain ⟨d, hd, rfl⟩ := exists_of_mem_toDigits hbase.1 hc
      exact hsmall d (by omega)
    | true =>
      obtain ⟨c, hmem, rfl⟩ := List.mem_map.1 hc
      obtain ⟨d, hd, rfl⟩ := exists_of_mem_toDigits hbase.1 hmem
      exact hcapital d (by omega)

/-- How a type writes whole numbers: the radix, the size of a group of digits, the mark in front of the digits in the
alternate form, and whether letters are capitals. -/
structure Numeration where
  radix : Nat
  every : Nat
  mark : String
  upper : Bool
  deriving DecidableEq, Repr

/-- The types that write a whole number by its digits, and how. -/
def numeration? : Option Presentation → Option Numeration
  | none | some .decimal | some .number => some ⟨10, 3, "", false⟩
  | some .lowerHex => some ⟨16, 4, "0x", false⟩
  | some .upperHex => some ⟨16, 4, "0X", true⟩
  | some .octal => some ⟨8, 4, "0o", false⟩
  | some .binary => some ⟨2, 4, "0b", false⟩
  | _ => none

variable {n : Numeration}

theorem integer?_eq_radixText (h : numeration? f.kind = some n) (v : Int) :
    f.integer? v = some (f.radixText v n.radix n.every n.mark n.upper) := by
  unfold numeration? at h
  split at h <;> cases h
  all_goals
    next hkind => simp only [integer?, hkind]

theorem base_of_numeration? {k : Option Presentation} (h : numeration? k = some n) :
    1 < n.radix ∧ n.radix ≤ 16 := by
  unfold numeration? at h
  split at h <;> cases h <;> decide

/-- No digit of any radix is a separator. -/
theorem not_mem_of_isNumeral {radix n : Nat} {upper : Bool} (g : Grouping) (h : IsNumeral radix upper n digits) :
    g.char ∉ digits := by
  intro hmem
  have hvalue := h.value
  rw [Text.natural?] at hvalue
  split at hvalue
  · cases hvalue
  · obtain ⟨d, hd⟩ := Text.exists_digit? hvalue _ hmem
    have hbounds := Text.digit?_bounds hd
    cases g <;> exact absurd hbounds (by decide)

/-- With a grouping and without a width a whole number is shown as its sign, the mark of the radix in the alternate
form, and its digits with a separator in front of each that begins a group, counted from the last digit. Without the
separators its digits are the numeral of its magnitude. -/
theorem integer_grouped {g : Grouping} (hwidth : f.width = 0) (hgrouping : f.grouping = some g)
    (hkind : numeration? f.kind = some n) (v : Int) :
    ∃ digits, IsNumeral n.radix n.upper v.natAbs digits ∧
      f.integer? v = some ((if v < 0 then ['-'] else match f.sign with
          | .minus => []
          | .plus => ['+']
          | .space => [' ']) ++
        (if f.alternate then n.mark.toList else []) ++ separated g.char n.every digits) ∧
      (separated g.char n.every digits).filter (· ≠ g.char) = digits ∧
      InGroups g.char n.every digits (separated g.char n.every digits) := by
  have hnumeral := isNumeral_digitsText (base_of_numeration? hkind) n.upper v.natAbs
  have hgroup (ds : List Char) : f.group n.every ds = separated g.char n.every ds := by
    rw [group, hgrouping, ← separate_eq]
  have hevery : 0 < n.every := by
    unfold numeration? at hkind
    split at hkind <;> cases hkind <;> decide
  refine ⟨digitsText n.radix v.natAbs n.upper, hnumeral, ?_, ?_, ?_⟩
  · have hshown : f.radixText v n.radix n.every n.mark n.upper =
        f.pad .right ⟨f.signText (v < 0) ++ (if f.alternate then n.mark.toList else []),
          f.group n.every (digitsText n.radix v.natAbs n.upper)⟩ := rfl
    have hnarrow (p : Padded) : f.width ≤ p.lead.length + p.body.length := by
      rw [hwidth]
      exact Nat.zero_le _
    rw [integer?_eq_radixText hkind, hshown, pad_of_le (hnarrow _), hgroup]
    by_cases hv : v < 0
    · simp [signText, hv]
    · cases hsign : f.sign <;> simp [signText, hv, hsign]
  · rw [← separate_eq]
    exact filter_separate (not_mem_of_isNumeral g hnumeral)
  · rw [← separate_eq]
    exact inGroups_separate hevery g.char _

/-- The least integer of 128 bits, whose magnitude needs one bit more than the others, in capital letters. -/
theorem integer_grouped_least :
    let f : Format := ⟨' ', none, .plus, true, 0, some .underscore, none, some .upperHex⟩
    Format.read "+#_X" = .ok f ∧ f.width = 0 ∧ f.grouping = some .underscore ∧
      numeration? f.kind = some ⟨16, 4, "0X", true⟩ ∧
      f.integer? (-2 ^ 127) = some "-0X8000_0000_0000_0000_0000_0000_0000_0000".toList ∧
      ∃ digits, IsNumeral 16 true (2 ^ 127) digits ∧
        f.integer? (-2 ^ 127) = some ("-0X".toList ++ separated '_' 4 digits) ∧
        (separated '_' 4 digits).filter (· ≠ '_') = digits := by
  intro f
  obtain ⟨digits, hnumeral, hshown, hdelete, -⟩ :=
    integer_grouped (f := f) (n := ⟨16, 4, "0X", true⟩) (g := .underscore) rfl rfl rfl (-2 ^ 127)
  exact ⟨by rfl, rfl, rfl, rfl, by decide +kernel, digits, hnumeral, hshown, hdelete⟩

end PackedStruct.Format
