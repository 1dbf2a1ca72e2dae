import PackedStruct.Data.Json
import PackedStruct.Data.Text
import PackedStruct.Proofs.FlagNames
/-!
Reading a label of flags back. Names without bars come apart again at the bars of a label, and a label
with a bar in it is put together from several names. Distinct names therefore make distinct labels, and
what is shown for a number tells which one it is.
-/

namespace PackedStruct

theorem toList_joined {sep : String} {c : Char} (hsep : sep.toList = [c]) (parts : List String) :
    (sep.intercalate parts).toList = [c].intercalate (parts.map String.toList) := by
  rw [String.toList_intercalate, hsep]

/-- Parts without the separator can be told from their joined text. -/
theorem eq_of_joined {sep : String} {c : Char} (hsep : sep.toList = [c]) {parts parts' : List String}
    (hne : parts ≠ []) (hne' : parts' ≠ []) (hplain : ∀ s ∈ parts, c ∉ s.toList)
    (hplain' : ∀ s ∈ parts', c ∉ s.toList) (h : sep.intercalate parts = sep.intercalate parts') :
    parts = parts' := by
  have hsplit {parts : List String} (hne : parts ≠ []) (hplain : ∀ s ∈ parts, c ∉ s.toList) :
      (sep.intercalate parts).toList.splitOn c = parts.map String.toList := by
    rw [toList_joined hsep]
    apply List.splitOn_intercalate
    · exact List.forall_mem_map.2 hplain
    · exact mt List.map_eq_nil_iff.1 hne
  have htexts : parts.map String.toList = parts'.map String.toList := by
    rw [← hsplit hne hplain, ← hsplit hne' hplain', h]
  exact (List.map_injective_iff.2 fun _ _ => String.toList_inj.1) htexts

theorem bar_mem {name name' : String} {names : List String} :
    '|' ∈ ("|".intercalate (name :: name' :: names)).toList := by
  have hsep : "|".toList = ['|'] := by decide
  rw [toList_joined hsep, List.map_cons, List.map_cons, List.intercalate_cons_cons]
  simp

/-- Where no two elements have one image, the list of images determines the list. -/
theorem eq_of_map_eq {α β : Type} {f : α → Option β} {as as' : List α} {bs : List β}
    (hf : ∀ a a' b, f a = some b → f a' = some b → a = a')
    (h : as.map f = bs.map some) (h' : as'.map f = bs.map some) : as = as' := by
  induction bs generalizing as as' with
  | nil =>
    rw [List.map_eq_nil_iff.1 h, List.map_eq_nil_iff.1 h']
  | cons b bs ih =>
    obtain ⟨a, as, rfl, ha, has⟩ := List.map_eq_cons_iff.1 h
    obtain ⟨a', as', rfl, ha', has'⟩ := List.map_eq_cons_iff.1 h'
    rw [hf a a' b ha ha', ih has has']

namespace LabelTable

variable {t : LabelTable} {v w : Int} {text : String}

theorem eq_of_bitIndices {m n : Nat} (h : m.bitIndices = n.bitIndices) : m = n := by
  rw [← m.sum_map_two_pow_bitIndices, h, Nat.sum_map_two_pow_bitIndices]

/-- A label in a table of flags is the name of the number or joined from the names of two bits or more. -/
theorem label?_eq_some (hflags : t.mode = .flags) (h : t.label? v = some text) :
    t.entries.lookup v = some text ∨
      0 < v ∧ ∃ name name' names,
        bitNames? (fun v => t.entries.lookup v) v.toNat = some (name :: name' :: names) ∧
          "|".intercalate (name :: name' :: names) = text := by
  rw [label?_eq hflags, Option.or_eq_some_iff] at h
  rcases h with hown | ⟨hnone, hbits⟩
  · exact .inl hown
  · rw [Option.ite_none_right_eq_some, Option.map_eq_some_iff] at hbits
    obtain ⟨hpos, names, hnames, htext⟩ := hbits
    have hmap := bitNames?_eq_some_iff.1 hnames
    refine .inr ⟨hpos, ?_⟩
    -- With no bit the number would be zero, and with one its name would be the number's own.
    match names with
    | [] =>
      have hzero : v.toNat = 0 := eq_of_bitIndices (List.map_eq_nil_iff.1 hmap)
      omega
    | [name] =>
      obtain ⟨bit, bits, hbit, hname, hrest⟩ := List.map_eq_cons_iff.1 hmap
      rw [List.map_eq_nil_iff.1 hrest] at hbit
      have hpower : v.toNat = 2 ^ bit := eq_of_bitIndices (hbit.trans (Nat.bitIndices_two_pow bit).symm)
      rw [← eq_two_pow hpos hpower, hnone] at hname
      cases hname
    | name :: name' :: names => exact ⟨name, name', names, hnames, htext⟩

/-- Names that can be told apart, also when they are joined. -/
structure Distinguishing (t : LabelTable) : Prop where
  distinct : (t.entries.map Prod.snd).Nodup
  plain : ∀ e ∈ t.entries, '|' ∉ e.2.toList

namespace Distinguishing

theorem value_unique (h : t.Distinguishing) {name : String} (hv : t.entries.lookup v = some name)
    (hw : t.entries.lookup w = some name) : v = w := by
  have heq : (v, name) = (w, name) :=
    List.inj_on_of_nodup_map h.distinct (mem_of_lookup hv) (mem_of_lookup hw) rfl
  exact (Prod.mk.inj heq).1

theorem name_plain (h : t.Distinguishing) {name : String} (hv : t.entries.lookup v = some name) :
    '|' ∉ name.toList := h.plain _ (mem_of_lookup hv)

theorem bitNames_plain (h : t.Distinguishing) {n : Nat} {names : List String}
    (hnames : bitNames? (fun v => t.entries.lookup v) n = some names) : ∀ s ∈ names, '|' ∉ s.toList := by
  intro name hname
  have hmem : some name ∈ n.bitIndices.map fun bit => t.entries.lookup (2 ^ bit) := by
    rw [bitNames?_eq_some_iff.1 hnames]
    exact List.mem_map_of_mem hname
  obtain ⟨bit, -, hbit⟩ := List.mem_map.1 hmem
  exact h.name_plain hbit

/-- Two bits of one name would be one, so the names of its bits determine a number. -/
theorem bitNames_unique (h : t.Distinguishing) {m n : Nat} {names : List String}
    (hm : bitNames? (fun v => t.entries.lookup v) m = some names)
    (hn : bitNames? (fun v => t.entries.lookup v) n = some names) : m = n := by
  apply eq_of_bitIndices
  refine eq_of_map_eq ?_ (bitNames?_eq_some_iff.1 hm) (bitNames?_eq_some_iff.1 hn)
  intro bit bit' name hbit hbit'
  have heq := congrArg Int.toNat (h.value_unique hbit hbit')
  rw [toNat_two_pow, toNat_two_pow] at heq
  exact Nat.pow_right_injective (Nat.le_refl 2) heq

/-- No name of a single number reads like several names. -/
theorem joined_ne (h : t.Distinguishing) {name name' : String} {names : List String}
    (hv : t.entries.lookup v = some text) : "|".intercalate (name :: name' :: names) ≠ text := by
  intro htext
  have hbar : '|' ∈ text.toList := htext ▸ bar_mem
  exact h.name_plain hv hbar

theorem label_unique (h : t.Distinguishing) (hflags : t.mode = .flags) (hv : t.label? v = some text)
    (hw : t.label? w = some text) : v = w := by
  rcases label?_eq_some hflags hv with hown | ⟨hpos, name, name', names, hnames, htext⟩
  · rcases label?_eq_some hflags hw with hown' | ⟨_, _, _, _, _, htext'⟩
    · exact h.value_unique hown hown'
    · exact absurd htext' (h.joined_ne hown)
  · rcases label?_eq_some hflags hw with hown' | ⟨hpos', first, second, others, hnames', htext'⟩
    · exact absurd htext (h.joined_ne hown')
    · have hbar : "|".toList = ['|'] := by decide
      have hsame : name :: name' :: names = first :: second :: others :=
        eq_of_joined hbar (List.cons_ne_nil _ _) (List.cons_ne_nil _ _) (h.bitNames_plain hnames)
          (h.bitNames_plain hnames') (htext.trans htext'.symm)
      rw [← hsame] at hnames'
      have hbits : v.toNat = w.toNat := h.bitNames_unique hnames hnames'
      omega

end Distinguishing

end LabelTable

namespace Data

variable {t : LabelTable} {h : Hints} {a b : Scalar} {text : String}

theorem toJson_of_label (hlabel : (scalar h a).label? = some text) : (scalar h a).toJson = .string text := by
  rw [toJson, hlabel]

theorem scalarText?_of_label (hlabel : (scalar h a).label? = some text) : (scalar h a).scalarText? = some text := by
  simp [scalarText?, hlabel]

theorem label?_eq_some_iff (htable : h.labels = some t) :
    (scalar h a).label? = some text ↔ ∃ v, a.integer? = some v ∧ t.label? v = some text := by
  rw [label?, htable]
  simp [Option.bind_eq_some_iff]

end Data

/-- In a table of flags with distinct names, none with a bar in it, no two numbers have the same label,
whether it is the name of one or joined from the names of its bits. So labelled values of one type that
are shown alike, in JSON or in text, stand for the same number. -/
theorem labels_identify {t : LabelTable} (hflags : t.mode = .flags) (h : t.Distinguishing) :
    (∀ v w text, t.label? v = some text → t.label? w = some text → v = w) ∧
    ∀ (hints : Hints) (a b : Scalar), hints.labels = some t →
      (Data.scalar hints a).label? ≠ none → (Data.scalar hints b).label? ≠ none →
      (Data.scalar hints a).toJson = (Data.scalar hints b).toJson ∨
        (Data.scalar hints a).scalarText? = (Data.scalar hints b).scalarText? →
      a.integer? = b.integer? := by
  constructor
  · intro v w text hv hw
    exact h.label_unique hflags hv hw
  · intro hints a b htable ha hb hshown
    obtain ⟨text, htext⟩ := Option.ne_none_iff_exists'.1 ha
    obtain ⟨text', htext'⟩ := Option.ne_none_iff_exists'.1 hb
    have hsame : text = text' := by
      rcases hshown with hjson | hscalar
      · rw [Data.toJson_of_label htext, Data.toJson_of_label htext'] at hjson
        exact Json.string.inj hjson
      · rw [Data.scalarText?_of_label htext, Data.scalarText?_of_label htext'] at hscalar
        exact Option.some.inj hscalar
    obtain ⟨v, hv, hlabel⟩ := (Data.label?_eq_some_iff htable).1 htext
    obtain ⟨w, hw, hlabel'⟩ := (Data.label?_eq_some_iff htable).1 htext'
    rw [← hsame] at hlabel'
    rw [hv, hw, h.label_unique hflags hlabel hlabel']

/-- Rights, one of which has no letter, with names for some of their sums. -/
def rights : LabelTable :=
  .ofPairs .flags [(0, "none"), (1, ""), (2, "W"), (4, "X"), (6, "WX"), (-1, "all")]

theorem labels_identify_rights :
    rights.mode = .flags ∧ rights.Distinguishing ∧ rights.label? 5 = some "|X" ∧
      (∀ w, rights.label? w = some "|X" → w = 5) ∧
      ∀ b, (Data.scalar ⟨none, some rights⟩ b).label? ≠ none →
        (Data.scalar ⟨none, some rights⟩ (.unsigned 5)).toJson = (Data.scalar ⟨none, some rights⟩ b).toJson →
        some 5 = b.integer? := by
  have h : rights.Distinguishing := ⟨by decide +kernel, by decide +kernel⟩
  have hfive : rights.label? 5 = some "|X" := by decide +kernel
  have hidentify := labels_identify (t := rights) rfl h
  refine ⟨rfl, h, hfive, fun w hw => hidentify.1 w 5 "|X" hw hfive, fun b hb hjson => ?_⟩
  have hlabel : (Data.scalar ⟨none, some rights⟩ (.unsigned 5)).label? ≠ none := by decide +kernel
  exact hidentify.2 _ (.unsigned 5) b rfl hlabel hb (.inl hjson)

end PackedStruct
