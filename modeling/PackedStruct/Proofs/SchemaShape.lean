import Mathlib.Algebra.Order.Ring.Nat
import Mathlib.Data.List.Forall2
import PackedStruct.Proofs.Overlay
/-!
The documents that are schemas. What a schema has to look like is said here of trees alone; the loader
accepts these trees and no others, keeps all they say in its order, and otherwise blames the first
definition that is none.
-/

namespace PackedStruct

open Yaml (Tree)

namespace Yaml

/-- Trees without tags. No mapping has a key twice, and whole numbers have at most 64 bits. -/
inductive Tree.Plain : Tree → Prop
  | null : Plain .null
  | bool (value : Bool) : Plain (.bool value)
  | integer {v : Int} : -2 ^ 63 ≤ v → v < 2 ^ 64 → Plain (.number (.integer v))
  | real (x : Binary64) : Plain (.number (.real x))
  | string (s : String) : Plain (.string s)
  | sequence {items : List Tree} : (∀ t ∈ items, Plain t) → Plain (.sequence items)
  | mapping {es : List (Tree × Tree)} : (∀ e ∈ es, Plain e.1) → (∀ e ∈ es, Plain e.2) →
      es.Pairwise (fun e f => e.1.same f.1 = false) → Plain (.mapping es)

namespace Tree

variable {t : Tree} {key s : String} {es : List (Tree × Tree)}

@[simp] theorem plain_string (s : String) : (Tree.string s).Plain := .string s

@[simp] theorem plain_integer_iff {v : Int} :
    (Tree.number (.integer v)).Plain ↔ -2 ^ 63 ≤ v ∧ v < 2 ^ 64 := by
  constructor
  · rintro (_ | _ | ⟨hlow, hhigh⟩)
    exact ⟨hlow, hhigh⟩
  · exact fun h => .integer h.1 h.2

@[simp] theorem plain_sequence_iff {items : List Tree} :
    (Tree.sequence items).Plain ↔ ∀ t ∈ items, t.Plain := by
  constructor
  · intro h
    cases h with
    | sequence h => exact h
  · exact .sequence

@[simp] theorem plain_mapping_iff : (Tree.mapping es).Plain ↔
    (∀ e ∈ es, e.1.Plain) ∧ (∀ e ∈ es, e.2.Plain) ∧ es.Pairwise fun e f => e.1.same f.1 = false := by
  constructor
  · intro h
    cases h with
    | mapping hkeys hvalues hdistinct => exact ⟨hkeys, hvalues, hdistinct⟩
  · exact fun h => .mapping h.1 h.2.1 h.2.2

theorem string?_string (s : String) : (Tree.string s).string? = some s := rfl

theorem Plain.string?_iff (h : t.Plain) : t.string? = some s ↔ t = .string s := by
  cases h <;> simp [string?, untagged]

theorem same_string (s : String) : (Tree.string s).same (.string s) = true := by simp [same]

/-- A key stands only once in a mapping. -/
theorem not_mem_of_same (h : ∀ e ∈ es, (Tree.string key).same e.1 = false) (value : Tree) :
    (Tree.string key, value) ∉ es := fun hmem => by
  have hother := h _ hmem
  rw [same_string] at hother
  cases hother

end Tree

end Yaml

namespace Schema

/-- The integers that trees are as keys of labels. -/
inductive LabelKey : Tree → Int → Prop
  | number {v : Int} : -2 ^ 63 ≤ v → v < 2 ^ 64 → LabelKey (.number (.integer v)) v
  | text {s : String} {v : Int} : Text.integer? s.toList = some v → LabelKey (.string s) v

inductive IsLabels : Tree → List (Int × String) → Prop
  | mapping {es : List (Tree × Tree)} {labels : List (Int × String)} :
      List.Forall₂ (fun e l => LabelKey e.1 l.1 ∧ e.2 = .string l.2) es labels → IsLabels (.mapping es) labels

inductive IsFormat : Tree → String → Prop
  | string (s : String) : IsFormat (.string s) s
  | number (n : Yaml.Number) : IsFormat (.number n) n.text

/-- What a mapping has under a key: nothing at all, which leaves `old`, or a tree that is `P` of something. -/
inductive Under {α : Type} (es : List (Tree × Tree)) (key : String) (P : Tree → α → Prop) (old : Option α) :
    Option α → Prop
  | absent : (∀ value, (.string key, value) ∉ es) → Under es key P old old
  | present {value : Tree} {a : α} : (.string key, value) ∈ es → P value a → Under es key P old (some a)

/-- The keys of a record, in any order, with one type among them. -/
structure IsRecord (es : List (Tree × Tree)) (type : String) (options : FieldOptions) : Prop where
  keys : ∀ e ∈ es, ∃ key ∈ ["type", "format", "labels", "flags"], e.1 = .string key
  type : (.string "type", .string type) ∈ es
  format : Under es "format" IsFormat none options.format
  labels : Under es "labels" IsLabels none options.labels
  flags : Under es "flags" IsLabels none options.flags

inductive IsFieldType : Tree → FieldType → Prop
  | bare (spec : String) : IsFieldType (.string spec) (.bare spec)
  | record {es : List (Tree × Tree)} {spec : String} {options : FieldOptions} :
      IsRecord es spec options → IsFieldType (.mapping es) (.record spec options)

/-- A name as the key of what is `P`. -/
def Named {α : Type} (P : Tree → α → Prop) (e : Tree × Tree) (named : String × α) : Prop :=
  e.1 = .string named.1 ∧ P e.2 named.2

inductive IsEntry : Tree → FieldEntry → Prop
  | mapping {es : List (Tree × Tree)} {pairs : FieldEntry} :
      List.Forall₂ (Named IsFieldType) es pairs → IsEntry (.mapping es) pairs

inductive IsDefinition : Tree → Definition → Prop
  | alias (spec : String) : IsDefinition (.string spec) (.alias spec)
  | struct {items : List Tree} {entries : List FieldEntry} :
      List.Forall₂ IsEntry items entries → IsDefinition (.sequence items) (.struct entries)

inductive IsSchema : Tree → List (String × Definition) → Prop
  | null : IsSchema .null []
  | mapping {es : List (Tree × Tree)} {ds : List (String × Definition)} :
      List.Forall₂ (Named IsDefinition) es ds → IsSchema (.mapping es) ds

variable {t k v value : Tree} {es : List (Tree × Tree)} {key name : String}

theorem labelKey?_iff (ht : t.Plain) {n : Int} : labelKey? t = some n ↔ LabelKey t n := by
  constructor
  · intro h
    cases ht with
    | integer hlow hhigh =>
      cases h
      exact .number hlow hhigh
    | string s => exact .text h
    | _ => cases h
  · rintro (⟨hlow, hhigh⟩ | h)
    · rfl
    · exact h

theorem readLabel_iff (hk : k.Plain) (hv : v.Plain) {label : Int × String} :
    readLabel k v = .ok label ↔ LabelKey k label.1 ∧ v = .string label.2 := by
  obtain ⟨n, s⟩ := label
  rw [← labelKey?_iff hk, ← hv.string?_iff, readLabel]
  cases labelKey? k <;> cases k.string? <;> cases v.string? <;> simp

theorem readLabels_iff (ht : t.Plain) {labels : List (Int × String)} :
    readLabels t = .ok labels ↔ IsLabels t labels := by
  cases ht with
  | mapping hkeys hvalues _ =>
    refine (mapM_eq_ok_iff fun e he label => readLabel_iff (hkeys e he) (hvalues e he)).trans ?_
    exact ⟨.mapping, fun ⟨h⟩ => h⟩
  | _ => constructor <;> intro h <;> cases h

theorem readFormat_iff {text : String} : readFormat t = .ok text ↔ IsFormat t text := by
  cases t with
  | string s =>
    constructor <;> intro h <;> cases h
    · exact .string _
    · rfl
  | number n =>
    constructor <;> intro h <;> cases h
    · exact .number n
    · rfl
  | _ => constructor <;> intro h <;> cases h

namespace Under

variable {α : Type} {P : Tree → α → Prop} {old new : Option α}

theorem cons_self_iff (hfresh : ∀ value, (Tree.string key, value) ∉ es) :
    Under ((.string key, v) :: es) key P old new ↔ ∃ a, P v a ∧ new = some a := by
  constructor
  · rintro (habsent | ⟨hmem, ha⟩)
    · exact absurd List.mem_cons_self (habsent v)
    · rcases List.mem_cons.1 hmem with heq | hlater
      · cases heq
        exact ⟨_, ha, rfl⟩
      · exact absurd hlater (hfresh _)
  · rintro ⟨a, ha, rfl⟩
    exact .present List.mem_cons_self ha

theorem of_mem_iff {fs : List (Tree × Tree)}
    (hmem : ∀ value, (Tree.string key, value) ∈ es ↔ (Tree.string key, value) ∈ fs)
    (h : Under es key P old new) : Under fs key P old new := by
  rcases h with habsent | ⟨hvalue, ha⟩
  · exact .absent fun value => mt (hmem value).2 (habsent value)
  · exact .present ((hmem _).1 hvalue) ha

theorem cons_iff_of_ne (hk : k ≠ .string key) :
    Under ((k, v) :: es) key P old new ↔ Under es key P old new := by
  have hmem (value : Tree) : (Tree.string key, value) ∈ (k, v) :: es ↔ (Tree.string key, value) ∈ es := by
    rw [List.mem_cons, or_iff_right]
    intro heq
    cases heq
    exact hk rfl
  exact ⟨of_mem_iff hmem, of_mem_iff fun value => (hmem value).symm⟩

theorem of_absent (hfresh : ∀ value, (Tree.string key, value) ∉ es) :
    Under es key P old new ↔ new = old := by
  constructor
  · rintro (_ | ⟨hmem, -⟩)
    · rfl
    · exact absurd hmem (hfresh _)
  · rintro rfl
    exact .absent hfresh

@[simp] theorem nil_iff : Under [] key P old new ↔ new = old := of_absent fun _ => List.not_mem_nil

@[simp] theorem singleton_self_iff :
    Under [(.string key, v)] key P old new ↔ ∃ a, P v a ∧ new = some a := cons_self_iff fun _ => List.not_mem_nil

theorem singleton_iff_of_ne (h : name ≠ key) : Under [(.string name, v)] key P old new ↔ new = old :=
  (cons_iff_of_ne fun heq => h (Tree.string.inj heq)).trans nil_iff

/-- What the first entry leaves is what the others find. -/
theorem cons_iff (hfresh : ∀ e ∈ es, k.same e.1 = false) :
    Under ((k, v) :: es) key P old new ↔ ∃ mid, Under [(k, v)] key P old mid ∧ Under es key P mid new := by
  by_cases hk : k = .string key
  · subst hk
    have hlater := Tree.not_mem_of_same hfresh
    simp only [cons_self_iff hlater, singleton_self_iff, of_absent hlater]
    constructor
    · rintro ⟨a, ha, rfl⟩
      exact ⟨some a, ⟨a, ha, rfl⟩, rfl⟩
    · rintro ⟨_, ⟨a, ha, rfl⟩, rfl⟩
      exact ⟨a, ha, rfl⟩
  · simp only [cons_iff_of_ne hk, nil_iff, exists_eq_left]

end Under

/-- What the entries of a record make of what has been read before them. -/
@[mk_iff]
structure Reads (es : List (Tree × Tree)) (old new : Record) : Prop where
  keys : ∀ e ∈ es, ∃ key ∈ ["type", "format", "labels", "flags"], e.1 = .string key
  type : Under es "type" (fun t spec => t = .string spec) old.type new.type
  format : Under es "format" IsFormat old.options.format new.options.format
  labels : Under es "labels" IsLabels old.options.labels new.options.labels
  flags : Under es "flags" IsLabels old.options.flags new.options.flags

theorem reads_cons_iff (hfresh : ∀ e ∈ es, k.same e.1 = false) {old new : Record} :
    Reads ((k, v) :: es) old new ↔ ∃ r, Reads [(k, v)] old r ∧ Reads es r new := by
  constructor
  · intro h
    obtain ⟨hkey, hkeys⟩ := List.forall_mem_cons.1 h.keys
    obtain ⟨type, htype, htype'⟩ := (Under.cons_iff hfresh).1 h.type
    obtain ⟨format, hformat, hformat'⟩ := (Under.cons_iff hfresh).1 h.format
    obtain ⟨labels, hlabels, hlabels'⟩ := (Under.cons_iff hfresh).1 h.labels
    obtain ⟨flags, hflags, hflags'⟩ := (Under.cons_iff hfresh).1 h.flags
    exact ⟨⟨type, format, labels, flags⟩, ⟨List.forall_mem_singleton.2 hkey, htype, hformat, hlabels, hflags⟩,
      hkeys, htype', hformat', hlabels', hflags'⟩
  · rintro ⟨r, hfirst, hlater⟩
    exact ⟨List.forall_mem_cons.2 ⟨hfirst.keys _ List.mem_cons_self, hlater.keys⟩,
      (Under.cons_iff hfresh).2 ⟨_, hfirst.type, hlater.type⟩,
      (Under.cons_iff hfresh).2 ⟨_, hfirst.format, hlater.format⟩,
      (Under.cons_iff hfresh).2 ⟨_, hfirst.labels, hlater.labels⟩,
      (Under.cons_iff hfresh).2 ⟨_, hfirst.flags, hlater.flags⟩⟩

theorem reads_nil_iff {old new : Record} : Reads [] old new ↔ new = old := by
  obtain ⟨oldType, oldFormat, oldLabels, oldFlags⟩ := old
  obtain ⟨type, format, labels, flags⟩ := new
  simp [reads_iff]

/-! One entry of a record. The key has its place there and leaves the others alone. -/

section

variable {old new : Record}

theorem reads_singleton_iff (hkey : key ∈ ["type", "format", "labels", "flags"]) :
    Reads [(.string key, v)] old new ↔
      Under [(.string key, v)] "type" (fun t spec => t = .string spec) old.type new.type ∧
      Under [(.string key, v)] "format" IsFormat old.options.format new.options.format ∧
      Under [(.string key, v)] "labels" IsLabels old.options.labels new.options.labels ∧
      Under [(.string key, v)] "flags" IsLabels old.options.flags new.options.flags := by
  rw [reads_iff, and_iff_right fun e he => ⟨key, hkey, by rw [List.mem_singleton.1 he]⟩]

theorem readRecordEntry_type (hv : v.Plain) :
    readRecordEntry old (.string "type") v = .ok new ↔ Reads [(.string "type", v)] old new := by
  obtain ⟨oldType, oldFormat, oldLabels, oldFlags⟩ := old
  obtain ⟨type, format, labels, flags⟩ := new
  simp (disch := decide) only [reads_singleton_iff, Under.singleton_self_iff, Under.singleton_iff_of_ne,
    ← hv.string?_iff]
  cases hspec : v.string? with
  | none =>
    have hread : readRecordEntry ⟨oldType, oldFormat, oldLabels, oldFlags⟩ (.string "type") v =
        .error (.recordType v.kind) := by
      simp only [readRecordEntry, Tree.string?_string, hspec, if_true]
      rfl
    simp [hread]
  | some spec =>
    have hread : readRecordEntry ⟨oldType, oldFormat, oldLabels, oldFlags⟩ (.string "type") v =
        .ok ⟨some spec, oldFormat, oldLabels, oldFlags⟩ := by
      simp only [readRecordEntry, Tree.string?_string, hspec, if_true]
      rfl
    grind

theorem readRecordEntry_format :
    readRecordEntry old (.string "format") v = .ok new ↔ Reads [(.string "format", v)] old new := by
  obtain ⟨oldType, oldFormat, oldLabels, oldFlags⟩ := old
  obtain ⟨type, format, labels, flags⟩ := new
  have hread : readRecordEntry ⟨oldType, oldFormat, oldLabels, oldFlags⟩ (.string "format") v =
      (readFormat v >>= fun text => .ok ⟨oldType, some text, oldLabels, oldFlags⟩) := rfl
  simp (disch := decide) only [hread, bind_eq_ok, readFormat_iff, Except.ok.injEq, Record.mk.injEq,
    FieldOptions.mk.injEq, reads_singleton_iff, Under.singleton_self_iff, Under.singleton_iff_of_ne]
  grind

theorem readRecordEntry_labels (hv : v.Plain) :
    readRecordEntry old (.string "labels") v = .ok new ↔ Reads [(.string "labels", v)] old new := by
  obtain ⟨oldType, oldFormat, oldLabels, oldFlags⟩ := old
  obtain ⟨type, format, labels, flags⟩ := new
  have hread : readRecordEntry ⟨oldType, oldFormat, oldLabels, oldFlags⟩ (.string "labels") v =
      (readLabels v >>= fun labels => .ok ⟨oldType, oldFormat, some labels, oldFlags⟩) := rfl
  simp (disch := decide) only [hread, bind_eq_ok, readLabels_iff hv, Except.ok.injEq, Record.mk.injEq,
    FieldOptions.mk.injEq, reads_singleton_iff, Under.singleton_self_iff, Under.singleton_iff_of_ne]
  grind

theorem readRecordEntry_flags (hv : v.Plain) :
    readRecordEntry old (.string "flags") v = .ok new ↔ Reads [(.string "flags", v)] old new := by
  obtain ⟨oldType, oldFormat, oldLabels, oldFlags⟩ := old
  obtain ⟨type, format, labels, flags⟩ := new
  have hread : readRecordEntry ⟨oldType, oldFormat, oldLabels, oldFlags⟩ (.string "flags") v =
      (readLabels v >>= fun flags => .ok ⟨oldType, oldFormat, oldLabels, some flags⟩) := rfl
  simp (disch := decide) only [hread, bind_eq_ok, readLabels_iff hv, Except.ok.injEq, Record.mk.injEq,
    FieldOptions.mk.injEq, reads_singleton_iff, Under.singleton_self_iff, Under.singleton_iff_of_ne]
  grind

theorem key_of_readRecordEntry (hk : k.Plain) (h : readRecordEntry old k v = .ok new) :
    ∃ key ∈ ["type", "format", "labels", "flags"], k = .string key := by
  cases hk with
  | string key =>
    by_contra hunknown
    have hne (known : String) (hmem : known ∈ ["type", "format", "labels", "flags"]) : key ≠ known :=
      fun heq => hunknown ⟨known, hmem, heq ▸ rfl⟩
    have hread : readRecordEntry old (.string key) v = .error (.recordKey key) := by
      rw [readRecordEntry, Tree.string?_string]
      simp only [if_neg (hne "type" (by simp)), if_neg (hne "format" (by simp)), if_neg (hne "labels" (by simp)),
        if_neg (hne "flags" (by simp))]
      rfl
    cases hread.symm.trans h
  | _ => cases h

theorem readRecordEntry_iff (hk : k.Plain) (hv : v.Plain) :
    readRecordEntry old k v = .ok new ↔ Reads [(k, v)] old new := by
  by_cases hkey : ∃ key ∈ ["type", "format", "labels", "flags"], k = .string key
  · obtain ⟨key, hmem, rfl⟩ := hkey
    simp only [List.mem_cons, List.not_mem_nil, or_false] at hmem
    rcases hmem with rfl | rfl | rfl | rfl
    · exact readRecordEntry_type hv
    · exact readRecordEntry_format
    · exact readRecordEntry_labels hv
    · exact readRecordEntry_flags hv
  · constructor
    · intro h
      exact absurd (key_of_readRecordEntry hk h) hkey
    · intro h
      exact absurd (h.keys _ List.mem_cons_self) hkey

end

theorem foldlM_readRecordEntry_iff (hkeys : ∀ e ∈ es, e.1.Plain) (hvalues : ∀ e ∈ es, e.2.Plain)
    (hdistinct : es.Pairwise fun e f => e.1.same f.1 = false) {old new : Record} :
    es.foldlM (fun r (key, value) => readRecordEntry r key value) old = .ok new ↔ Reads es old new := by
  induction es generalizing old with
  | nil =>
    rw [reads_nil_iff]
    exact ⟨fun h => by cases h; rfl, fun h => by rw [h]; rfl⟩
  | cons e es ih =>
    obtain ⟨hkey, hkeys⟩ := List.forall_mem_cons.1 hkeys
    obtain ⟨hvalue, hvalues⟩ := List.forall_mem_cons.1 hvalues
    obtain ⟨hfresh, hdistinct⟩ := List.pairwise_cons.1 hdistinct
    rw [List.foldlM_cons, bind_eq_ok, reads_cons_iff hfresh]
    simp only [readRecordEntry_iff hkey hvalue, ih hkeys hvalues hdistinct]

theorem isRecord_iff {spec : String} {options : FieldOptions} :
    IsRecord es spec options ↔ Reads es ⟨none, none, none, none⟩ ⟨some spec, options⟩ := by
  constructor
  · intro h
    exact ⟨h.keys, .present h.type rfl, h.format, h.labels, h.flags⟩
  · intro h
    have htype : (Tree.string "type", Tree.string spec) ∈ es := by
      rcases h.type with _ | ⟨hmem, rfl⟩
      exact hmem
    exact ⟨h.keys, htype, h.format, h.labels, h.flags⟩

theorem readFieldType_iff (ht : t.Plain) {type : FieldType} :
    readFieldType t = .ok type ↔ IsFieldType t type := by
  cases ht with
  | string s =>
    constructor <;> intro h <;> cases h
    · exact .bare s
    · rfl
  | mapping hkeys hvalues hdistinct =>
    simp only [readFieldType, bind_eq_ok, foldlM_readRecordEntry_iff hkeys hvalues hdistinct]
    constructor
    · rintro ⟨⟨spec, options⟩, hread, hdone⟩
      cases spec with
      | none => cases hdone
      | some spec =>
        cases hdone
        exact .record (isRecord_iff.2 hread)
    · rintro (_ | h)
      exact ⟨_, isRecord_iff.1 h, rfl⟩
  | _ => constructor <;> intro h <;> cases h

theorem named_iff {α ε ε' : Type} {P : Tree → α → Prop} {f : Tree → Except ε α} {place : String → ε → ε'}
    {fault : ε'} (hk : k.Plain) (hf : ∀ a, f v = .ok a ↔ P v a) {named : String × α} :
    (match k.string? with
      | some name => do return (name, ← (f v).mapError (place name))
      | none => .error fault) = .ok named ↔ Named P (k, v) named := by
  obtain ⟨name, a⟩ := named
  rw [Named, ← hk.string?_iff, ← hf]
  cases k.string? with
  | none => simp
  | some other =>
    simp only [bind_eq_ok, mapError_eq_ok, Option.some_inj]
    constructor
    · rintro ⟨b, hb, heq⟩
      cases heq
      exact ⟨rfl, hb⟩
    · rintro ⟨rfl, ha⟩
      exact ⟨a, ha, rfl⟩

theorem readPair_iff (hk : k.Plain) (hv : v.Plain) {pair : String × FieldType} :
    readPair k v = .ok pair ↔ Named IsFieldType (k, v) pair :=
  named_iff hk fun _ => readFieldType_iff hv

theorem readEntry_iff (ht : t.Plain) {entry : FieldEntry} : readEntry t = .ok entry ↔ IsEntry t entry := by
  cases ht with
  | mapping hkeys hvalues _ =>
    refine (mapM_eq_ok_iff fun e he pair => readPair_iff (hkeys e he) (hvalues e he)).trans ?_
    exact ⟨.mapping, fun ⟨h⟩ => h⟩
  | _ => constructor <;> intro h <;> cases h

theorem readDefinition_iff (ht : t.Plain) {d : Definition} : readDefinition t = .ok d ↔ IsDefinition t d := by
  cases ht with
  | string s =>
    constructor <;> intro h <;> cases h
    · exact .alias s
    · rfl
  | @sequence items hitems =>
    have hentries {entries : List FieldEntry} :
        items.mapM readEntry = .ok entries ↔ List.Forall₂ IsEntry items entries :=
      mapM_eq_ok_iff fun item hitem _ => readEntry_iff (hitems item hitem)
    simp only [readDefinition, bind_eq_ok, hentries]
    constructor
    · rintro ⟨entries, hread, heq⟩
      cases heq
      exact .struct hread
    · rintro (_ | h)
      exact ⟨_, h, rfl⟩
  | _ => constructor <;> intro h <;> cases h

theorem readNamed_iff (hk : k.Plain) (hv : v.Plain) {named : String × Definition} :
    readNamed k v = .ok named ↔ Named IsDefinition (k, v) named :=
  named_iff hk fun _ => readDefinition_iff hv

theorem nodup_of_named {α : Type} {P : Tree → α → Prop} {ds : List (String × α)}
    (hdistinct : es.Pairwise fun e f => e.1.same f.1 = false) (h : List.Forall₂ (Named P) es ds) :
    (ds.map Prod.fst).Nodup := by
  have hkeys : es.map Prod.fst = ds.map fun d => Tree.string d.1 := by
    rw [← List.forall₂_eq_eq_eq, List.forall₂_map_left_iff, List.forall₂_map_right_iff]
    exact h.imp fun _ _ hnamed => hnamed.1
  have hpairs : (es.map Prod.fst).Pairwise fun k l => k.same l = false := List.pairwise_map.2 hdistinct
  rw [hkeys, List.pairwise_map] at hpairs
  refine List.pairwise_map.2 (hpairs.imp fun hother heq => ?_)
  rw [heq, Tree.same_string] at hother
  cases hother

theorem isSchema_iff (ht : t.Plain) {ds : List (String × Definition)} :
    IsSchema t ds ↔ ∃ s, ofTree t = .ok s ∧ s.entries = ds := by
  cases ht with
  | null =>
    constructor
    · rintro ⟨⟩
      exact ⟨.empty, rfl, rfl⟩
    · rintro ⟨s, hs, rfl⟩
      cases hs
      exact .null
  | @mapping es hkeys hvalues hdistinct =>
    have hread {ds : List (String × Definition)} :
        (es.mapM fun (name, d) => readNamed name d) = .ok ds ↔ List.Forall₂ (Named IsDefinition) es ds :=
      mapM_eq_ok_iff fun e he _ => readNamed_iff (hkeys e he) (hvalues e he)
    simp only [ofTree, bind_eq_ok, hread]
    constructor
    · rintro (_ | h)
      exact ⟨.ofList ds, ⟨ds, h, rfl⟩, entries_ofList (nodup_of_named hdistinct h)⟩
    · rintro ⟨s, ⟨ds, h, hs⟩, rfl⟩
      cases hs
      rw [entries_ofList (nodup_of_named hdistinct h)]
      exact .mapping h
  | _ =>
    constructor
    · intro h
      cases h
    · rintro ⟨s, hs, -⟩
      cases hs

end Schema

/-- The type that is blamed. -/
def DocumentFault.place : DocumentFault → String
  | .root _ | .typeName _ => "(top level)"
  | .inType name _ => name

def DocumentFault.reason : DocumentFault → String
  | .root got => "expected a mapping of type names, got " ++ got
  | .typeName got => "type name must be a string, got " ++ got
  | .inType _ fault => fault.reason

theorem DocumentFault.message_eq (fault : DocumentFault) :
    fault.message = "type " ++ fault.place ++ ": " ++ fault.reason := by
  cases fault with
  | root got =>
    have h : "type " ++ "(top level)" ++ ": " ++ ("expected a mapping of type names, got " ++ got) =
        "type (top level): expected a mapping of type names, got " ++ got := by
      rw [← String.append_assoc]
      rfl
    exact h.symm
  | typeName got =>
    have h : "type " ++ "(top level)" ++ ": " ++ ("type name must be a string, got " ++ got) =
        "type (top level): type name must be a string, got " ++ got := by
      rw [← String.append_assoc]
      rfl
    exact h.symm
  | inType name fault => rfl

namespace Schema

variable {t k v : Tree} {es : List (Tree × Tree)} {place : String}

/-- An entry that does not give a name its definition, and the name to blame. -/
inductive Faulty : Tree × Tree → String → Prop
  | key {k v : Tree} : (∀ name, k ≠ .string name) → Faulty (k, v) "(top level)"
  | definition {name : String} {v : Tree} : (∀ d, ¬IsDefinition v d) → Faulty (.string name, v) name

/-- The name to blame for a tree that is no schema: that of the first entry which is faulty. -/
inductive Blames : Tree → String → Prop
  | root {t : Tree} : t ≠ .null → (∀ es, t ≠ .mapping es) → Blames t "(top level)"
  | entry {before after : List (Tree × Tree)} {e : Tree × Tree} {place : String} :
      (∀ b ∈ before, ∃ named, Named IsDefinition b named) → Faulty e place →
      Blames (.mapping (before ++ e :: after)) place

theorem faulty_iff (hk : k.Plain) (hv : v.Plain) :
    Faulty (k, v) place ↔ ∃ fault, readNamed k v = .error fault ∧ fault.place = place := by
  cases hkey : k.string? with
  | none =>
    have hread : readNamed k v = .error (.typeName k.kind) := by rw [readNamed, hkey]
    constructor
    · rintro (_ | _)
      · exact ⟨_, hread, rfl⟩
      · cases hkey
    · rintro ⟨fault, hfault, rfl⟩
      cases hread.symm.trans hfault
      refine .key fun name heq => ?_
      cases hkey.symm.trans (hk.string?_iff.2 heq)
  | some name =>
    cases hk.string?_iff.1 hkey
    have hread : readNamed (.string name) v =
        ((readDefinition v).mapError (.inType name) >>= fun d => .ok (name, d)) := rfl
    cases hdefinition : readDefinition v with
    | ok d =>
      rw [hdefinition] at hread
      constructor
      · rintro (hkey | hnone)
        · exact absurd rfl (hkey name)
        · exact absurd ((readDefinition_iff hv).1 hdefinition) (hnone d)
      · rintro ⟨fault, hfault, -⟩
        cases hread.symm.trans hfault
    | error fault =>
      have hnone (d : Definition) : ¬IsDefinition v d := fun hd => by
        cases hdefinition.symm.trans ((readDefinition_iff hv).2 hd)
      rw [hdefinition] at hread
      constructor
      · rintro (hkey | -)
        · exact absurd rfl (hkey name)
        · exact ⟨_, hread, rfl⟩
      · rintro ⟨fault, hfault, rfl⟩
        cases hread.symm.trans hfault
        exact .definition hnone

theorem blames_iff (ht : t.Plain) :
    Blames t place ↔ ∃ fault, ofTree t = .error fault ∧ fault.place = place := by
  cases ht with
  | null =>
    constructor
    · rintro (hnull | _)
      exact absurd rfl hnull
    · rintro ⟨fault, hfault, -⟩
      cases hfault
  | mapping hkeys hvalues _ =>
    constructor
    · intro h
      cases h with
      | root _ hmapping => exact absurd rfl (hmapping _)
      | @entry before after e _ hbefore hfaulty =>
        obtain ⟨fault, he, rfl⟩ := (faulty_iff (hkeys e (by simp)) (hvalues e (by simp))).1 hfaulty
        have hread (b : Tree × Tree) (hb : b ∈ before) : ∃ named, readNamed b.1 b.2 = .ok named := by
          have hmem : b ∈ before ++ e :: after := List.mem_append_left _ hb
          obtain ⟨named, hnamed⟩ := hbefore b hb
          exact ⟨named, (readNamed_iff (hkeys b hmem) (hvalues b hmem)).2 hnamed⟩
        exact ⟨fault, bind_eq_error.2 (.inl (mapM_eq_error_iff.2 ⟨before, e, after, rfl, hread, he⟩)), rfl⟩
    · rintro ⟨fault, hfault, rfl⟩
      rcases bind_eq_error.1 hfault with hentry | ⟨ds, -, hdone⟩
      · obtain ⟨before, e, after, rfl, hbefore, he⟩ := mapM_eq_error_iff.1 hentry
        have hfaulty := (faulty_iff (hkeys e (by simp)) (hvalues e (by simp))).2 ⟨fault, he, rfl⟩
        refine .entry (fun b hb => ?_) hfaulty
        have hmem : b ∈ before ++ e :: after := List.mem_append_left _ hb
        obtain ⟨named, hnamed⟩ := hbefore b hb
        exact ⟨named, (readNamed_iff (hkeys b hmem) (hvalues b hmem)).1 hnamed⟩
      · cases hdone
  | _ =>
    constructor
    · rintro (_ | _)
      exact ⟨_, rfl, rfl⟩
    · rintro ⟨fault, hfault, rfl⟩
      cases hfault
      exact .root (by simp) (by simp)

/-- The loader accepts exactly the trees that are schemas and keeps all they say in its order; otherwise it
blames the first type that is not defined as it should be, or the top level. -/
theorem ofTree_iff (t : Tree) (ht : t.Plain) :
    (∀ ds, IsSchema t ds ↔ ∃ s, ofTree t = .ok s ∧ s.entries = ds) ∧
    (∀ place, Blames t place ↔ ∃ fault, ofTree t = .error fault ∧ fault.place = place ∧
      fault.message = "type " ++ place ++ ": " ++ fault.reason) ∧
    ∀ path text, CommandLine.loadText path text =
      (Yaml.parse text).mapError (.yaml path) >>= fun tree => (ofTree tree).mapError (.shape path) := by
  refine ⟨fun ds => isSchema_iff ht, fun place => ?_, fun path text => ?_⟩
  · rw [blames_iff ht]
    refine exists_congr fun fault => and_congr_right fun _ => ⟨fun hplace => ⟨hplace, ?_⟩, fun h => h.1⟩
    rw [← hplace]
    exact fault.message_eq
  · rw [CommandLine.loadText, load]
    cases Yaml.parse text with
    | error fault => rfl
    | ok tree => cases hread : ofTree tree <;> simp [Except.mapError, hread, ok_bind]

def lamps (second : Tree) : Tree :=
  .mapping [(.string "Lamp", .sequence [.mapping [], .mapping [(.string "on", .string "bool"),
    (.string "shade", .mapping [(.string "labels", .mapping [(.number (.integer 0), .string "DARK"),
      (.string "0x0", .string "OFF")]), (.string "type", .string "u8"), (.string "format", .number (.integer 8))])]]),
    (.string "Lamps", second)]

theorem plain_lamps {second : Tree} (h : second.Plain) : (lamps second).Plain := by
  simp [lamps, h, Tree.same]

/-- Entries without a field and with two, a record in an order of its own and a label given twice. A list
of names is no second definition. -/
theorem ofTree_iff_lamps :
    IsSchema (lamps (.string "Lamp[2]")) [("Lamp", .struct [[], [("on", .bare "bool"),
      ("shade", .record "u8" ⟨some "8", some [(0, "DARK"), (0, "OFF")], none⟩)]]), ("Lamps", .alias "Lamp[2]")] ∧
    Blames (lamps (.sequence [.string "Lamp"])) "Lamps" := by
  have halias : (Tree.string "Lamp[2]").Plain := .string _
  have hlist : (Tree.sequence [.string "Lamp"]).Plain := by simp
  exact ⟨((ofTree_iff _ (plain_lamps halias)).1 _).2 ⟨_, rfl, rfl⟩,
    ((ofTree_iff _ (plain_lamps hlist)).2.1 _).2 ⟨_, rfl, rfl, rfl⟩⟩

end Schema

end PackedStruct
