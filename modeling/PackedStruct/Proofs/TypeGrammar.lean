import PackedStruct.Proofs.Range
import Mathlib.Data.List.TakeWhile
/-!
The texts that are type specs: a name, then stars and blanks in any order, then dimensions in brackets
with blanks between them. The reader takes these texts and no others.
-/

namespace PackedStruct

namespace TypeSpec

/-- The number in a bracket: digits with at most one plus before them and any blanks around. -/
def Dimension (inner : List Char) (n : Nat) : Prop :=
  ∃ sign digits, Text.trim inner = sign ++ digits ∧ (sign = [] ∨ sign = ['+']) ∧ digits ≠ [] ∧
    (∀ c ∈ digits, c.isDigit = true) ∧ n = Nat.ofDigitChars 10 digits 0 ∧ 1 ≤ n ∧ n ≤ 2 ^ 64 - 1

/-- Dimensions in brackets, with blanks between one and the next. -/
inductive Groups : List Char → List Nat → Prop where
  | nil : Groups [] []
  | cons {inner gap rest : List Char} {n : Nat} {ds : List Nat} (hdim : Dimension inner n)
      (hgap : ∀ c ∈ gap, Text.isBlank c = true) (hlast : rest = [] → gap = []) (hrest : Groups rest ds) :
      Groups ('[' :: inner ++ ']' :: (gap ++ rest)) (n :: ds)

/-- What a text without blanks at its ends spells. -/
inductive Spells : List Char → TypeSpec → Prop where
  | mk {base mix groups : List Char} {ds : List Nat} (hbase : ∃ c ∈ base, Text.isBlank c = false)
      (hplain : ∀ c ∈ base, c ≠ '*' ∧ c ≠ '[' ∧ c ≠ ']')
      (hmix : ∀ c ∈ mix, c = '*' ∨ Text.isBlank c = true) (hdepth : mix.count '*' < 2 ^ 32)
      (hgroups : Groups groups ds) :
      Spells (base ++ mix ++ groups)
        ⟨" ".intercalate ((Text.words base).map String.ofList), mix.count '*', ds⟩

variable {inner gap s groups : List Char} {n : Nat} {ds : List Nat} {c : Char}

theorem dim?_eq_some_iff : dim? inner = some n ↔ Dimension inner n := by
  rw [dim?, Option.filter_eq_some_iff, Text.unsigned?_eq_some_iff]
  have hrange : (decide (0 < n) && decide (n < Nat.pow 2 64)) = true ↔ 1 ≤ n ∧ n ≤ 2 ^ 64 - 1 := by
    rw [Bool.and_eq_true, decide_eq_true_iff, decide_eq_true_iff, Nat.le_sub_one_iff_lt (by decide)]
    exact Iff.rfl
  rw [hrange]
  constructor
  · rintro ⟨⟨sign, digits, htrim, hsign, hne, hdigits, hn⟩, hlo, hhi⟩
    exact ⟨sign, digits, htrim, hsign, hne, hdigits, hn, hlo, hhi⟩
  · rintro ⟨sign, digits, htrim, hsign, hne, hdigits, hn, hlo, hhi⟩
    exact ⟨⟨sign, digits, htrim, hsign, hne, hdigits, hn⟩, hlo, hhi⟩

/-- The bracket after a dimension is the first one. -/
theorem Dimension.not_mem (h : Dimension inner n) : ']' ∉ inner := by
  obtain ⟨sign, digits, htrim, hsign, -, hdigits, -⟩ := h
  intro hmem
  rcases Text.mem_trim_or_isBlank hmem with hmem | hblank
  · rw [htrim, List.mem_append] at hmem
    rcases hmem with hmem | hmem
    · rcases hsign with rfl | rfl <;> simp at hmem
    · exact absurd (hdigits _ hmem) (by decide)
  · exact absurd hblank (by decide)

theorem readDims_blanks (h : ∀ c ∈ gap, Text.isBlank c = true) : readDims none (gap ++ s) = readDims none s := by
  induction gap with
  | nil => rfl
  | cons c gap ih =>
    obtain ⟨hc, hgap⟩ := List.forall_mem_cons.1 h
    rw [List.cons_append, readDims, if_pos hc, ih hgap]

/-- The digits of a dimension are collected behind those that stand before them. -/
theorem readDims_inner {digits rest : List Char} (h : ']' ∉ digits)
    (hdim : dim? (inner ++ digits) = some n) (hrest : readDims none rest = .ok ds) :
    readDims (some inner) (digits ++ ']' :: rest) = .ok (n :: ds) := by
  induction digits generalizing inner with
  | nil =>
    rw [List.append_nil] at hdim
    rw [List.nil_append, readDims, if_pos rfl, hdim, hrest]
    rfl
  | cons c digits ih =>
    have hc : c ≠ ']' := fun heq => h (by simp [heq])
    rw [List.cons_append, readDims, if_neg hc]
    exact ih (fun hmem => h (by simp [hmem])) (by rwa [List.append_assoc])

theorem Groups.readDims (h : Groups groups ds) : TypeSpec.readDims none groups = .ok ds := by
  induction h with
  | nil => rfl
  | cons hdim hgap _ _ ih =>
    rw [List.cons_append, TypeSpec.readDims, if_neg (by decide), if_pos rfl]
    exact readDims_inner hdim.not_mem (dim?_eq_some_iff.2 hdim) (by rw [readDims_blanks hgap, ih])

/-- Dimensions that may have blanks before the first and after the last one. -/
def Spaced (s : List Char) (ds : List Nat) : Prop :=
  ∃ before groups after, s = before ++ groups ++ after ∧ (∀ c ∈ before, Text.isBlank c = true) ∧
    (∀ c ∈ after, Text.isBlank c = true) ∧ Groups groups ds

theorem Spaced.blank (h : Spaced s ds) (hc : Text.isBlank c = true) : Spaced (c :: s) ds := by
  obtain ⟨before, groups, after, rfl, hbefore, hafter, hgroups⟩ := h
  exact ⟨c :: before, groups, after, rfl, List.forall_mem_cons.2 ⟨hc, hbefore⟩, hafter, hgroups⟩

theorem Spaced.group (h : Spaced s ds) (hdim : Dimension inner n) :
    Spaced ('[' :: inner ++ ']' :: s) (n :: ds) := by
  obtain ⟨before, groups, after, rfl, hbefore, hafter, hgroups⟩ := h
  by_cases hnil : groups = []
  · -- nothing but blanks is left
    subst hnil
    refine ⟨[], _, before ++ after, ?_, by simp, List.forall_mem_append.2 ⟨hbefore, hafter⟩,
      .cons hdim (List.forall_mem_nil _) (fun _ => rfl) hgroups⟩
    simp
  · refine ⟨[], _, after, ?_, by simp, hafter, .cons hdim hbefore (fun h => absurd h hnil) hgroups⟩
    simp

/-- The part of a group that is read already. -/
def opened : Option (List Char) → List Char
  | none => []
  | some inner => '[' :: inner

theorem spaced_of_readDims {inner : Option (List Char)} (h : readDims inner s = .ok ds) :
    Spaced (opened inner ++ s) ds := by
  induction s generalizing inner ds with
  | nil =>
    cases inner with
    | none =>
      cases h
      exact ⟨[], [], [], rfl, by simp, by simp, .nil⟩
    | some inner => cases h
  | cons c s ih =>
    cases inner with
    | none =>
      rw [readDims] at h
      split at h
      · next hblank => exact (ih h).blank hblank
      · split at h
        · next hopen =>
          rw [hopen]
          exact ih h
        · cases h
    | some inner =>
      rw [readDims] at h
      split at h
      · next hclose =>
        rw [hclose]
        split at h
        · cases h
        · next n hdim =>
          obtain ⟨ds, hds, h⟩ := bind_eq_ok.1 h
          cases h
          exact (ih hds).group (dim?_eq_some_iff.1 hdim)
      · have hspaced := ih h
        rwa [opened, List.cons_append, List.append_assoc] at hspaced

/-- Where `head` cuts a text in two. -/
theorem exists_cut (s : List Char) :
    ∃ name mix, s = name ++ mix ∧ Text.dropEndWhile (fun c => c = '*' || Text.isBlank c) s = name ∧
      (∀ c ∈ mix, c = '*' ∨ Text.isBlank c = true) ∧ (name ≠ [] → ∃ c ∈ name, Text.isBlank c = false) := by
  obtain ⟨mix, hs, hmix⟩ := Text.exists_dropEndWhile_append (fun c => c = '*' || Text.isBlank c) s
  refine ⟨_, mix, hs, rfl, by simpa using hmix, fun hne => ?_⟩
  obtain ⟨c, hc, hkept⟩ := Text.exists_of_dropEndWhile_ne_nil hne
  exact ⟨c, hc, (Bool.or_eq_false_iff.1 hkept).2⟩

theorem exists_of_head_eq_ok {base : String} {depth : Nat} (h : head s = .ok (base, depth)) :
    ∃ name mix, s = name ++ mix ∧ (∃ c ∈ name, Text.isBlank c = false) ∧ '*' ∉ name ∧ ']' ∉ name ∧
      (∀ c ∈ mix, c = '*' ∨ Text.isBlank c = true) ∧ mix.count '*' < 2 ^ 32 ∧
      base = " ".intercalate ((Text.words name).map String.ofList) ∧ depth = mix.count '*' := by
  obtain ⟨name, mix, rfl, hcut, hmix, hword⟩ := exists_cut s
  simp only [head, hcut, List.drop_left] at h
  split at h
  · cases h
  split at h
  · cases h
  split at h
  · cases h
  split at h
  · cases h
  next hdepth hne hstar hclose =>
    cases h
    exact ⟨name, mix, rfl, hword (by simpa using hne), hstar, hclose, hmix, Nat.not_le.1 hdepth, rfl, rfl⟩

/-- Blanks between the name and the stars belong to neither. -/
theorem head_append {name mix : List Char} (hword : ∃ c ∈ name, Text.isBlank c = false) (hstar : '*' ∉ name)
    (hclose : ']' ∉ name) (hmix : ∀ c ∈ mix, c = '*' ∨ Text.isBlank c = true) (hdepth : mix.count '*' < 2 ^ 32) :
    head (name ++ mix) = .ok (" ".intercalate ((Text.words name).map String.ofList), mix.count '*') := by
  obtain ⟨stem, blanks, rfl, hcut, hblanks, -⟩ := exists_cut name
  rw [List.mem_append, not_or] at hstar hclose
  have hblank : ∀ c ∈ blanks, Text.isBlank c = true := by
    intro c hc
    have hne : c ≠ '*' := fun heq => hstar.2 (heq ▸ hc)
    exact (hblanks c hc).resolve_left hne
  have hne : stem ≠ [] := by
    rintro rfl
    obtain ⟨c, hc, hkept⟩ := hword
    rw [hblank c hc] at hkept
    cases hkept
  have hcount : (blanks ++ mix).count '*' = mix.count '*' := by
    rw [List.count_append, List.count_eq_zero_of_not_mem hstar.2, Nat.zero_add]
  have hfew : ¬Nat.pow 2 32 ≤ mix.count '*' := Nat.not_le.2 hdepth
  rw [← Text.dropEndWhile_append (t := mix) (by simpa using hmix), List.append_assoc] at hcut
  rw [List.append_assoc]
  simp only [head, hcut, List.drop_left, hcount, if_neg hfew, List.isEmpty_iff, if_neg hne, if_neg hstar.1,
    if_neg hclose.1, Text.words_append_blanks hblank]

theorem Groups.takeWhile (h : Groups groups ds) : groups.takeWhile (· != '[') = [] := by
  cases h <;> rfl

theorem Groups.dropWhile (h : Groups groups ds) : groups.dropWhile (· != '[') = groups := by
  cases h <;> rfl

/-- Dimensions begin at the first bracket, and after trimming no blank follows them. -/
theorem groups_of_readDims {text : List Char}
    (h : readDims none ((Text.trim text).dropWhile (· != '[')) = .ok ds) :
    Groups ((Text.trim text).dropWhile (· != '[')) ds := by
  have hsplit := List.takeWhile_append_dropWhile (p := (· != '[')) (l := Text.trim text)
  have hopen := List.head?_dropWhile_not (· != '[') (Text.trim text)
  obtain ⟨before, groups, after, htext, hbefore, hafter, hgroups⟩ := spaced_of_readDims h
  rw [opened, List.nil_append] at htext
  rw [htext] at hsplit hopen ⊢
  have hfirst : before = [] := by
    cases before with
    | nil => rfl
    | cons b before =>
      have hb : (b != '[') = false := hopen
      have hblank := hbefore b List.mem_cons_self
      rw [bne_eq_false_iff_eq.1 hb] at hblank
      cases hblank
  have hlast : after = [] := by
    rcases List.eq_nil_or_concat' after with hnil | ⟨init, c, rfl⟩
    · exact hnil
    · have hc : (Text.trim text).getLast? = some c := by
        rw [← hsplit, ← List.append_assoc, ← List.append_assoc]
        exact List.getLast?_concat
      have hblank := hafter c (List.mem_append_right _ List.mem_cons_self)
      rw [Text.getLast?_dropEndWhile hc] at hblank
      cases hblank
  rw [hfirst, hlast, List.nil_append, List.append_nil]
  exact hgroups

theorem spells_of_parse {text : String} {t : TypeSpec} (h : TypeSpec.parse text = .ok t) :
    Spells (Text.trim text.toList) t := by
  obtain ⟨ds, hds, h⟩ := bind_eq_ok.1 h
  obtain ⟨⟨base, depth⟩, hhead, h⟩ := bind_eq_ok.1 h
  cases h
  obtain ⟨name, mix, hfront, hword, hstar, hclose, hmix, hdepth, rfl, rfl⟩ := exists_of_head_eq_ok hhead
  have hplain : ∀ c ∈ name, c ≠ '*' ∧ c ≠ '[' ∧ c ≠ ']' := by
    intro c hc
    have hother {d : Char} (hd : d ∉ name) : c ≠ d := fun heq => hd (heq ▸ hc)
    have hmem : c ∈ (Text.trim text.toList).takeWhile (· != '[') := hfront ▸ List.mem_append_left _ hc
    exact ⟨hother hstar, by simpa using List.mem_takeWhile_imp hmem, hother hclose⟩
  rw [← List.takeWhile_append_dropWhile (p := (· != '[')) (l := Text.trim text.toList), hfront]
  exact .mk hword hplain hmix hdepth (groups_of_readDims hds)

theorem parse_of_spells {text : String} {t : TypeSpec} (h : Spells (Text.trim text.toList) t) :
    TypeSpec.parse text = .ok t := by
  generalize htext : Text.trim text.toList = trimmed at h
  cases h with
  | @mk base mix groups ds hword hplain hmix hdepth hgroups =>
    have hbefore : ∀ c ∈ base ++ mix, (c != '[') = true := by
      intro c hc
      rw [bne_iff_ne]
      rintro rfl
      rcases List.mem_append.1 hc with hc | hc
      · exact (hplain _ hc).2.1 rfl
      · exact absurd (hmix _ hc) (by decide)
    have hhead := head_append hword (fun hmem => (hplain _ hmem).1 rfl) (fun hmem => (hplain _ hmem).2.2 rfl)
      hmix hdepth
    simp only [TypeSpec.parse, htext, List.takeWhile_append_of_pos hbefore,
      List.dropWhile_append_of_pos hbefore, hgroups.takeWhile, hgroups.dropWhile, List.append_nil,
      hgroups.readDims, hhead, ok_bind]
    rfl

end TypeSpec

end PackedStruct
