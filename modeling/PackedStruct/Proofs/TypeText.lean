import PackedStruct.Proofs.TypeGrammar
/-!
Type specs as texts. What is read is what the text spells. It can be printed, and so can a spec with
further dimensions; the printed text is read as the same spec again.
-/

namespace PackedStruct

namespace TypeSpec

variable {t : TypeSpec} {text : String} {s : List Char} {ws : List (List Char)} {depth : Nat}
  {ds : List Nat} {c : Char}

/-- Whether a character can stand in the name of a type. -/
def NameChar (c : Char) : Prop := Text.isBlank c = false ∧ c ≠ '*' ∧ c ≠ '[' ∧ c ≠ ']'

/-- The words of a name. -/
structure IsName (ws : List (List Char)) : Prop where
  some_word : ws ≠ []
  word_ne_nil : ∀ w ∈ ws, w ≠ []
  nameChar : ∀ w ∈ ws, ∀ c ∈ w, NameChar c

/-- What a spec that can be written looks like. -/
structure Writable (t : TypeSpec) : Prop where
  base : ∃ ws, IsName ws ∧ t.base.toList = [' '].intercalate ws
  depth : t.depth < Nat.pow 2 32
  dims : ∀ d ∈ t.dims, 0 < d ∧ d < sizeLimit

theorem toList_join (ws : List (List Char)) :
    (" ".intercalate (ws.map String.ofList)).toList = [' '].intercalate ws := by
  simp [String.toList_intercalate, Function.comp_def]

/-- What a text spells can be written. -/
theorem Spells.writable (h : Spells s t) : t.Writable := by
  cases h with
  | @mk base mix groups ds hbase hplain _ hdepth hgroups =>
    have hwords : Text.words base ≠ [] := by
      intro hnil
      obtain ⟨c, hc, hword⟩ := hbase
      rw [Text.isBlank_of_words_eq_nil hnil c hc] at hword
      cases hword
    have hname : IsName (Text.words base) := {
      some_word := hwords
      word_ne_nil := fun w => Text.ne_nil_of_mem_words
      nameChar := fun w hw c hc => ⟨Text.isBlank_of_mem_words hw hc, hplain c (Text.mem_of_mem_words hw hc)⟩ }
    exact ⟨⟨_, hname, toList_join _⟩, hdepth, readDims_bounds hgroups.readDims⟩

theorem writable_of_parse (h : TypeSpec.parse text = .ok t) : t.Writable := (spells_of_parse h).writable

theorem Writable.append {outer : List Nat} (h : t.Writable) (houter : ∀ d ∈ outer, 0 < d ∧ d < sizeLimit) :
    (⟨t.base, t.depth, outer ++ t.dims⟩ : TypeSpec).Writable :=
  ⟨h.base, h.depth, List.forall_mem_append.2 ⟨houter, h.dims⟩⟩

namespace IsName

theorem ne_nil (h : IsName ws) : [' '].intercalate ws ≠ [] :=
  Text.intercalate_ne_nil h.some_word h.word_ne_nil

theorem head? (h : IsName ws) (hc : ([' '].intercalate ws).head? = some c) : NameChar c := by
  obtain ⟨w, hw, hc⟩ := Text.mem_word_of_head? h.word_ne_nil hc
  exact h.nameChar w hw c hc

theorem getLast? (h : IsName ws) (hc : ([' '].intercalate ws).getLast? = some c) : NameChar c := by
  obtain ⟨w, hw, hc⟩ := Text.mem_word_of_getLast? h.word_ne_nil hc
  exact h.nameChar w hw c hc

theorem not_mem (h : IsName ws) (hspace : c ≠ ' ') (hc : ¬NameChar c) : c ∉ [' '].intercalate ws := by
  intro hmem
  rcases Text.mem_intercalate hmem with heq | ⟨w, hw, hmem⟩
  · exact hspace heq
  · exact hc (h.nameChar w hw c hmem)

theorem words (h : IsName ws) : Text.words ([' '].intercalate ws) = ws :=
  Text.words_intercalate (by decide) fun w hw => ⟨h.word_ne_nil w hw, fun c hc => (h.nameChar w hw c hc).1⟩

end IsName

/-- A dimension in brackets. -/
def bracketed (n : Nat) : List Char := '[' :: Nat.toDigits 10 n ++ [']']

theorem dim?_toDigits {n : Nat} (h : 0 < n ∧ n < sizeLimit) : dim? (Nat.toDigits 10 n) = some n := by
  have hdigit : ∀ c ∈ Nat.toDigits 10 n, Text.isBlank c = false := fun c hc =>
    Text.isBlank_digit (Nat.isDigit_of_mem_toDigits (by decide) (by decide) hc)
  have htrim : Text.trim (Nat.toDigits 10 n) = Nat.toDigits 10 n :=
    Text.trim_eq_self (fun c hc => hdigit c (List.mem_of_head? hc))
      (fun c hc => hdigit c (List.mem_of_getLast? hc))
  rw [dim?, htrim, Text.unsigned?_toDigits]
  simpa [Option.filter, sizeLimit] using h

theorem groups_bracketed (h : ∀ d ∈ ds, 0 < d ∧ d < sizeLimit) : Groups (ds.flatMap bracketed) ds := by
  induction ds with
  | nil => exact .nil
  | cons d ds ih =>
    obtain ⟨hd, hds⟩ := List.forall_mem_cons.1 h
    have hdim : Dimension (Nat.toDigits 10 d) d := dim?_eq_some_iff.1 (dim?_toDigits hd)
    have hgroups := Groups.cons hdim (List.forall_mem_nil _) (fun _ => rfl) (ih hds)
    rwa [List.flatMap_cons, bracketed, List.append_assoc]

theorem getLast?_bracketed (h : (ds.flatMap bracketed).getLast? = some c) : c = ']' := by
  induction ds with
  | nil => cases h
  | cons d ds ih =>
    rw [List.flatMap_cons, List.getLast?_append, Option.or_eq_some_iff] at h
    rcases h with hrest | ⟨-, hlast⟩
    · exact ih hrest
    · rw [bracketed, List.getLast?_append] at hlast
      simpa using hlast.symm

/-- Neither end of a printed spec is blank. -/
theorem trim_written (h : IsName ws) :
    Text.trim ([' '].intercalate ws ++ List.replicate depth '*' ++ ds.flatMap bracketed) =
      [' '].intercalate ws ++ List.replicate depth '*' ++ ds.flatMap bracketed := by
  refine Text.trim_eq_self (fun c hc => ?_) fun c hc => ?_
  · rw [List.append_assoc, List.head?_append, Option.or_eq_some_iff] at hc
    rcases hc with hc | ⟨hnone, -⟩
    · exact (h.head? hc).1
    · exact absurd (List.head?_eq_none_iff.1 hnone) h.ne_nil
  · rw [List.getLast?_append, List.getLast?_append, Option.or_eq_some_iff, Option.or_eq_some_iff] at hc
    rcases hc with hdim | ⟨-, hstar | ⟨-, hword⟩⟩
    · rw [getLast?_bracketed hdim]
      decide
    · rw [List.eq_of_mem_replicate (List.mem_of_getLast? hstar)]
      decide
    · exact (h.getLast? hword).1

/-- What is printed spells the spec. -/
theorem Writable.spells (h : t.Writable) : Spells (Text.trim t.print.toList) t := by
  obtain ⟨base, depth, ds⟩ := t
  obtain ⟨⟨ws, hname, hbase⟩, hdepth, hdims⟩ := h
  have htext : (TypeSpec.print ⟨base, depth, ds⟩).toList =
      [' '].intercalate ws ++ List.replicate depth '*' ++ ds.flatMap bracketed := by
    rw [print, String.toList_append, String.toList_ofList, hbase, List.append_assoc]
    rfl
  have hjoin : " ".intercalate (ws.map String.ofList) = base := by
    rw [← String.toList_inj, toList_join, hbase]
  have hword : ∃ c ∈ [' '].intercalate ws, Text.isBlank c = false := by
    have hfirst := List.head?_eq_some_head hname.ne_nil
    exact ⟨_, List.mem_of_head? hfirst, (hname.head? hfirst).1⟩
  have hplain : ∀ c ∈ [' '].intercalate ws, c ≠ '*' ∧ c ≠ '[' ∧ c ≠ ']' := by
    have hother {d : Char} (hspace : d ≠ ' ') (hd : ¬NameChar d) : ∀ c ∈ [' '].intercalate ws, c ≠ d :=
      fun c hc heq => hname.not_mem hspace hd (heq ▸ hc)
    exact fun c hc => ⟨hother (by decide) (by simp [NameChar]) c hc,
      hother (by decide) (by simp [NameChar]) c hc, hother (by decide) (by simp [NameChar]) c hc⟩
  have hspells := Spells.mk hword hplain (fun c hc => .inl (List.eq_of_mem_replicate hc))
    (by rwa [List.count_replicate_self]) (groups_bracketed hdims)
  rw [htext, trim_written hname]
  rwa [hname.words, hjoin, List.count_replicate_self] at hspells

/-- What can be written is read back. -/
theorem parse_print (h : t.Writable) : TypeSpec.parse t.print = .ok t := parse_of_spells h.spells

/-- A spec is read from a text if and only if the text, without the blanks at its ends, spells that spec;
and every spec that was read is read again from what it prints as. -/
theorem read_iff_spells (text : String) :
    (∀ t, TypeSpec.read text = .ok t ↔ Spells (Text.trim text.toList) t) ∧
    ∀ t, TypeSpec.read text = .ok t → TypeSpec.read t.print = .ok t := by
  refine ⟨fun t => read_eq_ok.trans ⟨spells_of_parse, parse_of_spells⟩, fun t ht => ?_⟩
  exact read_eq_ok.2 (parse_print (writable_of_parse (read_eq_ok.1 ht)))

example : TypeSpec.read " unsigned\tint * *[2] [ +03 ]" = .ok ⟨"unsigned int", 2, [2, 3]⟩ := by decide +kernel

end TypeSpec

end PackedStruct
