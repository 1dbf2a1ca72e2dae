/-!
White space, as Unicode's `White_Space` property has it, and what is done with it: trimming both
ends of a text and cutting a text into words.
-/

namespace PackedStruct.Text

/-- The 25 characters of the `White_Space` property. -/
def isBlank (c : Char) : Bool :=
  let n := c.toNat
  (9 ≤ n && n ≤ 13) || n == 0x20 || n == 0x85 || n == 0xA0 || n == 0x1680 ||
    (0x2000 ≤ n && n ≤ 0x200A) || n == 0x2028 || n == 0x2029 || n == 0x202F || n == 0x205F || n == 0x3000

/-- Drop the longest run at the end whose characters all satisfy `p`. -/
def dropEndWhile (p : Char → Bool) (s : List Char) : List Char :=
  (s.reverse.dropWhile p).reverse

def trimStart (s : List Char) : List Char := s.dropWhile isBlank

def trimEnd (s : List Char) : List Char := dropEndWhile isBlank s

def trim (s : List Char) : List Char := trimEnd (trimStart s)

/-- The maximal runs without a blank, from left to right. -/
def words : List Char → List (List Char)
  | [] => []
  | [c] => if isBlank c then [] else [[c]]
  | c :: d :: s =>
    if isBlank c then words (d :: s)
    else if isBlank d then [c] :: words (d :: s)
    else match words (d :: s) with
      | [] => [[c]]
      | w :: ws => (c :: w) :: ws

theorem words_blank {c : Char} (h : isBlank c = true) (s : List Char) : words (c :: s) = words s := by
  cases s <;> simp [words, h]

/-- A word is never empty. -/
theorem ne_nil_of_mem_words {s w : List Char} (h : w ∈ words s) : w ≠ [] := by
  induction s using words.induct generalizing w <;> grind [words]

/-- Words hold no blank. -/
theorem isBlank_of_mem_words {s w : List Char} {c : Char} (h : w ∈ words s) (hc : c ∈ w) :
    isBlank c = false := by
  induction s using words.induct generalizing w <;> grind [words]

theorem mem_of_mem_words {s w : List Char} {c : Char} (h : w ∈ words s) (hc : c ∈ w) : c ∈ s := by
  induction s using words.induct generalizing w <;> grind [words]

theorem isBlank_of_words_eq_nil {s : List Char} (h : words s = []) : ∀ c ∈ s, isBlank c = true := by
  induction s using words.induct <;> grind [words]

theorem words_of_not_blank {w : List Char} (hne : w ≠ []) (hw : ∀ c ∈ w, isBlank c = false) :
    words w = [w] := by
  induction w using words.induct <;> grind [words]

theorem words_append_blank {w : List Char} (hne : w ≠ []) (hw : ∀ c ∈ w, isBlank c = false) {b : Char}
    (hb : isBlank b = true) (s : List Char) : words (w ++ b :: s) = w :: words s := by
  induction w with
  | nil => exact absurd rfl hne
  | cons c w ih =>
    have hc : isBlank c = false := hw c (by simp)
    cases w with
    | nil => simp [words, hc, hb, words_blank hb]
    | cons d w =>
      have hd : isBlank d = false := hw d (by simp)
      have hrest := ih (by simp) fun x hx => hw x (by simp [hx])
      rw [List.cons_append] at hrest
      simp [words, hc, hd, hrest]

/-- Blanks at the end belong to no word. -/
theorem words_append_blanks {s t : List Char} (h : ∀ c ∈ t, isBlank c = true) : words (s ++ t) = words s := by
  have hone {b : Char} (hb : isBlank b = true) (s : List Char) : words (s ++ [b]) = words s := by
    induction s using words.induct <;> grind [words]
  induction t generalizing s with
  | nil => rw [List.append_nil]
  | cons b t ih =>
    obtain ⟨hb, ht⟩ := List.forall_mem_cons.1 h
    rw [List.append_cons, ih ht, hone hb]

/-- Words with a blank between them are found again. -/
theorem words_intercalate {b : Char} (hb : isBlank b = true) {ws : List (List Char)}
    (h : ∀ w ∈ ws, w ≠ [] ∧ ∀ c ∈ w, isBlank c = false) : words ([b].intercalate ws) = ws := by
  induction ws with
  | nil => rfl
  | cons w ws ih =>
    obtain ⟨hne, hw⟩ := h w (by simp)
    have hrest := ih fun v hv => h v (by simp [hv])
    cases ws with
    | nil => simpa using words_of_not_blank hne hw
    | cons v ws =>
      rw [List.intercalate_cons_of_ne_nil (by simp), List.append_assoc, List.singleton_append,
        words_append_blank hne hw hb, hrest]

variable {b c : Char} {ws : List (List Char)}

theorem mem_intercalate (h : c ∈ [b].intercalate ws) : c = b ∨ ∃ w ∈ ws, c ∈ w := by
  induction ws with
  | nil => cases h
  | cons w ws ih =>
    cases ws with
    | nil => exact .inr ⟨w, by simp, by simpa using h⟩
    | cons v ws =>
      rw [List.intercalate_cons_of_ne_nil (by simp), List.append_assoc, List.mem_append,
        List.singleton_append, List.mem_cons] at h
      rcases h with hw | hb | hrest
      · exact .inr ⟨w, by simp, hw⟩
      · exact .inl hb
      · exact (ih hrest).imp_right fun ⟨x, hx, hc⟩ => ⟨x, by simp [hx], hc⟩

theorem intercalate_ne_nil (hne : ws ≠ []) (hws : ∀ w ∈ ws, w ≠ []) : [b].intercalate ws ≠ [] := by
  obtain ⟨w, ws, rfl⟩ := List.exists_cons_of_ne_nil hne
  have hw : w ≠ [] := hws w (by simp)
  cases ws <;> simp [hw]

theorem mem_word_of_head? (hws : ∀ w ∈ ws, w ≠ []) (h : ([b].intercalate ws).head? = some c) :
    ∃ w ∈ ws, c ∈ w := by
  cases ws with
  | nil => cases h
  | cons w ws =>
    obtain ⟨d, w, rfl⟩ := List.exists_cons_of_ne_nil (hws w (by simp))
    refine ⟨_, List.mem_cons_self, ?_⟩
    cases ws <;> simp_all

theorem mem_word_of_getLast? (hws : ∀ w ∈ ws, w ≠ []) (h : ([b].intercalate ws).getLast? = some c) :
    ∃ w ∈ ws, c ∈ w := by
  induction ws with
  | nil => cases h
  | cons w ws ih =>
    cases ws with
    | nil => exact ⟨w, by simp, List.mem_of_getLast? (by simpa using h)⟩
    | cons v ws =>
      rw [List.intercalate_cons_of_ne_nil (by simp), List.getLast?_append, Option.or_eq_some_iff] at h
      rcases h with hrest | ⟨hnone, -⟩
      · obtain ⟨x, hx, hc⟩ := ih (fun x hx => hws x (by simp [hx])) hrest
        exact ⟨x, by simp [hx], hc⟩
      · exact absurd (List.getLast?_eq_none_iff.1 hnone)
          (intercalate_ne_nil (by simp) fun x hx => hws x (by simp [hx]))

variable {p : Char → Bool} {s t : List Char}

theorem dropEndWhile_append (h : ∀ c ∈ t, p c = true) :
    dropEndWhile p (s ++ t) = dropEndWhile p s := by
  rw [dropEndWhile, List.reverse_append, List.dropWhile_append_of_pos (by simpa using h), dropEndWhile]

theorem dropEndWhile_eq_self (h : ∀ c, s.getLast? = some c → p c = false) : dropEndWhile p s = s := by
  have hkeep : s.reverse.dropWhile p = s.reverse := by
    rw [← List.head?_reverse] at h
    cases hs : s.reverse with
    | nil => rfl
    | cons c rest => simp [h c (by rw [hs, List.head?_cons])]
  rw [dropEndWhile, hkeep, List.reverse_reverse]

/-- Nothing is dropped in front of a character that stays. -/
theorem dropEndWhile_append_cons (hc : p c = false) (s t : List Char) :
    dropEndWhile p (s ++ c :: t) = s ++ c :: dropEndWhile p t := by
  have hstop : (c :: s.reverse).dropWhile p = c :: s.reverse := List.dropWhile_cons_of_neg (by simp [hc])
  simp only [dropEndWhile, List.reverse_append, List.reverse_cons, List.append_assoc, List.singleton_append,
    List.dropWhile_append, hstop]
  cases hrest : t.reverse.dropWhile p <;> simp

/-- The last character that is left is not dropped. -/
theorem exists_of_dropEndWhile_ne_nil (h : dropEndWhile p s ≠ []) :
    ∃ c ∈ dropEndWhile p s, p c = false := by
  have hrun : s.reverse.dropWhile p ≠ [] := fun hnil => h (by rw [dropEndWhile, hnil]; rfl)
  exact ⟨_, by simp [dropEndWhile], List.head_dropWhile_not p hrun⟩

theorem exists_dropEndWhile_append (p : Char → Bool) (s : List Char) :
    ∃ t, s = dropEndWhile p s ++ t ∧ ∀ c ∈ t, p c = true := by
  refine ⟨(s.reverse.takeWhile p).reverse, ?_, fun c hc => ?_⟩
  · rw [dropEndWhile, ← List.reverse_append, List.takeWhile_append_dropWhile, List.reverse_reverse]
  · exact List.all_eq_true.1 List.all_takeWhile c (List.mem_reverse.1 hc)

theorem mem_of_mem_dropEndWhile (h : c ∈ dropEndWhile p s) : c ∈ s := by
  obtain ⟨t, hs, -⟩ := exists_dropEndWhile_append p s
  rw [hs]
  exact List.mem_append_left t h

/-- A character that stays wherever it stands is not lost. -/
theorem mem_dropEndWhile_iff (hc : p c = false) : c ∈ dropEndWhile p s ↔ c ∈ s := by
  constructor
  · exact mem_of_mem_dropEndWhile
  · intro h
    obtain ⟨t, hs, ht⟩ := exists_dropEndWhile_append p s
    rw [hs] at h
    rcases List.mem_append.1 h with hkept | hdropped
    · exact hkept
    · rw [ht c hdropped] at hc
      cases hc

theorem getLast?_dropEndWhile (h : (dropEndWhile p s).getLast? = some c) : p c = false := by
  rw [dropEndWhile, List.getLast?_reverse] at h
  have hfirst := List.head?_dropWhile_not p s.reverse
  rw [h] at hfirst
  exact hfirst

theorem trim_eq_self (hfirst : ∀ c, s.head? = some c → isBlank c = false)
    (hlast : ∀ c, s.getLast? = some c → isBlank c = false) : trim s = s := by
  have hstart : trimStart s = s := by
    cases s with
    | nil => rfl
    | cons c s => simp [trimStart, hfirst c rfl]
  rw [trim, hstart, trimEnd, dropEndWhile_eq_self hlast]

/-- Blanks around a text are trimmed, and nothing else. -/
theorem trim_append {before after : List Char} (hbefore : ∀ c ∈ before, isBlank c = true)
    (hafter : ∀ c ∈ after, isBlank c = true) (hne : s ≠ []) (hs : ∀ c ∈ s, isBlank c = false) :
    trim (before ++ s ++ after) = s := by
  have hstart : trimStart (before ++ (s ++ after)) = s ++ after := by
    obtain ⟨c, rest, rfl⟩ := List.exists_cons_of_ne_nil hne
    rw [trimStart, List.dropWhile_append_of_pos hbefore, List.cons_append,
      List.dropWhile_cons_of_neg (by simp [hs c List.mem_cons_self])]
  rw [trim, List.append_assoc, hstart, trimEnd, dropEndWhile_append hafter,
    dropEndWhile_eq_self fun c hc => hs c (List.mem_of_getLast? hc)]

theorem exists_trim_append (s : List Char) :
    ∃ before after, s = before ++ trim s ++ after ∧ (∀ c ∈ before, isBlank c = true) ∧
      ∀ c ∈ after, isBlank c = true := by
  obtain ⟨after, hafter, hblank⟩ := exists_dropEndWhile_append isBlank (trimStart s)
  refine ⟨s.takeWhile isBlank, after, ?_, List.all_eq_true.1 List.all_takeWhile, hblank⟩
  rw [List.append_assoc, trim, trimEnd, ← hafter, trimStart, List.takeWhile_append_dropWhile]

/-- Trimming takes nothing but blanks away. -/
theorem mem_trim_or_isBlank (hc : c ∈ s) : c ∈ trim s ∨ isBlank c = true := by
  obtain ⟨before, after, hs, hbefore, hafter⟩ := exists_trim_append s
  rw [hs, List.append_assoc, List.mem_append, List.mem_append] at hc
  rcases hc with hc | hc | hc
  · exact .inr (hbefore c hc)
  · exact .inl hc
  · exact .inr (hafter c hc)

end PackedStruct.Text
