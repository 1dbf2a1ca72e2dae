import PackedStruct.Proofs.FlagText
/-!
Reading the indented text of a value back. The last character of a line tells what the line is: a comma stands behind
the text of a scalar, and brackets and braces open and close arrays and structs. What stands before it may look like
anything, and how far the lines are indented does not matter.
-/

namespace PackedStruct

section Parts

variable {α β : Type} {a : α} {s s' t t' rest rest' : List α} {block : β → List α} {bs cs : List β}

/-- Where two lists are cut at the first `a`, equal lists have equal parts. -/
theorem eq_of_cut (hs : a ∉ s) (hs' : a ∉ s') (h : s ++ a :: t = s' ++ a :: t') : s = s' ∧ t = t' := by
  induction s generalizing s' with
  | nil =>
    cases s' with
    | nil => exact ⟨rfl, (List.cons.inj h).2⟩
    | cons b s' => exact absurd (List.mem_cons.2 (.inl (List.cons.inj h).1)) hs'
  | cons b s ih =>
    cases s' with
    | nil => exact absurd (List.mem_cons.2 (.inl (List.cons.inj h).1.symm)) hs
    | cons b' s' =>
      obtain ⟨hfirst, htail⟩ := List.cons.inj h
      obtain ⟨hfront, hrest⟩ := ih (List.not_mem_of_not_mem_cons hs) (List.not_mem_of_not_mem_cons hs') htail
      exact ⟨by rw [hfirst, hfront], hrest⟩

/-- Blocks below each other are told apart up to a line that none of them begins with. -/
theorem eq_of_blocks {γ : Type} {key : β → γ} (hends : ∀ b ∈ bs ++ cs, ∀ more more', block b ++ more ≠ a :: more')
    (htold : ∀ b ∈ bs, ∀ c ∈ cs, ∀ more more', block b ++ more = block c ++ more' → key b = key c ∧ more = more')
    (h : bs.flatMap block ++ a :: rest = cs.flatMap block ++ a :: rest') : bs.map key = cs.map key ∧ rest = rest' := by
  induction bs generalizing cs with
  | nil =>
    -- No block begins with the line that ends them all, so both lists end here.
    cases cs with
    | nil => exact ⟨rfl, (List.cons.inj h).2⟩
    | cons c cs =>
      rw [List.flatMap_cons, List.append_assoc] at h
      exact absurd h.symm (hends c (by simp) _ _)
  | cons b bs ih =>
    cases cs with
    | nil =>
      rw [List.flatMap_cons, List.append_assoc] at h
      exact absurd h (hends b (by simp) _ _)
    | cons c cs =>
      rw [List.flatMap_cons, List.flatMap_cons, List.append_assoc, List.append_assoc] at h
      obtain ⟨hfirst, htail⟩ := htold b (by simp) c (by simp) _ _ h
      have hends' : ∀ d ∈ bs ++ cs, ∀ more more', block d ++ more ≠ a :: more' := by
        intro d hd
        apply hends
        rcases List.mem_append.1 hd with hd | hd <;> simp [hd]
      obtain ⟨hothers, hrest⟩ := ih hends' (fun d hd e he => htold d (by simp [hd]) e (by simp [he])) htail
      exact ⟨by rw [List.map_cons, List.map_cons, hfirst, hothers], hrest⟩

end Parts

namespace Outline

/-- No name and no text has a line break in it, and no name a colon. -/
inductive Legible : Outline → Prop where
  | text {s} (htext : '\n' ∉ s.toList) : Legible (.text s)
  | items {os} (hitems : ∀ o ∈ os, Legible o) : Legible (.items os)
  | fields {fs} (hnames : ∀ f ∈ fs, '\n' ∉ f.1.toList ∧ ':' ∉ f.1.toList) (hfields : ∀ f ∈ fs, Legible f.2) :
      Legible (.fields fs)

/-- The lines of values that stand below each other, each after its name and `mark`. -/
def memberLines (i : Indent) (depth : Nat) (mark : String) (ms : List (String × Outline)) : List String :=
  ms.flatMap fun m => m.2.lines i depth (m.1 ++ mark)

section Lines

variable {i : Indent} {depth : Nat} {o p : Outline} {name closing s : String} {rest rest' : List String}

/-- The elements of an array have no names. -/
theorem itemLines_eq (os : List Outline) : itemLines i depth os = memberLines i depth "" (os.map ("", ·)) := by
  induction os with
  | nil => rfl
  | cons o os ih => simpa [itemLines, memberLines] using ih

theorem fieldLines_eq (fs : List (String × Outline)) : fieldLines i depth fs = memberLines i depth ": " fs := by
  induction fs with
  | nil => rfl
  | cons f fs ih => simpa [fieldLines, memberLines] using ih

/-- What the first line of a value has after the name. -/
def opening : Outline → String
  | .text s => s ++ ","
  | .items _ => "["
  | .fields _ => "\x7b"

theorem lines_eq_cons (o : Outline) (i : Indent) (depth : Nat) (name : String) :
    ∃ more, o.lines i depth name = (String.ofList (i.lead depth) ++ name ++ o.opening) :: more := by
  cases o <;> simp [lines, opening, String.append_assoc]

theorem head_eq {name' : String}
    (h : o.lines i depth name ++ rest = p.lines i depth name' ++ rest') :
    name ++ o.opening = name' ++ p.opening := by
  obtain ⟨more, ho⟩ := o.lines_eq_cons i depth name
  obtain ⟨more', hp⟩ := p.lines_eq_cons i depth name'
  rw [ho, hp] at h
  have hline := (List.cons.inj h).1
  rwa [String.append_assoc, String.append_assoc, String.append_right_inj] at hline

theorem getLast?_opening (o : Outline) :
    o.opening.toList.getLast? = some ',' ∨ o.opening.toList.getLast? = some '[' ∨
      o.opening.toList.getLast? = some '\x7b' := by
  cases o <;> simp [opening]

/-- However a text ends, the comma stands behind it. -/
theorem opening_text_ne : (text s).opening ≠ "[" ∧ (text s).opening ≠ "\x7b" := by
  constructor <;>
  · intro heq
    have hlast := congrArg (fun s => s.toList.getLast?) heq
    simp [opening] at hlast

/-- A line that ends an array or a struct. -/
def Closing (line : String) : Prop := line.toList.getLast? = some ']' ∨ line.toList.getLast? = some '\x7d'

theorem lines_ne_closing (hclosing : Closing closing) : o.lines i depth name ++ rest ≠ closing :: rest' := by
  intro h
  obtain ⟨more, ho⟩ := o.lines_eq_cons i depth name
  rw [ho] at h
  obtain rfl := (List.cons.inj h).1
  have hlast := o.getLast?_opening
  have hne : o.opening.toList ≠ [] := by
    intro hnil
    simp [hnil] at hlast
  rw [Closing, String.toList_append, List.getLast?_append_of_ne_nil _ hne] at hclosing
  rcases hclosing with hclosing | hclosing <;> simp [hclosing] at hlast

/-- From the lines of a value one can tell what is shown of it, whatever follows them. -/
def Told (i : Indent) (o : Outline) : Prop :=
  ∀ (depth : Nat) (name : String) (p : Outline) (rest rest' : List String), p.Legible →
    o.lines i depth name ++ rest = p.lines i depth name ++ rest' → o = p ∧ rest = rest'

/-- Values below each other are told apart up to the line that ends them, if their first lines tell their names. -/
theorem memberLines_told {mark : String} {ms ns : List (String × Outline)} (hms : ∀ m ∈ ms, Told i m.2)
    (hns : ∀ n ∈ ns, n.2.Legible)
    (hnames : ∀ m ∈ ms, ∀ n ∈ ns, ∀ s t, m.1 ++ mark ++ s = n.1 ++ mark ++ t → m.1 = n.1)
    (hclosing : Closing closing)
    (h : memberLines i depth mark ms ++ closing :: rest = memberLines i depth mark ns ++ closing :: rest') :
    ms = ns ∧ rest = rest' := by
  have htold : ms.map id = ns.map id ∧ rest = rest' := by
    apply eq_of_blocks (fun m _ more more' => lines_ne_closing hclosing) ?_ h
    intro m hm n hn more more' heq
    have hname : m.1 = n.1 := hnames m hm n hn _ _ (head_eq heq)
    rw [hname] at heq
    obtain ⟨hsame, hmore⟩ := hms m hm _ _ _ _ _ (hns n hn) heq
    exact ⟨Prod.ext hname hsame, hmore⟩
  rwa [List.map_id, List.map_id] at htold

/-- A name without colons ends at the first colon. -/
theorem name_eq_of_colon {a b s t : String} (ha : ':' ∉ a.toList) (hb : ':' ∉ b.toList)
    (h : a ++ ": " ++ s = b ++ ": " ++ t) : a = b := by
  have htexts := congrArg String.toList h
  simp only [String.toList_append, List.append_assoc] at htexts
  exact String.toList_injective (eq_of_cut ha hb htexts).1

theorem text_told : (text s).Told i := by
  intro depth name p rest rest' hp heq
  have hopening := (String.append_right_inj _).1 (head_eq heq)
  cases hp with
  | text htext =>
    have hsame := (String.append_left_inj _).1 hopening
    rw [lines, lines, hsame] at heq
    exact ⟨by rw [hsame], (List.cons.inj heq).2⟩
  | items => exact absurd hopening opening_text_ne.1
  | fields => exact absurd hopening opening_text_ne.2

theorem items_told {os : List Outline} (hitems : ∀ o ∈ os, o.Told i) : (items os).Told i := by
  intro depth name p rest rest' hp heq
  have hopening := (String.append_right_inj _).1 (head_eq heq)
  cases hp with
  | text htext => exact absurd hopening.symm opening_text_ne.1
  | @items os' hitems' =>
    have hclosing : Closing (String.ofList (i.lead depth) ++ "]") := by simp [Closing]
    have hlines : memberLines i (depth+1) "" (os.map ("", ·)) ++ (String.ofList (i.lead depth) ++ "]") :: rest =
        memberLines i (depth+1) "" (os'.map ("", ·)) ++ (String.ofList (i.lead depth) ++ "]") :: rest' := by
      simpa [lines, itemLines_eq] using heq
    obtain ⟨hmembers, hrest⟩ := memberLines_told (List.forall_mem_map.2 hitems) (List.forall_mem_map.2 hitems')
      (by simp) hclosing hlines
    have hinner := congrArg (List.map Prod.snd) hmembers
    simp only [List.map_map, Function.comp_def, List.map_id'] at hinner
    exact ⟨by rw [hinner], hrest⟩
  | fields => simp [opening] at hopening

theorem fields_told {fs : List (String × Outline)} (hnames : ∀ f ∈ fs, ':' ∉ f.1.toList)
    (hfields : ∀ f ∈ fs, f.2.Told i) : (fields fs).Told i := by
  intro depth name p rest rest' hp heq
  have hopening := (String.append_right_inj _).1 (head_eq heq)
  cases hp with
  | text htext => exact absurd hopening.symm opening_text_ne.2
  | items => simp [opening] at hopening
  | @fields fs' hnames' hfields' =>
    have hclosing : Closing (String.ofList (i.lead depth) ++ "\x7d") := by simp [Closing]
    have hlines : memberLines i (depth+1) ": " fs ++ (String.ofList (i.lead depth) ++ "\x7d") :: rest =
        memberLines i (depth+1) ": " fs' ++ (String.ofList (i.lead depth) ++ "\x7d") :: rest' := by
      simpa [lines, fieldLines_eq] using heq
    obtain ⟨hmembers, hrest⟩ := memberLines_told hfields hfields'
      (fun f hf g hg _ _ => name_eq_of_colon (hnames f hf) (hnames' g hg).2) hclosing hlines
    exact ⟨by rw [hmembers], hrest⟩

/-- The induction is on one value; at each step the last character of the first line takes the other one apart. -/
theorem Legible.told (ho : o.Legible) (i : Indent) : o.Told i := by
  induction ho with
  | text htext => exact text_told
  | items hitems ih => exact items_told ih
  | fields hnames hfields ih => exact fields_told (fun f hf => (hnames f hf).2) ih

/-! No line of a value has a line break in it. -/

theorem break_not_mem_lead : '\n' ∉ i.lead depth := by simp [Indent.lead]

theorem memberLines_plain {mark : String} {ms : List (String × Outline)} (hmark : '\n' ∉ mark.toList)
    (hms : ∀ m ∈ ms, '\n' ∉ m.1.toList ∧
      ∀ name, '\n' ∉ name.toList → ∀ line ∈ m.2.lines i depth name, '\n' ∉ line.toList) :
    ∀ line ∈ memberLines i depth mark ms, '\n' ∉ line.toList := by
  intro line hline
  obtain ⟨m, hm, hline⟩ := List.mem_flatMap.1 hline
  obtain ⟨hname, hlines⟩ := hms m hm
  exact hlines (m.1 ++ mark) (by simp [hname, hmark]) line hline

theorem enclosed_plain {first last : String} {inner : List String} (hname : '\n' ∉ name.toList)
    (hfirst : '\n' ∉ first.toList) (hlast : '\n' ∉ last.toList) (hinner : ∀ line ∈ inner, '\n' ∉ line.toList) :
    ∀ line ∈ (String.ofList (i.lead depth) ++ name ++ first) :: inner ++ [String.ofList (i.lead depth) ++ last],
      '\n' ∉ line.toList := by
  rw [List.cons_append, List.forall_mem_cons, List.forall_mem_append, List.forall_mem_singleton]
  refine ⟨?_, hinner, ?_⟩
  · simp [break_not_mem_lead, hname, hfirst]
  · simp [break_not_mem_lead, hlast]

theorem Legible.lines_plain (ho : o.Legible) (depth : Nat) {name : String} (hname : '\n' ∉ name.toList) :
    ∀ line ∈ o.lines i depth name, '\n' ∉ line.toList := by
  induction ho generalizing depth name with
  | text htext =>
    rw [lines, List.forall_mem_singleton]
    simp [break_not_mem_lead, hname, htext]
  | items hitems ih =>
    rw [lines, itemLines_eq]
    apply enclosed_plain hname (by simp) (by simp)
    apply memberLines_plain (by simp)
    exact List.forall_mem_map.2 fun o ho => ⟨by simp, fun name hname => ih o ho (depth+1) hname⟩
  | fields hnames hfields ih =>
    rw [lines, fieldLines_eq]
    apply enclosed_plain hname (by simp) (by simp)
    apply memberLines_plain (by simp)
    exact fun f hf => ⟨(hnames f hf).1, fun name hname => ih f hf (depth+1) hname⟩

theorem Legible.eq_of_joined (ho : o.Legible) (hp : p.Legible)
    (h : "\n".intercalate (o.lines i 0 "") = "\n".intercalate (p.lines i 0 "")) : o = p := by
  have hbreak : "\n".toList = ['\n'] := by decide
  have hne (o : Outline) : o.lines i 0 "" ≠ [] := by
    obtain ⟨more, hlines⟩ := o.lines_eq_cons i 0 ""
    rw [hlines]
    exact List.cons_ne_nil _ _
  have hlines : o.lines i 0 "" = p.lines i 0 "" :=
    PackedStruct.eq_of_joined hbreak (hne o) (hne p) (ho.lines_plain 0 (by simp)) (hp.lines_plain 0 (by simp)) h
  exact (ho.told i 0 "" p [] [] hp (by rw [hlines])).1

end Lines

end Outline

namespace Data

/-- No field name and no text of a scalar has a line break in it, and no field name a colon. -/
def Legible (d : Data) : Prop := ∀ o, d.outline? = some o → o.Legible

end Data

end PackedStruct
