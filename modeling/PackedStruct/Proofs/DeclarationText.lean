import PackedStruct.Node.Declaration
import PackedStruct.Proofs.Outline
import PackedStruct.Proofs.PointerWidth
import PackedStruct.Proofs.TypeText
/-!
Reading the declaration of a type back. A brace tells where a struct begins and ends, the dimensions begin at the
first bracket of a line, and in front of them a star tells a pointer from any other scalar. What is left is the spelling
of a primitive and, after the last blank, the name of the field. So types with one declaration have the same primitives
in the same order, and nothing else goes into a layout.
-/

namespace PackedStruct

namespace Node

/-- The primitive behind each slot of a type; an opaque pointer counts as one. -/
def primitives (n : Node) : List Primitive := n.slots.map Leaf.primitiveOf

theorem codes_eq_map_primitives (w : BitWidth) (n : Node) : n.codes w = n.primitives.map (Primitive.code w) := by
  rw [codes_eq_map_slots, primitives, List.map_map]
  rfl

theorem fieldsSlots_eq_flatMap (fs : List (String × Node)) : fieldsSlots fs = fs.flatMap fun f => f.2.slots := by
  induction fs with
  | nil => rfl
  | cons f fs ih => rw [fieldsSlots, ih, List.flatMap_cons]

theorem primitives_leaf (t : String) (l : Leaf) (ds : List Nat) (h : Hints) :
    (leaf t l ds h).primitives = List.replicate ds.prod l.primitiveOf := by
  rw [primitives, slots, List.map_replicate]

theorem primitives_struct (t : String) (fs : List (String × Node)) (ds : List Nat) (h : Hints) :
    (struct t fs ds h).primitives = (List.replicate ds.prod (fs.map fun f => f.2.primitives).flatten).flatten := by
  rw [primitives, slots, fieldsSlots_eq_flatMap, List.map_flatten, List.map_replicate, List.map_flatMap]
  rfl

/-- The characters that have a meaning of their own in a declaration. -/
def signs : List Char := ['\n', '\x7b', '\x7d', '[', ']', '*']

def Unmarked (s : String) : Prop := ∀ c ∈ s.toList, c ∉ signs

/-- What can stand for the name of a field. A type by itself has no name, so it may be empty. -/
def IsName (s : String) : Prop := Unmarked s ∧ ∀ c ∈ s.toList, Text.isBlank c = false

/-- The name of a struct or of what a pointer points to. Primitives are written with spellings of their own. -/
def givenName? : Node → Option String
  | .leaf t (.pointer _) .. => some t
  | .leaf _ (.primitive _) .. => none
  | .struct t .. => some t

/-- All names in a type can be told from what stands around them. -/
def Legible (n : Node) : Prop :=
  ∀ m ∈ n.subnodes, (∀ name ∈ m.givenName?, Unmarked name) ∧ ∀ f ∈ m.fields, IsName f.1 ∧ f.1 ≠ ""

-- Written out, for the instance that is found otherwise tries every character.
instance (s : String) : Decidable (Unmarked s) := List.decidableBAll (· ∉ signs) s.toList

instance (s : String) : Decidable (IsName s) :=
  @instDecidableAnd _ _ _ (List.decidableBAll (fun c => Text.isBlank c = false) s.toList)

instance (n : Node) : Decidable n.Legible := inferInstanceAs (Decidable
  (∀ m ∈ n.subnodes, (∀ name ∈ m.givenName?, Unmarked name) ∧ ∀ f ∈ m.fields, IsName f.1 ∧ f.1 ≠ ""))

theorem Legible.fields {t : String} {fs : List (String × Node)} {ds : List Nat} {h : Hints}
    (hn : (struct t fs ds h).Legible) : (∀ f ∈ fs, IsName f.1 ∧ f.1 ≠ "") ∧ ∀ f ∈ fs, f.2.Legible := by
  obtain ⟨⟨-, hnamed⟩, hfields⟩ := forall_subnodes_struct.1 hn
  exact ⟨hnamed, hfields⟩

/-- Every pointer has a star. -/
inductive Starred : Node → Prop where
  | primitive {t p ds h} : Starred (.leaf t (.primitive p) ds h)
  | pointer {t depth ds h} (hdepth : 0 < depth) : Starred (.leaf t (.pointer depth) ds h)
  | struct {t fs ds h} (hfields : ∀ f ∈ fs, Starred f.2) : Starred (.struct t fs ds h)

theorem Starred.withOuterDims {n : Node} (h : n.Starred) (outer : List Nat) : (n.withOuterDims outer).Starred := by
  cases h with
  | primitive => exact .primitive
  | pointer hdepth => exact .pointer hdepth
  | struct hfields => exact .struct hfields

theorem Starred.subnode {n m : Node} (h : n.Starred) (hm : m ∈ n.subnodes) : m.Starred := by
  induction n with
  | leaf t l ds hints =>
    rw [subnodes, List.mem_singleton] at hm
    rwa [hm]
  | struct t fs ds hints ih =>
    rw [subnodes] at hm
    rcases List.mem_cons.1 hm with rfl | hm
    · exact h
    · obtain ⟨f, hf, hfield⟩ := mem_fieldsSubnodes.1 hm
      cases h with
      | struct hfields => exact ih f hf (hfields f hf) hfield

theorem Starred.withHints {n : Node} (h : n.Starred) (hints : Hints) : (n.withHints hints).Starred := by
  cases h with
  | primitive => exact .primitive
  | pointer hdepth => exact .pointer hdepth
  | struct hfields => exact .struct hfields

end Node

namespace Schema

mutual

/-- A type spec without stars is no pointer, so no compiled pointer lacks one. -/
theorem Denotes.starred {s : Schema} {name : String} {n : Node} : s.Denotes name n → n.Starred
  | .aliased _ _ hspec => hspec.starred
  | .struct _ _ hfields => .struct hfields.starred

theorem DenotesSpec.starred {s : Schema} {spec : TypeSpec} {n : Node} : s.DenotesSpec spec n → n.Starred
  | .scalar hleaf => by
    rw [TypeSpec.leaf?] at hleaf
    split at hleaf
    · next hpointer =>
      cases hleaf
      exact .pointer (of_decide_eq_true hpointer)
    · obtain ⟨p, -, rfl⟩ := Option.map_eq_some_iff.1 hleaf
      exact .primitive
  | .named _ hname => hname.starred.withOuterDims _

theorem DenotesFields.starred {s : Schema} {owner : String} {entries : List FieldEntry}
    {fields : List (String × Node)} : s.DenotesFields owner entries fields → ∀ f ∈ fields, f.2.Starred
  | .nil => by simp
  | .cons _ hspec _ hrest => List.forall_mem_cons.2 ⟨hspec.starred.withHints _, hrest.starred⟩

end

end Schema

namespace Node

/-- The spelling of the type in the first line of a declaration. -/
def written (short : Bool) : Node → String
  | .leaf t l _ _ => spelling short t l
  | .struct t _ _ _ => t

def starsOf : Node → List Char
  | .leaf _ l _ _ => stars l
  | .struct .. => []

/-- The first line up to the dimensions. -/
def title (short : Bool) (lead : List Char) (name : String) (n : Node) : List Char :=
  lead ++ (n.written short).toList ++ ' ' :: n.starsOf ++ name.toList

/-- What the first line has after the dimensions. -/
def opening : Node → List Char
  | .leaf .. => []
  | .struct .. => " \x7b".toList

/-- Names that stand in the same place of two declarations. -/
structure Paired (name name' : String) : Prop where
  first : IsName name
  second : IsName name'
  empty : name = "" ↔ name' = ""

section Lines

variable {i : Indent} {short : Bool} {depth : Nat} {n m : Node} {name name' t t' : String} {l l' : Leaf}
  {p p' : Primitive} {c : Char} {ds ds' : List Nat} {h h' : Hints} {s s' lead closing : List Char}
  {rest rest' : List (List Char)}

/-! The dimensions of a line. -/

theorem brackets_cons (d : Nat) (ds : List Nat) :
    brackets (d :: ds) = '[' :: (Nat.toDigits 10 d ++ ']' :: brackets ds) := by
  simp [brackets]

theorem isDigit_of_mem_toDigits {d : Nat} (hc : c ∈ Nat.toDigits 10 d) : c.isDigit = true :=
  Nat.isDigit_of_mem_toDigits (by decide) (by decide) hc

theorem mem_brackets (hc : c ∈ brackets ds) : c = '[' ∨ c = ']' ∨ c.isDigit = true := by
  obtain ⟨d, -, hc⟩ := List.mem_flatMap.1 hc
  rw [List.mem_append, List.mem_cons, List.mem_singleton] at hc
  rcases hc with (hopen | hdigit) | hclose
  · exact .inl hopen
  · exact .inr (.inr (isDigit_of_mem_toDigits hdigit))
  · exact .inr (.inl hclose)

theorem brackets_injective (heq : brackets ds = brackets ds') : ds = ds' := by
  have hdigits (d : Nat) : ']' ∉ Nat.toDigits 10 d := by
    intro hmem
    exact absurd (isDigit_of_mem_toDigits hmem) (by decide)
  induction ds generalizing ds' with
  | nil =>
    cases ds' with
    | nil => rfl
    | cons d' ds' => cases heq
  | cons d ds ih =>
    cases ds' with
    | nil => cases heq
    | cons d' ds' =>
      rw [brackets_cons, brackets_cons] at heq
      obtain ⟨hfirst, hrest⟩ := eq_of_cut (hdigits d) (hdigits d') (List.cons.inj heq).2
      have hd : d = d' := by
        rw [← Nat.ofDigitChars_ten_toDigits (n := d), hfirst, Nat.ofDigitChars_ten_toDigits]
      rw [hd, ih hrest]

/-- After dimensions there is no blank to be left out. -/
theorem trimEnd_brackets (s : List Char) (d : Nat) (ds : List Nat) :
    Text.trimEnd (s ++ brackets (d :: ds)) = s ++ brackets (d :: ds) := by
  apply Text.dropEndWhile_eq_self
  intro c hc
  rw [List.getLast?_append_of_ne_nil _ (by simp [brackets_cons])] at hc
  rw [TypeSpec.getLast?_bracketed hc]
  decide

/-- A line is cut at its first bracket. -/
theorem dims_told (hs : '[' ∉ s) (hs' : '[' ∉ s')
    (heq : Text.trimEnd (s ++ brackets ds) = Text.trimEnd (s' ++ brackets ds')) :
    Text.trimEnd s = Text.trimEnd s' ∧ ds = ds' := by
  have hbare {s s' : List Char} (hs : '[' ∉ s) (d : Nat) (ds : List Nat) :
      Text.trimEnd (s ++ brackets []) ≠ Text.trimEnd (s' ++ brackets (d :: ds)) := by
    intro heq
    have hmem : '[' ∈ s' ++ brackets (d :: ds) := by simp [brackets_cons]
    rw [← trimEnd_brackets, ← heq] at hmem
    exact hs (by simpa [brackets] using Text.mem_of_mem_dropEndWhile hmem)
  cases ds with
  | nil =>
    cases ds' with
    | nil =>
      rw [brackets, List.flatMap_nil, List.append_nil, List.append_nil] at heq
      exact ⟨heq, rfl⟩
    | cons d' ds' => exact absurd heq (hbare hs d' ds')
  | cons d ds =>
    cases ds' with
    | nil => exact absurd heq.symm (hbare hs' d ds)
    | cons d' ds' =>
      rw [trimEnd_brackets, trimEnd_brackets, brackets_cons, brackets_cons] at heq
      obtain ⟨hfront, hdims⟩ := eq_of_cut hs hs' heq
      have hbrackets : brackets (d :: ds) = brackets (d' :: ds') := by rw [brackets_cons, brackets_cons, hdims]
      exact ⟨by rw [hfront], brackets_injective hbrackets⟩

/-! The names of primitives. -/

theorem sign_of_mem_spelling (short : Bool) (t : String) (p : Primitive) :
    ∀ c ∈ (spelling short t (.primitive p)).toList, c = '*' ∨ c ∉ signs := by
  have hall : (spelling short t (.primitive p)).toList.all (fun c => c == '*' || !signs.contains c) = true := by
    rw [spelling]
    cases short <;> cases p <;> decide
  intro c hc
  simpa using List.all_eq_true.1 hall c hc

theorem star_mem_spelling : '*' ∈ (spelling short t (.primitive p)).toList ↔ p = .pointer := by
  rw [spelling]
  cases short <;> cases p <;> decide

/-- A primitive is found under the name that it is written with. -/
theorem lookup?_spelling (hp : p ≠ .pointer) : Primitive.lookup? (spelling short t (.primitive p)) = some p := by
  rw [spelling]
  revert hp
  cases short <;> cases p <;> decide

/-- Where no name follows, one blank is left out and nothing else. -/
theorem trimEnd_spelling (lead : List Char) (short : Bool) (t : String) (p : Primitive) :
    Text.trimEnd (lead ++ (spelling short t (.primitive p)).toList ++ [' ']) =
      lead ++ (spelling short t (.primitive p)).toList := by
  have hlast : (spelling short t (.primitive p)).toList.getLast?.any (fun c => !Text.isBlank c) = true := by
    rw [spelling]
    cases short <;> cases p <;> decide
  obtain ⟨c, hc, hkept⟩ := (Option.any_eq_true _ _).1 hlast
  obtain ⟨front, hfront⟩ := List.getLast?_eq_some_iff.1 hc
  have hblank : Text.isBlank c = false := by simpa using hkept
  rw [hfront, ← List.append_assoc, List.append_assoc, List.singleton_append, Text.trimEnd,
    Text.dropEndWhile_append_cons hblank]
  rfl

/-! The first line up to the dimensions. -/

/-- Of all signs it can have stars only. -/
theorem Legible.sign_of_mem_title (hn : n.Legible) (hname : IsName name)
    (hc : c ∈ n.title short (i.lead depth) name) : c = '*' ∨ c ∉ signs := by
  obtain ⟨hgiven, -⟩ := hn n n.mem_subnodes_self
  rw [title, List.mem_append, List.mem_append, List.mem_append, List.mem_cons] at hc
  rcases hc with ((hlead | hwritten) | rfl | hstars) | hmem
  · right
    rw [List.eq_of_mem_replicate hlead]
    decide
  · cases n with
    | leaf t l ds h =>
      cases l with
      | pointer depth => exact .inr (hgiven t rfl c hwritten)
      | primitive p => exact sign_of_mem_spelling short t p c hwritten
    | struct t fs ds h => exact .inr (hgiven t rfl c hwritten)
  · right
    decide
  · left
    cases n with
    | leaf t l ds h =>
      cases l with
      | pointer depth => exact List.eq_of_mem_replicate hstars
      | primitive p => cases hstars
    | struct t fs ds h => cases hstars
  · exact .inr (hname.1 c hmem)

theorem Legible.bracket_not_mem (hn : n.Legible) (hname : IsName name) : '[' ∉ n.title short (i.lead depth) name := by
  intro hmem
  exact absurd (hn.sign_of_mem_title hname hmem) (by decide)

/-- A star tells a pointer from the other primitives. -/
theorem star_mem_title (hstarred : (leaf t l ds h).Starred) (hname : IsName name) :
    '*' ∈ (leaf t l ds h).title short (i.lead depth) name ↔ l.primitiveOf = .pointer := by
  cases hstarred with
  | primitive =>
    have hplain : '*' ∉ name.toList := fun hmem => hname.1 '*' hmem (by decide)
    simp [title, written, starsOf, stars, Indent.lead, Leaf.primitiveOf, hplain, star_mem_spelling]
  | @pointer t stars ds h hdepth =>
    have hstars : '*' ∈ List.replicate stars '*' := List.mem_replicate.2 ⟨Nat.ne_of_gt hdepth, rfl⟩
    simp [title, starsOf, Node.stars, Leaf.primitiveOf, hstars]

/-- A name ends the line. -/
theorem trimEnd_name (hname : IsName name) (hne : name ≠ "") :
    Text.trimEnd (s ++ name.toList) = s ++ name.toList := by
  apply Text.dropEndWhile_eq_self
  intro c hc
  rw [List.getLast?_append_of_ne_nil _ (by simpa using hne)] at hc
  exact hname.2 c (List.mem_of_getLast? hc)

/-- In front of a name the spelling of a primitive ends at the last blank, for it can have blanks in it. -/
theorem spelling_told (hnames : Paired name name')
    (heq : Text.trimEnd ((leaf t (.primitive p) ds h).title short lead name) =
      Text.trimEnd ((leaf t' (.primitive p') ds' h').title short lead name')) :
    spelling short t (.primitive p) = spelling short t' (.primitive p') := by
  rw [title, title, starsOf, starsOf, stars, stars, written, written] at heq
  rw [← String.toList_inj]
  by_cases hne : name = ""
  · rw [hne, hnames.empty.1 hne, String.toList_empty, List.append_nil, List.append_nil, trimEnd_spelling,
      trimEnd_spelling] at heq
    exact List.append_cancel_left heq
  · have hblank {name : String} (hname : IsName name) : ' ' ∉ name.toList.reverse := by
      intro hmem
      exact absurd (hname.2 ' ' (List.mem_reverse.1 hmem)) (by decide)
    rw [trimEnd_name hnames.first hne, trimEnd_name hnames.second (mt hnames.empty.2 hne)] at heq
    have hreverse := congrArg List.reverse heq
    simp only [List.reverse_append, List.reverse_singleton, List.singleton_append] at hreverse
    obtain ⟨-, hspelled⟩ := eq_of_cut (hblank hnames.first) (hblank hnames.second) hreverse
    exact List.reverse_injective (List.append_cancel_right hspelled)

theorem primitive_told (hstarred : (leaf t l ds h).Starred) (hstarred' : (leaf t' l' ds' h').Starred)
    (hnames : Paired name name')
    (heq : Text.trimEnd ((leaf t l ds h).title short (i.lead depth) name) =
      Text.trimEnd ((leaf t' l' ds' h').title short (i.lead depth) name')) : l.primitiveOf = l'.primitiveOf := by
  have hkept (s : List Char) : '*' ∈ Text.trimEnd s ↔ '*' ∈ s := Text.mem_dropEndWhile_iff (by decide)
  have hpointer : l.primitiveOf = .pointer ↔ l'.primitiveOf = .pointer := by
    rw [← star_mem_title hstarred hnames.first, ← star_mem_title hstarred' hnames.second, ← hkept, heq, hkept]
  by_cases hp : l.primitiveOf = .pointer
  · rw [hp, hpointer.1 hp]
  · have hp' : l'.primitiveOf ≠ .pointer := mt hpointer.2 hp
    cases l with
    | pointer => exact absurd rfl hp
    | primitive p =>
      cases l' with
      | pointer => exact absurd rfl hp'
      | primitive p' =>
        have hfound : Primitive.lookup? (spelling short t (.primitive p)) = some p := lookup?_spelling hp
        have hfound' : Primitive.lookup? (spelling short t' (.primitive p')) = some p' := lookup?_spelling hp'
        rw [spelling_told hnames heq, hfound'] at hfound
        exact (Option.some.inj hfound).symm

/-! The lines of a declaration. -/

theorem declLines_eq_cons (n : Node) (i : Indent) (short : Bool) (depth : Nat) (name : String) :
    ∃ more, n.declLines i short depth name =
      (Text.trimEnd (n.title short (i.lead depth) name ++ brackets n.dims) ++ n.opening) :: more := by
  cases n with
  | leaf t l ds h => exact ⟨[], by rw [opening, List.append_nil]; rfl⟩
  | struct t fs ds h => exact ⟨_, rfl⟩

theorem fieldLines_eq (fs : List (String × Node)) :
    fieldLines i short depth fs = fs.flatMap fun f => f.2.declLines i short depth f.1 := by
  induction fs with
  | nil => rfl
  | cons f fs ih => rw [fieldLines, ih, List.flatMap_cons]

/-- No brace and no line break stands in front of the one that opens a struct. -/
theorem Legible.brace_not_mem (hn : n.Legible) (hname : IsName name) (hc : c = '\n' ∨ c = '\x7b' ∨ c = '\x7d') :
    c ∉ Text.trimEnd (n.title short (i.lead depth) name ++ brackets n.dims) := by
  intro hmem
  have hline := Text.mem_of_mem_dropEndWhile hmem
  rcases List.mem_append.1 hline with htitle | hdims
  · have hsign := hn.sign_of_mem_title hname htitle
    rcases hc with rfl | rfl | rfl <;> revert hsign <;> decide
  · have hsign := mem_brackets hdims
    rcases hc with rfl | rfl | rfl <;> revert hsign <;> decide

theorem opening_told (hn : n.Legible) (hm : m.Legible) (hname : IsName name) (hname' : IsName name')
    (heq : Text.trimEnd (n.title short (i.lead depth) name ++ brackets n.dims) ++ n.opening =
      Text.trimEnd (m.title short (i.lead depth) name' ++ brackets m.dims) ++ m.opening) : n.opening = m.opening := by
  have hbrace {n : Node} {name : String} (hn : n.Legible) (hname : IsName name) :
      '\x7b' ∈ Text.trimEnd (n.title short (i.lead depth) name ++ brackets n.dims) ++ n.opening ↔
        '\x7b' ∈ n.opening := by
    rw [List.mem_append, or_iff_right (hn.brace_not_mem hname (.inr (.inl rfl)))]
  have hopening : '\x7b' ∈ n.opening ↔ '\x7b' ∈ m.opening := by
    rw [← hbrace hn hname, ← hbrace hm hname', heq]
  cases n <;> cases m <;> simp [opening] at hopening ⊢

/-- The first line tells all that is told of a type by itself, without its fields. -/
theorem first_told (hn : n.Legible) (hm : m.Legible) (hnames : Paired name name')
    (heq : n.declLines i short depth name ++ rest = m.declLines i short depth name' ++ rest') :
    n.opening = m.opening ∧ n.dims = m.dims ∧
      Text.trimEnd (n.title short (i.lead depth) name) = Text.trimEnd (m.title short (i.lead depth) name') := by
  obtain ⟨more, hmore⟩ := n.declLines_eq_cons i short depth name
  obtain ⟨more', hmore'⟩ := m.declLines_eq_cons i short depth name'
  rw [hmore, hmore'] at heq
  have hline := (List.cons.inj heq).1
  have hopening := opening_told hn hm hnames.first hnames.second hline
  rw [hopening] at hline
  obtain ⟨htitle, hdims⟩ := dims_told (hn.bracket_not_mem hnames.first) (hm.bracket_not_mem hnames.second)
    (List.append_cancel_right hline)
  exact ⟨hopening, hdims, htitle⟩

theorem Legible.declLines_ne (hn : n.Legible) (hname : IsName name) (hclosing : '\x7d' ∈ closing) :
    n.declLines i short depth name ++ rest ≠ closing :: rest' := by
  intro heq
  obtain ⟨more, hmore⟩ := n.declLines_eq_cons i short depth name
  rw [hmore] at heq
  rw [← (List.cons.inj heq).1, List.mem_append] at hclosing
  rcases hclosing with hline | hopening
  · exact hn.brace_not_mem hname (.inr (.inr rfl)) hline
  · cases n <;> simp [opening] at hopening

/-- From the lines of a declaration one can tell the primitives of the type, whatever follows them. -/
def Told (i : Indent) (short : Bool) (n : Node) : Prop :=
  ∀ (depth : Nat) (name name' : String) (m : Node) (rest rest' : List (List Char)), m.Legible → m.Starred →
    Paired name name' → n.declLines i short depth name ++ rest = m.declLines i short depth name' ++ rest' →
    n.primitives = m.primitives ∧ rest = rest'

theorem leaf_told (hn : (leaf t l ds h).Legible) (hstarred : (leaf t l ds h).Starred) :
    (leaf t l ds h).Told i short := by
  intro depth name name' m rest rest' hm hstarred' hnames heq
  obtain ⟨hopening, hdims, htitle⟩ := first_told hn hm hnames heq
  cases m with
  | leaf t' l' ds' h' =>
    obtain rfl : ds = ds' := hdims
    have hprimitive := primitive_told hstarred hstarred' hnames htitle
    exact ⟨by rw [primitives_leaf, primitives_leaf, hprimitive], (List.cons.inj heq).2⟩
  | struct => simp [opening] at hopening

theorem struct_told {fs : List (String × Node)} (hn : (struct t fs ds h).Legible)
    (hfields : ∀ f ∈ fs, f.2.Told i short) : (struct t fs ds h).Told i short := by
  intro depth name name' m rest rest' hm hstarred hnames heq
  obtain ⟨hopening, hdims, -⟩ := first_told hn hm hnames heq
  cases m with
  | leaf => simp [opening] at hopening
  | struct t' gs ds' h' =>
    obtain rfl : ds = ds' := hdims
    obtain ⟨hnamed, hlegible⟩ := hn.fields
    obtain ⟨hnamed', hlegible'⟩ := hm.fields
    have hends : ∀ f ∈ fs ++ gs, ∀ more more' : List (List Char),
        f.2.declLines i short (depth+1) f.1 ++ more ≠ (i.lead depth ++ ['\x7d']) :: more' := by
      intro f hf more more'
      rcases List.mem_append.1 hf with hf | hf
      · exact (hlegible f hf).declLines_ne (hnamed f hf).1 (by simp)
      · exact (hlegible' f hf).declLines_ne (hnamed' f hf).1 (by simp)
    have hone : ∀ f ∈ fs, ∀ g ∈ gs, ∀ more more' : List (List Char),
        f.2.declLines i short (depth+1) f.1 ++ more = g.2.declLines i short (depth+1) g.1 ++ more' →
        f.2.primitives = g.2.primitives ∧ more = more' := by
      intro f hf g hg more more' hlines
      have hpaired : Paired f.1 g.1 :=
        ⟨(hnamed f hf).1, (hnamed' g hg).1, iff_of_false (hnamed f hf).2 (hnamed' g hg).2⟩
      cases hstarred with
      | struct hstarred => exact hfields f hf _ _ _ _ _ _ (hlegible' g hg) (hstarred g hg) hpaired hlines
    have hlines : (fs.flatMap fun f => f.2.declLines i short (depth+1) f.1) ++ (i.lead depth ++ ['\x7d']) :: rest =
        (gs.flatMap fun f => f.2.declLines i short (depth+1) f.1) ++ (i.lead depth ++ ['\x7d']) :: rest' := by
      simp only [declLines, fieldLines_eq, List.cons_append, List.append_assoc, List.nil_append] at heq
      exact (List.cons.inj heq).2
    obtain ⟨hprimitives, hrest⟩ := eq_of_blocks hends hone hlines
    exact ⟨by rw [primitives_struct, primitives_struct, hprimitives], hrest⟩

/-- The induction is on one type; at each step the first line takes the other one apart. -/
theorem Legible.told (hn : n.Legible) (hstarred : n.Starred) (i : Indent) (short : Bool) : n.Told i short := by
  induction n with
  | leaf t l ds h => exact leaf_told hn hstarred
  | struct t fs ds h ih =>
    cases hstarred with
    | struct hstarred => exact struct_told hn fun f hf => ih f hf (hn.fields.2 f hf) (hstarred f hf)

theorem Legible.declLines_plain (hn : n.Legible) (depth : Nat) (hname : IsName name) :
    ∀ line ∈ n.declLines i short depth name, '\n' ∉ line := by
  induction n generalizing depth name with
  | leaf t l ds h =>
    rw [declLines, List.forall_mem_singleton]
    exact hn.brace_not_mem hname (.inl rfl)
  | struct t fs ds h ih =>
    obtain ⟨hnamed, hfields⟩ := hn.fields
    have hhead : '\n' ∉ Text.trimEnd ((struct t fs ds h).title short (i.lead depth) name ++ brackets ds) :=
      hn.brace_not_mem hname (.inl rfl)
    rw [declLines, fieldLines_eq, List.cons_append, List.forall_mem_cons, List.forall_mem_append,
      List.forall_mem_singleton]
    refine ⟨?_, ?_, ?_⟩
    · rw [List.mem_append, not_or]
      exact ⟨hhead, by decide⟩
    · intro line hline
      obtain ⟨f, hf, hline⟩ := List.mem_flatMap.1 hline
      exact ih f hf (hfields f hf) (depth+1) (hnamed f hf).1 line hline
    · simp [Indent.lead]

end Lines

variable {n m : Node} {i : Indent} {short : Bool}

/-- Types with one declaration have the same primitives in their slots. -/
theorem primitives_of_declaration (hn : n.Legible) (hm : m.Legible) (hstarred : n.Starred) (hstarred' : m.Starred)
    (h : n.declaration i short = m.declaration i short) : n.primitives = m.primitives := by
  have hbreak : "\n".toList = ['\n'] := by decide
  have hempty : IsName "" := by decide
  have hplain {n : Node} (hn : n.Legible) :
      ∀ line ∈ (n.declLines i short 0 "").map String.ofList, '\n' ∉ line.toList := by
    rw [List.forall_mem_map]
    intro line hline
    rw [String.toList_ofList]
    exact hn.declLines_plain 0 hempty line hline
  have hne (n : Node) : (n.declLines i short 0 "").map String.ofList ≠ [] := by
    obtain ⟨more, hlines⟩ := n.declLines_eq_cons i short 0 ""
    rw [hlines]
    exact List.cons_ne_nil _ _
  have htexts := eq_of_joined hbreak (hne n) (hne m) (hplain hn) (hplain hm) h
  have hlines : n.declLines i short 0 "" = m.declLines i short 0 "" :=
    List.map_injective_iff.2 (fun _ _ => String.ofList_inj.1) htexts
  exact (hn.told hstarred i short 0 "" "" m [] [] hm hstarred' ⟨hempty, hempty, Iff.rfl⟩ (by rw [hlines])).1

/-- A type that the compiler returns, or a part of one. -/
def Compiled (n : Node) : Prop :=
  ∃ (s : Schema) (target : String) (root : Node), s.compile target = .ok root ∧ n ∈ root.subnodes

theorem Compiled.starred (hn : n.Compiled) : n.Starred := by
  obtain ⟨s, target, root, hroot, hn⟩ := hn
  exact (Schema.compile_eq_ok.1 hroot).1.starred.subnode hn

theorem Compiled.layout_iff {capacity : Nat} {w : BitWidth} {l : Layout} (hn : n.Compiled) :
    n.layout capacity w = .ok l ↔ l = ⟨n.codes w, codesWidth (n.codes w)⟩ ∧ l.codes.length ≤ capacity := by
  obtain ⟨s, target, root, hroot, hn⟩ := hn
  obtain ⟨hdenotes, hrange⟩ := Schema.compile_eq_ok.1 hroot
  have hpos : n.PositiveDims := hdenotes.positiveDims.subnode hn
  obtain ⟨wide, hwide⟩ := (byteSize_ok_iff hpos).2 (hrange.subnode hn)
  obtain ⟨size, hsize⟩ := byteSize_of_wide hwide w
  exact layout_eq_ok_iff hpos hsize

/-- Compiled types with one declaration have one layout at each pointer width, wherever there is memory for it. -/
theorem layout_declared (hn : n.Compiled) (hm : m.Compiled) (hlegible : n.Legible) (hlegible' : m.Legible)
    (h : n.declaration i short = m.declaration i short) (w : BitWidth) :
    (∃ l, ∀ capacity, l.codes.length ≤ capacity →
      n.layout capacity w = .ok l ∧ m.layout capacity w = .ok l) ∧
    ∀ capacity l, n.layout capacity w = .ok l ↔ m.layout capacity w = .ok l := by
  have hcodes : n.codes w = m.codes w := by
    rw [codes_eq_map_primitives, codes_eq_map_primitives,
      primitives_of_declaration hlegible hlegible' hn.starred hm.starred h]
  have hsame (capacity : Nat) (l : Layout) : n.layout capacity w = .ok l ↔ m.layout capacity w = .ok l := by
    rw [hn.layout_iff, hm.layout_iff, hcodes]
  refine ⟨⟨⟨n.codes w, codesWidth (n.codes w)⟩, ?_⟩, hsame⟩
  intro capacity hroom
  have hbuilt := hn.layout_iff.2 ⟨rfl, hroom⟩
  exact ⟨hbuilt, (hsame capacity _).1 hbuilt⟩

/-- Other spellings and an alias make no difference, and the struct `u8 pair` is no primitive. -/
theorem layout_declared_spellings :
    let platform : Schema := .ofList [
      ("Frame", .struct [[("size", .bare "WORD")], [("links", .bare "u8**[2]")], [("parts", .bare "u8 pair[3]")]]),
      ("u8 pair", .struct [[("low", .bare "BYTE")], [("high", .bare "long")]])]
    let aliased : Schema := .ofList [
      ("Parts", .alias "u8 pair [3]"), ("u8 pair", .struct [[("low", .bare "u8")], [("high", .bare "int")]]),
      ("Frame", .struct [[("size", .bare "u16")], [("links", .bare "u8 * *[2]")], [("parts", .bare "Parts")]])]
    let text := "\n".intercalate ["Frame \x7b", "unsigned short size", "u8 **links[2]", "u8 pair parts[3] \x7b",
      "unsigned char low", "int high", "\x7d", "\x7d"]
    ∃ n m, platform.compile "Frame" = .ok n ∧ aliased.compile "Frame" = .ok m ∧ n.Legible ∧ m.Legible ∧
      n.declaration ⟨0⟩ false = text ∧ m.declaration ⟨0⟩ false = text ∧
      (∃ l, ∀ capacity, l.codes.length ≤ capacity →
        n.layout capacity .w32 = .ok l ∧ m.layout capacity .w32 = .ok l) ∧
      ∀ capacity l, n.layout capacity .w32 = .ok l ↔ m.layout capacity .w32 = .ok l := by
  intro platform aliased text
  have hdeclared {s : Schema}
      (h : (s.compile "Frame").map (fun n => (decide n.Legible, n.declaration ⟨0⟩ false)) = .ok (true, text)) :
      ∃ n, s.compile "Frame" = .ok n ∧ n.Legible ∧ n.declaration ⟨0⟩ false = text := by
    cases hn : s.compile "Frame" with
    | error err =>
      rw [hn] at h
      cases h
    | ok n =>
      rw [hn] at h
      obtain ⟨hlegible, htext⟩ := Prod.mk.inj (Except.ok.inj h)
      exact ⟨n, rfl, of_decide_eq_true hlegible, htext⟩
  obtain ⟨n, hn, hlegible, htext⟩ := hdeclared (s := platform) (by decide +kernel)
  obtain ⟨m, hm, hlegible', htext'⟩ := hdeclared (s := aliased) (by decide +kernel)
  have hcompiled : n.Compiled := ⟨platform, "Frame", n, hn, n.mem_subnodes_self⟩
  have hcompiled' : m.Compiled := ⟨aliased, "Frame", m, hm, m.mem_subnodes_self⟩
  exact ⟨n, m, hn, hm, hlegible, hlegible', htext, htext',
    layout_declared hcompiled hcompiled' hlegible hlegible' (htext.trans htext'.symm) .w32⟩

end Node

end PackedStruct
