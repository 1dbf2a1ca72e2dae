import PackedStruct.Proofs.Acceptance
import PackedStruct.Proofs.TypeText
/-!
Aliases are transparent. A type text that names an alias can be replaced by what the alias says, with
the dimensions of the text around those of the alias, and every name stands for the same type as
before.
-/

namespace PackedStruct

/-- The same field with another type text; what it says about showing values stays. -/
def FieldType.withSpec (text : String) : FieldType → FieldType
  | .bare _ => .bare text
  | .record _ options => .record text options

@[simp] theorem FieldType.spec_withSpec (text : String) (type : FieldType) :
    (type.withSpec text).spec = text := by cases type <;> rfl

theorem FieldType.withSpec_withSpec (text : String) (type : FieldType) :
    (type.withSpec text).withSpec type.spec = type := by cases type <;> rfl

/-- One occurrence of a type text in a definition is replaced. -/
inductive Definition.Retyped (old new : String) : Definition → Definition → Prop where
  | aliased : Retyped old new (.alias old) (.alias new)
  | field (before after : List FieldEntry) (pairs pairs' : FieldEntry) (field : String)
      (type : FieldType) (hold : type.spec = old) :
      Retyped old new (.struct (before ++ (pairs ++ (field, type) :: pairs') :: after))
        (.struct (before ++ (pairs ++ (field, type.withSpec new) :: pairs') :: after))

theorem Definition.Retyped.symm {old new : String} {d d' : Definition} (h : d.Retyped old new d') :
    d'.Retyped new old d := by
  cases h with
  | aliased => exact .aliased
  | field before after pairs pairs' field type hold =>
    subst hold
    have hback : Retyped new type.spec _ _ :=
      .field before after pairs pairs' field _ (type.spec_withSpec new)
    rwa [type.withSpec_withSpec] at hback

namespace Schema

variable {s t : Schema} {name place owner old new base text : String} {outer : List Nat}
  {spec : TypeSpec} {n : Node} {d d' : Definition}

/-- Further dimensions in a type text are further dimensions of the type. -/
theorem denotesSpec_append (outer : List Nat) : s.DenotesSpec ⟨spec.base, spec.depth, outer ++ spec.dims⟩ n ↔
    ∃ m, s.DenotesSpec spec m ∧ n = m.withOuterDims outer := by
  constructor
  · intro h
    cases h with
    | scalar hleaf => exact ⟨_, .scalar hleaf, rfl⟩
    | named hleaf hname => exact ⟨_, .named hleaf hname, (Node.withOuterDims_append ..).symm⟩
  · rintro ⟨m, h, rfl⟩
    cases h with
    | scalar hleaf => exact .scalar hleaf
    | named hleaf hname =>
      rw [Node.withOuterDims_append]
      exact .named hleaf hname

/-- The name of an alias is no primitive, so it stands for what the alias says. -/
theorem denotesSpec_alias (halias : s.get? name = some (.alias text))
    (hname : Primitive.lookup? name = none) (hparse : TypeSpec.parse text = .ok spec) :
    s.DenotesSpec ⟨name, 0, outer⟩ n ↔
      s.DenotesSpec ⟨spec.base, spec.depth, outer ++ spec.dims⟩ n := by
  have hleaf : TypeSpec.leaf? ⟨name, 0, outer⟩ = none := TypeSpec.leaf?_eq_none.2 ⟨rfl, hname⟩
  rw [denotesSpec_append]
  constructor
  · intro h
    cases h with
    | scalar hsome =>
      rw [hleaf] at hsome
      cases hsome
    | named _ hdenotes =>
      obtain ⟨spec', hparse', hspec⟩ := hdenotes.of_alias halias
      rw [hparse] at hparse'
      cases hparse'
      exact ⟨_, hspec, rfl⟩
  · rintro ⟨m, hspec, rfl⟩
    exact .named hleaf (.aliased halias hparse hspec)

/-- A text may stand for another one if it stands for all types that the other one does. -/
def Replaceable (t : Schema) (old new : String) : Prop :=
  ∀ spec, TypeSpec.parse old = .ok spec →
    ∃ spec', TypeSpec.parse new = .ok spec' ∧ ∀ n, t.DenotesSpec spec n → t.DenotesSpec spec' n

theorem fieldHints_withSpec (owner field text : String) (type : FieldType) :
    fieldHints owner field (type.withSpec text) = fieldHints owner field type := by
  cases type <;> rfl

theorem DenotesFields.retyped {before after : List FieldEntry} {pairs pairs' : FieldEntry}
    {field : String} {type : FieldType} {fields : List (String × Node)} (hreplace : t.Replaceable type.spec new)
    (h : t.DenotesFields owner (before ++ (pairs ++ (field, type) :: pairs') :: after) fields) :
    t.DenotesFields owner (before ++ (pairs ++ (field, type.withSpec new) :: pairs') :: after) fields := by
  induction before generalizing fields with
  | nil =>
    -- an entry that stands for a field is a single pair
    cases pairs with
    | nil =>
      cases h with
      | cons hparse hspec hhints hrest =>
        obtain ⟨spec', hparse', hspec'⟩ := hreplace _ hparse
        refine .cons ?_ (hspec' _ hspec) ?_ hrest
        · rwa [FieldType.spec_withSpec]
        · rwa [fieldHints_withSpec]
    | cons pair pairs => cases pairs <;> cases h
  | cons entry before ih =>
    cases h with
    | cons hparse hspec hhints hrest => exact .cons hparse hspec hhints (ih hrest)

/-- The definitions of `s` are those of `t`, up to a text that may stand for another one. -/
structure Follows (s t : Schema) (old new : String) : Prop where
  replaceable : t.Replaceable old new
  get? : ∀ name d, s.get? name = some d →
    t.get? name = some d ∨ ∃ d', t.get? name = some d' ∧ d.Retyped old new d'

mutual

/-- What a name stands for does not depend on which of the texts is used. -/
theorem Denotes.follows {s t : Schema} {old new name : String} {n : Node} (hf : Follows s t old new) :
    s.Denotes name n → t.Denotes name n
  | .aliased hname hparse hspec => by
    have hspec' := hspec.follows hf
    rcases hf.get? _ _ hname with hsame | ⟨d', hget, hretyped⟩
    · exact .aliased hsame hparse hspec'
    · cases hretyped
      obtain ⟨spec', hparse', hstands⟩ := hf.replaceable _ hparse
      exact .aliased hget hparse' (hstands _ hspec')
  | .struct hname hdistinct hfields => by
    have hfields' := hfields.follows hf
    rcases hf.get? _ _ hname with hsame | ⟨d', hget, hretyped⟩
    · exact .struct hsame hdistinct hfields'
    · cases hretyped with
      | field _ _ _ _ _ _ hold =>
        subst hold
        exact .struct hget hdistinct (hfields'.retyped hf.replaceable)

theorem DenotesSpec.follows {s t : Schema} {old new : String} {spec : TypeSpec} {n : Node}
    (hf : Follows s t old new) : s.DenotesSpec spec n → t.DenotesSpec spec n
  | .scalar hleaf => .scalar hleaf
  | .named hleaf hname => .named hleaf (hname.follows hf)

theorem DenotesFields.follows {s t : Schema} {old new owner : String} {entries : List FieldEntry}
    {fields : List (String × Node)} (hf : Follows s t old new) :
    s.DenotesFields owner entries fields → t.DenotesFields owner entries fields
  | .nil => .nil
  | .cons hparse hspec hhints hrest => .cons hparse (hspec.follows hf) hhints (hrest.follows hf)

end

/-- In the schema itself, the inlined text stands for no less than the text that names the alias. -/
theorem replaceable_inlined (halias : s.get? name = some (.alias text))
    (hname : Primitive.lookup? name = none) (hparse : TypeSpec.parse text = .ok spec)
    (hold : TypeSpec.parse old = .ok ⟨name, 0, outer⟩)
    (hnew : TypeSpec.parse new = .ok ⟨spec.base, spec.depth, outer ++ spec.dims⟩) :
    s.Replaceable old new ∧ s.Replaceable new old := by
  have hstands (n : Node) : s.DenotesSpec ⟨name, 0, outer⟩ n ↔
      s.DenotesSpec ⟨spec.base, spec.depth, outer ++ spec.dims⟩ n :=
    denotesSpec_alias halias hname hparse
  constructor
  · intro spec' hspec'
    rw [hold] at hspec'
    cases hspec'
    exact ⟨_, hnew, fun n => (hstands n).1⟩
  · intro spec' hspec'
    rw [hnew] at hspec'
    cases hspec'
    exact ⟨_, hold, fun n => (hstands n).2⟩

/-- An alias that is inlined into itself leads back to itself and stands for nothing. -/
theorem replaceable_of_self (hget : s.get? name = some (.alias new))
    (hname : Primitive.lookup? name = none) (hold : TypeSpec.parse old = .ok ⟨name, 0, outer⟩)
    {dims : List Nat} (hnew : TypeSpec.parse new = .ok ⟨name, 0, dims⟩) : s.Replaceable old new := by
  have hleaf (dims : List Nat) : TypeSpec.leaf? ⟨name, 0, dims⟩ = none :=
    TypeSpec.leaf?_eq_none.2 ⟨rfl, hname⟩
  have hcycle : s.Refers name name := (refers_alias hget).2 (byValue_base hnew (hleaf dims))
  intro spec hspec
  rw [hold] at hspec
  cases hspec
  refine ⟨_, hnew, fun n hn => ?_⟩
  obtain ⟨m, hm⟩ := hn.denotes_base (hleaf outer)
  exact absurd (.single hcycle) hm.not_below_self

theorem follows_insert (hplace : s.get? place = some d) (hretyped : d.Retyped old new d')
    (h : (s.insert place d').1.Replaceable old new) : Follows s (s.insert place d').1 old new where
  replaceable := h
  get? name e hget := by
    rw [get?_insert]
    by_cases hname : name = place
    · subst hname
      rw [hplace] at hget
      cases hget
      exact .inr ⟨d', if_pos rfl, hretyped⟩
    · exact .inl (by rw [if_neg hname, hget])

theorem insert_follows (hplace : s.get? place = some d) (hretyped : d.Retyped old new d')
    (h : s.Replaceable new old) : Follows (s.insert place d').1 s new old where
  replaceable := h
  get? name e hget := by
    rw [get?_insert] at hget
    split at hget
    · next hname =>
      subst hname
      cases hget
      exact .inr ⟨d, hplace, hretyped.symm⟩
    · exact .inl hget

/-- A replacement is not seen from outside, wherever it is made. -/
theorem compile_retyped (halias : s.get? name = some (.alias text))
    (hname : Primitive.lookup? name = none) (hparse : TypeSpec.parse text = .ok spec)
    (hold : TypeSpec.parse old = .ok ⟨name, 0, outer⟩)
    (hnew : TypeSpec.parse new = .ok ⟨spec.base, spec.depth, outer ++ spec.dims⟩)
    (hplace : s.get? place = some d) (hretyped : d.Retyped old new d') (target : String) (n : Node) :
    s.compile target = .ok n ↔ (s.insert place d').1.compile target = .ok n := by
  obtain ⟨hforward, hback⟩ := replaceable_inlined halias hname hparse hold hnew
  have hinserted : (s.insert place d').1.Replaceable old new := by
    -- only an alias that is inlined into itself is no longer there to be followed
    by_cases hself : name = place
    · subst hself
      rw [halias] at hplace
      cases hplace
      cases hretyped
      rw [hold] at hparse
      cases hparse
      exact replaceable_of_self (by simp) hname hold hnew
    · have hkept : (s.insert place d').1.get? name = some (.alias text) := by
        rw [get?_insert, if_neg hself, halias]
      exact (replaceable_inlined hkept hname hparse hold hnew).1
  rw [compile_eq_ok, compile_eq_ok]
  constructor
  · rintro ⟨hdenotes, hrange⟩
    exact ⟨hdenotes.follows (follows_insert hplace hretyped hinserted), hrange⟩
  · rintro ⟨hdenotes, hrange⟩
    exact ⟨hdenotes.follows (insert_follows hplace hretyped hback), hrange⟩

/-- What an alias says can be written in its place: of an alias that is not the name of a primitive,
inlined into any text that names it by value, every target compiles as before, and to the same type.
Every inlined spec has a text, the printed one among others. -/
theorem compile_inline (halias : s.get? name = some (.alias text))
    (hname : Primitive.lookup? name = none) (hparse : TypeSpec.parse text = .ok spec)
    (hold : TypeSpec.parse old = .ok ⟨name, 0, outer⟩) (hplace : s.get? place = some d) :
    TypeSpec.parse (TypeSpec.print ⟨spec.base, spec.depth, outer ++ spec.dims⟩) =
        .ok ⟨spec.base, spec.depth, outer ++ spec.dims⟩ ∧
      ∀ new d', TypeSpec.parse new = .ok ⟨spec.base, spec.depth, outer ++ spec.dims⟩ →
        d.Retyped old new d' → ∀ target n,
          (s.compile target = .ok n ↔ (s.insert place d').1.compile target = .ok n) := by
  have houter : ∀ d ∈ outer, 0 < d ∧ d < sizeLimit := (TypeSpec.writable_of_parse hold).dims
  have hwritable : (⟨spec.base, spec.depth, outer ++ spec.dims⟩ : TypeSpec).Writable :=
    (TypeSpec.writable_of_parse hparse).append houter
  refine ⟨TypeSpec.parse_print hwritable, fun new d' hnew hretyped target n => ?_⟩
  exact compile_retyped halias hname hparse hold hnew hplace hretyped target n

/-- The rows of a field: the field's own dimension stays outside, and its labels stay. -/
def rows (spec : String) : List FieldEntry :=
  [[("count", .bare "u16")], [("rows", .record spec ⟨some "#x", some [(0, "EMPTY")], none⟩)]]

theorem compile_inline_rows :
    let s : Schema := ofList [("Row", .alias "u8[4]"), ("Grid", .alias "Row *[3]"), ("Table", .struct (rows "Grid[2]"))]
    s.get? "Grid" = some (.alias "Row *[3]") ∧ Primitive.lookup? "Grid" = none ∧
      TypeSpec.parse "Row *[3]" = .ok ⟨"Row", 1, [3]⟩ ∧ TypeSpec.parse "Grid[2]" = .ok ⟨"Grid", 0, [2]⟩ ∧
      s.get? "Table" = some (.struct (rows "Grid[2]")) ∧
      TypeSpec.print ⟨"Row", 1, [2] ++ [3]⟩ = "Row*[2][3]" ∧
      TypeSpec.parse "Row *[2][3]" = .ok ⟨"Row", 1, [2] ++ [3]⟩ ∧
      Definition.Retyped "Grid[2]" "Row *[2][3]" (.struct (rows "Grid[2]")) (.struct (rows "Row *[2][3]")) ∧
      (∀ n, s.compile "Table" = .ok n ↔
        (s.insert "Table" (.struct (rows "Row *[2][3]"))).1.compile "Table" = .ok n) ∧
      ∃ n, s.compile "Table" = .ok n := by
  intro s
  have halias : s.get? "Grid" = some (.alias "Row *[3]") := by decide +kernel
  have hname : Primitive.lookup? "Grid" = none := by decide +kernel
  have hparse : TypeSpec.parse "Row *[3]" = .ok ⟨"Row", 1, [3]⟩ := by decide +kernel
  have hold : TypeSpec.parse "Grid[2]" = .ok ⟨"Grid", 0, [2]⟩ := by decide +kernel
  have hnew : TypeSpec.parse "Row *[2][3]" = .ok ⟨"Row", 1, [2] ++ [3]⟩ := by decide +kernel
  have hplace : s.get? "Table" = some (.struct (rows "Grid[2]")) := by decide +kernel
  have hretyped : Definition.Retyped "Grid[2]" "Row *[2][3]" (.struct (rows "Grid[2]"))
      (.struct (rows "Row *[2][3]")) :=
    .field [[("count", .bare "u16")]] [] [] [] "rows" _ rfl
  have hcompile : ∃ n, s.compile "Table" = .ok n := exists_of_isOk (by decide +kernel)
  obtain ⟨-, hinline⟩ := compile_inline halias hname hparse hold hplace
  exact ⟨halias, hname, hparse, hold, hplace, by decide +kernel, hnew, hretyped,
    hinline "Row *[2][3]" _ hnew hretyped "Table", hcompile⟩

end Schema

end PackedStruct
