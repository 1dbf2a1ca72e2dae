import PackedStruct.Proofs.Addressed
/-!
The parts of a decoded value by their offsets. A field of a struct is what its own type decodes to
after the bytes of all earlier fields, and an element of an array what the element type decodes to
after the bytes of all earlier elements.
-/

namespace PackedStruct

namespace Node

variable {w : BitWidth} {e : Endian}

/-- Whether the node is a character, alone or in an array. -/
def isChar : Node → Bool
  | .leaf _ (.primitive .char) .. => true
  | _ => false

/-- The type of an array's elements: the outermost dimension is left out. -/
def element : Node → Node
  | .leaf t l ds h => .leaf t l ds.tail h
  | .struct t fs ds h => .struct t fs ds.tail h

theorem arraySize_tail {typeName : String} {d element size : Nat} {ds : List Nat} (hd : 0 < d)
    (h : arraySize typeName (d :: ds) element = .ok size) :
    arraySize typeName ds element = .ok (element * ds.prod) ∧ size = d * (element * ds.prod) := by
  obtain ⟨hsize, hlt, hcount⟩ := arraySize_eq_ok h
  obtain ⟨first, hfirst, hrest⟩ := bind_eq_ok.1 hcount
  obtain ⟨_, rfl⟩ := checked_eq_ok.1 hfirst
  have hone : 1 ≤ 1 * d := by omega
  have hinner : countFrom typeName 1 ds = .ok (1 * ds.prod) := countFrom_mono hone hrest
  rw [Nat.one_mul] at hinner
  have hprod : element * (d :: ds).prod = d * (element * ds.prod) := by
    rw [List.prod_cons, Nat.mul_left_comm]
  have hle : element * ds.prod ≤ d * (element * ds.prod) := Nat.le_mul_of_pos_left _ hd
  exact ⟨bind_eq_ok.2 ⟨_, hinner, checked_ok (by omega)⟩, by omega⟩

theorem byteSize_element {n : Node} {d size : Nat} {ds : List Nat} (hn : n.dims = d :: ds)
    (hd : 0 < d) (h : n.byteSize w = .ok size) :
    ∃ k, n.element.byteSize w = .ok k ∧ size = d * k := by
  cases n with
  | leaf t l dims hints =>
    change dims = d :: ds at hn
    subst hn
    simp only [byteSize] at h
    obtain ⟨hinner, hsize⟩ := arraySize_tail hd h
    exact ⟨_, hinner, hsize⟩
  | struct t fs dims hints =>
    change dims = d :: ds at hn
    subst hn
    simp only [byteSize] at h
    obtain ⟨fields, hfields, h⟩ := bind_eq_ok.1 h
    obtain ⟨hinner, hsize⟩ := arraySize_tail hd h
    refine ⟨_, ?_, hsize⟩
    simp only [element, byteSize]
    exact bind_eq_ok.2 ⟨fields, hfields, hinner⟩

theorem dataAt_array {n : Node} {d : Nat} {ds : List Nat} (hn : n.dims = d :: ds)
    (hrow : ¬(n.isChar = true ∧ ds = [])) (bytes : List UInt8) :
    n.dataAt w e bytes = .array n.hints
      ((List.range d).map fun i => n.element.dataAt w e (bytes.drop (i * n.element.exactSize w))) := by
  cases n with
  | leaf t l dims hints =>
    change dims = d :: ds at hn
    subst hn
    by_cases hc : l = .primitive .char
    · subst hc
      cases ds with
      | nil => exact absurd ⟨rfl, rfl⟩ hrow
      | cons d' ds =>
        simp [dataAt, charactersAt, element, exactSize, foldl_mul, Leaf.size, Leaf.code,
          Leaf.primitiveOf, Primitive.code, Code.size, Node.hints]
    · have helement : (Node.leaf t l (d :: ds) hints).element = .leaf t l ds hints := rfl
      rw [dataAt_leaf hc, helement, dataAt_leaf hc]
      simp [arraysAt, exactSize, foldl_mul_one, Node.hints]
  | struct t fs dims hints =>
    change dims = d :: ds at hn
    subst hn
    have helement : (Node.struct t fs (d :: ds) hints).element = .struct t fs ds hints := rfl
    rw [dataAt_struct, helement, dataAt_struct]
    simp [arraysAt, exactSize, foldl_mul_one, Node.hints]

theorem names_fieldsAt (fs : List (String × Node)) (bytes : List UInt8) :
    (fieldsAt w e fs bytes).map Prod.fst = (fs.filter fun f => !f.2.isPadding).map Prod.fst := by
  induction fs generalizing bytes with
  | nil => rfl
  | cons f fs ih =>
    obtain ⟨name, n⟩ := f
    cases hp : n.isPadding <;> simp [fieldsAt, hp, ih]

/-- Fillers count for the place of a field among the bytes and not for that among the values. -/
theorem getElem?_fieldsAt (before after : List (String × Node)) (name : String) {child : Node}
    (hp : child.isPadding = false) (bytes : List UInt8) :
    (fieldsAt w e (before ++ (name, child) :: after) bytes)[(before.filter fun f => !f.2.isPadding).length]? =
      some (name, child.dataAt w e (bytes.drop (exactFieldsSize w before))) := by
  induction before generalizing bytes with
  | nil => simp [fieldsAt, hp, exactFieldsSize]
  | cons f before ih =>
    obtain ⟨first, n⟩ := f
    cases hn : n.isPadding <;> simp [fieldsAt, hn, ih, exactFieldsSize, List.drop_drop]

theorem exactFieldsSize_append (before after : List (String × Node)) :
    exactFieldsSize w (before ++ after) = exactFieldsSize w before + exactFieldsSize w after := by
  induction before with
  | nil => simp [exactFieldsSize]
  | cons f before ih => rw [List.cons_append, exactFieldsSize, ih, exactFieldsSize, Nat.add_assoc]

theorem mapM_byteSize {fs : List (String × Node)} (h : ∀ f ∈ fs, ∃ k, f.2.byteSize w = .ok k) :
    ∃ sizes, fs.mapM (fun f => f.2.byteSize w) = .ok sizes ∧ sizes.sum = exactFieldsSize w fs := by
  induction fs with
  | nil => exact ⟨[], rfl, rfl⟩
  | cons f fs ih =>
    obtain ⟨k, hk⟩ := h f (by simp)
    obtain ⟨sizes, hsizes, hsum⟩ := ih fun g hg => h g (by simp [hg])
    refine ⟨k :: sizes, ?_, ?_⟩
    · rw [List.mapM_cons]
      exact bind_eq_ok.2 ⟨k, hk, bind_eq_ok.2 ⟨sizes, hsizes, rfl⟩⟩
    · rw [List.sum_cons, hsum, byteSize_eq_exactSize hk, exactFieldsSize]

section Decoded

variable {offset : Nat} {buffer : List UInt8} {d : Data}

theorem decode_struct_fields {t : String} {fs : List (String × Node)} {hints : Hints}
    (h : (Node.struct t fs [] hints).decode w e offset buffer = .ok d) :
    ∃ values, d = .struct hints t values ∧
      values.map Prod.fst = (fs.filter fun f => !f.2.isPadding).map Prod.fst ∧
      ∀ before name child after, fs = before ++ (name, child) :: after → child.isPadding = false →
        ∃ sizes value, before.mapM (fun f => f.2.byteSize w) = .ok sizes ∧
          values[(before.filter fun f => !f.2.isPadding).length]? = some (name, value) ∧
          child.decode w e (offset + sizes.sum) buffer = .ok value := by
  obtain ⟨size, hsize, hfits, rfl⟩ := decode_eq_ok.1 h
  refine ⟨fieldsAt w e fs (buffer.drop offset), by rw [dataAt_struct, arraysAt], names_fieldsAt _ _, ?_⟩
  intro before name child after hfs hp
  have htotal := byteSize_eq_exactSize hsize
  simp only [byteSize] at hsize
  obtain ⟨fields, hfields, _⟩ := bind_eq_ok.1 hsize
  have hsizes : ∀ f ∈ fs, ∃ k, f.2.byteSize w = .ok k := fun f hf => byteSize_of_mem hfields hf
  subst hfs
  have hearlier : ∀ f ∈ before, ∃ k, f.2.byteSize w = .ok k := fun f hf => hsizes f (by simp [hf])
  obtain ⟨sizes, hbefore, hsum⟩ := mapM_byteSize hearlier
  obtain ⟨k, hk⟩ : ∃ k, child.byteSize w = .ok k := hsizes (name, child) (by simp)
  have hexact := byteSize_eq_exactSize hk
  have hroom : k ≤ buffer.length - (offset + sizes.sum) := by
    simp only [exactSize, List.foldl_nil, Nat.mul_one, exactFieldsSize_append, exactFieldsSize] at htotal
    omega
  have hvalue := getElem?_fieldsAt (w := w) (e := e) before after name hp (buffer.drop offset)
  rw [List.drop_drop, ← hsum] at hvalue
  exact ⟨sizes, _, hbefore, hvalue, decode_of_fits hk hroom⟩

theorem decode_array_items {n : Node} {count : Nat} {rest : List Nat} (hn : n.dims = count :: rest)
    (hrow : ¬(n.isChar = true ∧ rest = [])) (h : n.decode w e offset buffer = .ok d) :
    ∃ items, d = .array n.hints items ∧ items.length = count ∧
      ∀ i, i < count → ∃ size item, n.element.byteSize w = .ok size ∧ items[i]? = some item ∧
        n.element.decode w e (offset + i * size) buffer = .ok item := by
  obtain ⟨total, htotal, hfits, rfl⟩ := decode_eq_ok.1 h
  refine ⟨_, dataAt_array hn hrow _, by simp, ?_⟩
  intro i hi
  obtain ⟨size, hsize, hmul⟩ := byteSize_element hn (by omega) htotal
  have hexact := byteSize_eq_exactSize hsize
  have hlast : (i+1) * size ≤ count * size := Nat.mul_le_mul_right size hi
  have hroom : size ≤ buffer.length - (offset + i * size) := by
    rw [Nat.succ_mul] at hlast
    omega
  refine ⟨size, _, hsize, ?_, decode_of_fits hsize hroom⟩
  rw [List.getElem?_map, List.getElem?_range hi, Option.map_some, List.drop_drop, hexact]

theorem decode_row {t : String} {count : Nat} {hints : Hints}
    (h : (Node.leaf t (.primitive .char) [count] hints).decode w e offset buffer = .ok d) :
    count ≤ buffer.length - offset ∧
      d = .scalar hints (.text (rowText ((buffer.drop offset).take count))) := by
  obtain ⟨size, hsize, hfits, rfl⟩ := decode_eq_ok.1 h
  have hexact := byteSize_eq_exactSize hsize
  simp only [exactSize, List.foldl_cons, List.foldl_nil, Nat.one_mul, Leaf.size, Leaf.code,
    Leaf.primitiveOf, Primitive.code, Code.size] at hexact
  exact ⟨by omega, by simp only [dataAt, charactersAt]⟩

/-- Every part of a decoded value is decoded by itself at its own offset: the fields of a struct that
are no fillers, the elements of an array, and the text of a row of characters. -/
theorem decode_compositional {n : Node} (h : n.decode w e offset buffer = .ok d) :
    (∀ t fs hints, n = .struct t fs [] hints →
      ∃ values, d = .struct hints t values ∧
        values.map Prod.fst = (fs.filter fun f => !f.2.isPadding).map Prod.fst ∧
        ∀ before name child after, fs = before ++ (name, child) :: after → child.isPadding = false →
          ∃ sizes value, before.mapM (fun f => f.2.byteSize w) = .ok sizes ∧
            values[(before.filter fun f => !f.2.isPadding).length]? = some (name, value) ∧
            child.decode w e (offset + sizes.sum) buffer = .ok value) ∧
    (∀ count rest, n.dims = count :: rest → ¬(n.isChar = true ∧ rest = []) →
      ∃ items, d = .array n.hints items ∧ items.length = count ∧
        ∀ i, i < count → ∃ size item, n.element.byteSize w = .ok size ∧ items[i]? = some item ∧
          n.element.decode w e (offset + i * size) buffer = .ok item) ∧
    (∀ t count hints, n = .leaf t (.primitive .char) [count] hints →
      count ≤ buffer.length - offset ∧
        d = .scalar hints (.text (rowText ((buffer.drop offset).take count)))) := by
  refine ⟨?_, ?_, ?_⟩
  · intro t fs hints hn
    subst hn
    exact decode_struct_fields h
  · intro count rest hn hrow
    exact decode_array_items hn hrow h
  · intro t count hints hn
    subst hn
    exact decode_row h

/-- The filler shifts the bytes of the field after it, and is no value itself. -/
theorem decode_compositional_filler :
    ∃ d values value,
      (Node.struct "Point" [("x", .leaf "short" (.primitive .s16) [] .none),
        ("gap", .leaf "padding" (.primitive .padding) [] .none),
        ("tag", .leaf "char" (.primitive .char) [2] .none)] [] .none).decode .w64 .big 1
          [9, 0, 5, 7, 0x61, 0x62] = .ok d ∧
      d = .struct .none "Point" values ∧ values.map Prod.fst = ["x", "tag"] ∧
      values[1]? = some ("tag", value) ∧
      (Node.leaf "char" (.primitive .char) [2] .none).decode .w64 .big (1 + 3)
        [9, 0, 5, 7, 0x61, 0x62] = .ok value := by
  obtain ⟨d, hd⟩ := exists_of_isOk (by decide +kernel : ((Node.struct "Point"
    [("x", .leaf "short" (.primitive .s16) [] .none), ("gap", .leaf "padding" (.primitive .padding) [] .none),
      ("tag", .leaf "char" (.primitive .char) [2] .none)] [] .none).decode .w64 .big 1
        [9, 0, 5, 7, 0x61, 0x62]).isOk = true)
  obtain ⟨values, hvalues, hnames, hfields⟩ := (decode_compositional hd).1 _ _ _ rfl
  obtain ⟨sizes, value, hsizes, hvalue, hchild⟩ :=
    hfields [("x", .leaf "short" (.primitive .s16) [] .none),
      ("gap", .leaf "padding" (.primitive .padding) [] .none)] "tag" _ [] rfl rfl
  cases hsizes
  exact ⟨d, values, value, hd, hvalues, hnames, hvalue, hchild⟩

end Decoded

end Node

end PackedStruct
