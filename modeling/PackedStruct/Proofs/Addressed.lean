import PackedStruct.Proofs.Unpack
/-!
Decoding by address. `Node.dataAt` reads every part of a value straight from the bytes at its own
offset, and nothing is handed from one part to the next. Putting the unpacked scalars together along
the type yields the same data and takes exactly the scalars of the type.
-/

namespace PackedStruct

/-- Arrays of arrays around `element`, where elements stand `size` bytes apart. -/
def arraysAt (h : Hints) (size : Nat) (element : List UInt8 → Data) : List Nat → List UInt8 → Data
  | [], bytes => element bytes
  | d :: ds, bytes =>
    .array h ((List.range d).map fun i => arraysAt h size element ds (bytes.drop (i * (size * ds.prod))))

/-- Characters: a row of them is one text. -/
def charactersAt (h : Hints) : List Nat → List UInt8 → Data
  | [], bytes => .scalar h (.char (bytes.headD 0))
  | [n], bytes => .scalar h (.text (rowText (bytes.take n)))
  | d :: d' :: ds, bytes =>
    .array h ((List.range d).map fun i => charactersAt h (d' :: ds) (bytes.drop (i * (d' :: ds).prod)))

/-- A single slot; there is nothing in a filler. -/
def Leaf.dataAt (w : BitWidth) (e : Endian) (h : Hints) (l : Leaf) (bytes : List UInt8) : Data :=
  .scalar h (((l.code w).scalar? (e.toNat (bytes.take (l.size w)))).getD .null)

theorem Leaf.code_eq_pad {w : BitWidth} (l : Leaf) : l.code w = .pad ↔ l = .primitive .padding := by
  cases l with
  | pointer depth => simp [Leaf.code, Leaf.primitiveOf, Primitive.code_eq_pad]
  | primitive p => simp [Leaf.code, Leaf.primitiveOf, Primitive.code_eq_pad]

theorem Code.scalar?_of_ne_pad {c : Code} (h : c ≠ .pad) (n : Nat) : ∃ s, c.scalar? n = some s := by
  cases c <;> simp_all [Code.scalar?]

namespace Node

mutual

/-- The value that starts at the first byte. -/
def dataAt (w : BitWidth) (e : Endian) : Node → List UInt8 → Data
  | .leaf _ (.primitive .char) ds h, bytes => charactersAt h ds bytes
  | .leaf _ l ds h, bytes => arraysAt h (l.size w) (l.dataAt w e h) ds bytes
  | .struct t fs ds h, bytes =>
    arraysAt h (exactFieldsSize w fs) (fun bytes => .struct h t (fieldsAt w e fs bytes)) ds bytes

/-- The fields of a struct, each after the bytes of all those before it. -/
def fieldsAt (w : BitWidth) (e : Endian) : List (String × Node) → List UInt8 → List (String × Data)
  | [], _ => []
  | (name, n) :: fs, bytes =>
    if n.isPadding then fieldsAt w e fs (bytes.drop (n.exactSize w))
    else (name, n.dataAt w e bytes) :: fieldsAt w e fs (bytes.drop (n.exactSize w))

end

theorem dataAt_leaf {w : BitWidth} {e : Endian} {t : String} {l : Leaf} {ds : List Nat} {h : Hints}
    (hc : l ≠ .primitive .char) :
    (Node.leaf t l ds h).dataAt w e = arraysAt h (l.size w) (l.dataAt w e h) ds := by
  funext bytes
  rw [dataAt]
  simpa using hc

theorem dataAt_struct (w : BitWidth) (e : Endian) (t : String) (fs : List (String × Node))
    (ds : List Nat) (h : Hints) :
    (Node.struct t fs ds h).dataAt w e =
      arraysAt h (exactFieldsSize w fs) (fun bytes => .struct h t (fieldsAt w e fs bytes)) ds := by
  funext bytes
  rw [dataAt]

theorem assemble_leaf {t : String} {l : Leaf} {ds : List Nat} {h : Hints}
    (hc : l ≠ .primitive .char) :
    (Node.leaf t l ds h).assemble = Taker.nested h (Taker.leaf h l) ds := by
  funext scalars
  rw [assemble]
  simpa using hc

theorem scalarsAt_of_isPadding (e : Endian) (w : BitWidth) (bytes : List UInt8) {n : Node}
    (h : n.isPadding = true) : scalarsAt e bytes (n.codes w) = [] := by
  have hpads : ∀ k bytes, scalarsAt e bytes (repeatCodes k [.pad]) = [] := by
    intro k
    induction k with
    | zero => intro bytes; rfl
    | succ k ih =>
      intro bytes
      rw [repeatCodes_succ, scalarsAt_append, ih, List.append_nil]
      rfl
  cases n with
  | leaf t l ds hints =>
    have hl : l = .primitive .padding := by
      unfold isPadding at h
      split at h <;> simp_all
    subst hl
    exact hpads _ bytes
  | struct t fs ds hints => simp [isPadding] at h

end Node

namespace Taker

variable {α : Type} {e : Endian} {cs : List Code}

/-- Off the scalars of the slots `cs`, and whatever follows them, the taker takes just those scalars. -/
def Reads (e : Endian) (t : Taker α) (cs : List Code) (value : List UInt8 → α) : Prop :=
  ∀ bytes rest, t (scalarsAt e bytes cs ++ rest) = some (value bytes, rest)

theorem Reads.times {t : Taker α} {value : List UInt8 → α} (h : Reads e t cs value) (n : Nat) :
    Reads e (t.times n) (repeatCodes n cs)
      (fun bytes => (List.range n).map fun i => value (bytes.drop (i * codesWidth cs))) := by
  induction n with
  | zero =>
    intro bytes rest
    rfl
  | succ n ih =>
    intro bytes rest
    have hfirst := h bytes (scalarsAt e (bytes.drop (codesWidth cs)) (repeatCodes n cs) ++ rest)
    have hothers := ih (bytes.drop (codesWidth cs)) rest
    rw [repeatCodes_succ, scalarsAt_append, List.append_assoc]
    simp only [Taker.times, hfirst, hothers, Option.bind_eq_bind, Option.bind_some, Option.pure_def]
    simp [List.range_succ_eq_map, Nat.succ_mul, Nat.add_comm, Function.comp_def]

theorem Reads.nested {h : Hints} {t : Taker Data} {element : List UInt8 → Data}
    (ht : Reads e t cs element) (ds : List Nat) :
    Reads e (nested h t ds) (repeatCodes ds.prod cs) (arraysAt h (codesWidth cs) element ds) := by
  induction ds with
  | nil =>
    intro bytes rest
    rw [List.prod_nil, repeatCodes_one]
    exact ht bytes rest
  | cons d ds ih =>
    intro bytes rest
    have hitems := ih.times d bytes rest
    rw [codesWidth_repeatCodes] at hitems
    rw [List.prod_cons, repeatCodes_mul]
    simp [Taker.nested, hitems, arraysAt]

theorem reads_byte : Reads e byte [.char] (fun bytes => bytes.headD 0) := by
  intro bytes rest
  cases bytes <;> cases e <;> simp [scalarsAt, Code.scalar?, Code.size, Endian.toNat, byte]

/-- Past the end of the bytes a row reads zeros, and so its text does not change. -/
theorem rowText_of_heads (n : Nat) (bytes : List UInt8) :
    rowText ((List.range n).map fun i => (bytes.drop i).headD 0) = rowText (bytes.take n) := by
  have hpadded : ((List.range n).map fun i => (bytes.drop i).headD 0) =
      bytes.take n ++ List.replicate (n - bytes.length) 0 := by
    induction n generalizing bytes with
    | zero => simp
    | succ n ih =>
      rw [List.range_succ_eq_map]
      cases bytes with
      | nil => simp [Function.comp_def, List.replicate_succ]
      | cons b bytes => simpa [Function.comp_def, Nat.succ_sub_succ] using ih bytes
  have hzeros : ∀ (k : Nat) (l : List UInt8),
      (l ++ List.replicate k 0).takeWhile (· != 0) = l.takeWhile (· != 0) := by
    intro k l
    induction l with
    | nil => cases k <;> simp [List.replicate_succ]
    | cons b l ih => simp [List.takeWhile_cons, ih]
  rw [hpadded, rowText, rowText, hzeros]

theorem reads_characters (h : Hints) (ds : List Nat) :
    Reads e (characters h ds) (repeatCodes ds.prod [.char]) (charactersAt h ds) := by
  induction ds with
  | nil =>
    intro bytes rest
    cases bytes <;> cases e <;>
      simp [scalarsAt, Code.scalar?, Code.size, Endian.toNat, characters, one, charactersAt]
  | cons d ds ih =>
    intro bytes rest
    cases ds with
    | nil =>
      have hrow := reads_byte.times (e := e) d bytes rest
      simp only [codesWidth_cons, codesWidth_nil, Code.size, Nat.add_zero, Nat.mul_one] at hrow
      rw [List.prod_singleton]
      simp only [characters, charactersAt, hrow, Option.bind_eq_bind, Option.bind_some, Option.pure_def,
        rowText_of_heads]
    | cons d' ds =>
      have hitems := ih.times d bytes rest
      simp only [codesWidth_repeatCodes, codesWidth_cons, codesWidth_nil, Code.size, Nat.add_zero,
        Nat.one_mul] at hitems
      rw [List.prod_cons, repeatCodes_mul]
      simp only [characters, charactersAt, hitems, Option.bind_eq_bind, Option.bind_some, Option.pure_def]

theorem leaf_cons {h : Hints} {l : Leaf} (hp : l ≠ .primitive .padding) (s : Scalar)
    (rest : List Scalar) : leaf h l (s :: rest) = some (.scalar h s, rest) := by
  unfold leaf
  split
  · exact absurd rfl hp
  · rfl

theorem reads_leaf (w : BitWidth) (h : Hints) (l : Leaf) :
    Reads e (leaf h l) [l.code w] (l.dataAt w e h) := by
  intro bytes rest
  by_cases hp : l = .primitive .padding
  · subst hp
    rfl
  · have hcode : l.code w ≠ .pad := fun hc => hp (l.code_eq_pad.1 hc)
    obtain ⟨s, hs⟩ := Code.scalar?_of_ne_pad hcode (e.toNat (bytes.take (l.size w)))
    rw [Leaf.size] at hs
    simp only [scalarsAt, hs, Option.toList_some, List.cons_append, List.nil_append, leaf_cons hp,
      Leaf.dataAt, Leaf.size, Option.getD_some]

end Taker

namespace Node

variable {e : Endian} {w : BitWidth}

theorem reads_fields {fs : List (String × Node)}
    (ih : ∀ f ∈ fs, Taker.Reads e f.2.assemble (f.2.codes w) (f.2.dataAt w e)) :
    Taker.Reads e (assembleFields fs) (fieldsCodes w fs) (fieldsAt w e fs) := by
  induction fs with
  | nil =>
    intro bytes rest
    rfl
  | cons f fs ihs =>
    intro bytes rest
    obtain ⟨name, n⟩ := f
    have hothers := ihs (fun g hg => ih g (by simp [hg])) (bytes.drop (n.exactSize w)) rest
    rw [fieldsCodes, scalarsAt_append, codesWidth_codes, List.append_assoc]
    cases hp : n.isPadding with
    | true =>
      have hnone := scalarsAt_of_isPadding e w bytes hp
      simp only [assembleFields, fieldsAt, hp, if_true, hnone, List.nil_append, hothers]
    | false =>
      have hfirst := ih (name, n) (by simp) bytes
        (scalarsAt e (bytes.drop (n.exactSize w)) (fieldsCodes w fs) ++ rest)
      simp only [assembleFields, fieldsAt, hp, Bool.false_eq_true, if_false, hfirst, hothers,
        Option.bind_eq_bind, Option.bind_some, Option.pure_def]

/-- Assembling takes exactly the scalars of the type, and yields what stands at their addresses. -/
theorem reads_assemble (w : BitWidth) (e : Endian) (n : Node) :
    Taker.Reads e n.assemble (n.codes w) (n.dataAt w e) := by
  induction n with
  | leaf t l ds h =>
    intro bytes rest
    rw [codes, foldl_mul_one]
    by_cases hc : l = .primitive .char
    · subst hc
      rw [assemble, dataAt]
      exact Taker.reads_characters h ds bytes rest
    · have hnested := (Taker.reads_leaf (e := e) w h l).nested (h := h) ds bytes rest
      rw [codesWidth_cons, codesWidth_nil, Nat.add_zero] at hnested
      rw [assemble_leaf hc, dataAt_leaf hc]
      exact hnested
  | struct t fs ds h ih =>
    have hfields := reads_fields (fun f hf => ih f hf)
    have hwidth := codesWidth_fieldsCodes (fun f (_ : f ∈ fs) => codesWidth_codes w f.2)
    intro bytes rest
    rw [codes, foldl_mul_one, dataAt_struct, ← hwidth, assemble]
    apply Taker.Reads.nested
    intro bytes rest
    simp only [hfields bytes rest, Option.bind_eq_bind, Option.bind_some, Option.pure_def]

variable {n : Node} {offset size : Nat} {buffer : List UInt8}

theorem decode_of_short (h : n.byteSize w = .ok size) (hs : buffer.length - offset < size) :
    n.decode w e offset buffer = .error (.truncated offset size (buffer.length - offset)) := by
  simp [decode, h, hs, bind, Except.bind, throw, throwThe, MonadExceptOf.throw]

/-- What is unpacked from a long enough buffer has the shape of the type. -/
theorem assemble_unpacked (h : n.byteSize w = .ok size) (hs : size ≤ buffer.length - offset) :
    ∃ scalars, unpack e offset (buffer.drop offset) (n.codes w) = .ok scalars ∧
      n.assemble scalars = some (n.dataAt w e (buffer.drop offset), []) := by
  have hwidth : codesWidth (n.codes w) ≤ (buffer.drop offset).length := by
    rw [codesWidth_codes, ← byteSize_eq_exactSize h, List.length_drop]
    exact hs
  have htaken := reads_assemble w e n (buffer.drop offset) []
  rw [List.append_nil] at htaken
  exact ⟨_, unpack_eq_scalarsAt hwidth, htaken⟩

theorem decode_of_fits (h : n.byteSize w = .ok size) (hs : size ≤ buffer.length - offset) :
    n.decode w e offset buffer = .ok (n.dataAt w e (buffer.drop offset)) := by
  obtain ⟨scalars, hunpack, hassemble⟩ := assemble_unpacked (e := e) h hs
  have hall : n.assembleAll scalars = .ok (n.dataAt w e (buffer.drop offset)) := by
    simp only [assembleAll, hassemble]
  simp [decode, h, Nat.not_lt.2 hs, hunpack, hall, bind, Except.bind]

/-- Decoding is reading by address, once the size has been checked. -/
theorem decode_eq_ok {d : Data} : n.decode w e offset buffer = .ok d ↔
    ∃ size, n.byteSize w = .ok size ∧ size ≤ buffer.length - offset ∧
      d = n.dataAt w e (buffer.drop offset) := by
  constructor
  · intro h
    obtain ⟨size, hsize, _⟩ := bind_eq_ok.1 h
    by_cases hs : size ≤ buffer.length - offset
    · rw [decode_of_fits hsize hs] at h
      cases h
      exact ⟨size, hsize, hs, rfl⟩
    · rw [decode_of_short hsize (by omega)] at h
      cases h
  · rintro ⟨size, hsize, hs, rfl⟩
    exact decode_of_fits hsize hs

end Node

end PackedStruct
