import PackedStruct.Proofs.Layout
import PackedStruct.Proofs.Leaves
/-!
Which bytes a decoded value depends on: those of its window that belong to slots and are no filler.
Where none of them is a boolean or in a row of characters, the value gives them all back.
-/

namespace PackedStruct

/-- Whether the byte at `i` belongs to a slot that is no filler. -/
def Covers (cs : List Code) (i : Nat) : Prop :=
  ∃ before c after, cs = before ++ c :: after ∧ c ≠ .pad ∧
    codesWidth before ≤ i ∧ i < codesWidth before + c.size

theorem covers_cons {c : Code} {cs : List Code} {i : Nat} :
    Covers (c :: cs) i ↔ (c ≠ .pad ∧ i < c.size) ∨ (c.size ≤ i ∧ Covers cs (i - c.size)) := by
  constructor
  · rintro ⟨before, d, after, heq, hpad, hlo, hhi⟩
    cases before with
    | nil =>
      cases heq
      exact .inl ⟨hpad, by simpa using hhi⟩
    | cons first before =>
      cases heq
      rw [codesWidth_cons] at hlo hhi
      exact .inr ⟨by omega, before, d, after, rfl, hpad, by omega, by omega⟩
  · rintro (⟨hpad, hhi⟩ | ⟨hsize, before, d, after, rfl, hpad, hlo, hhi⟩)
    · exact ⟨[], c, cs, rfl, hpad, Nat.zero_le _, by simpa using hhi⟩
    · refine ⟨c :: before, d, after, rfl, hpad, ?_, ?_⟩ <;> rw [codesWidth_cons] <;> omega

/-- The bytes of two windows are the same wherever a value is read. -/
def Agree (cs : List Code) (bytes bytes' : List UInt8) : Prop :=
  ∀ i, Covers cs i → bytes[i]? = bytes'[i]?

theorem take_eq_take_iff {k : Nat} {bytes bytes' : List UInt8} :
    bytes.take k = bytes'.take k ↔ ∀ i, i < k → bytes[i]? = bytes'[i]? := by
  constructor
  · intro h i hi
    rw [← List.getElem?_take_of_lt hi, h, List.getElem?_take_of_lt hi]
  · intro h
    apply List.ext_getElem?
    intro i
    rw [List.getElem?_take, List.getElem?_take]
    split
    · next hi => exact h i hi
    · rfl

theorem agree_nil (bytes bytes' : List UInt8) : Agree [] bytes bytes' := by
  rintro i ⟨before, c, after, heq, -⟩
  simp at heq

/-- Two windows agree if they do on the first slot, unless it is filler, and on all others. -/
theorem agree_cons {c : Code} {cs : List Code} {bytes bytes' : List UInt8} :
    Agree (c :: cs) bytes bytes' ↔
      (c ≠ .pad → bytes.take c.size = bytes'.take c.size) ∧
        Agree cs (bytes.drop c.size) (bytes'.drop c.size) := by
  simp only [take_eq_take_iff, Agree, List.getElem?_drop]
  constructor
  · intro h
    refine ⟨fun hpad i hi => h i (covers_cons.2 (.inl ⟨hpad, hi⟩)), fun i hi => ?_⟩
    have hrest : Covers cs (c.size + i - c.size) := by rwa [Nat.add_sub_cancel_left]
    exact h _ (covers_cons.2 (.inr ⟨Nat.le_add_right .., hrest⟩))
  · rintro ⟨hfirst, hrest⟩ i hi
    rcases covers_cons.1 hi with ⟨hpad, hlt⟩ | ⟨hle, hcover⟩
    · exact hfirst hpad i hlt
    · have hbyte := hrest _ hcover
      rwa [Nat.add_sub_cancel' hle] at hbyte

/-- Fillers and whatever follows the slots do not count. -/
theorem Agree.scalarsAt {cs : List Code} {bytes bytes' : List UInt8} (h : Agree cs bytes bytes')
    (e : Endian) : scalarsAt e bytes cs = scalarsAt e bytes' cs := by
  induction cs generalizing bytes bytes' with
  | nil => rfl
  | cons c cs ih =>
    obtain ⟨hfirst, hrest⟩ := agree_cons.1 h
    rw [PackedStruct.scalarsAt, PackedStruct.scalarsAt, ih hrest]
    by_cases hpad : c = .pad
    · subst hpad
      rfl
    · rw [hfirst hpad]

namespace Endian

theorem toNat_big (bytes : List UInt8) : big.toNat bytes = little.toNat bytes.reverse := by
  simp [toNat, List.foldr_reverse, Nat.add_comm]

theorem toNat_little_inj {bytes bytes' : List UInt8} (hlength : bytes.length = bytes'.length)
    (h : little.toNat bytes = little.toNat bytes') : bytes = bytes' := by
  induction bytes generalizing bytes' with
  | nil => rw [List.length_eq_zero_iff.1 hlength.symm]
  | cons b bytes ih =>
    cases bytes' with
    | nil => simp at hlength
    | cons b' bytes' =>
      change b.toNat + 256 * little.toNat bytes = b'.toNat + 256 * little.toNat bytes' at h
      have hlt : b.toNat < 256 := b.toNat_lt
      have hlt' : b'.toNat < 256 := b'.toNat_lt
      have hbyte : b = b' := UInt8.toNat_inj.1 (by omega)
      have hrest : bytes = bytes' := ih (by simpa using hlength) (by omega)
      rw [hbyte, hrest]

/-- Each byte is a digit of the number. -/
theorem toNat_inj {e : Endian} {bytes bytes' : List UInt8} (hlength : bytes.length = bytes'.length)
    (h : e.toNat bytes = e.toNat bytes') : bytes = bytes' := by
  cases e with
  | little => exact toNat_little_inj hlength h
  | big =>
    rw [toNat_big, toNat_big] at h
    exact List.reverse_injective (toNat_little_inj (by simpa using hlength) h)

theorem toNat_little_lt (bytes : List UInt8) : little.toNat bytes < 2^(8*bytes.length) := by
  induction bytes with
  | nil => decide
  | cons b bytes ih =>
    change b.toNat + 256 * little.toNat bytes < 2^(8*(bytes.length+1))
    have hlt : b.toNat < 256 := b.toNat_lt
    rw [Nat.mul_succ, Nat.pow_add]
    omega

theorem toNat_lt (e : Endian) (bytes : List UInt8) : e.toNat bytes < 2^(8*bytes.length) := by
  cases e with
  | little => exact toNat_little_lt bytes
  | big =>
    rw [toNat_big, ← List.length_reverse]
    exact toNat_little_lt _

end Endian

theorem twosComplement_inj {size m n : Nat} (hm : m < 2^(8*size)) (hn : n < 2^(8*size))
    (h : twosComplement size m = twosComplement size n) : m = n := by
  change m < Nat.pow 2 (8*size) at hm
  change n < Nat.pow 2 (8*size) at hn
  unfold twosComplement at h
  split at h <;> split at h <;> omega

namespace Code

/-- A slot that is no boolean tells its bytes apart. -/
theorem scalar?_inj {c : Code} (hpad : c ≠ .pad) (hbool : c ≠ .bool) {m n : Nat}
    (hm : m < 2^(8*c.size)) (hn : n < 2^(8*c.size)) (h : c.scalar? m = c.scalar? n) : m = n := by
  cases c with
  | pad => exact absurd rfl hpad
  | bool => exact absurd rfl hbool
  | u8 | u16 | u32 | u64 | ptr32 | ptr64 => simpa [scalar?] using h
  | i8 | i16 | i32 | i64 => exact twosComplement_inj hm hn (by simpa [scalar?] using h)
  | char =>
    have hbyte : UInt8.ofNat m = UInt8.ofNat n := by simpa [scalar?] using h
    have hnat := congrArg UInt8.toNat hbyte
    rwa [UInt8.toNat_ofNat_of_lt' hm, UInt8.toNat_ofNat_of_lt' hn] at hnat
  | f32 =>
    have hbits : UInt32.ofNat m = UInt32.ofNat n := by simpa [scalar?] using h
    have hnat := congrArg UInt32.toNat hbits
    rwa [UInt32.toNat_ofNat_of_lt' hm, UInt32.toNat_ofNat_of_lt' hn] at hnat
  | f64 =>
    have hbits : UInt64.ofNat m = UInt64.ofNat n := by simpa [scalar?] using h
    have hnat := congrArg UInt64.toNat hbits
    rwa [UInt64.toNat_ofNat_of_lt' hm, UInt64.toNat_ofNat_of_lt' hn] at hnat

theorem take_eq_of_scalar? {e : Endian} {c : Code} (hpad : c ≠ .pad) (hbool : c ≠ .bool)
    {bytes bytes' : List UInt8} (hlength : c.size ≤ bytes.length) (hlength' : c.size ≤ bytes'.length)
    (h : c.scalar? (e.toNat (bytes.take c.size)) = c.scalar? (e.toNat (bytes'.take c.size))) :
    bytes.take c.size = bytes'.take c.size := by
  have hsize : (bytes.take c.size).length = c.size := List.length_take_of_le hlength
  have hsize' : (bytes'.take c.size).length = c.size := List.length_take_of_le hlength'
  have hlt := e.toNat_lt (bytes.take c.size)
  have hlt' := e.toNat_lt (bytes'.take c.size)
  rw [hsize] at hlt
  rw [hsize'] at hlt'
  exact Endian.toNat_inj (hsize.trans hsize'.symm) (scalar?_inj hpad hbool hlt hlt' h)

end Code

/-- Without booleans, equal scalars stand for equal bytes. -/
theorem agree_of_scalarsAt {e : Endian} {cs : List Code} (hbool : Code.bool ∉ cs)
    {bytes bytes' : List UInt8} (hlength : codesWidth cs ≤ bytes.length)
    (hlength' : codesWidth cs ≤ bytes'.length) (h : scalarsAt e bytes cs = scalarsAt e bytes' cs) :
    Agree cs bytes bytes' := by
  induction cs generalizing bytes bytes' with
  | nil => exact agree_nil _ _
  | cons c cs ih =>
    rw [codesWidth_cons] at hlength hlength'
    have hfirst : c ≠ .bool := fun hc => hbool (by simp [hc])
    have hrest : Code.bool ∉ cs := fun hc => hbool (by simp [hc])
    have hothers : scalarsAt e (bytes.drop c.size) cs = scalarsAt e (bytes'.drop c.size) cs →
        Agree cs (bytes.drop c.size) (bytes'.drop c.size) := by
      apply ih hrest <;> rw [List.length_drop] <;> omega
    rw [agree_cons]
    simp only [scalarsAt] at h
    by_cases hpad : c = .pad
    · subst hpad
      exact ⟨fun hc => absurd rfl hc, hothers h⟩
    · obtain ⟨s, hs⟩ := Code.scalar?_of_ne_pad hpad (e.toNat (bytes.take c.size))
      obtain ⟨s', hs'⟩ := Code.scalar?_of_ne_pad hpad (e.toNat (bytes'.take c.size))
      rw [hs, hs'] at h
      obtain ⟨hscalar, hscalars⟩ := List.cons.inj h
      have hsame : c.scalar? (e.toNat (bytes.take c.size)) = c.scalar? (e.toNat (bytes'.take c.size)) := by
        rw [hs, hs', hscalar]
      exact ⟨fun _ => Code.take_eq_of_scalar? hpad hfirst (by omega) (by omega) hsame, hothers hscalars⟩

theorem Leaf.eq_bool_of_code {w : BitWidth} {l : Leaf} (h : l.code w = .bool) :
    l = .primitive .bool := by
  cases l with
  | pointer depth => cases w <;> cases h
  | primitive p => cases w <;> cases p <;> first | rfl | cases h

/-- Where no leaf is a row of characters the scalars can be told from the leaves. -/
theorem Shown.unique {ps : List Place} {scalars scalars' leaves : List Scalar}
    (h : Shown ps scalars leaves) (h' : Shown ps scalars' leaves) (hrow : ∀ k, .row k ∉ ps) :
    scalars = scalars' := by
  induction h generalizing scalars' with
  | nil =>
    cases h'
    rfl
  | slot s _ ih =>
    cases h' with
    | slot _ h' => rw [ih h' fun k hk => hrow k (by simp [hk])]
  | row bytes => exact absurd (by simp) (hrow bytes.length)
  | filler _ ih =>
    cases h' with
    | filler h' => exact ih h' fun k hk => hrow k (by simp [hk])

namespace Node

/-- No leaf of the type is a boolean or a row of characters, in which bytes are confused. -/
def Lossless (n : Node) : Prop :=
  ∀ t l ds h, .leaf t l ds h ∈ n.subnodes → l ≠ .primitive .bool ∧ (l = .primitive .char → ds = [])

variable {t : String} {fs : List (String × Node)} {ds : List Nat} {h : Hints}

theorem Lossless.leaf {l : Leaf} (hn : (Node.leaf t l ds h).Lossless) :
    l ≠ .primitive .bool ∧ (l = .primitive .char → ds = []) := hn t l ds h (by simp [subnodes])

theorem Lossless.field (hn : (Node.struct t fs ds h).Lossless) {f : String × Node} (hf : f ∈ fs) :
    f.2.Lossless := by
  intro t' l ds' h' hleaf
  have hbelow : .leaf t' l ds' h' ∈ fieldsSubnodes fs := mem_fieldsSubnodes.2 ⟨f, hf, hleaf⟩
  exact hn t' l ds' h' (by simp [subnodes, hbelow])

theorem mem_fieldsSlots {l : Leaf} : l ∈ fieldsSlots fs ↔ ∃ f ∈ fs, l ∈ f.2.slots := by
  induction fs with
  | nil => simp [fieldsSlots]
  | cons f fs ih => simp [fieldsSlots, ih]

theorem Lossless.bool_not_mem {n : Node} (hn : n.Lossless) (w : BitWidth) : .bool ∉ n.codes w := by
  have hslots : ∀ l ∈ n.slots, l ≠ .primitive .bool := by
    induction n with
    | leaf t l ds h =>
      intro l' hl'
      rw [slots, List.mem_replicate] at hl'
      rw [hl'.2]
      exact hn.leaf.1
    | struct t fs ds h ih =>
      intro l hl
      obtain ⟨part, hpart, hl⟩ := List.mem_flatten.1 hl
      rw [List.mem_replicate] at hpart
      rw [hpart.2] at hl
      obtain ⟨f, hf, hl⟩ := mem_fieldsSlots.1 hl
      exact ih f hf (hn.field hf) l hl
  rw [codes_eq_map_slots]
  intro hbool
  obtain ⟨l, hl, hcode⟩ := List.mem_map.1 hbool
  exact hslots l hl (Leaf.eq_bool_of_code hcode)

theorem mem_fieldsPlaces {p : Place} (hp : p ∈ fieldsPlaces fs) : ∃ f ∈ fs, p ∈ f.2.places := by
  induction fs with
  | nil => simp [fieldsPlaces] at hp
  | cons f fs ih =>
    rw [fieldsPlaces] at hp
    split at hp
    · obtain ⟨g, hg, hplace⟩ := ih hp
      exact ⟨g, List.mem_cons_of_mem _ hg, hplace⟩
    · rcases List.mem_append.1 hp with hp | hp
      · exact ⟨f, List.mem_cons_self, hp⟩
      · obtain ⟨g, hg, hplace⟩ := ih hp
        exact ⟨g, List.mem_cons_of_mem _ hg, hplace⟩

theorem Lossless.row_not_mem {n : Node} (hn : n.Lossless) (k : Nat) : .row k ∉ n.places := by
  induction n with
  | leaf t l ds h =>
    have hdims := hn.leaf.2
    rw [places]
    unfold Leaf.places
    split
    · simp [hdims rfl]
    · simp
    · simp
  | struct t fs ds h ih =>
    intro hrow
    rw [places] at hrow
    obtain ⟨part, hpart, hrow⟩ := List.mem_flatten.1 hrow
    rw [List.mem_replicate] at hpart
    rw [hpart.2] at hrow
    obtain ⟨f, hf, hrow⟩ := mem_fieldsPlaces hrow
    exact ih f hf (hn.field hf) hrow

variable {n : Node} {w : BitWidth} {e : Endian} {offset offset' size : Nat}
  {buffer buffer' : List UInt8}

theorem codesWidth_le_length (hsize : n.byteSize w = .ok size)
    (hfits : size ≤ buffer.length - offset) : codesWidth (n.codes w) ≤ (buffer.drop offset).length := by
  rw [codesWidth_codes, ← byteSize_eq_exactSize hsize, List.length_drop]
  exact hfits

/-- Values that show the same leaves were put together from the same scalars. -/
theorem scalarsAt_eq_of_dataAt_eq (hn : n.Lossless) {bytes bytes' : List UInt8}
    (h : n.dataAt w e bytes = n.dataAt w e bytes') :
    scalarsAt e bytes (n.codes w) = scalarsAt e bytes' (n.codes w) := by
  have htaken := reads_assemble w e n bytes []
  have htaken' := reads_assemble w e n bytes' []
  rw [List.append_nil] at htaken htaken'
  obtain ⟨taken, htotal, hshown⟩ := shows_assemble n _ _ _ htaken
  obtain ⟨taken', htotal', hshown'⟩ := shows_assemble n _ _ _ htaken'
  rw [List.append_nil] at htotal htotal'
  rw [htotal, htotal']
  rw [h] at hshown
  exact hshown.unique hshown' hn.row_not_mem

/-- Two decoded values are equal if their windows agree on all bytes of slots that are no filler,
whatever else stands in the buffers and wherever the windows are. Equal values without booleans and
rows of characters come from windows that do. -/
theorem decode_window (hsize : n.byteSize w = .ok size) (hfits : size ≤ buffer.length - offset)
    (hfits' : size ≤ buffer'.length - offset') :
    ∃ d d', n.decode w e offset buffer = .ok d ∧ n.decode w e offset' buffer' = .ok d' ∧
      ((∀ i, Covers (n.codes w) i → buffer[offset + i]? = buffer'[offset' + i]?) → d = d') ∧
      (n.Lossless → d = d' →
        ∀ i, Covers (n.codes w) i → buffer[offset + i]? = buffer'[offset' + i]?) := by
  refine ⟨_, _, decode_of_fits hsize hfits, decode_of_fits hsize hfits', ?_, ?_⟩
  · intro hagree
    have hwindow : Agree (n.codes w) (buffer.drop offset) (buffer'.drop offset') := by
      intro i hi
      rw [List.getElem?_drop, List.getElem?_drop]
      exact hagree i hi
    have htaken := reads_assemble w e n (buffer.drop offset) []
    rw [hwindow.scalarsAt e, reads_assemble w e n (buffer'.drop offset') []] at htaken
    exact (Prod.mk.inj (Option.some.inj htaken)).1.symm
  · intro hn hdata i hi
    have hscalars := scalarsAt_eq_of_dataAt_eq hn hdata
    have hwindow := agree_of_scalarsAt (hn.bool_not_mem w) (codesWidth_le_length hsize hfits)
      (codesWidth_le_length hsize hfits') hscalars i hi
    rwa [List.getElem?_drop, List.getElem?_drop] at hwindow

/-- The windows differ in the filler between a number and a pointer, and so do the bytes around. -/
theorem decode_window_filler :
    let n : Node := .struct "Link" [("x", .leaf "short" (.primitive .s16) [] .none),
      ("gap", .leaf "padding" (.primitive .padding) [2] .none),
      ("next", .leaf "Link" (.pointer 1) [] .none)] [] .none
    let buffer : List UInt8 := [0x80, 1, 0, 0, 0, 0, 2, 3]
    let buffer' : List UInt8 := [9, 0x80, 1, 7, 7, 0, 0, 2, 3, 9]
    n.byteSize .w32 = .ok 8 ∧ 8 ≤ buffer.length - 0 ∧ 8 ≤ buffer'.length - 1 ∧ n.Lossless ∧
      Agree (n.codes .w32) (buffer.drop 0) (buffer'.drop 1) ∧
      ∃ d d', n.decode .w32 .big 0 buffer = .ok d ∧ n.decode .w32 .big 1 buffer' = .ok d' ∧ d = d' := by
  intro n buffer buffer'
  have hsize : n.byteSize .w32 = .ok 8 := by decide +kernel
  have hcodes : n.codes .w32 = [.i16, .pad, .pad, .ptr32] := by decide +kernel
  have hlossless : n.Lossless := by
    intro t l ds h hleaf
    simp only [n, subnodes, fieldsSubnodes, List.append_nil, List.mem_cons, List.mem_append,
      List.not_mem_nil, or_false] at hleaf
    rcases hleaf with hleaf | hleaf | hleaf | hleaf <;> cases hleaf <;> simp
  have hagree : Agree (n.codes .w32) (buffer.drop 0) (buffer'.drop 1) := by
    rw [hcodes]
    simp [agree_cons, agree_nil, buffer, buffer', Code.size]
  have hfits : 8 ≤ buffer.length - 0 := by decide
  have hfits' : 8 ≤ buffer'.length - 1 := by decide
  obtain ⟨d, d', hd, hd', hforward, -⟩ := decode_window (e := .big) hsize hfits hfits'
  have hequal : d = d' := hforward fun i hi => by
    have hbyte := hagree i hi
    rwa [List.getElem?_drop, List.getElem?_drop] at hbyte
  exact ⟨hsize, hfits, hfits', hlossless, hagree, d, d', hd, hd', hequal⟩

end Node

end PackedStruct
