import PackedStruct.Proofs.Addressed
import PackedStruct.Proofs.Range
/-!
The layout against the size that is found without it. `Node.slots` names the leaf behind every code,
whatever the pointer width. A type has no more slots than bytes, and none of its parts has more than
the whole, so a layout is built wherever a size is found and the list of all codes fits into memory.
-/

namespace PackedStruct

/-- The width of a slot by its letter in a format string. -/
def letterWidth : Char → Nat
  | 'c' | 'b' | 'B' | '?' | 'x' => 1
  | 'h' | 'H' => 2
  | 'i' | 'I' | 'f' => 4
  | 'q' | 'Q' | 'd' => 8
  | _ => 0

theorem letterWidth_letter (c : Code) : letterWidth c.letter = c.size := by cases c <;> rfl

theorem letterWidth_formatString (l : Layout) :
    (l.formatString.toList.map letterWidth).sum = codesWidth l.codes := by
  simp [Layout.formatString, codesWidth, Function.comp_def, letterWidth_letter]

theorem length_le_codesWidth (cs : List Code) : cs.length ≤ codesWidth cs := by
  induction cs with
  | nil => simp
  | cons c cs ih =>
    have hpos := c.size_pos
    rw [List.length_cons, codesWidth_cons]
    omega

/-- Whether a leaf is read as a value. -/
def Leaf.isValue (l : Leaf) : Bool := l ≠ .primitive .padding

namespace Node

mutual

/-- The leaf behind each slot of a type. -/
def slots : Node → List Leaf
  | .leaf _ l ds _ => List.replicate ds.prod l
  | .struct _ fs ds _ => (List.replicate ds.prod (fieldsSlots fs)).flatten

def fieldsSlots : List (String × Node) → List Leaf
  | [] => []
  | (_, n) :: fs => n.slots ++ fieldsSlots fs

end

mutual

/-- The leaves of a type, each with the product of all dimensions on the way to it. -/
def weighted (outer : Nat) : Node → List (Leaf × Nat)
  | .leaf _ l ds _ => [(l, outer * ds.prod)]
  | .struct _ fs ds _ => fieldsWeighted (outer * ds.prod) fs

def fieldsWeighted (outer : Nat) : List (String × Node) → List (Leaf × Nat)
  | [] => []
  | (_, n) :: fs => n.weighted outer ++ fieldsWeighted outer fs

end

/-- How often leaves occur together, fillers left out. -/
def occurrences (leaves : List (Leaf × Nat)) : Nat :=
  ((leaves.filter fun p => p.1.isValue).map Prod.snd).sum

variable {w : BitWidth} {fs : List (String × Node)}

theorem fieldsCodes_eq_map_fieldsSlots (ih : ∀ f ∈ fs, f.2.codes w = f.2.slots.map (Leaf.code w)) :
    fieldsCodes w fs = (fieldsSlots fs).map (Leaf.code w) := by
  induction fs with
  | nil => rfl
  | cons f fs ihs =>
    have hrest := ihs fun g hg => ih g (by simp [hg])
    rw [fieldsCodes, fieldsSlots, List.map_append, ih f (by simp), hrest]

theorem codes_eq_map_slots (w : BitWidth) (n : Node) : n.codes w = n.slots.map (Leaf.code w) := by
  induction n with
  | leaf t l ds h => simp [codes, slots, repeatCodes, foldl_mul_one]
  | struct t fs ds h ih =>
    rw [codes, slots, fieldsCodes_eq_map_fieldsSlots ih, foldl_mul_one]
    simp [repeatCodes, List.map_flatten]

theorem length_codes (w : BitWidth) (n : Node) : (n.codes w).length = n.slots.length := by
  rw [codes_eq_map_slots, List.length_map]

theorem length_slots_le {n : Node} {size : Nat} (h : n.byteSize w = .ok size) :
    n.slots.length ≤ size := by
  rw [byteSize_eq_exactSize h, ← codesWidth_codes, ← length_codes w]
  exact length_le_codesWidth _

theorem length_slots_of_mem {f : String × Node} (hf : f ∈ fs) :
    f.2.slots.length ≤ (fieldsSlots fs).length := by
  induction fs with
  | nil => simp at hf
  | cons g fs ih =>
    rw [fieldsSlots, List.length_append]
    rcases List.mem_cons.1 hf with rfl | hf
    · omega
    · have hrest := ih hf
      omega

theorem length_fieldsSlots_le {t : String} {ds : List Nat} {h : Hints} (hdims : ∀ d ∈ ds, 0 < d) :
    (fieldsSlots fs).length ≤ (Node.struct t fs ds h).slots.length := by
  have hlength : (Node.struct t fs ds h).slots.length = ds.prod * (fieldsSlots fs).length := by
    simp [slots]
  rw [hlength]
  exact Nat.le_mul_of_pos_left _ (List.prod_pos hdims)

theorem reserve_of_le {capacity count : Nat} {typeName : String} (h : count ≤ capacity) :
    reserve capacity typeName count = .ok count := if_pos h

theorem fieldsCodeCount_of_le {capacity : Nat} {owner : String}
    (ih : ∀ f ∈ fs, f.2.codeCount capacity = .ok f.2.slots.length) {sum : Nat}
    (hroom : sum + (fieldsSlots fs).length ≤ capacity) :
    fieldsCodeCount capacity owner sum fs = .ok (sum + (fieldsSlots fs).length) := by
  induction fs generalizing sum with
  | nil => rfl
  | cons f fs ihs =>
    obtain ⟨name, n⟩ := f
    simp only [fieldsSlots, List.length_append] at hroom ⊢
    rw [← Nat.add_assoc] at hroom ⊢
    have hfirst : n.codeCount capacity = .ok n.slots.length := ih (name, n) (by simp)
    have hreserve : reserve capacity owner (sum + n.slots.length) = .ok (sum + n.slots.length) :=
      reserve_of_le (by omega)
    have hrest := ihs (fun g hg => ih g (by simp [hg])) hroom
    simp only [fieldsCodeCount]
    exact bind_eq_ok.2 ⟨_, hfirst, bind_eq_ok.2 ⟨_, hreserve, hrest⟩⟩

/-- No list on the way to the codes of a type is longer than the list of all of them. -/
theorem codeCount_of_le {capacity : Nat} {n : Node} (hpos : n.PositiveDims)
    (hroom : n.slots.length ≤ capacity) : n.codeCount capacity = .ok n.slots.length := by
  induction n with
  | leaf t l ds h =>
    simp only [slots, List.length_replicate] at hroom ⊢
    rw [codeCount, foldl_mul_one]
    exact reserve_of_le hroom
  | struct t fs ds h ih =>
    obtain ⟨hdims, hfields⟩ := positiveDims_struct.1 hpos
    have helement : (fieldsSlots fs).length ≤ capacity :=
      (length_fieldsSlots_le hdims).trans hroom
    have hparts : ∀ f ∈ fs, f.2.codeCount capacity = .ok f.2.slots.length := fun f hf =>
      ih f hf (hfields f hf) ((length_slots_of_mem hf).trans helement)
    have hsum : fieldsCodeCount capacity t 0 fs = .ok (0 + (fieldsSlots fs).length) :=
      fieldsCodeCount_of_le hparts (by omega)
    have hlength : (Node.struct t fs ds h).slots.length = (fieldsSlots fs).length * ds.prod := by
      simp [slots, Nat.mul_comm]
    rw [hlength] at hroom ⊢
    rw [codeCount, foldl_mul_one]
    rw [Nat.zero_add] at hsum
    exact bind_eq_ok.2 ⟨_, hsum, reserve_of_le hroom⟩

theorem layout_of_le {capacity size : Nat} {n : Node} (hpos : n.PositiveDims)
    (hsize : n.byteSize w = .ok size) (hroom : n.slots.length ≤ capacity) :
    n.layout capacity w = .ok ⟨n.codes w, size⟩ :=
  bind_eq_ok.2 ⟨size, hsize, bind_eq_ok.2 ⟨_, codeCount_of_le hpos hroom, rfl⟩⟩

theorem reserve_eq_ok {capacity count k : Nat} {typeName : String} (h : reserve capacity typeName count = .ok k) :
    k = count ∧ count ≤ capacity := by
  grind [reserve]

theorem fieldsCodeCount_eq_ok {capacity : Nat} {owner : String}
    (ih : ∀ f ∈ fs, ∀ k, f.2.codeCount capacity = .ok k → k = f.2.slots.length) {sum count : Nat}
    (h : fieldsCodeCount capacity owner sum fs = .ok count) : count = sum + (fieldsSlots fs).length := by
  induction fs generalizing sum with
  | nil =>
    cases h
    rfl
  | cons f fs ihs =>
    obtain ⟨name, n⟩ := f
    simp only [fieldsCodeCount] at h
    obtain ⟨k, hk, h⟩ := bind_eq_ok.1 h
    obtain ⟨sum', hsum, hrest⟩ := bind_eq_ok.1 h
    have hfirst : k = n.slots.length := ih (name, n) (by simp) k hk
    have hadded : sum' = sum + k := (reserve_eq_ok hsum).1
    have hothers := ihs (fun g hg => ih g (by simp [hg])) hrest
    rw [fieldsSlots, List.length_append]
    omega

theorem codeCount_eq_ok {capacity count : Nat} {n : Node} (h : n.codeCount capacity = .ok count) :
    count = n.slots.length ∧ count ≤ capacity := by
  induction n generalizing count with
  | leaf t l ds hints =>
    rw [codeCount, foldl_mul_one] at h
    obtain ⟨rfl, hroom⟩ := reserve_eq_ok h
    exact ⟨by simp [slots], hroom⟩
  | struct t fs ds hints ih =>
    rw [codeCount, foldl_mul_one] at h
    obtain ⟨element, helement, h⟩ := bind_eq_ok.1 h
    obtain ⟨rfl, hroom⟩ := reserve_eq_ok h
    have hfields := fieldsCodeCount_eq_ok (fun f hf k hk => (ih f hf hk).1) helement
    exact ⟨by simp [slots, hfields, Nat.mul_comm], hroom⟩

/-- A type whose size is found has one layout, given by its codes, and it is built wherever these fit into memory. -/
theorem layout_eq_ok_iff {capacity size : Nat} {n : Node} {l : Layout} (hpos : n.PositiveDims)
    (hsize : n.byteSize w = .ok size) :
    n.layout capacity w = .ok l ↔ l = ⟨n.codes w, codesWidth (n.codes w)⟩ ∧ l.codes.length ≤ capacity := by
  have hwidth : size = codesWidth (n.codes w) := by rw [byteSize_eq_exactSize hsize, codesWidth_codes]
  constructor
  · intro h
    obtain ⟨size', hsize', h⟩ := bind_eq_ok.1 h
    obtain ⟨count, hcount, h⟩ := bind_eq_ok.1 h
    obtain ⟨hlength, hroom⟩ := codeCount_eq_ok hcount
    rw [hsize] at hsize'
    cases hsize'
    cases h
    rw [hlength] at hroom
    exact ⟨by rw [hwidth], by rwa [length_codes]⟩
  · intro h
    obtain ⟨rfl, hroom⟩ := h
    rw [length_codes] at hroom
    rw [layout_of_le hpos hsize hroom, hwidth]

/-- Decoding unpacks the layout and puts all of its scalars together, once its size has been checked. Memory
matters only for whether a layout is built. -/
theorem decode_eq_of_layout {capacity : Nat} {n : Node} {l : Layout} (h : n.layout capacity w = .ok l) (e : Endian)
    (offset : Nat) (buffer : List UInt8) :
    n.decode w e offset buffer =
      if buffer.length - offset < l.size then .error (.truncated offset l.size (buffer.length - offset))
      else unpack e offset (buffer.drop offset) l.codes >>= n.assembleAll := by
  obtain ⟨size, hsize, h⟩ := bind_eq_ok.1 h
  obtain ⟨count, -, h⟩ := bind_eq_ok.1 h
  cases h
  simp only [decode, hsize, ok_bind]
  split_ifs <;> rfl

theorem valueCount_codes (w : BitWidth) (n : Node) (size : Nat) :
    Layout.valueCount ⟨n.codes w, size⟩ = n.slots.countP Leaf.isValue := by
  rw [Layout.valueCount, codes_eq_map_slots, List.countP_map]
  refine List.countP_congr fun l _ => ?_
  simp [Leaf.isValue, Leaf.code_eq_pad]

theorem occurrences_append (ps qs : List (Leaf × Nat)) :
    occurrences (ps ++ qs) = occurrences ps + occurrences qs := by
  simp [occurrences]

theorem occurrences_fieldsWeighted {outer : Nat}
    (ih : ∀ f ∈ fs, occurrences (f.2.weighted outer) = outer * f.2.slots.countP Leaf.isValue) :
    occurrences (fieldsWeighted outer fs) = outer * (fieldsSlots fs).countP Leaf.isValue := by
  induction fs with
  | nil => simp [fieldsWeighted, fieldsSlots, occurrences]
  | cons f fs ihs =>
    have hrest := ihs fun g hg => ih g (by simp [hg])
    rw [fieldsWeighted, occurrences_append, ih f (by simp), hrest, fieldsSlots, List.countP_append,
      Nat.mul_add]

/-- The dimensions on the way to a leaf multiply to the number of slots that it has. -/
theorem occurrences_weighted (outer : Nat) (n : Node) :
    occurrences (n.weighted outer) = outer * n.slots.countP Leaf.isValue := by
  induction n generalizing outer with
  | leaf t l ds h =>
    by_cases hl : l = .primitive .padding <;>
      simp [weighted, occurrences, slots, Leaf.isValue, hl, List.countP_replicate]
  | struct t fs ds h ih =>
    have hfields := occurrences_fieldsWeighted fun f hf => ih f hf (outer * ds.prod)
    rw [weighted, hfields, slots, List.countP_flatten]
    simp [Nat.mul_assoc]

theorem fieldsCodes_eq_flatMap (w : BitWidth) (fs : List (String × Node)) :
    fieldsCodes w fs = fs.flatMap fun f => f.2.codes w := by
  induction fs with
  | nil => rfl
  | cons f fs ih => rw [fieldsCodes, ih, List.flatMap_cons]

/-- The layouts of the fields, which are built for the layout of a struct. -/
theorem mapM_layout {capacity size : Nat} {owner : String}
    (hpos : ∀ f ∈ fs, f.2.PositiveDims) (hsize : fieldsSize w owner 0 fs = .ok size)
    (hroom : (fieldsSlots fs).length ≤ capacity) :
    ∃ parts, fs.mapM (fun f => f.2.layout capacity w) = .ok parts ∧
      parts.flatMap Layout.codes = fieldsCodes w fs := by
  have hparts : ∀ f ∈ fs, f.2.layout capacity w = .ok ⟨f.2.codes w, f.2.exactSize w⟩ := by
    intro f hf
    obtain ⟨k, hk⟩ := byteSize_of_mem hsize hf
    rw [← byteSize_eq_exactSize hk]
    exact layout_of_le (hpos f hf) hk ((length_slots_of_mem hf).trans hroom)
  refine ⟨_, mapM_eq_ok hparts, ?_⟩
  rw [List.flatMap_map, fieldsCodes_eq_flatMap]

/-- What the layout of a type of `size` bytes looks like, if lists of `capacity` codes fit into
memory. -/
structure LaidOut (capacity : Nat) (w : BitWidth) (n : Node) (size : Nat) (l : Layout) : Prop where
  size_eq : l.size = size
  widths : (l.codes.map Code.size).sum = size
  letters : (l.formatString.toList.map letterWidth).sum = size
  leaf : ∀ t leaf ds h, n = .leaf t leaf ds h → l.codes = List.replicate ds.prod (leaf.code w)
  struct : ∀ t fs ds h, n = .struct t fs ds h →
    ∃ parts, fs.mapM (fun f => f.2.layout capacity w) = .ok parts ∧
      l.codes = (List.replicate ds.prod (parts.flatMap Layout.codes)).flatten
  values : l.valueCount = occurrences (n.weighted 1)

theorem laidOut_of_le {capacity size : Nat} {n : Node} (hpos : n.PositiveDims)
    (hsize : n.byteSize w = .ok size) (hroom : n.slots.length ≤ capacity) :
    LaidOut capacity w n size ⟨n.codes w, size⟩ where
  size_eq := rfl
  widths := by
    rw [byteSize_eq_exactSize hsize]
    exact codesWidth_codes w n
  letters := by rw [letterWidth_formatString, codesWidth_codes, byteSize_eq_exactSize hsize]
  leaf t leaf ds h hn := by
    subst hn
    simp [codes, repeatCodes, foldl_mul_one]
  struct t fs ds h hn := by
    subst hn
    obtain ⟨hdims, hfields⟩ := positiveDims_struct.1 hpos
    simp only [byteSize] at hsize
    obtain ⟨element, helement, -⟩ := bind_eq_ok.1 hsize
    have hinner : (fieldsSlots fs).length ≤ capacity := (length_fieldsSlots_le hdims).trans hroom
    obtain ⟨parts, hparts, hcodes⟩ := mapM_layout hfields helement hinner
    exact ⟨parts, hparts, by rw [hcodes, codes, repeatCodes, foldl_mul_one]⟩
  values := by rw [valueCount_codes, occurrences_weighted, Nat.one_mul]

/-- Where a size is found there is a layout of that size, as soon as its codes fit into memory; there
are no more of them than bytes, so their number is in range. Where no size is found the layout fails
for the same reason. -/
theorem layout_agrees {n : Node} (hpos : n.PositiveDims) (w : BitWidth) (capacity : Nat) :
    (∀ size, n.byteSize w = .ok size →
      (n.codes w).length ≤ size ∧ size < sizeLimit ∧
        ((n.codes w).length ≤ capacity →
          ∃ l, n.layout capacity w = .ok l ∧ l.codes = n.codes w ∧ LaidOut capacity w n size l)) ∧
    ∀ err, n.byteSize w = .error err → n.layout capacity w = .error err := by
  constructor
  · intro size hsize
    rw [length_codes]
    refine ⟨length_slots_le hsize, byteSize_lt hpos hsize, fun hroom => ?_⟩
    exact ⟨_, layout_of_le hpos hsize hroom, rfl, laidOut_of_le hpos hsize hroom⟩
  · intro err herr
    rw [layout, herr, error_bind]

/-- Two lines of three points: a filler and a row of pointers in every point. -/
theorem layout_agrees_lines :
    let n : Node := .struct "Line" [("points", .struct "Point"
      [("x", .leaf "short" (.primitive .s16) [] .none), ("gap", .leaf "padding" (.primitive .padding) [2] .none),
        ("next", .leaf "Point" (.pointer 1) [2] .none)] [3] .none)] [2] .none
    n.PositiveDims ∧ n.byteSize .w32 = .ok 72 ∧
      ∃ l, n.layout 30 .w32 = .ok l ∧ LaidOut 30 .w32 n 72 l := by
  intro n
  have hpos : n.PositiveDims := by simp [n, positiveDims_struct, positiveDims_leaf]
  have hsize : n.byteSize .w32 = .ok 72 := by decide +kernel
  have hroom : (n.codes .w32).length ≤ 30 := by decide +kernel
  obtain ⟨-, -, hlayout⟩ := (layout_agrees hpos .w32 30).1 72 hsize
  obtain ⟨l, hl, -, hlaid⟩ := hlayout hroom
  exact ⟨hpos, hsize, l, hl, hlaid⟩

end Node

end PackedStruct
