import PackedStruct.Proofs.Size
import Mathlib.Algebra.Order.BigOperators.GroupWithZero.List
/-!
When a size is found: exactly if the number of elements and the size of the type and of everything
in it are in range. The checks stop at the first product or sum that is not, but with positive
dimensions no later one could come back into range. A size in range bounds those of all parts, and a type
that is reported as too large has too many elements or too many bytes of its own.
-/

namespace PackedStruct

namespace TypeSpec

theorem dim?_bounds {text : List Char} {n : Nat} (h : dim? text = some n) : 0 < n ∧ n < sizeLimit := by
  simp only [dim?, Option.filter_eq_some_iff, Bool.and_eq_true, decide_eq_true_eq] at h
  exact h.2

/-- Every dimension is read from the text between two brackets. -/
theorem readDims_bounds {inner : Option (List Char)} {text : List Char} {ds : List Nat}
    (h : readDims inner text = .ok ds) : ∀ d ∈ ds, 0 < d ∧ d < sizeLimit := by
  fun_induction readDims inner text generalizing ds with
  | case1 =>
    cases h
    simp
  | case2 | case5 | case6 => cases h
  | case3 _ _ _ ih | case4 _ _ ih | case8 _ _ _ _ ih => exact ih h
  | case7 inner text n hdim ih =>
    obtain ⟨rest, hrest, h⟩ := bind_eq_ok.1 h
    cases h
    exact List.forall_mem_cons.2 ⟨dim?_bounds hdim, ih hrest⟩

/-- No array that can be written is empty. -/
theorem parse_pos {text : String} {spec : TypeSpec} (h : TypeSpec.parse text = .ok spec) :
    ∀ d ∈ spec.dims, 0 < d := by
  obtain ⟨ds, hds, h⟩ := bind_eq_ok.1 h
  obtain ⟨⟨base, depth⟩, -, h⟩ := bind_eq_ok.1 h
  cases h
  exact fun d hd => (readDims_bounds hds d hd).1

theorem read_eq_ok {text : String} {spec : TypeSpec} :
    TypeSpec.read text = .ok spec ↔ TypeSpec.parse text = .ok spec := mapError_eq_ok

theorem read_eq_error {text : String} {err : Error} :
    TypeSpec.read text = .error err ↔
      ∃ fault, TypeSpec.parse text = .error fault ∧ .malformedTypeSpec text fault = err :=
  mapError_eq_error

end TypeSpec

/-- A product in range is found, for none of its factors makes it smaller. -/
theorem countFrom_of_lt {typeName : String} {ds : List Nat} {n : Nat} (hpos : ∀ d ∈ ds, 0 < d)
    (h : n * ds.prod < sizeLimit) : countFrom typeName n ds = .ok (n * ds.prod) := by
  induction ds generalizing n with
  | nil => simp [countFrom]
  | cons d ds ih =>
    have hrest : ∀ d ∈ ds, 0 < d := fun d hd => hpos d (by simp [hd])
    rw [List.prod_cons, ← Nat.mul_assoc] at h ⊢
    have hle : n * d ≤ n * d * ds.prod := Nat.le_mul_of_pos_right _ (List.prod_pos hrest)
    exact bind_eq_ok.2 ⟨_, checked_ok (by omega), ih hrest h⟩

theorem countFrom_lt {typeName : String} {ds : List Nat} {n m : Nat} (hn : n < sizeLimit)
    (h : countFrom typeName n ds = .ok m) : m < sizeLimit := by
  induction ds generalizing n with
  | nil =>
    cases h
    exact hn
  | cons d ds ih =>
    obtain ⟨k, hk, hrest⟩ := bind_eq_ok.1 h
    obtain ⟨hlt, rfl⟩ := checked_eq_ok.1 hk
    exact ih hlt hrest

theorem checked_eq_error {typeName : String} {n : Nat} {err : Error} :
    checked typeName n = .error err ↔ sizeLimit ≤ n ∧ err = .tooLarge typeName := by
  grind [checked]

theorem countFrom_eq_error {typeName : String} {ds : List Nat} {n : Nat} {err : Error}
    (h : countFrom typeName n ds = .error err) : err = .tooLarge typeName := by
  induction ds generalizing n with
  | nil => cases h
  | cons d ds ih =>
    rcases bind_eq_error.1 h with hproduct | ⟨k, -, hrest⟩
    · exact (checked_eq_error.1 hproduct).2
    · exact ih hrest

namespace Node

mutual

/-- The node and all that lie below it, from the root downwards. -/
def subnodes : Node → List Node
  | .leaf t l ds h => [.leaf t l ds h]
  | .struct t fs ds h => .struct t fs ds h :: fieldsSubnodes fs

def fieldsSubnodes : List (String × Node) → List Node
  | [] => []
  | (_, n) :: fs => n.subnodes ++ fieldsSubnodes fs

end

theorem mem_fieldsSubnodes {m : Node} {fs : List (String × Node)} :
    m ∈ fieldsSubnodes fs ↔ ∃ f ∈ fs, m ∈ f.2.subnodes := by
  induction fs with
  | nil => simp [fieldsSubnodes]
  | cons f fs ih => simp [fieldsSubnodes, ih]

theorem mem_subnodes_self (n : Node) : n ∈ n.subnodes := by cases n <;> simp [subnodes]

/-- No number of elements and no size anywhere in the type reaches the limit. -/
def InRange (w : BitWidth) (n : Node) : Prop :=
  ∀ m ∈ n.subnodes, m.exactCount < sizeLimit ∧ m.exactSize w < sizeLimit

/-- No array anywhere in the type is empty. -/
def PositiveDims (n : Node) : Prop := ∀ m ∈ n.subnodes, ∀ d ∈ m.dims, 0 < d

variable {w : BitWidth} {t : String} {fs : List (String × Node)} {ds : List Nat} {h : Hints}

/-- What holds of every part of a struct holds of the struct itself and of every part of its fields. -/
theorem forall_subnodes_struct {P : Node → Prop} :
    (∀ m ∈ (Node.struct t fs ds h).subnodes, P m) ↔
      P (.struct t fs ds h) ∧ ∀ f ∈ fs, ∀ m ∈ f.2.subnodes, P m := by
  rw [subnodes, List.forall_mem_cons]
  refine and_congr_right fun _ => ?_
  constructor
  · intro hall f hf m hm
    exact hall m (mem_fieldsSubnodes.2 ⟨f, hf, hm⟩)
  · intro hall m hm
    obtain ⟨f, hf, hm⟩ := mem_fieldsSubnodes.1 hm
    exact hall f hf m hm

theorem inRange_struct : (Node.struct t fs ds h).InRange w ↔
    (ds.prod < sizeLimit ∧ exactFieldsSize w fs * ds.prod < sizeLimit) ∧
      ∀ f ∈ fs, f.2.InRange w := by
  rw [InRange, forall_subnodes_struct, exactCount, exactSize, Node.dims, foldl_mul_one]
  exact Iff.rfl

theorem positiveDims_leaf {l : Leaf} : (Node.leaf t l ds h).PositiveDims ↔ ∀ d ∈ ds, 0 < d := by
  simp [PositiveDims, subnodes, Node.dims]

theorem positiveDims_struct : (Node.struct t fs ds h).PositiveDims ↔
    (∀ d ∈ ds, 0 < d) ∧ ∀ f ∈ fs, f.2.PositiveDims := forall_subnodes_struct

theorem PositiveDims.withOuterDims {outer : List Nat} {n : Node} (hn : n.PositiveDims)
    (houter : ∀ d ∈ outer, 0 < d) : (n.withOuterDims outer).PositiveDims := by
  cases n with
  | leaf t l ds h =>
    have hds : ∀ d ∈ ds, 0 < d := positiveDims_leaf.1 hn
    exact positiveDims_leaf.2 (List.forall_mem_append.2 ⟨houter, hds⟩)
  | struct t fs ds h =>
    obtain ⟨hds, hfields⟩ := positiveDims_struct.1 hn
    exact positiveDims_struct.2 ⟨List.forall_mem_append.2 ⟨houter, hds⟩, hfields⟩

theorem PositiveDims.withHints {n : Node} (hn : n.PositiveDims) (h : Hints) :
    (n.withHints h).PositiveDims := by
  cases n with
  | leaf => exact positiveDims_leaf.2 (positiveDims_leaf.1 hn)
  | struct => exact positiveDims_struct.2 (positiveDims_struct.1 hn)

theorem arraySize_ok_iff {typeName : String} {element : Nat} (hpos : ∀ d ∈ ds, 0 < d) :
    (∃ size, arraySize typeName ds element = .ok size) ↔
      ds.prod < sizeLimit ∧ element * ds.prod < sizeLimit := by
  constructor
  · rintro ⟨size, hsize⟩
    obtain ⟨rfl, hlt, hcount⟩ := arraySize_eq_ok hsize
    exact ⟨countFrom_lt (by decide) hcount, hlt⟩
  · rintro ⟨hcount, hsize⟩
    have hfound : countFrom typeName 1 ds = .ok (1 * ds.prod) := countFrom_of_lt hpos (by omega)
    rw [Nat.one_mul] at hfound
    exact ⟨_, bind_eq_ok.2 ⟨_, hfound, checked_ok hsize⟩⟩

theorem fieldsSize_of_lt {owner : String} {sum : Nat}
    (hfields : ∀ f ∈ fs, ∃ k, f.2.byteSize w = .ok k)
    (hsum : sum + exactFieldsSize w fs < sizeLimit) :
    fieldsSize w owner sum fs = .ok (sum + exactFieldsSize w fs) := by
  induction fs generalizing sum with
  | nil => simp [fieldsSize, exactFieldsSize]
  | cons f fs ih =>
    obtain ⟨name, n⟩ := f
    obtain ⟨k, hk⟩ : ∃ k, n.byteSize w = .ok k := hfields (name, n) (by simp)
    have hexact := byteSize_eq_exactSize hk
    subst hexact
    simp only [exactFieldsSize] at hsum ⊢
    rw [← Nat.add_assoc] at hsum ⊢
    have hrest := ih (fun g hg => hfields g (by simp [hg])) hsum
    simp only [fieldsSize]
    exact bind_eq_ok.2 ⟨_, hk, bind_eq_ok.2 ⟨_, checked_ok (by omega), hrest⟩⟩

/-- A size is found exactly if everything in the type is in range. -/
theorem byteSize_ok_iff {n : Node} (hpos : n.PositiveDims) :
    (∃ size, n.byteSize w = .ok size) ↔ n.InRange w := by
  induction n with
  | leaf t l ds h =>
    have hdims := positiveDims_leaf.1 hpos
    simp only [byteSize]
    rw [arraySize_ok_iff hdims]
    simp [InRange, subnodes, exactCount, exactSize, foldl_mul_one, Node.dims]
  | struct t fs ds h ih =>
    obtain ⟨hdims, hbelow⟩ := positiveDims_struct.1 hpos
    have hfields : (∀ f ∈ fs, ∃ k, f.2.byteSize w = .ok k) ↔ ∀ f ∈ fs, f.2.InRange w :=
      forall₂_congr fun f hf => ih f hf (hbelow f hf)
    rw [inRange_struct, ← hfields]
    simp only [byteSize]
    constructor
    · rintro ⟨size, hsize⟩
      obtain ⟨element, helement, hsize⟩ := bind_eq_ok.1 hsize
      have hexact := fieldsSize_eq_exact (fun f _ k hk => byteSize_eq_exactSize hk) helement
      rw [Nat.zero_add] at hexact
      subst hexact
      exact ⟨(arraySize_ok_iff hdims).1 ⟨size, hsize⟩, fun f hf => byteSize_of_mem helement hf⟩
    · rintro ⟨⟨hcount, hsize⟩, hsizes⟩
      have hle : exactFieldsSize w fs ≤ exactFieldsSize w fs * ds.prod :=
        Nat.le_mul_of_pos_right _ (List.prod_pos hdims)
      have helement : fieldsSize w t 0 fs = .ok (0 + exactFieldsSize w fs) :=
        fieldsSize_of_lt hsizes (by omega)
      rw [Nat.zero_add] at helement
      obtain ⟨size, htotal⟩ : ∃ size, arraySize t ds (exactFieldsSize w fs) = .ok size :=
        (arraySize_ok_iff hdims).2 ⟨hcount, hsize⟩
      exact ⟨size, bind_eq_ok.2 ⟨_, helement, htotal⟩⟩

theorem byteSize_lt {n : Node} {size : Nat} (hpos : n.PositiveDims) (hsize : n.byteSize w = .ok size) :
    size < sizeLimit := by
  have hrange : n.InRange w := (byteSize_ok_iff hpos).1 ⟨size, hsize⟩
  rw [byteSize_eq_exactSize hsize]
  exact (hrange n n.mem_subnodes_self).2

/-- An array without a size has too many elements or too many bytes. -/
theorem arraySize_eq_error {typeName : String} {element : Nat} {err : Error} (hpos : ∀ d ∈ ds, 0 < d)
    (herr : arraySize typeName ds element = .error err) :
    err = .tooLarge typeName ∧ (sizeLimit ≤ ds.prod ∨ sizeLimit ≤ element * ds.prod) := by
  constructor
  · rcases bind_eq_error.1 herr with hcount | ⟨count, -, hsize⟩
    · exact countFrom_eq_error hcount
    · exact (checked_eq_error.1 hsize).2
  · by_contra hfits
    have hrange : ds.prod < sizeLimit ∧ element * ds.prod < sizeLimit := by omega
    obtain ⟨size, hok⟩ : ∃ size, arraySize typeName ds element = .ok size :=
      (arraySize_ok_iff hpos).2 hrange
    rw [hok] at herr
    cases herr

/-- Adding up stops at a field without a size, or where the sum leaves the range. -/
theorem fieldsSize_eq_error {owner : String} {sum : Nat} {err : Error}
    (herr : fieldsSize w owner sum fs = .error err) :
    (∃ f ∈ fs, f.2.byteSize w = .error err) ∨
      (err = .tooLarge owner ∧ sizeLimit ≤ sum + exactFieldsSize w fs) := by
  induction fs generalizing sum with
  | nil => cases herr
  | cons f fs ih =>
    obtain ⟨name, n⟩ := f
    simp only [fieldsSize] at herr
    rcases bind_eq_error.1 herr with hfield | ⟨k, hk, herr⟩
    · exact .inl ⟨(name, n), List.mem_cons_self, hfield⟩
    · have hexact : exactFieldsSize w ((name, n) :: fs) = k + exactFieldsSize w fs := by
        rw [exactFieldsSize, byteSize_eq_exactSize hk]
      rcases bind_eq_error.1 herr with hsum | ⟨total, htotal, hrest⟩
      · obtain ⟨hlimit, howner⟩ := checked_eq_error.1 hsum
        exact .inr ⟨howner, by omega⟩
      · obtain ⟨-, rfl⟩ := checked_eq_ok.1 htotal
        rcases ih hrest with ⟨g, hg, hfield⟩ | ⟨howner, hlimit⟩
        · exact .inl ⟨g, List.mem_cons_of_mem _ hg, hfield⟩
        · exact .inr ⟨howner, by omega⟩

/-- A size that is not found is out of range, and the type that is named is one whose number of
elements or whose size is. -/
theorem byteSize_eq_error {n : Node} {err : Error} (hpos : n.PositiveDims)
    (herr : n.byteSize w = .error err) :
    ∃ m ∈ n.subnodes, err = .tooLarge m.typeName ∧
      (sizeLimit ≤ m.exactCount ∨ sizeLimit ≤ m.exactSize w) := by
  induction n generalizing err with
  | leaf t l ds h =>
    have hlimit := arraySize_eq_error (positiveDims_leaf.1 hpos) herr
    refine ⟨.leaf t l ds h, mem_subnodes_self _, hlimit.1, ?_⟩
    simpa only [exactCount, exactSize, Node.dims, foldl_mul_one] using hlimit.2
  | struct t fs ds h ih =>
    obtain ⟨hdims, hbelow⟩ := positiveDims_struct.1 hpos
    have hcount : (Node.struct t fs ds h).exactCount = ds.prod := foldl_mul_one ds
    have hsize : (Node.struct t fs ds h).exactSize w = exactFieldsSize w fs * ds.prod := by
      rw [exactSize, foldl_mul_one]
    simp only [byteSize] at herr
    rcases bind_eq_error.1 herr with hfields | ⟨element, helement, harray⟩
    · rcases fieldsSize_eq_error hfields with ⟨f, hf, hfield⟩ | ⟨howner, hlimit⟩
      · obtain ⟨m, hm, hblame⟩ := ih f hf (hbelow f hf) hfield
        exact ⟨m, List.mem_cons_of_mem _ (mem_fieldsSubnodes.2 ⟨f, hf, hm⟩), hblame⟩
      · have hle : exactFieldsSize w fs ≤ exactFieldsSize w fs * ds.prod :=
          Nat.le_mul_of_pos_right _ (List.prod_pos hdims)
        exact ⟨_, mem_subnodes_self _, howner, .inr (by omega)⟩
    · have hexact := fieldsSize_eq_exact (fun f _ k hk => byteSize_eq_exactSize hk) helement
      rw [Nat.zero_add] at hexact
      rw [hexact] at harray
      obtain ⟨hname, hlimit⟩ := arraySize_eq_error hdims harray
      rw [← hsize, ← hcount] at hlimit
      exact ⟨_, mem_subnodes_self _, hname, hlimit⟩

theorem exactSize_le_of_mem {f : String × Node} (hf : f ∈ fs) : f.2.exactSize w ≤ exactFieldsSize w fs := by
  induction fs with
  | nil => cases hf
  | cons g fs ih =>
    rw [exactFieldsSize]
    rcases List.mem_cons.1 hf with rfl | hf
    · exact Nat.le_add_right _ _
    · exact Nat.le_add_left_of_le (ih hf)

/-- No part of a type is larger than the type. -/
theorem exactSize_le_of_mem_subnodes {n m : Node} (hpos : n.PositiveDims) (hm : m ∈ n.subnodes) :
    m.exactSize w ≤ n.exactSize w := by
  induction n with
  | leaf t l ds h =>
    rw [subnodes, List.mem_singleton] at hm
    rw [hm]
  | struct t fs ds h ih =>
    obtain ⟨hdims, hbelow⟩ := positiveDims_struct.1 hpos
    rw [subnodes] at hm
    rcases List.mem_cons.1 hm with rfl | hm
    · exact Nat.le_refl _
    · obtain ⟨f, hf, hfield⟩ := mem_fieldsSubnodes.1 hm
      rw [exactSize, foldl_mul_one]
      calc
        m.exactSize w ≤ f.2.exactSize w := ih f hf (hbelow f hf) hfield
        _ ≤ exactFieldsSize w fs := exactSize_le_of_mem hf
        _ ≤ exactFieldsSize w fs * ds.prod := Nat.le_mul_of_pos_right _ (List.prod_pos hdims)

/-- One size bounds all those below it; the numbers of elements have to be bounded one by one, since
elements may be empty. -/
theorem inRange_iff {n : Node} (hpos : n.PositiveDims) :
    n.InRange w ↔ n.exactSize w < sizeLimit ∧ ∀ m ∈ n.subnodes, m.exactCount < sizeLimit := by
  constructor
  · intro hrange
    exact ⟨(hrange n n.mem_subnodes_self).2, fun m hm => (hrange m hm).1⟩
  · intro hlimit m hm
    have hle : m.exactSize w ≤ n.exactSize w := exactSize_le_of_mem_subnodes hpos hm
    exact ⟨hlimit.2 m hm, Nat.lt_of_le_of_lt hle hlimit.1⟩

/-- The checks are exact. A size is found if and only if the type and the number of elements of each of
its parts are in range, and then it is the exact one. Otherwise a part is reported that is out of range
itself. -/
theorem byteSize_exact {n : Node} (hpos : n.PositiveDims) (w : BitWidth) :
    (∀ size, n.byteSize w = .ok size ↔
      (n.exactSize w < sizeLimit ∧ ∀ m ∈ n.subnodes, m.exactCount < sizeLimit) ∧
        size = n.exactSize w) ∧
    (¬(n.exactSize w < sizeLimit ∧ ∀ m ∈ n.subnodes, m.exactCount < sizeLimit) →
      ∃ m ∈ n.subnodes, n.byteSize w = .error (.tooLarge m.typeName) ∧
        (sizeLimit ≤ m.exactCount ∨ sizeLimit ≤ m.exactSize w)) := by
  have hfound : (∃ size, n.byteSize w = .ok size) ↔
      n.exactSize w < sizeLimit ∧ ∀ m ∈ n.subnodes, m.exactCount < sizeLimit :=
    (byteSize_ok_iff hpos).trans (inRange_iff hpos)
  constructor
  · intro size
    constructor
    · intro hsize
      exact ⟨hfound.1 ⟨size, hsize⟩, byteSize_eq_exactSize hsize⟩
    · intro hlimit
      obtain ⟨found, hsize⟩ := hfound.2 hlimit.1
      rw [hsize, hlimit.2, byteSize_eq_exactSize hsize]
  · intro hlarge
    cases hsize : n.byteSize w with
    | ok size => exact absurd (hfound.1 ⟨size, hsize⟩) hlarge
    | error err =>
      obtain ⟨m, hm, herr, hlimit⟩ := byteSize_eq_error hpos hsize
      exact ⟨m, hm, by rw [herr], hlimit⟩

/-- As many bytes as a size can count, beside rows of `2^32` empty structs. -/
def brim (rows : Nat) : Node :=
  .struct "Brim" [
    ("bytes", .leaf "u8" (.primitive .u8) [3, 5, 17, 257, 641, 65537, 6700417] .none),
    ("marks", .struct "Mark" [] [rows, 4294967296] .none)] [] .none

/-- The last byte still counts; structs without bytes can be too many by their number alone. -/
theorem byteSize_exact_brim :
    (brim 1).PositiveDims ∧ (brim 1).byteSize .w64 = .ok 18446744073709551615 ∧
    (brim 4294967296).PositiveDims ∧ (brim 4294967296).exactSize .w64 = 18446744073709551615 ∧
      ∃ m ∈ (brim 4294967296).subnodes,
        (brim 4294967296).byteSize .w64 = .error (.tooLarge m.typeName) ∧
          (sizeLimit ≤ m.exactCount ∨ sizeLimit ≤ m.exactSize .w64) := by
  have hone : (brim 1).PositiveDims := by
    unfold PositiveDims
    decide
  have hmany : (brim 4294967296).PositiveDims := by
    unfold PositiveDims
    decide
  refine ⟨hone, ?_, hmany, by decide +kernel, ?_⟩
  · exact ((byteSize_exact hone .w64).1 _).2 ⟨by decide +kernel, by decide +kernel⟩
  · exact (byteSize_exact hmany .w64).2 (by decide +kernel)

end Node

end PackedStruct
