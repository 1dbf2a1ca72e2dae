import PackedStruct.Node.Size
import PackedStruct.Proofs.Outcome
import Mathlib.Algebra.BigOperators.Group.List.Basic
import Mathlib.Algebra.Order.Ring.Nat
/-!
The checked sizes against the exact ones. A size that is found is the exact size, and whoever finds
one with wide pointers finds one with narrow pointers, for no step of the sum grows.
-/

namespace PackedStruct

theorem foldl_mul_one (ds : List Nat) : ds.foldl (· * ·) 1 = ds.prod := List.prod_eq_foldl.symm

theorem foldl_mul (ds : List Nat) (n : Nat) : ds.foldl (· * ·) n = n * ds.prod := by
  induction ds generalizing n with
  | nil => simp
  | cons d ds ih => rw [List.foldl_cons, ih, List.prod_cons, Nat.mul_assoc]

theorem checked_ok {typeName : String} {n : Nat} (h : n < sizeLimit) :
    checked typeName n = .ok n := checked_eq_ok.2 ⟨h, rfl⟩

theorem countFrom_eq_prod {typeName : String} {ds : List Nat} {n m : Nat}
    (h : countFrom typeName n ds = .ok m) : m = n * ds.prod := by
  rw [← foldl_mul]
  exact eq_of_countFrom h

/-- A count that starts lower is found where a higher one is. -/
theorem countFrom_mono {typeName other : String} {ds : List Nat} {n n' m : Nat} (hn : n' ≤ n)
    (h : countFrom typeName n ds = .ok m) : countFrom other n' ds = .ok (n' * ds.prod) := by
  induction ds generalizing n n' with
  | nil => simp [countFrom]
  | cons d ds ih =>
    obtain ⟨k, hk, hrest⟩ := bind_eq_ok.1 h
    obtain ⟨hlt, rfl⟩ := checked_eq_ok.1 hk
    have hle : n' * d ≤ n * d := Nat.mul_le_mul_right d hn
    have hc : checked other (n' * d) = .ok (n' * d) := checked_ok (by omega)
    have htail := ih hle hrest
    rw [List.prod_cons, ← Nat.mul_assoc]
    exact bind_eq_ok.2 ⟨_, hc, htail⟩

namespace Node

/-- Induction along a type, with a hypothesis for each field of a struct. -/
@[induction_eliminator]
theorem induction {motive : Node → Prop}
    (leaf : ∀ t l ds h, motive (.leaf t l ds h))
    (struct : ∀ t fs ds h, (∀ f ∈ fs, motive f.2) → motive (.struct t fs ds h)) :
    ∀ n, motive n
  | .leaf t l ds h => leaf t l ds h
  | .struct t fs ds h => struct t fs ds h fun f hf => by
      have hlt := List.sizeOf_lt_of_mem hf
      exact induction leaf struct f.2
termination_by n => sizeOf n
decreasing_by
  obtain ⟨name, m⟩ := f
  simp only [Prod.mk.sizeOf_spec, Node.struct.sizeOf_spec] at hlt ⊢
  omega

theorem arraySize_eq_ok {typeName : String} {ds : List Nat} {element size : Nat}
    (h : arraySize typeName ds element = .ok size) :
    size = element * ds.prod ∧ size < sizeLimit ∧ countFrom typeName 1 ds = .ok ds.prod := by
  obtain ⟨count, hcount, hsize⟩ := bind_eq_ok.1 h
  obtain ⟨hlt, rfl⟩ := checked_eq_ok.1 hsize
  have hprod := countFrom_eq_prod hcount
  rw [Nat.one_mul] at hprod
  subst hprod
  exact ⟨rfl, hlt, hcount⟩

/-- Smaller elements need no wider array. -/
theorem arraySize_mono {typeName : String} {ds : List Nat} {element element' size : Nat}
    (he : element' ≤ element) (h : arraySize typeName ds element = .ok size) :
    arraySize typeName ds element' = .ok (element' * ds.prod) := by
  obtain ⟨hsize, hlt, hcount⟩ := arraySize_eq_ok h
  have hle : element' * ds.prod ≤ element * ds.prod := Nat.mul_le_mul_right _ he
  exact bind_eq_ok.2 ⟨_, hcount, checked_ok (by omega)⟩

theorem fieldsSize_cons {w : BitWidth} {owner name : String} {sum size : Nat} {n : Node}
    {fs : List (String × Node)} (h : fieldsSize w owner sum ((name, n) :: fs) = .ok size) :
    ∃ k, n.byteSize w = .ok k ∧ sum + k < sizeLimit ∧ fieldsSize w owner (sum + k) fs = .ok size := by
  simp only [fieldsSize] at h
  obtain ⟨k, hk, h⟩ := bind_eq_ok.1 h
  obtain ⟨sum', hsum, h⟩ := bind_eq_ok.1 h
  obtain ⟨hlt, rfl⟩ := checked_eq_ok.1 hsum
  exact ⟨k, hk, hlt, h⟩

theorem byteSize_of_mem {w : BitWidth} {owner : String} {sum size : Nat} {fs : List (String × Node)}
    (h : fieldsSize w owner sum fs = .ok size) {f : String × Node} (hf : f ∈ fs) :
    ∃ k, f.2.byteSize w = .ok k := by
  induction fs generalizing sum with
  | nil => simp at hf
  | cons g fs ih =>
    obtain ⟨k, hk, _, hrest⟩ := fieldsSize_cons h
    rcases List.mem_cons.1 hf with rfl | hf
    · exact ⟨k, hk⟩
    · exact ih hrest hf

theorem fieldsSize_eq_exact {w : BitWidth} {owner : String} {fs : List (String × Node)}
    (ih : ∀ f ∈ fs, ∀ k, f.2.byteSize w = .ok k → k = f.2.exactSize w) {sum size : Nat}
    (h : fieldsSize w owner sum fs = .ok size) : size = sum + exactFieldsSize w fs := by
  induction fs generalizing sum with
  | nil => simpa [fieldsSize, exactFieldsSize, eq_comm] using h
  | cons f fs ihs =>
    obtain ⟨k, hk, _, hrest⟩ := fieldsSize_cons h
    have hsize := ihs (fun g hg => ih g (by simp [hg])) hrest
    rw [ih f (by simp) k hk] at hsize
    rw [hsize, exactFieldsSize, Nat.add_assoc]

theorem byteSize_eq_exactSize {w : BitWidth} {n : Node} {size : Nat} (h : n.byteSize w = .ok size) :
    size = n.exactSize w := by
  induction n generalizing size with
  | leaf t l ds hints =>
    simp only [byteSize] at h
    rw [(arraySize_eq_ok h).1, exactSize, foldl_mul_one]
  | struct t fs ds hints ih =>
    simp only [byteSize] at h
    obtain ⟨element, he, h⟩ := bind_eq_ok.1 h
    have hfields := fieldsSize_eq_exact (fun f hf k hk => ih f hf hk) he
    rw [Nat.zero_add] at hfields
    rw [(arraySize_eq_ok h).1, exactSize, foldl_mul_one, hfields]

theorem fieldsSize_narrow {owner : String} {fs : List (String × Node)}
    (ih : ∀ f ∈ fs, ∀ k, f.2.byteSize .w64 = .ok k → ∃ k' ≤ k, f.2.byteSize .w32 = .ok k')
    {sum sum' size : Nat} (hs : sum' ≤ sum) (h : fieldsSize .w64 owner sum fs = .ok size) :
    ∃ size' ≤ size, fieldsSize .w32 owner sum' fs = .ok size' := by
  induction fs generalizing sum sum' with
  | nil =>
    cases h
    exact ⟨sum', hs, rfl⟩
  | cons f fs ihs =>
    obtain ⟨k, hk, hlt, hrest⟩ := fieldsSize_cons h
    obtain ⟨k', hle, hk'⟩ := ih f (by simp) k hk
    obtain ⟨size', hsize, hrest'⟩ :=
      ihs (fun g hg => ih g (by simp [hg])) (show sum' + k' ≤ sum + k by omega) hrest
    refine ⟨size', hsize, ?_⟩
    have hc : checked owner (sum' + k') = .ok (sum' + k') := checked_ok (by omega)
    simp only [fieldsSize]
    exact bind_eq_ok.2 ⟨k', hk', bind_eq_ok.2 ⟨_, hc, hrest'⟩⟩

/-- What fits with wide pointers fits with narrow ones. -/
theorem byteSize_narrow {n : Node} {size : Nat} (h : n.byteSize .w64 = .ok size) :
    ∃ size' ≤ size, n.byteSize .w32 = .ok size' := by
  induction n generalizing size with
  | leaf t l ds hints =>
    simp only [byteSize] at h ⊢
    have hle : l.size .w32 ≤ l.size .w64 := l.primitiveOf.code_size_le
    refine ⟨_, ?_, arraySize_mono hle h⟩
    rw [(arraySize_eq_ok h).1]
    exact Nat.mul_le_mul_right _ hle
  | struct t fs ds hints ih =>
    simp only [byteSize] at h ⊢
    obtain ⟨element, he, h⟩ := bind_eq_ok.1 h
    obtain ⟨element', hle, he'⟩ := fieldsSize_narrow (fun f hf k hk => ih f hf hk) (Nat.le_refl 0) he
    refine ⟨_, ?_, bind_eq_ok.2 ⟨element', he', arraySize_mono hle h⟩⟩
    rw [(arraySize_eq_ok h).1]
    exact Nat.mul_le_mul_right _ hle

theorem byteSize_of_wide {n : Node} {size : Nat} (h : n.byteSize .w64 = .ok size) (w : BitWidth) :
    ∃ k, n.byteSize w = .ok k := by
  cases w with
  | w32 => exact (byteSize_narrow h).imp fun _ h => h.2
  | w64 => exact ⟨size, h⟩

end Node

end PackedStruct
