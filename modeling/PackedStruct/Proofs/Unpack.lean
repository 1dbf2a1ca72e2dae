import PackedStruct.Decode
import PackedStruct.Proofs.Size
/-!
What is unpacked from bytes that are long enough. `scalarsAt` says it without a position and without
failing, and it cuts at every place where the list of slots can be cut.
-/

namespace PackedStruct

/-- The bytes that slots take together. -/
def codesWidth (cs : List Code) : Nat := (cs.map Code.size).sum

@[simp] theorem codesWidth_nil : codesWidth [] = 0 := rfl

@[simp] theorem codesWidth_cons (c : Code) (cs : List Code) :
    codesWidth (c :: cs) = c.size + codesWidth cs := by simp [codesWidth]

@[simp] theorem codesWidth_append (cs ds : List Code) :
    codesWidth (cs ++ ds) = codesWidth cs + codesWidth ds := by simp [codesWidth]

@[simp] theorem repeatCodes_zero (cs : List Code) : repeatCodes 0 cs = [] := rfl

@[simp] theorem repeatCodes_one (cs : List Code) : repeatCodes 1 cs = cs := by simp [repeatCodes]

theorem repeatCodes_succ (n : Nat) (cs : List Code) :
    repeatCodes (n+1) cs = cs ++ repeatCodes n cs := by
  simp [repeatCodes, List.replicate_succ]

theorem repeatCodes_add (m n : Nat) (cs : List Code) :
    repeatCodes (m+n) cs = repeatCodes m cs ++ repeatCodes n cs := by
  rw [repeatCodes, ← List.replicate_append_replicate, List.flatten_append, repeatCodes, repeatCodes]

theorem repeatCodes_mul (m n : Nat) (cs : List Code) :
    repeatCodes (m*n) cs = repeatCodes m (repeatCodes n cs) := by
  induction m with
  | zero => simp
  | succ m ih => rw [Nat.succ_mul, Nat.add_comm, repeatCodes_add, ih, repeatCodes_succ]

theorem codesWidth_repeatCodes (n : Nat) (cs : List Code) :
    codesWidth (repeatCodes n cs) = codesWidth cs * n := by
  induction n with
  | zero => simp
  | succ n ih => rw [repeatCodes_succ, codesWidth_append, ih, Nat.mul_succ, Nat.add_comm]

namespace Node

theorem codesWidth_fieldsCodes {w : BitWidth} {fs : List (String × Node)}
    (ih : ∀ f ∈ fs, codesWidth (f.2.codes w) = f.2.exactSize w) :
    codesWidth (fieldsCodes w fs) = exactFieldsSize w fs := by
  induction fs with
  | nil => rfl
  | cons f fs ihs =>
    have hrest := ihs (fun g hg => ih g (by simp [hg]))
    rw [fieldsCodes, codesWidth_append, ih f (by simp), hrest, exactFieldsSize]

theorem codesWidth_codes (w : BitWidth) (n : Node) : codesWidth (n.codes w) = n.exactSize w := by
  induction n with
  | leaf t l ds h => simp [codes, exactSize, codesWidth_repeatCodes, Leaf.size]
  | struct t fs ds h ih =>
    rw [codes, codesWidth_repeatCodes, codesWidth_fieldsCodes ih, exactSize]

end Node

/-- The scalars that stand in bytes at the places of slots, fillers left out. -/
def scalarsAt (e : Endian) : List UInt8 → List Code → List Scalar
  | _, [] => []
  | bytes, c :: cs =>
    (c.scalar? (e.toNat (bytes.take c.size))).toList ++ scalarsAt e (bytes.drop c.size) cs

theorem scalarsAt_append (e : Endian) (bytes : List UInt8) (cs ds : List Code) :
    scalarsAt e bytes (cs ++ ds) =
      scalarsAt e bytes cs ++ scalarsAt e (bytes.drop (codesWidth cs)) ds := by
  induction cs generalizing bytes with
  | nil => simp [scalarsAt]
  | cons c cs ih =>
    rw [List.cons_append, scalarsAt, scalarsAt, ih, List.append_assoc, List.drop_drop, codesWidth_cons]

theorem takeBytes_of_le {n : Nat} {bytes : List UInt8} (h : n ≤ bytes.length) :
    takeBytes n bytes = some (bytes.take n, bytes.drop n) := by
  induction n generalizing bytes with
  | zero => simp [takeBytes]
  | succ n ih =>
    cases bytes with
    | nil => simp at h
    | cons b bytes =>
      have hrest : takeBytes n bytes = some (bytes.take n, bytes.drop n) := ih (by simpa using h)
      simp [takeBytes, hrest]

theorem unpack_eq_scalarsAt {e : Endian} {pos : Nat} {bytes : List UInt8} {cs : List Code}
    (h : codesWidth cs ≤ bytes.length) : unpack e pos bytes cs = .ok (scalarsAt e bytes cs) := by
  induction cs generalizing pos bytes with
  | nil => rfl
  | cons c cs ih =>
    rw [codesWidth_cons] at h
    have htake : takeBytes c.size bytes = some (bytes.take c.size, bytes.drop c.size) :=
      takeBytes_of_le (by omega)
    have hlength : codesWidth cs ≤ (bytes.drop c.size).length := by
      rw [List.length_drop]
      omega
    have hrest : unpack e (pos + c.size) (bytes.drop c.size) cs =
        .ok (scalarsAt e (bytes.drop c.size) cs) := ih hlength
    simp only [unpack, htake]
    exact bind_eq_ok.2 ⟨_, hrest, rfl⟩

theorem Code.length_scalar? (c : Code) (n : Nat) : (c.scalar? n).toList.length = if c != .pad then 1 else 0 := by
  cases c <;> rfl

/-- Whatever is unpacked, there is one scalar for each slot that is not filler. -/
theorem length_unpack {e : Endian} {pos : Nat} {bytes : List UInt8} {cs : List Code} {scalars : List Scalar}
    (h : unpack e pos bytes cs = .ok scalars) : scalars.length = cs.countP (· != .pad) := by
  induction cs generalizing pos bytes scalars with
  | nil =>
    cases h
    rfl
  | cons c cs ih =>
    cases htake : takeBytes c.size bytes with
    | none =>
      simp only [unpack, htake] at h
      cases h
    | some parts =>
      simp only [unpack, htake] at h
      obtain ⟨others, hothers, h⟩ := bind_eq_ok.1 h
      cases h
      rw [List.length_append, Code.length_scalar?, ih hothers, List.countP_cons, Nat.add_comm]

end PackedStruct
