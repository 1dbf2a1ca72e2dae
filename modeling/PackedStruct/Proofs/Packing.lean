import PackedStruct.Proofs.Leaves
import PackedStruct.Proofs.Truncation
import Mathlib.Data.List.Forall2
/-!
Packed bytes are decoded to the scalars they were packed from. Packing is a relation, for a true
boolean may be any byte but zero, and a filler any byte at all.
-/

namespace PackedStruct

/-- The last `size` bytes of a number, the least significant one first. -/
def lowBytes : (size : Nat) → Nat → List UInt8
  | 0, _ => []
  | size+1, n => UInt8.ofNat n :: lowBytes size (n/256)

namespace Endian

/-- The `size` bytes that write a number. -/
def bytesOf (e : Endian) (size n : Nat) : List UInt8 :=
  match e with
  | .little => lowBytes size n
  | .big => (lowBytes size n).reverse

end Endian

namespace Code

/-- Whether a scalar is of the kind of a slot and in its range. -/
def Fits (c : Code) : Scalar → Prop
  | .char _ => c = .char
  | .bool _ => c = .bool
  | .signed v => c ∈ [.i8, .i16, .i32, .i64] ∧ -2^(8*c.size-1) ≤ v ∧ v < 2^(8*c.size-1)
  | .unsigned n => c ∈ [.u8, .u16, .u32, .u64] ∧ n < 2^(8*c.size)
  | .single _ => c = .f32
  | .double _ => c = .f64
  | .pointer a => c ∈ [.ptr32, .ptr64] ∧ a < 2^(8*c.size)
  | .null | .text _ => False

instance (c : Code) : DecidablePred c.Fits
  | .char _ => inferInstanceAs (Decidable (c = .char))
  | .bool _ => inferInstanceAs (Decidable (c = .bool))
  | .signed v => inferInstanceAs
      (Decidable (c ∈ [.i8, .i16, .i32, .i64] ∧ -2^(8*c.size-1) ≤ v ∧ v < 2^(8*c.size-1)))
  | .unsigned n => inferInstanceAs (Decidable (c ∈ [.u8, .u16, .u32, .u64] ∧ n < 2^(8*c.size)))
  | .single _ => inferInstanceAs (Decidable (c = .f32))
  | .double _ => inferInstanceAs (Decidable (c = .f64))
  | .pointer a => inferInstanceAs (Decidable (c ∈ [.ptr32, .ptr64] ∧ a < 2^(8*c.size)))
  | .null | .text _ => inferInstanceAs (Decidable False)

/-- Whether the bytes write a scalar in a slot: a signed number in two's complement, and any byte
but zero for a true boolean. -/
def Writes (e : Endian) (c : Code) (bytes : List UInt8) : Scalar → Prop
  | .char b => bytes = [b]
  | .bool v => ∃ b, bytes = [b] ∧ (v = true ↔ b ≠ 0)
  | .signed v => bytes = e.bytesOf c.size (v % 2^(8*c.size)).toNat
  | .unsigned n | .pointer n => bytes = e.bytesOf c.size n
  | .single x => bytes = e.bytesOf c.size x.bits.toNat
  | .double x => bytes = e.bytesOf c.size x.bits.toNat
  | .null | .text _ => False

end Code

/-- The bytes hold the scalars in the slots, one after another. -/
inductive Packed (e : Endian) : List Code → List Scalar → List UInt8 → Prop where
  | nil : Packed e [] [] []
  | filler {cs : List Code} {ss : List Scalar} {bytes : List UInt8} (b : UInt8)
      (h : Packed e cs ss bytes) : Packed e (.pad :: cs) ss (b :: bytes)
  | slot {c : Code} {s : Scalar} {first : List UInt8} {cs : List Code} {ss : List Scalar}
      {bytes : List UInt8} (hfits : c.Fits s) (hwrites : c.Writes e first s)
      (h : Packed e cs ss bytes) : Packed e (c :: cs) (s :: ss) (first ++ bytes)

theorem length_lowBytes (size n : Nat) : (lowBytes size n).length = size := by
  induction size generalizing n with
  | zero => rfl
  | succ size ih => rw [lowBytes, List.length_cons, ih]

theorem length_bytesOf (e : Endian) (size n : Nat) : (e.bytesOf size n).length = size := by
  cases e <;> simp [Endian.bytesOf, length_lowBytes]

theorem toNat_lowBytes {size n : Nat} (h : n < 256^size) :
    (lowBytes size n).foldr (fun b n => b.toNat + 256*n) 0 = n := by
  induction size generalizing n with
  | zero =>
    rw [Nat.pow_zero, Nat.lt_one_iff] at h
    rw [h]
    rfl
  | succ size ih =>
    have hrest : n/256 < 256^size := by
      rw [Nat.pow_succ] at h
      exact Nat.div_lt_of_lt_mul (by rwa [Nat.mul_comm] at h)
    have hbyte : (UInt8.ofNat n).toNat = n % 256 := UInt8.toNat_ofNat'
    rw [lowBytes, List.foldr_cons, ih hrest, hbyte]
    exact Nat.mod_add_div n 256

theorem toNat_bytesOf (e : Endian) {size n : Nat} (h : n < 2^(8*size)) :
    e.toNat (e.bytesOf size n) = n := by
  have hrange : n < 256^size := by rwa [Nat.pow_mul] at h
  cases e with
  | little => exact toNat_lowBytes hrange
  | big =>
    have hsum : ∀ bs : List UInt8, bs.foldr (fun b n => 256*n + b.toNat) 0 =
        bs.foldr (fun b n => b.toNat + 256*n) 0 := by
      intro bs
      induction bs with
      | nil => rfl
      | cons b bs ih => rw [List.foldr_cons, List.foldr_cons, ih, Nat.add_comm]
    rw [Endian.bytesOf, Endian.toNat, List.foldl_reverse, hsum, toNat_lowBytes hrange]

/-- A number between the bounds of a signed slot is found again from its remainder. -/
theorem twosComplement_emod {size : Nat} (hpos : 0 < size) {v : Int} (hlo : -2^(8*size-1) ≤ v)
    (hhi : v < 2^(8*size-1)) : twosComplement size (v % 2^(8*size)).toNat = v := by
  have hdouble : (2 : Int)^(8*size) = 2 * 2^(8*size-1) := by
    rw [← pow_succ', Nat.sub_add_cancel (by omega)]
  have hhalf : ((Nat.pow 2 (8*size-1) : Nat) : Int) = 2^(8*size-1) := by simp
  have hfull : ((Nat.pow 2 (8*size) : Nat) : Int) = 2^(8*size) := by simp
  unfold twosComplement
  rw [hfull]
  by_cases hneg : v < 0
  · have hmod : v % 2^(8*size) = v + 2^(8*size) := by
      rw [← Int.add_emod_right]
      exact Int.emod_eq_of_lt (by omega) (by omega)
    rw [hmod, if_neg (by omega)]
    omega
  · have hmod : v % 2^(8*size) = v := Int.emod_eq_of_lt (by omega) (by omega)
    rw [hmod, if_pos (by omega)]
    omega

namespace Code

variable {e : Endian} {c : Code} {s : Scalar} {bytes : List UInt8}

theorem scalar?_signed (hc : c ∈ [.i8, .i16, .i32, .i64]) (n : Nat) :
    c.scalar? n = some (.signed (twosComplement c.size n)) := by
  cases c <;> simp at hc <;> rfl

theorem scalar?_unsigned (hc : c ∈ [.u8, .u16, .u32, .u64]) (n : Nat) :
    c.scalar? n = some (.unsigned n) := by
  cases c <;> simp at hc <;> rfl

theorem scalar?_pointer (hc : c ∈ [.ptr32, .ptr64]) (n : Nat) : c.scalar? n = some (.pointer n) := by
  cases c <;> simp at hc <;> rfl

theorem toNat_byte (e : Endian) (b : UInt8) : e.toNat [b] = b.toNat := by
  cases e <;> simp [Endian.toNat]

theorem Writes.length (hf : c.Fits s) (hw : c.Writes e bytes s) : bytes.length = c.size := by
  cases s with
  | null | text => exact hf.elim
  | char b =>
    subst hf hw
    rfl
  | bool v =>
    obtain ⟨b, rfl, _⟩ := hw
    subst hf
    rfl
  | signed v | unsigned v | single v | double v | pointer v =>
    subst hw
    exact length_bytesOf e _ _

/-- What is written in a slot is read from it. -/
theorem Writes.scalar? (hf : c.Fits s) (hw : c.Writes e bytes s) :
    c.scalar? (e.toNat bytes) = some s := by
  cases s with
  | null | text => exact hf.elim
  | char b =>
    subst hf hw
    simp [toNat_byte, Code.scalar?]
  | bool v =>
    obtain ⟨b, rfl, hb⟩ := hw
    subst hf
    have hzero : b.toNat = 0 ↔ b = 0 := by rw [← UInt8.toNat_inj, UInt8.toNat_zero]
    cases v <;> simp [toNat_byte, Code.scalar?] <;> simp_all
  | signed v =>
    obtain ⟨hc, hlo, hhi⟩ := hf
    subst hw
    have hpos : (0 : Int) < 2^(8*c.size) := Int.pow_pos (by decide)
    have hcast : ((2^(8*c.size) : Nat) : Int) = 2^(8*c.size) := by simp
    have hmod := Int.emod_lt_of_pos v hpos
    have hlt : (v % 2^(8*c.size)).toNat < 2^(8*c.size) := by omega
    rw [toNat_bytesOf e hlt, scalar?_signed hc, twosComplement_emod c.size_pos hlo hhi]
  | unsigned n =>
    obtain ⟨hc, hlt⟩ := hf
    subst hw
    rw [toNat_bytesOf e hlt, scalar?_unsigned hc]
  | pointer a =>
    obtain ⟨hc, hlt⟩ := hf
    subst hw
    rw [toNat_bytesOf e hlt, scalar?_pointer hc]
  | single x =>
    subst hf hw
    have hlt : x.bits.toNat < 2^(8*Code.f32.size) := x.bits.toNat_lt
    rw [toNat_bytesOf e hlt, Code.scalar?, UInt32.ofNat_toNat]
  | double x =>
    subst hf hw
    have hlt : x.bits.toNat < 2^(8*Code.f64.size) := x.bits.toNat_lt
    rw [toNat_bytesOf e hlt, Code.scalar?, UInt64.ofNat_toNat]

theorem Fits.exists_writes (e : Endian) (hf : c.Fits s) : ∃ bytes, c.Writes e bytes s := by
  cases s with
  | null | text => exact hf.elim
  | bool v => cases v with
    | false => exact ⟨_, 0, rfl, by simp⟩
    | true => exact ⟨_, 1, rfl, by simp⟩
  | char | signed | unsigned | single | double | pointer => exact ⟨_, rfl⟩

end Code

variable {e : Endian} {cs : List Code} {scalars : List Scalar} {bytes : List UInt8}

theorem Packed.length (h : Packed e cs scalars bytes) : bytes.length = codesWidth cs := by
  induction h with
  | nil => rfl
  | filler b _ ih => rw [List.length_cons, ih, codesWidth_cons, Code.size, Nat.add_comm]
  | slot hfits hwrites _ ih => rw [List.length_append, hwrites.length hfits, ih, codesWidth_cons]

/-- Unpacking undoes packing, whatever follows. -/
theorem Packed.scalarsAt (h : Packed e cs scalars bytes) (after : List UInt8) :
    PackedStruct.scalarsAt e (bytes ++ after) cs = scalars := by
  induction h with
  | nil => rfl
  | filler b _ ih =>
    rw [PackedStruct.scalarsAt, List.cons_append]
    exact ih
  | slot hfits hwrites _ ih =>
    have hlength := hwrites.length hfits
    rw [PackedStruct.scalarsAt, List.append_assoc, List.take_left' hlength, List.drop_left' hlength,
      ih, hwrites.scalar? hfits]
    rfl

theorem exists_packed (e : Endian) (h : List.Forall₂ Code.Fits (cs.filter (· != .pad)) scalars) :
    ∃ bytes, Packed e cs scalars bytes := by
  induction cs generalizing scalars with
  | nil =>
    cases h
    exact ⟨[], .nil⟩
  | cons c cs ih =>
    by_cases hc : c = .pad
    · subst hc
      obtain ⟨bytes, hbytes⟩ := ih h
      exact ⟨0 :: bytes, .filler 0 hbytes⟩
    · rw [List.filter_cons_of_pos (by simpa using hc)] at h
      cases h with
      | cons hfits hrest =>
        obtain ⟨first, hfirst⟩ := hfits.exists_writes e
        obtain ⟨bytes, hbytes⟩ := ih hrest
        exact ⟨first ++ bytes, .slot hfits hfirst hbytes⟩

namespace Node

/-- Packed scalars come back as the leaves of the decoded value, wherever in a buffer they stand.
Scalars that fit the slots of a compiled type can always be packed. -/
theorem decode_packed {s : Schema} {target : String} {n : Node} (h : s.compile target = .ok n)
    (w : BitWidth) (e : Endian)
    (hfits : List.Forall₂ Code.Fits ((n.codes w).filter (· != .pad)) scalars) :
    (∃ bytes, Packed e (n.codes w) scalars bytes) ∧
    ∀ bytes before after, Packed e (n.codes w) scalars bytes →
      ∃ d, n.decode w e before.length (before ++ bytes ++ after) = .ok d ∧
        Shown n.places scalars d.leaves := by
  refine ⟨exists_packed e hfits, ?_⟩
  intro bytes before after hpacked
  obtain ⟨size, hsize⟩ := Schema.byteSize_of_compile h w
  have hlength : bytes.length = size := by
    rw [hpacked.length, codesWidth_codes, byteSize_eq_exactSize hsize]
  have hdrop : (before ++ bytes ++ after).drop before.length = bytes ++ after := by
    rw [List.append_assoc, List.drop_left]
  have hroom : size ≤ (before ++ bytes ++ after).length - before.length := by
    simp only [List.length_append]
    omega
  refine ⟨_, decode_of_fits hsize hroom, ?_⟩
  have htaken := reads_assemble w e n (bytes ++ after) []
  rw [List.append_nil, hpacked.scalarsAt after] at htaken
  obtain ⟨taken, htotal, hshown⟩ := shows_assemble n _ _ _ htaken
  rw [List.append_nil] at htotal
  rw [hdrop, htotal]
  exact hshown

/-- Scalars for `Schema.packet`: two rows, a negative number, and the largest address. -/
theorem decode_packed_packet :
    ∃ n, Schema.packet.compile "Packet" = .ok n ∧
      ∃ scalars, scalars = (List.replicate 8 (Scalar.char 0x41)) ++
          [.signed (-32768), .bool true, .signed 32767, .bool false, .unsigned 7, .pointer 0xFFFFFFFF] ∧
        List.Forall₂ Code.Fits ((n.codes .w32).filter (· != .pad)) scalars ∧
        (∃ bytes, Packed .big (n.codes .w32) scalars bytes) ∧
        ∀ bytes before after, Packed .big (n.codes .w32) scalars bytes →
          ∃ d, n.decode .w32 .big before.length (before ++ bytes ++ after) = .ok d ∧
            Shown n.places scalars d.leaves := by
  obtain ⟨n, hn⟩ := Schema.exists_compile_packet
  have hcodes : (Schema.packet.compile "Packet").map (fun n => (n.codes .w32).filter (· != .pad)) =
      .ok (List.replicate 8 .char ++ [.i16, .bool, .i16, .bool, .u32, .ptr32]) := by decide +kernel
  rw [hn] at hcodes
  have hslots : (n.codes .w32).filter (· != .pad) =
      List.replicate 8 .char ++ [.i16, .bool, .i16, .bool, .u32, .ptr32] := Except.ok.inj hcodes
  have hfits : List.Forall₂ Code.Fits ((n.codes .w32).filter (· != .pad))
      ((List.replicate 8 (Scalar.char 0x41)) ++
        [.signed (-32768), .bool true, .signed 32767, .bool false, .unsigned 7, .pointer 0xFFFFFFFF]) := by
    rw [hslots]
    simp [List.replicate_succ, Code.Fits, Code.size]
  exact ⟨n, hn, _, rfl, hfits, decode_packed hn .w32 .big hfits⟩

end Node

end PackedStruct
