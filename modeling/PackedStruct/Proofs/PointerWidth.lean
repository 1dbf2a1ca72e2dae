import PackedStruct.Proofs.Acceptance
import PackedStruct.Proofs.Layout
import PackedStruct.Proofs.Truncation
/-!
Both pointer widths. The compiler looks for one size, that of the whole type with wide pointers. It
is enough for every part of the type at both widths, and a narrow layout differs from a wide one only
in the slots that are as wide as a pointer.
-/

namespace PackedStruct

namespace Leaf

/-- Whether the leaf is as wide as a pointer. -/
def FollowsWidth (l : Leaf) : Prop := l.primitiveOf ∈ [Primitive.pointer, .size, .ssize]

theorem code_ne_iff (l : Leaf) : l.code .w32 ≠ l.code .w64 ↔ l.FollowsWidth := by
  unfold code FollowsWidth
  cases l.primitiveOf <;> decide

end Leaf

namespace Node

variable {w : BitWidth} {n m k : Node}

theorem mem_subnodes_trans (hk : k ∈ m.subnodes) (hm : m ∈ n.subnodes) : k ∈ n.subnodes := by
  induction n with
  | leaf t l ds h =>
    rw [subnodes, List.mem_singleton] at hm
    rwa [← hm]
  | struct t fs ds h ih =>
    rw [subnodes] at hm ⊢
    rcases List.mem_cons.1 hm with rfl | hm
    · rwa [subnodes] at hk
    · obtain ⟨f, hf, hfield⟩ := mem_fieldsSubnodes.1 hm
      exact List.mem_cons_of_mem _ (mem_fieldsSubnodes.2 ⟨f, hf, ih f hf hfield⟩)

theorem InRange.subnode (h : n.InRange w) (hm : m ∈ n.subnodes) : m.InRange w :=
  fun k hk => h k (mem_subnodes_trans hk hm)

theorem PositiveDims.subnode (h : n.PositiveDims) (hm : m ∈ n.subnodes) : m.PositiveDims :=
  fun k hk => h k (mem_subnodes_trans hk hm)

theorem PositiveDims.dims_pos (h : n.PositiveDims) : ∀ d ∈ n.dims, 0 < d := h n n.mem_subnodes_self

theorem InRange.elementCount (h : n.InRange w) (hpos : n.PositiveDims) :
    n.elementCount = .ok n.exactCount := by
  obtain ⟨hcount, -⟩ := h n n.mem_subnodes_self
  unfold Node.exactCount at hcount ⊢
  rw [foldl_mul_one] at hcount ⊢
  have hfound : countFrom n.typeName 1 n.dims = .ok (1 * n.dims.prod) :=
    countFrom_of_lt hpos.dims_pos (by omega)
  rwa [Nat.one_mul] at hfound

/-- Where a size is found, decoding does not look for one in vain. -/
theorem decode_ne_tooLarge {size : Nat} (h : n.byteSize w = .ok size) (e : Endian) (offset : Nat)
    (buffer : List UInt8) (typeName : String) :
    n.decode w e offset buffer ≠ .error (.tooLarge typeName) := by
  by_cases hs : size ≤ buffer.length - offset
  · rw [decode_of_fits h hs]
    exact nofun
  · rw [decode_of_short h (by omega)]
    exact nofun

/-- The codes of a type for narrow and for wide pointers: slot by slot they come from the same leaves,
and a slot is the same in both unless its leaf is as wide as a pointer. -/
structure Aligned (n : Node) (narrow wide : List Code) : Prop where
  length_narrow : narrow.length = n.slots.length
  length_wide : wide.length = n.slots.length
  slots : ∀ (i : Nat) (leaf : Leaf), n.slots[i]? = some leaf →
    narrow[i]? = some (leaf.code .w32) ∧ wide[i]? = some (leaf.code .w64) ∧
      (narrow[i]? ≠ wide[i]? ↔ leaf.FollowsWidth)

theorem aligned (n : Node) : n.Aligned (n.codes .w32) (n.codes .w64) where
  length_narrow := length_codes _ _
  length_wide := length_codes _ _
  slots i leaf hleaf := by
    have hcode (w : BitWidth) : (n.codes w)[i]? = some (leaf.code w) := by
      rw [codes_eq_map_slots, List.getElem?_map, hleaf, Option.map_some]
    refine ⟨hcode .w32, hcode .w64, ?_⟩
    rw [hcode, hcode, ← leaf.code_ne_iff]
    simp

/-- One size that the compiler finds makes every part of the type safe: at both widths its elements
are counted, its size and its layout are found, and decoding it is never refused for its size. -/
theorem compile_covers {s : Schema} {target : String} (h : s.compile target = .ok n)
    (hm : m ∈ n.subnodes) :
    m.elementCount = .ok m.exactCount ∧
    (∃ narrow wide, m.byteSize .w32 = .ok narrow ∧ m.byteSize .w64 = .ok wide ∧
      m.slots.length ≤ narrow ∧ narrow ≤ wide ∧
      ∀ capacity, m.slots.length ≤ capacity →
        m.layout capacity .w32 = .ok ⟨m.codes .w32, narrow⟩ ∧
          m.layout capacity .w64 = .ok ⟨m.codes .w64, wide⟩) ∧
    m.Aligned (m.codes .w32) (m.codes .w64) ∧
    ∀ w e offset buffer typeName, m.decode w e offset buffer ≠ .error (.tooLarge typeName) := by
  obtain ⟨hdenotes, hrange⟩ := Schema.compile_eq_ok.1 h
  have hpos : m.PositiveDims := hdenotes.positiveDims.subnode hm
  have hinside : m.InRange .w64 := hrange.subnode hm
  obtain ⟨wide, hwide⟩ := (byteSize_ok_iff hpos).2 hinside
  obtain ⟨narrow, hle, hnarrow⟩ := byteSize_narrow hwide
  refine ⟨hinside.elementCount hpos, ?_, m.aligned, ?_⟩
  · refine ⟨narrow, wide, hnarrow, hwide, length_slots_le hnarrow, hle, fun capacity hroom => ?_⟩
    exact ⟨layout_of_le hpos hnarrow hroom, layout_of_le hpos hwide hroom⟩
  · intro w e offset buffer typeName
    obtain ⟨size, hsize⟩ := byteSize_of_wide hwide w
    exact decode_ne_tooLarge hsize e offset buffer typeName

/-- The two points inside `Schema.packet`. -/
theorem compile_covers_points :
    ∃ n m, Schema.packet.compile "Packet" = .ok n ∧ m ∈ n.subnodes ∧
      m.typeName = "Point" ∧ m.dims = [2] ∧ m.elementCount = .ok m.exactCount ∧
      (∃ narrow wide, m.byteSize .w32 = .ok narrow ∧ m.byteSize .w64 = .ok wide ∧
        m.slots.length ≤ narrow ∧ narrow ≤ wide ∧
        ∀ capacity, m.slots.length ≤ capacity →
          m.layout capacity .w32 = .ok ⟨m.codes .w32, narrow⟩ ∧
            m.layout capacity .w64 = .ok ⟨m.codes .w64, wide⟩) ∧
      m.Aligned (m.codes .w32) (m.codes .w64) ∧
      ∀ w e offset buffer typeName, m.decode w e offset buffer ≠ .error (.tooLarge typeName) := by
  obtain ⟨n, hn⟩ := Schema.exists_compile_packet
  have hpoints : (Schema.packet.compile "Packet").map
      (fun n => n.subnodes[3]?.map fun m => (m.typeName, m.dims)) = .ok (some ("Point", [2])) := by
    decide +kernel
  rw [hn] at hpoints
  obtain ⟨m, hm, htype⟩ := Option.map_eq_some_iff.1 (Except.ok.inj hpoints)
  obtain ⟨hname, hdims⟩ := Prod.mk.inj htype
  have hmem : m ∈ n.subnodes := List.mem_of_getElem? hm
  exact ⟨n, m, hn, hmem, hname, hdims, compile_covers hn hmem⟩

end Node

end PackedStruct
