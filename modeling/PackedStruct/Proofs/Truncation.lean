import PackedStruct.Compile
import PackedStruct.Proofs.Layout
/-!
How decoding a compiled type can fail: only by a buffer that ends too early, and that is found out
before anything is read. Bytes past the end are always refused, but there is no end for a type without
bytes: it is decoded at every offset.
-/

namespace PackedStruct

namespace Schema

theorem byteSize_of_compile {s : Schema} {target : String} {n : Node} (h : s.compile target = .ok n)
    (w : BitWidth) : ∃ size, n.byteSize w = .ok size := by
  obtain ⟨m, _, h⟩ := bind_eq_ok.1 h
  obtain ⟨size, hsize, h⟩ := bind_eq_ok.1 h
  cases h
  exact Node.byteSize_of_wide hsize w

/-- A struct of rows, fillers, structs and pointers. -/
def packet : Schema := ofList [
  ("Tag", .alias "char[4]"),
  ("Point", .struct [[("x", .bare "short")], [("gap", .bare "padding")], [("up", .bare "bool")]]),
  ("Packet", .struct [[("tags", .bare "Tag[2]")], [("gap", .bare "padding[3]")],
    [("points", .bare "Point[2]")], [("size", .bare "size_t")], [("next", .bare "Packet *")]])]

theorem exists_compile_packet : ∃ n, packet.compile "Packet" = .ok n :=
  exists_of_isOk (by decide +kernel)

end Schema

namespace Node

/-- Enough bytes are always decoded. An error is the one of the size check, so the list of scalars, one for
each slot that is not filler, is never too short, too long or of the wrong kinds, and never ends within a slot. -/
theorem decode_ok_or_truncated {s : Schema} {target : String} {n : Node}
    (h : s.compile target = .ok n) (w : BitWidth) (e : Endian) (offset : Nat) (buffer : List UInt8) :
    ∃ size, n.byteSize w = .ok size ∧
      (offset + size ≤ buffer.length → ∃ d, n.decode w e offset buffer = .ok d) ∧
      (∀ err, n.decode w e offset buffer = .error err →
        err = .truncated offset size (buffer.length - offset) ∧ buffer.length - offset < size) ∧
      (size ≤ buffer.length - offset →
        ∃ scalars d, unpack e offset (buffer.drop offset) (n.codes w) = .ok scalars ∧
          scalars.length = (n.codes w).countP (· != .pad) ∧ n.assemble scalars = some (d, []) ∧
          n.decode w e offset buffer = .ok d) := by
  obtain ⟨size, hsize⟩ := Schema.byteSize_of_compile h w
  refine ⟨size, hsize, ?_, ?_, ?_⟩
  · intro hfits
    have hs : size ≤ buffer.length - offset := by omega
    exact ⟨_, decode_of_fits hsize hs⟩
  · intro err herr
    by_cases hs : size ≤ buffer.length - offset
    · rw [decode_of_fits hsize hs] at herr
      cases herr
    · have hshort : buffer.length - offset < size := by omega
      rw [decode_of_short hsize hshort] at herr
      cases herr
      exact ⟨rfl, hshort⟩
  · intro hs
    obtain ⟨scalars, hunpack, hassemble⟩ := assemble_unpacked hsize hs
    exact ⟨scalars, _, hunpack, length_unpack hunpack, hassemble, decode_of_fits hsize hs⟩

theorem decode_ok_or_truncated_packet :
    ∃ n, Schema.packet.compile "Packet" = .ok n ∧
      ∃ size, n.byteSize .w32 = .ok size ∧
        (5 + size ≤ (List.replicate 40 (1 : UInt8)).length →
          ∃ d, n.decode .w32 .big 5 (List.replicate 40 1) = .ok d) ∧
        (∀ err, n.decode .w32 .big 5 (List.replicate 40 1) = .error err →
          err = .truncated 5 size ((List.replicate 40 (1 : UInt8)).length - 5) ∧
            (List.replicate 40 (1 : UInt8)).length - 5 < size) ∧
        (size ≤ (List.replicate 40 (1 : UInt8)).length - 5 →
          ∃ scalars d, unpack .big 5 ((List.replicate 40 1).drop 5) (n.codes .w32) = .ok scalars ∧
            scalars.length = (n.codes .w32).countP (· != .pad) ∧ n.assemble scalars = some (d, []) ∧
            n.decode .w32 .big 5 (List.replicate 40 1) = .ok d) := by
  obtain ⟨n, hn⟩ := Schema.exists_compile_packet
  exact ⟨n, hn, decode_ok_or_truncated hn .w32 .big 5 (List.replicate 40 1)⟩

/-- Only a type without scalars has no bytes. -/
theorem byteSize_eq_zero_iff {n : Node} {w : BitWidth} {size : Nat} (h : n.byteSize w = .ok size) :
    size = 0 ↔ n.slots = [] := by
  rw [byteSize_eq_exactSize h, ← codesWidth_codes, ← List.length_eq_zero_iff, ← length_codes w]
  constructor
  · intro hzero
    have hle := length_le_codesWidth (n.codes w)
    omega
  · intro hnone
    rw [List.length_eq_zero_iff.1 hnone]
    rfl

/-- Without bytes there is nothing to read, wherever the value is looked for. -/
theorem decode_of_empty {n : Node} {w : BitWidth} (h : n.byteSize w = .ok 0) :
    ∃ d, ∀ e offset buffer, n.decode w e offset buffer = .ok d := by
  have hslots : n.slots.length = 0 := List.length_eq_zero_iff.2 ((byteSize_eq_zero_iff h).1 rfl)
  have hcodes : n.codes w = [] := by
    rw [← List.length_eq_zero_iff, length_codes, hslots]
  -- Every read takes the value from the same list of scalars, the empty one.
  have hassemble (e : Endian) (bytes : List UInt8) : n.assemble [] = some (n.dataAt w e bytes, []) := by
    have htaken := reads_assemble w e n bytes []
    rwa [hcodes] at htaken
  refine ⟨n.dataAt w .little [], fun e offset buffer => ?_⟩
  have hsame : n.dataAt w e (buffer.drop offset) = n.dataAt w .little [] := by
    have heq := (hassemble e (buffer.drop offset)).symm.trans (hassemble .little [])
    exact (Prod.mk.inj (Option.some.inj heq)).1
  rw [decode_of_fits h (Nat.zero_le _), hsame]

/-- A value of at least one byte that would end past the end of the buffer is refused, at any offset,
and no other is. A type without bytes is never refused, even past the end. -/
theorem decode_truncated_iff {s : Schema} {target : String} {n : Node}
    (h : s.compile target = .ok n) (w : BitWidth) :
    ∃ size, n.byteSize w = .ok size ∧ (size = 0 ↔ n.slots = []) ∧
      (0 < size → ∀ e offset buffer,
        n.decode w e offset buffer = .error (.truncated offset size (buffer.length - offset)) ↔
          buffer.length < offset + size) ∧
      (size = 0 → ∃ d, ∀ e offset buffer, n.decode w e offset buffer = .ok d) := by
  obtain ⟨size, hsize⟩ := Schema.byteSize_of_compile h w
  refine ⟨size, hsize, byteSize_eq_zero_iff hsize, ?_, ?_⟩
  · intro hpos e offset buffer
    constructor
    · intro herr
      by_contra hfits
      have hs : size ≤ buffer.length - offset := by omega
      rw [decode_of_fits hsize hs] at herr
      cases herr
    · intro hpast
      have hshort : buffer.length - offset < size := by omega
      exact decode_of_short hsize hshort
  · intro hzero
    apply decode_of_empty
    rw [hsize, hzero]

theorem decode_truncated_iff_packet :
    ∃ n, Schema.packet.compile "Packet" = .ok n ∧
      ∃ size, n.byteSize .w32 = .ok size ∧ (size = 0 ↔ n.slots = []) ∧
        (0 < size → ∀ e offset buffer,
          n.decode .w32 e offset buffer = .error (.truncated offset size (buffer.length - offset)) ↔
            buffer.length < offset + size) ∧
        (size = 0 → ∃ d, ∀ e offset buffer, n.decode .w32 e offset buffer = .ok d) := by
  obtain ⟨n, hn⟩ := Schema.exists_compile_packet
  exact ⟨n, hn, decode_truncated_iff hn .w32⟩

/-- A struct without fields is decoded at an offset two bytes into a buffer of one byte. -/
theorem decode_past_end :
    ∃ n, (Schema.ofList [("Nothing", .struct [])]).compile "Nothing" = .ok n ∧
      n.byteSize .w64 = .ok 0 ∧ ([7] : List UInt8).length < 2 + 0 ∧
      ∃ d, n.decode .w64 .little 2 [7] = .ok d := by
  obtain ⟨n, hn⟩ : ∃ n, (Schema.ofList [("Nothing", .struct [])]).compile "Nothing" = .ok n :=
    exists_of_isOk (by decide +kernel)
  have hempty : ((Schema.ofList [("Nothing", .struct [])]).compile "Nothing").map
      (fun n => n.byteSize .w64) = .ok (.ok 0) := by decide +kernel
  rw [hn] at hempty
  have hsize : n.byteSize .w64 = .ok 0 := Except.ok.inj hempty
  obtain ⟨d, hd⟩ := decode_of_empty hsize
  exact ⟨n, hn, hsize, by decide, d, hd .little 2 [7]⟩

end Node

end PackedStruct
