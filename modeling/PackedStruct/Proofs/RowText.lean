import PackedStruct.Proofs.Leaves
/-!
Texts from rows of bytes. Bytes that are a text in UTF-8 are decoded to that text. Of other bytes each piece that is
no text is replaced, as few bytes at a time as cannot be the beginning of a character.
-/

namespace PackedStruct

namespace Text

/-- The bytes that one character can have. -/
inductive Sequence : List UInt8 → Prop
  | one {a : UInt8} (ha : a.toNat < 0x80) : Sequence [a]
  | two {a b : UInt8} (ha : 0xC2 ≤ a.toNat ∧ a.toNat ≤ 0xDF) (hb : isContinuation b = true) : Sequence [a, b]
  | three {a b c : UInt8} (ha : 0xE0 ≤ a.toNat ∧ a.toNat ≤ 0xEF) (hb : isSecond a b = true)
      (hc : isContinuation c = true) : Sequence [a, b, c]
  | four {a b c d : UInt8} (ha : 0xF0 ≤ a.toNat ∧ a.toNat ≤ 0xF4) (hb : isSecond a b = true)
      (hc : isContinuation c = true) (hd : isContinuation d = true) : Sequence [a, b, c, d]

variable {a b c d : UInt8} {bytes part rest : List UInt8} {s : List Char} {x : Char}

theorem isContinuation_iff : isContinuation b = true ↔ 0x80 ≤ b.toNat ∧ b.toNat ≤ 0xBF := by
  simp [isContinuation, UInt8.le_iff_toNat_le]

theorem isSecond_iff : isSecond a b = true ↔
    (0x80 ≤ b.toNat ∧ b.toNat ≤ 0xBF) ∧ (a.toNat = 0xE0 → 0xA0 ≤ b.toNat) ∧ (a.toNat = 0xED → b.toNat ≤ 0x9F) ∧
      (a.toNat = 0xF0 → 0x90 ≤ b.toNat) ∧ (a.toNat = 0xF4 → b.toNat ≤ 0x8F) := by
  simp only [isSecond, beq_iff_eq, ← UInt8.toNat_inj, UInt8.le_iff_toNat_le, isContinuation]
  split_ifs with h1 h2 h3 h4 <;> simp_all <;> omega

theorem toNat_ofNat {n : Nat} (h : n.isValidChar) : (Char.ofNat n).val.toNat = n := by
  rw [Char.ofNat, dif_pos h]
  rfl

theorem ofNat_eq {n : Nat} (h : n = a.toNat) : UInt8.ofNat n = a := by rw [h, UInt8.ofNat_toNat]

theorem encode_one (ha : a.toNat < 0x80) : String.utf8EncodeChar (joinBits a.toNat []) = [a] := by
  have hvalid : a.toNat.isValidChar := .inl (by omega)
  simp only [joinBits, List.foldl_nil, String.utf8EncodeChar, toNat_ofNat hvalid]
  rw [if_pos (by omega), UInt8.ofNat_toNat]

theorem encode_two (ha : 0xC2 ≤ a.toNat ∧ a.toNat ≤ 0xDF) (hb : isContinuation b = true) :
    String.utf8EncodeChar (joinBits (a.toNat % 32) [b]) = [a, b] := by
  rw [isContinuation_iff] at hb
  have hvalid : (a.toNat % 32 * 64 + b.toNat % 64).isValidChar := .inl (by omega)
  simp only [joinBits, List.foldl_cons, List.foldl_nil, String.utf8EncodeChar, toNat_ofNat hvalid]
  rw [if_neg (by omega), if_pos (by omega), ofNat_eq (a := a) (by omega), ofNat_eq (a := b) (by omega)]

theorem encode_three (ha : 0xE0 ≤ a.toNat ∧ a.toNat ≤ 0xEF) (hb : isSecond a b = true)
    (hc : isContinuation c = true) : String.utf8EncodeChar (joinBits (a.toNat % 16) [b, c]) = [a, b, c] := by
  rw [isSecond_iff] at hb
  rw [isContinuation_iff] at hc
  have hvalid : ((a.toNat % 16 * 64 + b.toNat % 64) * 64 + c.toNat % 64).isValidChar := by
    simp only [Nat.isValidChar]
    omega
  simp only [joinBits, List.foldl_cons, List.foldl_nil, String.utf8EncodeChar, toNat_ofNat hvalid]
  rw [if_neg (by omega), if_neg (by omega), if_pos (by omega), ofNat_eq (a := a) (by omega),
    ofNat_eq (a := b) (by omega), ofNat_eq (a := c) (by omega)]

theorem encode_four (ha : 0xF0 ≤ a.toNat ∧ a.toNat ≤ 0xF4) (hb : isSecond a b = true)
    (hc : isContinuation c = true) (hd : isContinuation d = true) :
    String.utf8EncodeChar (joinBits (a.toNat % 8) [b, c, d]) = [a, b, c, d] := by
  rw [isSecond_iff] at hb
  rw [isContinuation_iff] at hc hd
  have hvalid : (((a.toNat % 8 * 64 + b.toNat % 64) * 64 + c.toNat % 64) * 64 + d.toNat % 64).isValidChar := by
    simp only [Nat.isValidChar]
    omega
  simp only [joinBits, List.foldl_cons, List.foldl_nil, String.utf8EncodeChar, toNat_ofNat hvalid]
  rw [if_neg (by omega), if_neg (by omega), if_neg (by omega), ofNat_eq (a := a) (by omega),
    ofNat_eq (a := b) (by omega), ofNat_eq (a := c) (by omega), ofNat_eq (a := d) (by omega)]

/-- Every character has such bytes. -/
theorem sequence_encode (x : Char) : Sequence (String.utf8EncodeChar x) := by
  have hvalid : x.val.toNat.isValidChar := x.valid
  simp only [Nat.isValidChar] at hvalid
  unfold String.utf8EncodeChar
  generalize x.val.toNat = n at hvalid
  dsimp only
  split_ifs with h1 h2 h3
  · exact .one (by simp; omega)
  · exact .two (by simp; omega) (isContinuation_iff.2 (by simp; omega))
  · exact .three (by simp; omega) (isSecond_iff.2 (by simp; omega)) (isContinuation_iff.2 (by simp; omega))
  · exact .four (by simp; omega) (isSecond_iff.2 (by simp; omega)) (isContinuation_iff.2 (by simp; omega))
      (isContinuation_iff.2 (by simp; omega))

theorem Sequence.exists_encode (h : Sequence bytes) : ∃ x, String.utf8EncodeChar x = bytes := by
  cases h with
  | one ha => exact ⟨_, encode_one ha⟩
  | two ha hb => exact ⟨_, encode_two ha hb⟩
  | three ha hb hc => exact ⟨_, encode_three ha hb hc⟩
  | four ha hb hc hd => exact ⟨_, encode_four ha hb hc hd⟩

/-- The bytes of a character are not continued to those of another. -/
theorem encode_append_inj {x y : Char} {bytes bytes' : List UInt8}
    (h : String.utf8EncodeChar x ++ bytes = String.utf8EncodeChar y ++ bytes') : x = y ∧ bytes = bytes' := by
  have hread (x : Char) (bytes : List UInt8) :
      (String.utf8EncodeChar x ++ bytes).toByteArray.utf8DecodeChar? 0 = some x := by
    rw [List.toByteArray_append]
    exact ByteArray.utf8DecodeChar?_utf8EncodeChar_append
  have hchar : x = y := by
    apply Option.some.inj
    rw [← hread x bytes, h, hread]
  rw [hchar] at h
  exact ⟨hchar, List.append_cancel_left h⟩

/-- The beginning of the bytes of a character, or all of them. -/
def IsStart (part : List UInt8) : Prop := ∃ x : Char, part <+: String.utf8EncodeChar x

/-- Bytes that are no character and are followed by bytes that do not make them one: the beginning of a character, or
a byte that begins none. -/
structure Broken (part rest : List UInt8) : Prop where
  ne_nil : part ≠ []
  start : part.length = 1 ∨ IsStart part
  incomplete : ∀ x : Char, part ≠ String.utf8EncodeChar x
  stop : ∀ b, rest.head? = some b → ¬IsStart (part ++ [b])

/-- The first character of a text in which what is no text is replaced, and the bytes behind it. -/
inductive Front : List UInt8 → Char → List UInt8 → Prop
  | char (x : Char) (rest : List UInt8) : Front (String.utf8EncodeChar x ++ rest) x rest
  | broken {part rest : List UInt8} (h : Broken part rest) : Front (part ++ rest) replacement rest

/-- The text of bytes in which what is no text is replaced. -/
inductive Lossy : List UInt8 → List Char → Prop
  | nil : Lossy [] []
  | cons {bytes rest : List UInt8} {x : Char} {s : List Char} (hfront : Front bytes x rest) (hrest : Lossy rest s) :
      Lossy bytes (x :: s)

/-! Beginnings of characters, by how many bytes there are. -/

theorem isStart_iff : IsStart part ↔ ∃ whole, Sequence whole ∧ part <+: whole := by
  constructor
  · rintro ⟨x, hx⟩
    exact ⟨_, sequence_encode x, hx⟩
  · rintro ⟨whole, hwhole, hpart⟩
    obtain ⟨x, rfl⟩ := hwhole.exists_encode
    exact ⟨x, hpart⟩

theorem IsStart.lead (h : IsStart (a :: bytes)) : a.toNat < 0x80 ∨ 0xC2 ≤ a.toNat ∧ a.toNat ≤ 0xF4 := by
  obtain ⟨whole, hwhole, hprefix⟩ := isStart_iff.1 h
  cases hwhole <;> simp only [List.cons_prefix_cons] at hprefix <;> obtain ⟨rfl, -⟩ := hprefix <;> omega

theorem IsStart.second (h : IsStart (a :: b :: bytes)) :
    0xC2 ≤ a.toNat ∧ (a.toNat ≤ 0xDF → isContinuation b = true) ∧ (0xE0 ≤ a.toNat → isSecond a b = true) := by
  obtain ⟨whole, hwhole, hprefix⟩ := isStart_iff.1 h
  cases hwhole with
  | one ha => simp at hprefix
  | two ha hb =>
    simp only [List.cons_prefix_cons] at hprefix
    obtain ⟨rfl, rfl, -⟩ := hprefix
    exact ⟨ha.1, fun _ => hb, fun _ => by omega⟩
  | three ha hb hc | four ha hb hc hd =>
    simp only [List.cons_prefix_cons] at hprefix
    obtain ⟨rfl, rfl, -⟩ := hprefix
    exact ⟨by omega, fun _ => by omega, fun _ => hb⟩

theorem IsStart.third (h : IsStart (a :: b :: c :: bytes)) : 0xE0 ≤ a.toNat ∧ isContinuation c = true := by
  obtain ⟨whole, hwhole, hprefix⟩ := isStart_iff.1 h
  cases hwhole with
  | one ha | two ha hb => simp at hprefix
  | three ha hb hc | four ha hb hc hd =>
    simp only [List.cons_prefix_cons] at hprefix
    obtain ⟨rfl, -, rfl, -⟩ := hprefix
    exact ⟨by omega, hc⟩

theorem IsStart.fourth (h : IsStart (a :: b :: c :: d :: bytes)) : isContinuation d = true := by
  obtain ⟨whole, hwhole, hprefix⟩ := isStart_iff.1 h
  cases hwhole with
  | one ha | two ha hb | three ha hb hc => simp at hprefix
  | four ha hb hc hd =>
    simp only [List.cons_prefix_cons] at hprefix
    obtain ⟨-, -, -, rfl, -⟩ := hprefix
    exact hd

theorem not_encode (h : ¬Sequence part) (x : Char) : part ≠ String.utf8EncodeChar x := by
  rintro rfl
  exact h (sequence_encode x)

/-! Pieces that are no text, by how many bytes there are. -/

theorem broken_one (ha : 0x80 ≤ a.toNat) (hstop : ∀ b, rest.head? = some b → ¬IsStart [a, b]) : Broken [a] rest where
  ne_nil := List.cons_ne_nil _ _
  start := .inl rfl
  incomplete := by
    apply not_encode
    intro h
    cases h
    omega
  stop := hstop

theorem broken_two (ha : 0xE0 ≤ a.toNat ∧ a.toNat ≤ 0xF4) (hb : isSecond a b = true)
    (hstop : ∀ c, rest.head? = some c → ¬IsStart [a, b, c]) : Broken [a, b] rest where
  ne_nil := List.cons_ne_nil _ _
  start := by
    have hlast : isContinuation 0x80 = true := by decide
    right
    rw [isStart_iff]
    by_cases hshort : a.toNat ≤ 0xEF
    · exact ⟨[a, b, 0x80], .three ⟨ha.1, hshort⟩ hb hlast, by simp⟩
    · exact ⟨[a, b, 0x80, 0x80], .four ⟨by omega, ha.2⟩ hb hlast hlast, by simp⟩
  incomplete := by
    apply not_encode
    intro h
    cases h
    omega
  stop := hstop

theorem broken_three (ha : 0xF0 ≤ a.toNat ∧ a.toNat ≤ 0xF4) (hb : isSecond a b = true)
    (hc : isContinuation c = true) (hstop : ∀ d, rest.head? = some d → ¬IsStart [a, b, c, d]) :
    Broken [a, b, c] rest where
  ne_nil := List.cons_ne_nil _ _
  start := by
    have hlast : isContinuation 0x80 = true := by decide
    right
    rw [isStart_iff]
    exact ⟨[a, b, c, 0x80], .four ha hb hc hlast, by simp⟩
  incomplete := by
    apply not_encode
    intro h
    cases h
    omega
  stop := hstop

theorem broken_of_not_isSecond (ha : 0xE0 ≤ a.toNat) (hb : ¬isSecond a b = true) (bytes : List UInt8) :
    Broken [a] (b :: bytes) := by
  apply broken_one (by omega)
  intro x hx hstart
  cases hx
  exact hb (hstart.second.2.2 ha)

theorem broken_of_not_isContinuation (ha : 0xE0 ≤ a.toNat ∧ a.toNat ≤ 0xF4) (hb : isSecond a b = true)
    (hc : ¬isContinuation c = true) (bytes : List UInt8) : Broken [a, b] (c :: bytes) := by
  apply broken_two ha hb
  intro x hx hstart
  cases hx
  exact hc hstart.third.2

/-! Decoding takes a character or a piece that is no text from the front, whatever the first byte is. -/

/-- What decoding does with the first bytes. -/
def Advances (bytes : List UInt8) : Prop :=
  ∃ x rest, Front bytes x rest ∧ decodeUtf8 bytes = x :: decodeUtf8 rest

theorem decodeUtf8_nil : decodeUtf8 [] = [] := by rw [decodeUtf8.eq_def]

theorem not_ascii (h : 0x80 ≤ a.toNat) : ¬a < 0x80 := by
  rw [UInt8.lt_iff_toNat_lt]
  exact Nat.not_lt.2 h

theorem inRange_iff (low high a : UInt8) :
    (low ≤ a && a ≤ high) = true ↔ low.toNat ≤ a.toNat ∧ a.toNat ≤ high.toNat := by
  simp [UInt8.le_iff_toNat_le]

theorem inRange_eq_false (low high : UInt8) (h : ¬(low.toNat ≤ a.toNat ∧ a.toNat ≤ high.toNat)) :
    (low ≤ a && a ≤ high) = false :=
  Bool.eq_false_iff.2 fun hin => h ((inRange_iff low high a).1 hin)

theorem advances_one (ha : a.toNat < 0x80) (bytes : List UInt8) : Advances (a :: bytes) := by
  have hascii : a < 0x80 := UInt8.lt_iff_toNat_lt.2 ha
  have hchar := Front.char (joinBits a.toNat []) bytes
  rw [encode_one ha] at hchar
  refine ⟨_, bytes, hchar, ?_⟩
  rw [decodeUtf8.eq_def]
  simp [hascii]

theorem advances_two (ha : 0xC2 ≤ a.toNat ∧ a.toNat ≤ 0xDF) (bytes : List UInt8) : Advances (a :: bytes) := by
  have hlarge : 0x80 ≤ a.toNat := by omega
  have hlead := (inRange_iff 0xC2 0xDF a).2 ha
  have hstep := decodeUtf8.eq_def (a :: bytes)
  simp only [if_neg (not_ascii hlarge), if_pos hlead] at hstep
  cases bytes with
  | nil => exact ⟨_, [], .broken (broken_one hlarge (by simp)), by simp [hstep, decodeUtf8_nil]⟩
  | cons b bytes =>
    by_cases hb : isContinuation b = true
    · have hchar := Front.char (joinBits (a.toNat % 32) [b]) bytes
      rw [encode_two ha hb] at hchar
      exact ⟨_, bytes, hchar, by simp [hstep, hb]⟩
    · have hbroken : Broken [a] (b :: bytes) := by
        apply broken_one hlarge
        intro x hx hstart
        cases hx
        exact hb (hstart.second.2.1 ha.2)
      exact ⟨_, b :: bytes, .broken hbroken, by simp [hstep, hb]⟩

theorem advances_three (ha : 0xE0 ≤ a.toNat ∧ a.toNat ≤ 0xEF) (bytes : List UInt8) : Advances (a :: bytes) := by
  have hlarge : 0x80 ≤ a.toNat := by omega
  have hwide : 0xE0 ≤ a.toNat ∧ a.toNat ≤ 0xF4 := by omega
  have htwo : (0xC2 ≤ a && a ≤ 0xDF) = false := inRange_eq_false 0xC2 0xDF (by simp; omega)
  have hlead := (inRange_iff 0xE0 0xEF a).2 ha
  have hstep := decodeUtf8.eq_def (a :: bytes)
  simp only [if_neg (not_ascii hlarge), htwo, if_pos hlead] at hstep
  cases bytes with
  | nil => exact ⟨_, [], .broken (broken_one hlarge (by simp)), by simp [hstep, decodeUtf8_nil]⟩
  | cons b bytes =>
    by_cases hb : isSecond a b = true
    · cases bytes with
      | nil => exact ⟨_, [], .broken (broken_two hwide hb (by simp)), by simp [hstep, decodeUtf8_nil, hb]⟩
      | cons c bytes =>
        by_cases hc : isContinuation c = true
        · have hchar := Front.char (joinBits (a.toNat % 16) [b, c]) bytes
          rw [encode_three ha hb hc] at hchar
          exact ⟨_, bytes, hchar, by simp [hstep, hb, hc]⟩
        · have hbroken := broken_of_not_isContinuation hwide hb hc bytes
          exact ⟨_, c :: bytes, .broken hbroken, by simp [hstep, hb, hc]⟩
    · have hbroken := broken_of_not_isSecond ha.1 hb bytes
      exact ⟨_, b :: bytes, .broken hbroken, by cases bytes <;> simp [hstep, hb]⟩

theorem advances_four (ha : 0xF0 ≤ a.toNat ∧ a.toNat ≤ 0xF4) (bytes : List UInt8) : Advances (a :: bytes) := by
  have hlarge : 0x80 ≤ a.toNat := by omega
  have hwide : 0xE0 ≤ a.toNat ∧ a.toNat ≤ 0xF4 := by omega
  have htwo : (0xC2 ≤ a && a ≤ 0xDF) = false := inRange_eq_false 0xC2 0xDF (by simp; omega)
  have hthree : (0xE0 ≤ a && a ≤ 0xEF) = false := inRange_eq_false 0xE0 0xEF (by simp; omega)
  have hlead := (inRange_iff 0xF0 0xF4 a).2 ha
  have hstep := decodeUtf8.eq_def (a :: bytes)
  simp only [if_neg (not_ascii hlarge), htwo, hthree, if_pos hlead] at hstep
  cases bytes with
  | nil => exact ⟨_, [], .broken (broken_one hlarge (by simp)), by simp [hstep, decodeUtf8_nil]⟩
  | cons b bytes =>
    by_cases hb : isSecond a b = true
    · cases bytes with
      | nil => exact ⟨_, [], .broken (broken_two hwide hb (by simp)), by simp [hstep, decodeUtf8_nil, hb]⟩
      | cons c bytes =>
        by_cases hc : isContinuation c = true
        · cases bytes with
          | nil => exact ⟨_, [], .broken (broken_three ha hb hc (by simp)), by simp [hstep, decodeUtf8_nil, hb, hc]⟩
          | cons d bytes =>
            by_cases hd : isContinuation d = true
            · have hchar := Front.char (joinBits (a.toNat % 8) [b, c, d]) bytes
              rw [encode_four ha hb hc hd] at hchar
              exact ⟨_, bytes, hchar, by simp [hstep, hb, hc, hd]⟩
            · have hbroken : Broken [a, b, c] (d :: bytes) := by
                apply broken_three ha hb hc
                intro x hx hstart
                cases hx
                exact hd hstart.fourth
              exact ⟨_, d :: bytes, .broken hbroken, by simp [hstep, hb, hc, hd]⟩
        · have hbroken := broken_of_not_isContinuation hwide hb hc bytes
          exact ⟨_, c :: bytes, .broken hbroken, by cases bytes <;> simp [hstep, hb, hc]⟩
    · have hbroken := broken_of_not_isSecond hwide.1 hb bytes
      refine ⟨_, b :: bytes, .broken hbroken, ?_⟩
      rcases bytes with _ | ⟨c, _ | ⟨d, bytes⟩⟩ <;> simp [hstep, hb]

/-- A byte that begins no character is replaced by itself. -/
theorem advances_other (hlarge : 0x80 ≤ a.toNat) (hlead : ¬(0xC2 ≤ a.toNat ∧ a.toNat ≤ 0xF4))
    (bytes : List UInt8) : Advances (a :: bytes) := by
  have htwo : (0xC2 ≤ a && a ≤ 0xDF) = false := inRange_eq_false 0xC2 0xDF (by simp; omega)
  have hthree : (0xE0 ≤ a && a ≤ 0xEF) = false := inRange_eq_false 0xE0 0xEF (by simp; omega)
  have hfour : (0xF0 ≤ a && a ≤ 0xF4) = false := inRange_eq_false 0xF0 0xF4 (by simp; omega)
  have hstep := decodeUtf8.eq_def (a :: bytes)
  simp only [if_neg (not_ascii hlarge), htwo, hthree, hfour] at hstep
  have hbroken : Broken [a] bytes := by
    apply broken_one hlarge
    intro b _ hstart
    have hstarts := hstart.lead
    omega
  exact ⟨_, bytes, .broken hbroken, by simp [hstep]⟩

theorem advances_cons (a : UInt8) (bytes : List UInt8) : Advances (a :: bytes) := by
  by_cases hone : a.toNat < 0x80
  · exact advances_one hone bytes
  by_cases htwo : 0xC2 ≤ a.toNat ∧ a.toNat ≤ 0xDF
  · exact advances_two htwo bytes
  by_cases hthree : 0xE0 ≤ a.toNat ∧ a.toNat ≤ 0xEF
  · exact advances_three hthree bytes
  by_cases hfour : 0xF0 ≤ a.toNat ∧ a.toNat ≤ 0xF4
  · exact advances_four hfour bytes
  · exact advances_other (by omega) (by omega) bytes

theorem Front.length_lt (h : Front bytes x rest) : rest.length < bytes.length := by
  cases h with
  | char x rest =>
    have hne : String.utf8EncodeChar x ≠ [] := String.utf8EncodeChar_ne_nil
    simpa using List.length_pos_of_ne_nil hne
  | broken h => simpa using List.length_pos_of_ne_nil h.ne_nil

theorem lossy_decodeUtf8 (bytes : List UInt8) : Lossy bytes (decodeUtf8 bytes) := by
  induction hn : bytes.length using Nat.strongRecOn generalizing bytes with
  | _ n ih =>
    cases bytes with
    | nil => exact .nil
    | cons a bytes =>
      obtain ⟨x, rest, hfront, hdecode⟩ := advances_cons a bytes
      have hshorter := hfront.length_lt
      rw [hdecode]
      exact .cons hfront (ih rest.length (hn ▸ hshorter) rest rfl)

theorem IsStart.of_prefix {part' : List UInt8} (h : IsStart part') (hpart : part <+: part') : IsStart part := by
  obtain ⟨x, hx⟩ := h
  exact ⟨x, hpart.trans hx⟩

/-- No bytes that begin a character go on behind a piece that is no text. -/
theorem Broken.eq_of_prefix {longer more : List UInt8} (h : Broken part rest) (hlonger : IsStart longer)
    (hpart : part <+: longer) (heq : part ++ rest = longer ++ more) : part = longer := by
  obtain ⟨tail, rfl⟩ := hpart
  cases tail with
  | nil => rw [List.append_nil]
  | cons b tail =>
    have hrest : rest = b :: (tail ++ more) := by
      rw [List.append_assoc] at heq
      exact List.append_cancel_left heq
    have hnext : IsStart (part ++ [b]) := hlonger.of_prefix ⟨tail, by simp⟩
    exact absurd hnext (h.stop b (by rw [hrest]; rfl))

/-- A piece that is no text does not begin with a character, nor does it with the bytes that follow. -/
theorem Broken.ne_char (h : Broken part rest) (x : Char) (more : List UInt8) :
    part ++ rest ≠ String.utf8EncodeChar x ++ more := by
  intro heq
  have hstart : IsStart (String.utf8EncodeChar x) := ⟨x, List.prefix_refl _⟩
  have hx : String.utf8EncodeChar x <+: part ++ rest := ⟨more, heq.symm⟩
  rcases List.prefix_or_prefix_of_prefix (List.prefix_append part rest) hx with hlong | hshort
  · exact h.incomplete x (h.eq_of_prefix hstart hlong heq)
  · rcases h.start with hone | ⟨y, hy⟩
    · have hsame : String.utf8EncodeChar x = part := by
        apply hshort.eq_of_length
        have hpos := List.length_pos_of_ne_nil (String.utf8EncodeChar_ne_nil (c := x))
        have hle := hshort.length_le
        omega
      exact h.incomplete x hsame.symm
    · obtain ⟨tail, htail⟩ := hshort.trans hy
      obtain ⟨rfl, -⟩ := encode_append_inj (htail.trans (List.append_nil _).symm)
      exact h.incomplete x (hy.eq_of_length_le hshort.length_le)

theorem Broken.eq_of_prefix_broken {part' rest' : List UInt8} (h : Broken part rest) (h' : Broken part' rest')
    (hpart : part <+: part') (heq : part ++ rest = part' ++ rest') : part = part' := by
  rcases h'.start with hone | hstart
  · apply hpart.eq_of_length_le
    rw [hone]
    exact List.length_pos_of_ne_nil h.ne_nil
  · exact h.eq_of_prefix hstart hpart heq

theorem Broken.unique {part' rest' : List UInt8} (h : Broken part rest) (h' : Broken part' rest')
    (heq : part ++ rest = part' ++ rest') : part = part' := by
  have hpart' : part' <+: part ++ rest := ⟨rest', heq.symm⟩
  rcases List.prefix_or_prefix_of_prefix (List.prefix_append part rest) hpart' with hlong | hshort
  · exact h.eq_of_prefix_broken h' hlong heq
  · exact (h'.eq_of_prefix_broken h hshort heq.symm).symm

theorem Front.unique {y : Char} {rest' : List UInt8} (h : Front bytes x rest) (h' : Front bytes y rest') :
    x = y ∧ rest = rest' := by
  cases h with
  | char x rest =>
    generalize hbytes : String.utf8EncodeChar x ++ rest = bytes at h'
    cases h' with
    | char y rest' => exact encode_append_inj hbytes
    | broken hbroken => exact absurd hbytes.symm (hbroken.ne_char x rest)
  | @broken part rest hbroken =>
    generalize hbytes : part ++ rest = bytes at h'
    cases h' with
    | char y rest' => exact absurd hbytes (hbroken.ne_char y rest')
    | broken hbroken' =>
      have hsame := hbroken.unique hbroken' hbytes
      rw [hsame] at hbytes
      exact ⟨rfl, List.append_cancel_left hbytes⟩

theorem Lossy.unique {t : List Char} (h : Lossy bytes s) (h' : Lossy bytes t) : s = t := by
  induction h generalizing t with
  | nil =>
    cases h' with
    | nil => rfl
    | cons hfront hrest => exact absurd hfront.length_lt (Nat.not_lt_zero _)
  | cons hfront hrest ih =>
    cases h' with
    | nil => exact absurd hfront.length_lt (Nat.not_lt_zero _)
    | cons hfront' hrest' =>
      obtain ⟨rfl, rfl⟩ := hfront.unique hfront'
      rw [ih hrest']

theorem lossy_iff : Lossy bytes s ↔ s = decodeUtf8 bytes := by
  constructor
  · intro h
    exact h.unique (lossy_decodeUtf8 bytes)
  · rintro rfl
    exact lossy_decodeUtf8 bytes

/-- The bytes of a text in UTF-8. -/
def utf8 (s : List Char) : List UInt8 := s.flatMap String.utf8EncodeChar

/-- In the bytes of a text there is nothing to replace. -/
theorem lossy_utf8 (s : List Char) : Lossy (utf8 s) s := by
  induction s with
  | nil => exact .nil
  | cons x s ih => exact .cons (.char x (utf8 s)) ih

theorem decodeUtf8_utf8 (s : List Char) : decodeUtf8 (utf8 s) = s := (lossy_iff.1 (lossy_utf8 s)).symm

theorem Sequence.large (h : Sequence bytes) (hlong : 1 < bytes.length) : ∀ b ∈ bytes, 0x80 ≤ b.toNat := by
  cases h with
  | one ha => exact absurd hlong (by simp)
  | two ha hb =>
    rw [isContinuation_iff] at hb
    simp
    omega
  | three ha hb hc =>
    rw [isSecond_iff] at hb
    rw [isContinuation_iff] at hc
    simp
    omega
  | four ha hb hc hd =>
    rw [isSecond_iff] at hb
    rw [isContinuation_iff] at hc hd
    simp
    omega

/-- The null character is the one with a zero byte. -/
theorem zero_mem_encode_iff : (0 : UInt8) ∈ String.utf8EncodeChar x ↔ x = '\x00' := by
  constructor
  · intro hzero
    have hshort : (String.utf8EncodeChar x).length ≤ 1 := by
      by_contra hlong
      exact absurd ((sequence_encode x).large (by omega) 0 hzero) (by decide)
    have hbytes : [0] = String.utf8EncodeChar x := (List.singleton_sublist.2 hzero).eq_of_length_le hshort
    have hnull : String.utf8EncodeChar x ++ [] = String.utf8EncodeChar '\x00' ++ [] := by
      rw [← hbytes]
      rfl
    exact (encode_append_inj hnull).1
  · rintro rfl
    decide

theorem Front.ne_null (h : Front bytes x rest) (hbytes : (0 : UInt8) ∉ bytes) : x ≠ '\x00' ∧ (0 : UInt8) ∉ rest := by
  cases h with
  | char x rest =>
    rw [List.mem_append, zero_mem_encode_iff, not_or] at hbytes
    exact hbytes
  | broken h =>
    have hreplacement : replacement ≠ '\x00' := by decide
    exact ⟨hreplacement, fun hzero => hbytes (List.mem_append_right _ hzero)⟩

theorem Lossy.null_not_mem (h : Lossy bytes s) (hbytes : (0 : UInt8) ∉ bytes) : '\x00' ∉ s := by
  induction h with
  | nil => exact List.not_mem_nil
  | cons hfront hrest ih =>
    obtain ⟨hchar, hothers⟩ := hfront.ne_null hbytes
    rw [List.mem_cons, not_or]
    exact ⟨hchar.symm, ih hothers⟩

theorem zero_not_mem_utf8 (h : '\x00' ∉ s) : (0 : UInt8) ∉ utf8 s := by
  intro hmem
  obtain ⟨x, hx, hzero⟩ := List.mem_flatMap.1 hmem
  rw [zero_mem_encode_iff.1 hzero] at hx
  exact h hx

end Text

/-- The bytes of a row that are read: those before the first zero. -/
def heading (row : List UInt8) : List UInt8 := row.takeWhile (· != 0)

theorem zero_not_mem_heading (row : List UInt8) : (0 : UInt8) ∉ heading row := by
  intro hmem
  have hne := List.all_eq_true.1 List.all_takeWhile _ hmem
  simp at hne

theorem heading_of_not_mem {bytes : List UInt8} (h : (0 : UInt8) ∉ bytes) (rest : List UInt8) :
    heading bytes = bytes ∧ heading (bytes ++ 0 :: rest) = bytes := by
  have hall : ∀ b ∈ bytes, (b != 0) = true := by
    intro b hb
    rw [bne_iff_ne]
    rintro rfl
    exact h hb
  have hend (more : List UInt8) : heading (bytes ++ more) = bytes ++ heading more :=
    List.takeWhile_append_of_pos hall
  constructor
  · simpa [heading] using hend []
  · simpa [heading] using hend (0 :: rest)

theorem toList_rowText (row : List UInt8) : (rowText row).toList = Text.decodeUtf8 (heading row) := by
  rw [rowText, String.toList_ofList]
  rfl

theorem toUTF8_eq (t : String) : t.toUTF8 = (Text.utf8 t.toList).toByteArray := by
  conv_lhs => rw [← String.ofList_toList (s := t), String.toUTF8_eq_toByteArray, String.toByteArray_ofList]
  rfl

theorem toUTF8_rowText {row : List UInt8} (h : (heading row).toByteArray.IsValidUTF8) :
    (rowText row).toUTF8 = (heading row).toByteArray := by
  obtain ⟨s, hs⟩ := h
  have hheading : heading row = Text.utf8 s := by
    have hdata := congrArg (fun bytes => bytes.data.toList) hs
    simpa [Text.utf8, List.utf8Encode, List.data_toByteArray] using hdata
  rw [toUTF8_eq, toList_rowText, hheading, Text.decodeUtf8_utf8]

/-- A text without null characters is read from its own bytes, and from a row in which a zero follows them. -/
theorem rowText_utf8 {t : String} (h : '\x00' ∉ t.toList) (rest : List UInt8) :
    rowText (Text.utf8 t.toList) = t ∧ rowText (Text.utf8 t.toList ++ 0 :: rest) = t := by
  obtain ⟨hend, hzero⟩ := heading_of_not_mem (Text.zero_not_mem_utf8 h) rest
  constructor
  · apply String.toList_injective
    rw [toList_rowText, hend, Text.decodeUtf8_utf8]
  · apply String.toList_injective
    rw [toList_rowText, hzero, Text.decodeUtf8_utf8]

/-! The leaves of an array of characters are the texts of its rows. -/

theorem range_mul_map {α : Type} (m n : Nat) (f : Nat → α) :
    (List.range (m*n)).map f = (List.range m).flatMap fun i => (List.range n).map fun j => f (i*n + j) := by
  induction m with
  | zero => simp
  | succ m ih => simp [Nat.succ_mul, List.range_add, List.range_succ, ih, Function.comp_def]

theorem itemsLeaves_eq (items : List Data) : Data.itemsLeaves items = items.flatMap Data.leaves := by
  induction items with
  | nil => rfl
  | cons d items ih => rw [Data.itemsLeaves, ih, List.flatMap_cons]

theorem leaves_charactersAt (h : Hints) (outer : List Nat) (n : Nat) (bytes : List UInt8) :
    (charactersAt h (outer ++ [n]) bytes).leaves =
      (List.range outer.prod).map fun k => .text (rowText ((bytes.drop (k*n)).take n)) := by
  induction outer generalizing bytes with
  | nil => simp [charactersAt, Data.leaves]
  | cons d outer ih =>
    have harray : charactersAt h (d :: outer ++ [n]) bytes = .array h ((List.range d).map fun i =>
        charactersAt h (outer ++ [n]) (bytes.drop (i * (outer ++ [n]).prod))) := by
      cases outer <;> rfl
    rw [harray, Data.leaves, itemsLeaves_eq, List.flatMap_map, List.prod_cons, range_mul_map]
    simp [ih, List.drop_drop, Nat.add_mul, Nat.mul_assoc]

theorem leaves_decode_characters {t : String} {outer : List Nat} {n offset : Nat} {h : Hints} {w : BitWidth}
    {e : Endian} {buffer : List UInt8} {d : Data}
    (hd : (Node.leaf t (.primitive .char) (outer ++ [n]) h).decode w e offset buffer = .ok d) :
    d.leaves = (List.range outer.prod).map fun k => .text (rowText ((buffer.drop (offset + k*n)).take n)) := by
  obtain ⟨size, hsize, hfits, rfl⟩ := Node.decode_eq_ok.1 hd
  rw [Node.dataAt, leaves_charactersAt]
  simp only [List.drop_drop]

theorem decode_characters_row {t : String} {h : Hints} {w : BitWidth} {e : Endian} {row : List UInt8}
    (hrow : row.length < sizeLimit) (before after : List UInt8) :
    (Node.leaf t (.primitive .char) [row.length] h).decode w e before.length (before ++ row ++ after) =
      .ok (.scalar h (.text (rowText row))) := by
  have hsize : (Node.leaf t (.primitive .char) [row.length] h).byteSize w = .ok row.length := by
    simp only [Node.byteSize, Node.arraySize, countFrom, Nat.one_mul, checked_ok hrow, Leaf.size, Leaf.code,
      Leaf.primitiveOf, Primitive.code, Code.size, bind, Except.bind]
  rw [Node.decode_of_fits hsize (by simp), Node.dataAt, charactersAt]
  simp

/-- The text of a row of characters is that of the bytes before its first zero, in which what is no text is replaced.
It has no null character and, in UTF-8, is those bytes if they are a text. Its own bytes have the same text, and they
do in front of a zero and anything else. -/
theorem rowText_lossy (row : List UInt8) :
    '\x00' ∉ (rowText row).toList ∧
    (∀ row', heading row' = heading row → rowText row' = rowText row) ∧
    ((heading row).toByteArray.IsValidUTF8 → (rowText row).toUTF8 = (heading row).toByteArray) ∧
    (rowText (rowText row).toUTF8.data.toList = rowText row ∧
      ∀ rest, rowText ((rowText row).toUTF8.data.toList ++ 0 :: rest) = rowText row) ∧
    (∀ s : List Char, Text.Lossy (heading row) s ↔ s = (rowText row).toList) ∧
    (row.length < sizeLimit → ∀ t h w e before after,
      (Node.leaf t (.primitive .char) [row.length] h).decode w e before.length (before ++ row ++ after) =
        .ok (.scalar h (.text (rowText row)))) ∧
    (∀ t outer h w e offset buffer d,
      (Node.leaf t (.primitive .char) (outer ++ [row.length]) h).decode w e offset buffer = .ok d →
        ∀ k, k < outer.prod → (buffer.drop (offset + k * row.length)).take row.length = row →
          d.leaves[k]? = some (.text (rowText row))) := by
  have hlossy : Text.Lossy (heading row) (rowText row).toList := by
    rw [toList_rowText]
    exact Text.lossy_decodeUtf8 _
  have hnull := hlossy.null_not_mem (zero_not_mem_heading row)
  have hbytes : (rowText row).toUTF8.data.toList = Text.utf8 (rowText row).toList := by
    rw [toUTF8_eq, List.data_toByteArray]
  refine ⟨hnull, ?_, toUTF8_rowText, ?_, ?_, ?_, ?_⟩
  · intro row' hsame
    apply String.toList_injective
    rw [toList_rowText, toList_rowText, hsame]
  · rw [hbytes]
    exact ⟨(rowText_utf8 hnull []).1, fun rest => (rowText_utf8 hnull rest).2⟩
  · intro s
    rw [toList_rowText]
    exact Text.lossy_iff
  · intro hlt t h w e before after
    exact decode_characters_row hlt before after
  · intro t outer h w e offset buffer d hd k hk hrow
    rw [leaves_decode_characters hd, List.getElem?_map, List.getElem?_range hk, Option.map_some, hrow]

/-- The zero of the first row cuts off a beginning of a character, and that of the second stands behind one. -/
theorem rowText_lossy_cut :
    rowText [0x61, 0xC3, 0xA9] = rowText [0x61, 0xC3, 0xA9, 0, 0xE2] ∧
    (rowText [0x61, 0xC3, 0xA9, 0, 0xE2]).toUTF8 = [0x61, 0xC3, 0xA9].toByteArray ∧
    (Node.leaf "char" (.primitive .char) [5] .none).decode .w64 .little 1 [9, 0x61, 0xC3, 0xA9, 0, 0xE2, 7] =
      .ok (.scalar .none (.text (rowText [0x61, 0xC3, 0xA9, 0, 0xE2]))) ∧
    (∃ d, (Node.leaf "char" (.primitive .char) [2, 5] .none).decode .w64 .little 1
        [9, 7, 7, 7, 7, 7, 0x61, 0xC3, 0xA9, 0, 0xE2] = .ok d ∧
      d.leaves[1]? = some (.text (rowText [0x61, 0xC3, 0xA9, 0, 0xE2]))) ∧
    ['a', Text.replacement] = (rowText [0x61, 0xE2, 0x82, 0, 0xAC]).toList := by
  obtain ⟨-, hsame, hvalid, -, -, hrow, hrows⟩ := rowText_lossy [0x61, 0xC3, 0xA9, 0, 0xE2]
  obtain ⟨-, -, -, -, hlossy, -, -⟩ := rowText_lossy [0x61, 0xE2, 0x82, 0, 0xAC]
  obtain ⟨d, hd⟩ := exists_of_isOk (by decide +kernel : ((Node.leaf "char" (.primitive .char) [2, 5] .none).decode
    .w64 .little 1 [9, 7, 7, 7, 7, 7, 0x61, 0xC3, 0xA9, 0, 0xE2]).isOk = true)
  have hbroken : Text.Broken [0xE2, 0x82] [] := Text.broken_two (by decide) (by decide) (by simp)
  refine ⟨hsame _ (by decide), hvalid ⟨['a', 'é'], by decide⟩, ?_, ?_, ?_⟩
  · exact hrow (by decide) "char" .none .w64 .little [9] [7]
  · exact ⟨d, hd, hrows "char" [2] .none .w64 .little 1 _ d hd 1 (by decide) (by decide)⟩
  · exact (hlossy _).1 (.cons (.char 'a' [0xE2, 0x82]) (.cons (.broken hbroken) .nil))

end PackedStruct
