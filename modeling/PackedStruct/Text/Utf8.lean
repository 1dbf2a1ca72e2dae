/-!
Text from bytes. Well-formed UTF-8 is decoded; in place of each maximal prefix of a sequence that
cannot be continued stands one replacement character.
-/

namespace PackedStruct.Text

/-- Stands for bytes that are not text. -/
def replacement : Char := Char.ofNat 0xFFFD

def isContinuation (b : UInt8) : Bool := 0x80 ≤ b && b ≤ 0xBF

/-- The second byte a three- or four-byte sequence may have: overlong forms, surrogates and code
points past the last one are cut off here. -/
def isSecond (lead b : UInt8) : Bool :=
  if lead == 0xE0 then 0xA0 ≤ b && b ≤ 0xBF
  else if lead == 0xED then 0x80 ≤ b && b ≤ 0x9F
  else if lead == 0xF0 then 0x90 ≤ b && b ≤ 0xBF
  else if lead == 0xF4 then 0x80 ≤ b && b ≤ 0x8F
  else isContinuation b

/-- The character of a lead byte's payload bits followed by six bits from each further byte. -/
def joinBits (lead : Nat) (rest : List UInt8) : Char :=
  Char.ofNat (rest.foldl (fun acc b => acc*64 + b.toNat%64) lead)

/-- Decode bytes as UTF-8, replacing what is malformed. -/
def decodeUtf8 : List UInt8 → List Char
  | [] => []
  | a :: s =>
    if a < 0x80 then joinBits a.toNat [] :: decodeUtf8 s
    else if 0xC2 ≤ a && a ≤ 0xDF then
      match s with
      | [] => [replacement]
      | b :: t =>
        if isContinuation b then joinBits (a.toNat%32) [b] :: decodeUtf8 t
        else replacement :: decodeUtf8 (b :: t)
    else if 0xE0 ≤ a && a ≤ 0xEF then
      match s with
      | [] => [replacement]
      | [b] =>
        if isSecond a b then [replacement] else replacement :: decodeUtf8 [b]
      | b :: c :: t =>
        if !isSecond a b then replacement :: decodeUtf8 (b :: c :: t)
        else if isContinuation c then joinBits (a.toNat%16) [b, c] :: decodeUtf8 t
        else replacement :: decodeUtf8 (c :: t)
    else if 0xF0 ≤ a && a ≤ 0xF4 then
      match s with
      | [] => [replacement]
      | [b] =>
        if isSecond a b then [replacement] else replacement :: decodeUtf8 [b]
      | [b, c] =>
        if !isSecond a b then replacement :: decodeUtf8 [b, c]
        else if isContinuation c then [replacement]
        else replacement :: decodeUtf8 [c]
      | b :: c :: d :: t =>
        if !isSecond a b then replacement :: decodeUtf8 (b :: c :: d :: t)
        else if !isContinuation c then replacement :: decodeUtf8 (c :: d :: t)
        else if isContinuation d then joinBits (a.toNat%8) [b, c, d] :: decodeUtf8 t
        else replacement :: decodeUtf8 (d :: t)
    else replacement :: decodeUtf8 s

end PackedStruct.Text
