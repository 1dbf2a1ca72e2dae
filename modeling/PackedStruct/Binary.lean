import PackedStruct.Decimal.Ratio
/-!
Binary floating-point numbers by their bit patterns. A pattern is read as `± m · 2^q`, an infinity or
no number; a positive quotient is rounded to the nearest pattern, ties to the even one.
-/

namespace PackedStruct

/-- An interchange format: how many fraction and how many exponent bits it stores. -/
structure Precision where
  fraction : Nat
  exponent : Nat
  deriving DecidableEq, Repr

/-- What a bit pattern stands for. -/
inductive Reading where
  | finite (negative : Bool) (m : Nat) (q : Int)
  | infinite (negative : Bool)
  | nan
  deriving DecidableEq, Repr

namespace Precision

def single : Precision := ⟨23, 8⟩
def double : Precision := ⟨52, 11⟩

/-- The power of two of the last place of the smallest numbers. -/
def least (p : Precision) : Int := 2 - Nat.pow 2 (p.exponent-1) - p.fraction

/-- The exponent field kept for infinities and for what is no number. -/
def top (p : Precision) : Nat := Nat.pow 2 p.exponent - 1

def read (p : Precision) (bits : Nat) : Reading :=
  let negative := bits.testBit (p.fraction + p.exponent)
  let field := bits / Nat.pow 2 p.fraction % Nat.pow 2 p.exponent
  let frac := bits % Nat.pow 2 p.fraction
  if field = p.top then
    if frac = 0 then .infinite negative else .nan
  else if field = 0 then .finite negative frac p.least
  else .finite negative (Nat.pow 2 p.fraction + frac) (p.least + field - 1)

/-- The pattern of `m · 2^q`. A coefficient that rounding has carried to the next power of two
carries into the exponent field by itself, and past the last exponent stands infinity. -/
def pack (p : Precision) (m : Nat) (q : Int) : Nat :=
  min ((q - p.least).toNat * Nat.pow 2 p.fraction + m) (p.top * Nat.pow 2 p.fraction)

/-- The pattern nearest to a quotient. -/
def nearest (p : Precision) (r : Ratio) : Nat :=
  if r.num = 0 then 0
  else
    let q := max p.least (r.exponent2 - p.fraction)
    p.pack ((r.scale2 (-q)).round .toEven) q

def signBit (p : Precision) (negative : Bool) : Nat :=
  if negative then Nat.pow 2 (p.fraction + p.exponent) else 0

end Precision

/-- A single-precision number. -/
structure Binary32 where
  bits : UInt32
  deriving DecidableEq, Repr, Inhabited

/-- A double-precision number. -/
structure Binary64 where
  bits : UInt64
  deriving DecidableEq, Repr, Inhabited

def Binary32.read (x : Binary32) : Reading := Precision.single.read x.bits.toNat

namespace Binary64

def read (x : Binary64) : Reading := Precision.double.read x.bits.toNat

/-- The number nearest to a signed quotient. -/
def ofRatio (negative : Bool) (r : Ratio) : Binary64 :=
  ⟨UInt64.ofNat (Precision.double.signBit negative + Precision.double.nearest r)⟩

def ofInt (v : Int) : Binary64 := ofRatio (v < 0) ⟨v.natAbs, 1⟩

def infinite (negative : Bool) : Binary64 :=
  ⟨UInt64.ofNat (Precision.double.signBit negative + Precision.double.pack 0 (Nat.pow 2 Precision.double.exponent))⟩

def nan : Binary64 := ⟨0x7FF8000000000000⟩

def isFinite (x : Binary64) : Bool :=
  match x.read with
  | .finite .. => true
  | _ => false

end Binary64

/-- The same number in double precision; it always fits. -/
def Binary32.widen (x : Binary32) : Binary64 :=
  match x.read with
  | .finite negative m q => .ofRatio negative (.ofDyadic m q)
  | .infinite negative => .infinite negative
  | .nan => .nan

end PackedStruct
