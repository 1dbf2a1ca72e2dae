import PackedStruct.Decimal.Digits
import PackedStruct.Format.Padding
/-!
Numbers in a display format. Integers are grouped by three decimal digits or four of another radix;
a type that suits the other kind of number falls back to that kind or to plain text. A number has no text in
a format that asks for more digits than are ever written.
-/

namespace PackedStruct.Format

/-- Zeros at the end of a fraction and a point left dangling are dropped. -/
def dropZeros (s : List Char) : List Char :=
  if '.' ∈ s then Text.dropEndWhile (· = '.') (Text.dropEndWhile (· = '0') s) else s

/-- The exponent with its sign and at least two digits. -/
def exponentText (upper : Bool) (e : Int) : List Char :=
  let ds := Decimal.digitsOf e.natAbs
  (if upper then 'E' else 'e') :: (if e < 0 then '-' else '+') :: Decimal.zeros (2 - ds.length) ++ ds

/-- One digit, `precision` decimals and the exponent. The digit in front of the point counts as well. -/
def scientific? (upper : Bool) (precision : Nat) (r : Ratio) : Option (List Char) :=
  (Decimal.significant? r (precision+1)).map fun d => Decimal.leading d.digits ++ exponentText upper d.exponent

/-- `precision` significant digits, in whichever form the size of the number asks for. Below one it takes more
decimal places than there are significant digits, and they can be too many. -/
def general? (upper keepZeros : Bool) (precision : Nat) (r : Ratio) : Option (List Char) :=
  let precision := max precision 1
  let trim s := if keepZeros then s else dropZeros s
  if r.num = 0 then
    if keepZeros then Decimal.fixed? r (precision-1) else some ['0']
  else
    (Decimal.significant? r precision).bind fun d =>
      if -4 ≤ d.exponent ∧ d.exponent < precision then
        (Decimal.fixed? r (precision - 1 - d.exponent).toNat).map trim
      else some (trim (Decimal.leading d.digits) ++ exponentText upper d.exponent)

/-- Whether infinity and its like are written in capitals. -/
def isUpper (f : Format) : Bool :=
  f.kind = some .upperExp || f.kind = some .upperFixed || f.kind = some .upperGeneral

/-- A hundred times `m · 2^q`, which can be too large for a finite number. -/
def percent? (f : Format) (precision : Nat) (m : Nat) (q : Int) : Option (List Char) :=
  match (Binary64.ofRatio false (Ratio.ofDyadic (100*m) q)).read with
  | .finite _ m q => (Decimal.fixed? (.ofDyadic m q) precision).map fun s => f.groupWhole s ++ ['%']
  | _ => if precision ≤ Decimal.digitLimit then some "inf%".toList else none

/-- What stands for `m · 2^q` behind its sign, in a type that a fraction suits: a text, unless too many digits are
asked for. -/
def finite? (f : Format) (m : Nat) (q : Int) : Option (Option (List Char)) :=
  let r := Ratio.ofDyadic m q
  let precision := f.precision.getD 6
  match f.kind, f.precision with
  | some .lowerFixed, _ | some .upperFixed, _ => some ((Decimal.fixed? r precision).map f.groupWhole)
  | some .lowerExp, _ => some (scientific? false precision r)
  | some .upperExp, _ => some (scientific? true precision r)
  | some .percent, _ => some (f.percent? precision m q)
  | some .lowerGeneral, _ | some .number, _ | none, some _ => some (general? false f.alternate precision r)
  | some .upperGeneral, _ => some (general? true f.alternate precision r)
  | none, none => some (some (f.groupWhole (Spelling.display.magnitude .double m q)))
  | some _, _ => none

def special (f : Format) (lower upper : String) : List Char :=
  (if f.isUpper then upper else lower).toList

/-- A number in double precision; no text, if the format asks for too many digits of it. -/
def float? (f : Format) (x : Binary64) : Option (List Char) :=
  match x.read with
  | .nan => some (f.pad .right ⟨f.signText false, f.special "nan" "NAN"⟩)
  | .infinite negative => some (f.pad .right ⟨f.signText negative, f.special "inf" "INF"⟩)
  | .finite negative m q =>
    match f.finite? m q with
    | some body => body.map fun body => f.pad .right ⟨f.signText negative, body⟩
    | none => some x.text

/-- The character with this code point. -/
def character? (v : Int) : Option Char :=
  if h : 0 ≤ v ∧ v.toNat.isValidChar then some (Char.ofNatAux v.toNat h.2) else none

/-- A whole number in decimal. -/
def integerText (v : Int) : List Char :=
  (if v < 0 then ['-'] else []) ++ Decimal.digitsOf v.natAbs

/-- Sign, radix mark and grouped digits. -/
def radixText (f : Format) (v : Int) (radix every : Nat) (mark : String) (upper : Bool) : List Char :=
  let digits := Nat.toDigits radix v.natAbs
  let digits := if upper then digits.map Char.toUpper else digits
  f.pad .right ⟨f.signText (v < 0) ++ (if f.alternate then mark.toList else []), f.group every digits⟩

/-- A whole number, which a type for numbers with a fraction takes in double precision. -/
def integer? (f : Format) (v : Int) : Option (List Char) :=
  match f.kind with
  | none | some .decimal | some .number => some (f.radixText v 10 3 "" false)
  | some .lowerHex => some (f.radixText v 16 4 "0x" false)
  | some .upperHex => some (f.radixText v 16 4 "0X" true)
  | some .octal => some (f.radixText v 8 4 "0o" false)
  | some .binary => some (f.radixText v 2 4 "0b" false)
  | some .character =>
    match character? v with
    | some c => some (f.pad .left ⟨[], [c]⟩)
    | none => some (integerText v)
  | some .string => some (integerText v)
  | some .lowerExp | some .upperExp | some .lowerFixed | some .upperFixed
  | some .lowerGeneral | some .upperGeneral | some .percent => f.float? (Binary64.ofInt v)

/-- A text: the precision is its greatest length. A numeric type leaves it as it is. -/
def text (f : Format) (s : List Char) : List Char :=
  match f.kind with
  | none | some .string =>
    f.pad .left ⟨[], match f.precision with
      | some n => s.take n
      | none => s⟩
  | some _ => s

end PackedStruct.Format
