import PackedStruct.Binary
/-!
Decimal digits of exact values: a fixed number of places, a fixed number of significant digits, and
the fewest digits that still single out a floating-point number.
-/

namespace PackedStruct

/-- Digits `d₀d₁d₂…` for the value `d₀.d₁d₂… · 10^exponent`. -/
structure Digits where
  digits : List Char
  exponent : Int
  deriving DecidableEq, Repr

namespace Decimal

def digitsOf (n : Nat) : List Char := Nat.toDigits 10 n

def zeros (n : Nat) : List Char := List.replicate n '0'

/-- The last `width` digits of `n`, one by one. -/
def tailDigits (width n : Nat) : List Char :=
  (List.range width).reverse.map fun i => Nat.digitChar (n / Nat.pow 10 i % 10)

/-- The last `width` digits of `n`, where a long number is first cut in half `halvings` times. -/
def lastDigits : (halvings width n : Nat) → List Char
  | 0, width, n => tailDigits width n
  | h+1, width, n =>
    let low := width / 2
    lastDigits h (width - low) (n / Nat.pow 10 low) ++ lastDigits h low (n % Nat.pow 10 low)

/-- The last `width` digits of `n`, by pieces of at most 64 digits. -/
def padded (width n : Nat) : List Char := lastDigits (width.log2 - 5) width n

/-- `r` rounded to a number of decimal places. -/
def fixed (r : Ratio) (places : Nat) : List Char :=
  let n := (r.scale10 places).round .toEven
  let unit := Nat.pow 10 places
  digitsOf (n / unit) ++ if places = 0 then [] else '.' :: padded places (n % unit)

/-- `r` rounded to `count` significant digits; rounding up to a power of ten moves the exponent. -/
def significant (r : Ratio) (count : Nat) : Digits :=
  if r.num = 0 then ⟨zeros count, 0⟩
  else
    let e := r.exponent10
    let n := (r.scale10 (count-1 - e)).round .toEven
    if n = Nat.pow 10 count then ⟨'1' :: zeros (count-1), e+1⟩ else ⟨padded count n, e⟩

/-- No number is written with more decimal places or significant digits than these. -/
def digitLimit : Nat := 65535

/-- `r` rounded to a number of decimal places, if they are not too many. -/
def fixed? (r : Ratio) (places : Nat) : Option (List Char) :=
  if places ≤ digitLimit then some (fixed r places) else none

/-- `r` rounded to `count` significant digits, if they are not too many. -/
def significant? (r : Ratio) (count : Nat) : Option Digits :=
  if count ≤ digitLimit then some (significant r count) else none

@[simp] theorem length_tailDigits (width n : Nat) : (tailDigits width n).length = width := by
  simp [tailDigits]

theorem getElem_tailDigits (width n i : Nat) (h : i < (tailDigits width n).length) :
    (tailDigits width n)[i] = Nat.digitChar (n / Nat.pow 10 (width - 1 - i) % 10) := by
  simp [tailDigits]

theorem ten_pow_add (i j : Nat) : Nat.pow 10 i * Nat.pow 10 j = Nat.pow 10 (i + j) :=
  (Nat.pow_add 10 i j).symm

/-- A digit of `n` does not depend on the digits above it. -/
theorem mod_ten_pow_digit (n : Nat) {i k : Nat} (h : i < k) :
    n % Nat.pow 10 k / Nat.pow 10 i % 10 = n / Nat.pow 10 i % 10 := by
  have hk : Nat.pow 10 k = Nat.pow 10 i * (Nat.pow 10 (k - i - 1) * 10) := by
    rw [← Nat.mul_assoc, ten_pow_add]
    exact congrArg (Nat.pow 10) (by omega : k = i + (k - i - 1) + 1)
  rw [hk, Nat.mod_mul_right_div_self, Nat.mod_mul_left_mod]

/-- Cutting a number into halves does not change its digits. -/
theorem lastDigits_eq (h width n : Nat) : lastDigits h width n = tailDigits width n := by
  induction h generalizing width n with
  | zero => rfl
  | succ h ih =>
    simp only [lastDigits, ih]
    apply List.ext_getElem
    · simp
      omega
    · intro i h1 h2
      simp only [length_tailDigits] at h2
      simp only [List.getElem_append, getElem_tailDigits, length_tailDigits]
      split
      · next hi =>
        have hs : width / 2 + (width - width / 2 - 1 - i) = width - 1 - i := by omega
        rw [Nat.div_div_eq_div_mul, ten_pow_add, hs]
      · next hi =>
        have hs : width / 2 - 1 - (i - (width - width / 2)) = width - 1 - i := by omega
        rw [hs, mod_ten_pow_digit n (by omega)]

@[simp] theorem length_padded (width n : Nat) : (padded width n).length = width := by
  simp [padded, lastDigits_eq]

/-- The values that round to one floating-point number, as multiples of `1 / den` around `value`.
The ends belong to it exactly when `closed`. -/
structure Cell where
  low : Nat
  value : Nat
  high : Nat
  den : Nat
  closed : Bool
  deriving DecidableEq, Repr

/-- The cell of `m · 2^q`: half a unit to both sides, and a quarter of a unit below a power of two,
where the numbers lie twice as dense. -/
def cell (p : Precision) (m : Nat) (q : Int) : Cell :=
  let unit := Ratio.ofDyadic 1 (q-2)
  let below := if m = Nat.pow 2 p.fraction ∧ p.least < q then 1 else 2
  { low := (4*m - below) * unit.num, value := 4*m * unit.num, high := (4*m + 2) * unit.num
    den := unit.den, closed := m % 2 = 0 }

/-- The cell in units of `10^k`. -/
def Cell.inUnits (c : Cell) (k : Int) : Cell :=
  let up := Nat.pow 10 (-k).toNat
  { low := c.low * up, value := c.value * up, high := c.high * up
    den := c.den * Nat.pow 10 k.toNat, closed := c.closed }

/-- Whether the integer `n` lies in the cell. -/
def Cell.holds (c : Cell) (n : Nat) : Bool :=
  let point := n * c.den
  if c.closed then c.low ≤ point && point ≤ c.high else c.low < point && point < c.high

/-- Of the two integers around the value, the one in the cell; of two, the nearer. -/
def Cell.integer? (c : Cell) (tie : Tie) : Option Nat :=
  let n := c.value / c.den
  match c.holds n, c.holds (n+1) with
  | true, true => some (roundDiv tie c.value c.den)
  | true, false => some n
  | false, true => some (n+1)
  | false, false => none

/-- Digits without the zeros at their end. -/
def strip (ds : List Char) : List Char := (ds.reverse.dropWhile (· = '0')).reverse

/-- The fewest digits whose value rounds to `m · 2^q`, and of those the nearest: the first of the
grids of 1, 2, … 17 digits that has a point in the cell. -/
def shortest (p : Precision) (tie : Tie) (m : Nat) (q : Int) : Digits :=
  if m = 0 then ⟨['0'], 0⟩
  else
    let c := cell p m q
    let e := Ratio.exponent10 ⟨c.value, c.den⟩
    let found := (List.range 17).findSome? fun (count : Nat) =>
      let k := e - count
      ((c.inUnits k).integer? tie).map fun n => (n, k)
    match found with
    | some (n, k) =>
      let ds := digitsOf n
      ⟨strip ds, k + ds.length - 1⟩
    | none => significant ⟨c.value, c.den⟩ 17

/-- One digit, then a point and the others if there are any. -/
def leading (ds : List Char) : List Char :=
  match ds with
  | [] => []
  | [d] => [d]
  | d :: ds => d :: '.' :: ds

end Decimal

/-- How the shortest digits are written: exponents from `low` to `high` without one, all others
with it, where `plus` marks those above zero; and which of two equally near digit strings is taken. -/
structure Spelling where
  low : Int
  high : Int
  plus : Bool
  tie : Tie
  deriving DecidableEq, Repr

namespace Spelling

/-- For people: positional from `0.0001` up to sixteen digits before the point. -/
def display : Spelling := ⟨-4, 15, false, .up⟩

/-- In JSON: positional from `0.00001`, large exponents with a sign, ties to the even digit. -/
def json : Spelling := ⟨-5, 15, true, .toEven⟩

/-- In YAML: as in JSON, but large exponents without a sign. -/
def yaml : Spelling := ⟨-5, 15, false, .toEven⟩

def positional (d : Digits) : List Char :=
  if d.exponent < 0 then '0' :: '.' :: Decimal.zeros ((-d.exponent).toNat - 1) ++ d.digits
  else
    let whole := d.exponent.toNat + 1
    if d.digits.length ≤ whole then d.digits ++ Decimal.zeros (whole - d.digits.length) ++ ['.', '0']
    else d.digits.take whole ++ '.' :: d.digits.drop whole

def scientific (plus : Bool) (d : Digits) : List Char :=
  let sign := if d.exponent < 0 then ['-'] else if plus then ['+'] else []
  Decimal.leading d.digits ++ 'e' :: sign ++ Decimal.digitsOf d.exponent.natAbs

def write (s : Spelling) (d : Digits) : List Char :=
  if s.low ≤ d.exponent ∧ d.exponent ≤ s.high then positional d else scientific s.plus d

/-- The shortest text of `m · 2^q`. -/
def magnitude (s : Spelling) (p : Precision) (m : Nat) (q : Int) : List Char :=
  s.write (Decimal.shortest p s.tie m q)

def minus (negative : Bool) : List Char := if negative then ['-'] else []

/-- The text of a reading, infinities and no-numbers included. -/
def text (s : Spelling) (p : Precision) : Reading → List Char
  | .finite negative m q => minus negative ++ s.magnitude p m q
  | .infinite negative => minus negative ++ "inf".toList
  | .nan => "NaN".toList

end Spelling

def Binary32.text (x : Binary32) : List Char := Spelling.display.text .single x.read

def Binary64.text (x : Binary64) : List Char := Spelling.display.text .double x.read

/-- The double nearest to the shortest decimal text of a single, so that `0.1` stays `0.1`. -/
def Binary32.asWritten (x : Binary32) : Binary64 :=
  match x.read with
  | .finite negative m q =>
    let d := Decimal.shortest .single .up m q
    let n := Nat.ofDigitChars 10 d.digits 0
    .ofRatio negative (Ratio.scale10 ⟨n, 1⟩ (d.exponent + 1 - d.digits.length))
  | .infinite negative => .infinite negative
  | .nan => .nan

end PackedStruct
