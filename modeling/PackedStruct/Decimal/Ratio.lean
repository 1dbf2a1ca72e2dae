/-!
Quotients of natural numbers, the exact values behind every printed number: rounding to an integer,
scaling by powers of ten and the place of the leading decimal digit.
-/

namespace PackedStruct

/-- Where a value half way between two neighbours goes. -/
inductive Tie where
  | toEven
  | up
  deriving DecidableEq, Repr

/-- The integer nearest to `num / den`. -/
def roundDiv (tie : Tie) (num den : Nat) : Nat :=
  let low := num / den
  let twice := 2 * (num % den)
  if twice < den then low
  else if den < twice then low+1
  else match tie with
    | .up => low+1
    | .toEven => if low % 2 = 0 then low else low+1

/-- The value `num / den`, with `den` positive wherever one is built. -/
structure Ratio where
  num : Nat
  den : Nat
  deriving DecidableEq, Repr

namespace Ratio

/-- `m · 2^q` -/
def ofDyadic (m : Nat) (q : Int) : Ratio := ⟨m * Nat.pow 2 q.toNat, Nat.pow 2 (-q).toNat⟩

/-- `r · 2^k` -/
def scale2 (r : Ratio) (k : Int) : Ratio := ⟨r.num * Nat.pow 2 k.toNat, r.den * Nat.pow 2 (-k).toNat⟩

/-- `r · 10^k` -/
def scale10 (r : Ratio) (k : Int) : Ratio := ⟨r.num * Nat.pow 10 k.toNat, r.den * Nat.pow 10 (-k).toNat⟩

def round (r : Ratio) (tie : Tie) : Nat := roundDiv tie r.num r.den

/-- The `e` with `2^e ≤ r < 2^(e+1)`, for a positive `r`. -/
def exponent2 (r : Ratio) : Int :=
  let e : Int := r.num.log2 - r.den.log2
  if r.den * Nat.pow 2 e.toNat ≤ r.num * Nat.pow 2 (-e).toNat then e else e-1

/-- The number of decimal digits of `n`. -/
def digitCount (n : Nat) : Nat := (Nat.toDigits 10 n).length

/-- The `e` with `10^e ≤ r < 10^(e+1)`, for a positive `r`: below one, it is the number of digits of
the largest integer under `1/r` that decides. -/
def exponent10 (r : Ratio) : Int :=
  if r.den ≤ r.num then digitCount (r.num / r.den) - 1
  else -digitCount ((r.den-1) / r.num)

end Ratio

end PackedStruct
