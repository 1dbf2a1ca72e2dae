import PackedStruct.Text.Blank
/-!
Numerals: digits in a radix up to 16, the natural number a run of digits denotes, and integers
written with a sign and an optional radix mark.
-/

namespace PackedStruct.Text

/-- The value of an ASCII digit or letter as a digit of `radix`. -/
def digit? (radix : Nat) (c : Char) : Option Nat :=
  let value :=
    if '0' ≤ c ∧ c ≤ '9' then c.toNat - 48
    else if 'a' ≤ c ∧ c ≤ 'z' then c.toNat - 87
    else if 'A' ≤ c ∧ c ≤ 'Z' then c.toNat - 55
    else radix
  if value < radix then some value else none

def isDigit (c : Char) : Bool := '0' ≤ c && c ≤ '9'

/-- Read digits from the left onto the number `acc`. -/
def foldDigits? (radix : Nat) : Nat → List Char → Option Nat
  | acc, [] => some acc
  | acc, c :: s => do foldDigits? radix (acc*radix + (← digit? radix c)) s

/-- The number that a non-empty run of digits denotes. -/
def natural? (radix : Nat) (s : List Char) : Option Nat :=
  if s.isEmpty then none else foldDigits? radix 0 s

/-- A decimal number with at most one `+` before its digits. -/
def unsigned? : List Char → Option Nat
  | '+' :: s => natural? 10 s
  | s => natural? 10 s

/-- Split off a radix mark `0x`, `0o` or `0b`, in either case; without one the radix is ten. -/
def radixMark : List Char → Nat × List Char
  | '0' :: 'x' :: s | '0' :: 'X' :: s => (16, s)
  | '0' :: 'o' :: s | '0' :: 'O' :: s => (8, s)
  | '0' :: 'b' :: s | '0' :: 'B' :: s => (2, s)
  | s => (10, s)

/-- The number after the sign: its size stays below `2^127`. -/
def magnitude? (s : List Char) : Option Nat :=
  let (radix, digits) := radixMark s
  (natural? radix digits).filter (· < Nat.pow 2 127)

/-- An integer with an optional sign and radix mark, surrounding blanks aside. -/
def integer? (s : List Char) : Option Int :=
  match trim s with
  | '-' :: s => (magnitude? s).map fun m => -(m : Int)
  | '+' :: s => (magnitude? s).map Int.ofNat
  | s => (magnitude? s).map Int.ofNat

theorem foldDigits?_append (radix acc : Nat) (s t : List Char) :
    foldDigits? radix acc (s ++ t) = (foldDigits? radix acc s).bind (foldDigits? radix · t) := by
  induction s generalizing acc with
  | nil => rfl
  | cons c s ih => cases h : digit? radix c <;> simp [foldDigits?, h, ih]

theorem digit?_lt {radix v : Nat} {c : Char} (h : digit? radix c = some v) : v < radix := by
  grind [digit?]

theorem toNat_bounds_of_isDigit {c : Char} (h : c.isDigit = true) : 48 ≤ c.toNat ∧ c.toNat ≤ 57 := by
  simpa [Char.isDigit, UInt32.le_iff_toNat_le] using h

theorem isDigit_eq (c : Char) : isDigit c = c.isDigit := rfl

/-- A run of digits ends where no digit follows. -/
theorem takeWhile_digits {ds s : List Char} (hds : ∀ c ∈ ds, c.isDigit = true)
    (hs : ∀ c, s.head? = some c → c.isDigit = false) :
    (ds ++ s).takeWhile isDigit = ds ∧ (ds ++ s).dropWhile isDigit = s := by
  have hdigits : ∀ c ∈ ds, isDigit c = true := fun c hc => (isDigit_eq c).trans (hds c hc)
  have hrest : s.takeWhile isDigit = [] ∧ s.dropWhile isDigit = s := by
    cases s with
    | nil => exact ⟨rfl, rfl⟩
    | cons c s =>
      have hc : ¬isDigit c = true := by simp [isDigit_eq, hs c rfl]
      exact ⟨List.takeWhile_cons_of_neg hc, List.dropWhile_cons_of_neg hc⟩
  rw [List.takeWhile_append_of_pos hdigits, List.dropWhile_append_of_pos hdigits, hrest.1, hrest.2, List.append_nil]
  exact ⟨rfl, rfl⟩

theorem digit?_ten {c : Char} (h : c.isDigit = true) : digit? 10 c = some (c.toNat - 48) := by
  obtain ⟨hlo, hhi⟩ := toNat_bounds_of_isDigit h
  have hrange : '0' ≤ c ∧ c ≤ '9' := by
    rw [Char.le_def, Char.le_def, UInt32.le_iff_toNat_le, UInt32.le_iff_toNat_le]
    exact ⟨hlo, hhi⟩
  have hlt : c.toNat - 48 < 10 := by omega
  simp only [digit?, if_pos hrange, if_pos hlt]

theorem isBlank_digit {c : Char} (h : c.isDigit = true) : isBlank c = false := by
  have hbounds := toNat_bounds_of_isDigit h
  grind [isBlank]

theorem foldDigits?_ten {s : List Char} (h : ∀ c ∈ s, c.isDigit = true) (acc : Nat) :
    foldDigits? 10 acc s = some (Nat.ofDigitChars 10 s acc) := by
  induction s generalizing acc with
  | nil => rfl
  | cons c s ih =>
    have hc := digit?_ten (h c (by simp))
    have hrest := ih fun d hd => h d (by simp [hd])
    simp [foldDigits?, hc, hrest, Nat.ofDigitChars_cons, Nat.mul_comm]

/-- The decimal digits of a number are read as that number. -/
theorem unsigned?_toDigits (n : Nat) : unsigned? (Nat.toDigits 10 n) = some n := by
  have hdigits : ∀ c ∈ Nat.toDigits 10 n, c.isDigit = true := fun c hc =>
    Nat.isDigit_of_mem_toDigits (by decide) (by decide) hc
  have hread : natural? 10 (Nat.toDigits 10 n) = some n := by
    rw [natural?, if_neg (by simp [Nat.toDigits_ne_nil]), foldDigits?_ten hdigits,
      Nat.ofDigitChars_ten_toDigits]
  unfold unsigned?
  split
  · next rest heq =>
    have hplus := hdigits '+' (by rw [heq]; exact List.mem_cons_self)
    exact absurd hplus (by decide)
  · exact hread

/-- A positive number is written without zeros in front. -/
theorem head?_toDigits {radix n : Nat} (hradix : 1 < radix) (h : 0 < n) :
    (Nat.toDigits radix n).head? ≠ some '0' := by
  induction n using Nat.strongRecOn with
  | _ n ih =>
    rw [Nat.toDigits_eq_if hradix]
    split
    · simpa using Nat.ne_of_gt h
    · next hlarge =>
      have hquotient : 0 < n / radix := Nat.div_pos (Nat.not_lt.1 hlarge) (by omega)
      rw [List.head?_append, List.head?_eq_some_head Nat.toDigits_ne_nil, Option.some_or,
        ← List.head?_eq_some_head]
      exact ih (n / radix) (Nat.div_lt_self h hradix) hquotient

variable {s : List Char} {c : Char} {n : Nat}

theorem isDigit_of_digit?_ten {v : Nat} (h : digit? 10 c = some v) : c.isDigit = true := by
  have hlower (hc : 'a' ≤ c) : 97 ≤ c.toNat := UInt32.le_iff_toNat_le.1 hc
  have hupper (hc : 'A' ≤ c) : 65 ≤ c.toNat := UInt32.le_iff_toNat_le.1 hc
  by_cases hrange : '0' ≤ c ∧ c ≤ '9'
  · simpa [Char.isDigit, Char.le_def] using hrange
  · simp only [digit?, if_neg hrange] at h
    grind

theorem isDigit_of_foldDigits?_ten {acc : Nat} (h : foldDigits? 10 acc s = some n) :
    ∀ c ∈ s, c.isDigit = true := by
  induction s generalizing acc with
  | nil => simp
  | cons c s ih =>
    obtain ⟨v, hv, hrest⟩ := Option.bind_eq_some_iff.1 h
    exact List.forall_mem_cons.2 ⟨isDigit_of_digit?_ten hv, ih hrest⟩

theorem natural?_ten_eq_some_iff : natural? 10 s = some n ↔
    s ≠ [] ∧ (∀ c ∈ s, c.isDigit = true) ∧ n = Nat.ofDigitChars 10 s 0 := by
  rw [natural?]
  constructor
  · intro h
    split at h
    · cases h
    next hne =>
      have hdigits := isDigit_of_foldDigits?_ten h
      rw [foldDigits?_ten hdigits] at h
      exact ⟨by simpa using hne, hdigits, (Option.some.inj h).symm⟩
  · rintro ⟨hne, hdigits, rfl⟩
    rw [if_neg (by simpa using hne), foldDigits?_ten hdigits]

theorem unsigned?_eq_some_iff : unsigned? s = some n ↔
    ∃ sign digits, s = sign ++ digits ∧ (sign = [] ∨ sign = ['+']) ∧ digits ≠ [] ∧
      (∀ c ∈ digits, c.isDigit = true) ∧ n = Nat.ofDigitChars 10 digits 0 := by
  constructor
  · intro h
    unfold unsigned? at h
    split at h
    · next digits => exact ⟨['+'], digits, rfl, .inr rfl, natural?_ten_eq_some_iff.1 h⟩
    · exact ⟨[], s, rfl, .inl rfl, natural?_ten_eq_some_iff.1 h⟩
  · rintro ⟨sign, digits, rfl, hsign, hdigits⟩
    have hread := natural?_ten_eq_some_iff.2 hdigits
    rcases hsign with rfl | rfl
    · unfold unsigned?
      split
      · next rest heq =>
        have hplus := hdigits.2.1 '+' (by rw [List.nil_append] at heq; simp [heq])
        exact absurd hplus (by decide)
      · exact hread
    · exact hread

/-! Digits in any radix. -/

variable {radix v : Nat}

theorem digit?_bounds (h : digit? radix c = some v) :
    (48 ≤ c.toNat ∧ c.toNat ≤ 57) ∨ (97 ≤ c.toNat ∧ c.toNat ≤ 122) ∨ (65 ≤ c.toNat ∧ c.toNat ≤ 90) := by
  have hle (d : Char) : d ≤ c ↔ d.toNat ≤ c.toNat := UInt32.le_iff_toNat_le
  have hge (d : Char) : c ≤ d ↔ c.toNat ≤ d.toNat := UInt32.le_iff_toNat_le
  simp only [digit?, hle, hge] at h
  grind

theorem isBlank_of_digit? (h : digit? radix c = some v) : isBlank c = false := by
  have hbounds := digit?_bounds h
  simp [isBlank]
  omega

/-- A digit means the same in every radix that has it. -/
theorem digit?_of_le {radix' : Nat} (h : digit? radix' c = some v) (hv : v < radix) (hle : radix ≤ radix') :
    digit? radix c = some v := by
  unfold digit? at h ⊢
  grind

theorem digit?_digitChar : ∀ d < 16, digit? 16 d.digitChar = some d := by decide

theorem digit?_toUpper : ∀ d < 16, digit? 16 d.digitChar.toUpper = some d := by decide

theorem exists_digit? {acc : Nat} (h : foldDigits? radix acc s = some n) :
    ∀ c ∈ s, ∃ v, digit? radix c = some v := by
  induction s generalizing acc with
  | nil => simp
  | cons c s ih =>
    obtain ⟨v, hv, hrest⟩ := Option.bind_eq_some_iff.1 h
    exact List.forall_mem_cons.2 ⟨⟨v, hv⟩, ih hrest⟩

theorem foldDigits?_zeros (hradix : 0 < radix) (k : Nat) :
    foldDigits? radix 0 (List.replicate k '0' ++ s) = foldDigits? radix 0 s := by
  have hzero : digit? radix '0' = some 0 := by simp [digit?, hradix]
  induction k with
  | zero => rfl
  | succ k ih => simp [List.replicate_succ, foldDigits?, hzero, ih]

/-- The digits of a number are read as that number, in whichever case its letters are written. -/
theorem foldDigits?_toDigits {write : Char → Char} (hradix : 1 < radix) (hle : radix ≤ 16)
    (hwrite : ∀ d < 16, digit? 16 (write d.digitChar) = some d) (n : Nat) :
    foldDigits? radix 0 ((Nat.toDigits radix n).map write) = some n := by
  have hdigit {d : Nat} (hd : d < radix) : digit? radix (write d.digitChar) = some d :=
    digit?_of_le (hwrite d (by omega)) hd hle
  induction n using Nat.strongRecOn with
  | _ n ih =>
    rw [Nat.toDigits_eq_if hradix]
    split
    · next hsmall => simp [foldDigits?, hdigit hsmall]
    · next hlarge =>
      have hrest : n / radix < n := Nat.div_lt_self (by omega) hradix
      have hlast : n % radix < radix := Nat.mod_lt n (by omega)
      rw [List.map_append, foldDigits?_append, ih _ hrest]
      simp [foldDigits?, hdigit hlast, Nat.div_add_mod']

end PackedStruct.Text
