import PackedStruct.Error
import PackedStruct.Proofs.DigitLimit
import PackedStruct.Proofs.Pattern
/-!
Width and alignment. Whatever a format shows, a number of any kind or a text, its width only adds fill
characters, and the alignment says where. Nothing is shown of a number that a format asks too many digits of.
-/

namespace PackedStruct

/-- What a format is applied to. -/
inductive Displayed where
  | integer (v : Int)
  | float (x : Binary64)
  | text (s : List Char)
  deriving DecidableEq

namespace Format

open Decimal

variable {f : Format} {d : Displayed}

def display? (f : Format) : Displayed → Option (List Char)
  | .integer v => f.integer? v
  | .float x => f.float? x
  | .text s => some (f.text s)

/-- The same format with another width. -/
def withWidth (f : Format) (width : Nat) : Format := { f with width := width }

/-- What is shown if no width is asked for. -/
def bare? (f : Format) (d : Displayed) : Option (List Char) := (f.withWidth 0).display? d

/-- Whether the type of the format is one for the value: whole numbers are also shown as if they had a
fraction, or as the character with that number if there is one. -/
def Suits (f : Format) : Displayed → Prop
  | .integer v => f.kind ≠ some .string ∧ (f.kind = some .character → (character? v).isSome)
  | .float _ => ∀ k, f.kind = some k → k ∈ fractional
  | .text _ => ∀ k, f.kind = some k → k = .string

theorem Suits.kind_text {s : List Char} (h : f.Suits (.text s)) : f.kind = none ∨ f.kind = some .string := by
  cases hkind : f.kind with
  | none => exact .inl rfl
  | some k => exact .inr (congrArg some (h k hkind))

/-- The sign in front of a number; characters and texts have none. -/
def signOf (f : Format) : Displayed → List Char
  | .integer v => if f.kind = some .character then [] else f.signText (v < 0)
  | .float x => f.signText x.read.negative
  | .text _ => []

/-- The mark of the radix between the sign and the digits of a whole number. -/
def markOf (f : Format) : Displayed → List Char
  | .integer _ =>
    match f.alternate, f.kind with
    | true, some .lowerHex => "0x".toList
    | true, some .upperHex => "0X".toList
    | true, some .octal => "0o".toList
    | true, some .binary => "0b".toList
    | _, _ => []
  | _ => []

/-- Numbers go to the right; characters and texts to the left. -/
def side (f : Format) : Displayed → Align
  | .integer _ => if f.kind = some .character then .left else .right
  | .float _ => .right
  | .text _ => .left

/-- Whether a format asks for too many digits of a value. Only of finite numbers that are shown as if they had a
fraction it asks for any. -/
def Overlong (f : Format) : Displayed → Prop
  | .integer v => (∃ k ∈ fractional, f.kind = some k ∧ k ≠ .number) ∧
      ∃ negative m q, (Binary64.ofInt v).read = .finite negative m q ∧ digitLimit < f.digitsAsked (m * 2 ^ q)
  | .float x => ∃ negative m q, x.read = .finite negative m q ∧ digitLimit < f.digitsAsked (m * 2 ^ q)
  | .text _ => False

/-- Precisions that are not among the largest few never ask for too many. -/
theorem Overlong.le_precision (h : f.Overlong d) : digitLimit ≤ f.precision.getD 6 + 2 := by
  have hle {m : Nat} {q : Int} (hlong : digitLimit < f.digitsAsked (m * 2 ^ q)) :
      digitLimit ≤ f.precision.getD 6 + 2 := by
    have hasked := f.digitsAsked_le (m * 2 ^ q)
    rw [digitLimit] at hlong ⊢
    omega
  cases d with
  | integer v =>
    obtain ⟨-, _, m, q, -, hlong⟩ := h
    exact hle hlong
  | float x =>
    obtain ⟨_, m, q, -, hlong⟩ := h
    exact hle hlong
  | text s => exact h.elim

@[simp] theorem kind_withWidth (f : Format) (width : Nat) : (f.withWidth width).kind = f.kind := rfl

@[simp] theorem precision_withWidth (f : Format) (width : Nat) : (f.withWidth width).precision = f.precision := rfl

/-- A number in double precision is padded after its sign, whether it is finite or not. -/
theorem exists_float (h : ∀ k, f.kind = some k → k ∈ fractional) (x : Binary64) :
    ∃ body : Option (List Char), (body = none ↔ f.Overlong (.float x)) ∧
      ∀ width, (f.withWidth width).float? x =
        body.map fun body => (f.withWidth width).pad .right ⟨f.signText x.read.negative, body⟩ := by
  cases hread : x.read with
  | nan =>
    refine ⟨some (f.special "nan" "NAN"), by simp [Overlong, hread], fun width => ?_⟩
    simp only [float?, hread]
    rfl
  | infinite negative =>
    refine ⟨some (f.special "inf" "INF"), by simp [Overlong, hread], fun width => ?_⟩
    simp only [float?, hread]
    rfl
  | finite negative m q =>
    obtain ⟨body, hbody⟩ := exists_finite? h m q
    refine ⟨if f.digitsAsked (m * 2 ^ q) ≤ digitLimit then some body else none, ?_, fun width => ?_⟩
    · simp [Overlong, hread]
    · have hsame : (f.withWidth width).finite? m q =
          some (if f.digitsAsked (m * 2 ^ q) ≤ digitLimit then some body else none) := hbody
      simp only [float?, hread, hsame]
      rfl

/-- The digits of a whole number are padded after its sign and the mark of the radix. -/
theorem exists_radixText (f : Format) (v : Int) (radix every : Nat) (mark : String) (upper : Bool) :
    ∃ body, ∀ width, (f.withWidth width).radixText v radix every mark upper =
      (f.withWidth width).pad .right
        ⟨f.signText (v < 0) ++ (if f.alternate then mark.toList else []), body⟩ :=
  ⟨f.group every (if upper then (Nat.toDigits radix v.natAbs).map Char.toUpper else Nat.toDigits radix v.natAbs),
    fun _ => rfl⟩

/-- A whole number is padded after its sign and the mark of its radix, a character in front. -/
theorem exists_integer {v : Int} (h : f.Suits (.integer v)) :
    ∃ body : Option (List Char), (body = none ↔ f.Overlong (.integer v)) ∧
      ∀ width, (f.withWidth width).integer? v = body.map fun body =>
        (f.withWidth width).pad (f.side (.integer v)) ⟨f.signOf (.integer v) ++ f.markOf (.integer v), body⟩ := by
  obtain ⟨hstring, hcharacter⟩ := h
  -- A type for whole numbers has a text for each of them.
  have hwhole (radix every : Nat) (mark : String) (upper : Bool)
      (hkind : ¬∃ k ∈ fractional, f.kind = some k ∧ k ≠ .number) :
      ∃ body : Option (List Char), (body = none ↔ f.Overlong (.integer v)) ∧
        ∀ width, some ((f.withWidth width).radixText v radix every mark upper) = body.map fun body =>
          (f.withWidth width).pad .right
            ⟨f.signText (v < 0) ++ (if f.alternate then mark.toList else []), body⟩ := by
    obtain ⟨body, hbody⟩ := f.exists_radixText v radix every mark upper
    exact ⟨some body, by simp [Overlong, hkind], fun width => congrArg some (hbody width)⟩
  simp only [integer?, kind_withWidth, side, signOf, markOf]
  cases hkind : f.kind with
  | none => simpa using hwhole 10 3 "" false (by simp [hkind])
  | some k =>
    cases k with
    | decimal | number => simpa using hwhole 10 3 "" false (by simp [hkind, fractional])
    | lowerHex =>
      cases halternate : f.alternate <;>
        simpa [halternate] using hwhole 16 4 "0x" false (by simp [hkind, fractional])
    | upperHex =>
      cases halternate : f.alternate <;>
        simpa [halternate] using hwhole 16 4 "0X" true (by simp [hkind, fractional])
    | octal =>
      cases halternate : f.alternate <;>
        simpa [halternate] using hwhole 8 4 "0o" false (by simp [hkind, fractional])
    | binary =>
      cases halternate : f.alternate <;>
        simpa [halternate] using hwhole 2 4 "0b" false (by simp [hkind, fractional])
    | character =>
      obtain ⟨c, hc⟩ := Option.isSome_iff_exists.1 (hcharacter hkind)
      exact ⟨some [c], by simp [Overlong, hkind, fractional], fun width => by simp [hc]⟩
    | string => exact absurd hkind hstring
    | lowerExp | upperExp | lowerFixed | upperFixed | lowerGeneral | upperGeneral | percent =>
      have hfractional : ∀ k, f.kind = some k → k ∈ fractional := by simp [hkind, fractional]
      obtain ⟨body, hnone, hbody⟩ := exists_float hfractional (Binary64.ofInt v)
      refine ⟨body, ?_, fun width => by simpa [Binary64.negative_ofInt] using hbody width⟩
      rw [hnone, Overlong, Overlong, and_iff_right ⟨_, hfractional _ hkind, hkind, by decide⟩]

/-- There is one text that is padded, whatever the width is, unless the format asks for too many digits. -/
theorem exists_padded (h : f.Suits d) :
    ∃ body : Option (List Char), (body = none ↔ f.Overlong d) ∧
      ∀ width, (f.withWidth width).display? d =
        body.map fun body => (f.withWidth width).pad (f.side d) ⟨f.signOf d ++ f.markOf d, body⟩ := by
  cases d with
  | integer v => exact exists_integer h
  | float x =>
    obtain ⟨body, hnone, hbody⟩ := exists_float h x
    exact ⟨body, hnone, fun width => by simpa [display?, side, signOf, markOf] using hbody width⟩
  | text s =>
    refine ⟨some (f.precision.elim s s.take), by simp [Overlong], fun width => ?_⟩
    rcases h.kind_text with hkind | hkind <;>
      cases hprecision : f.precision <;> simp [display?, text, side, signOf, markOf, hkind, hprecision]

def filling (f : Format) (count : Nat) : List Char := List.replicate count f.fill

/-- Padding in terms of the whole text. -/
theorem pad_eq (f : Format) (default : Align) (lead body : List Char) :
    f.pad default ⟨lead, body⟩ =
      match f.align.getD default with
      | .left => (lead ++ body) ++ f.filling (f.width - (lead ++ body).length)
      | .right => f.filling (f.width - (lead ++ body).length) ++ (lead ++ body)
      | .center => f.filling ((f.width - (lead ++ body).length) / 2) ++ (lead ++ body) ++
          f.filling (f.width - (lead ++ body).length - (f.width - (lead ++ body).length) / 2)
      | .afterSign => lead ++ f.filling (f.width - (lead ++ body).length) ++ body := by
  simp only [pad, filling, List.length_append]
  cases f.align.getD default <;> simp

/-- Padding adds characters and takes none away. -/
theorem sublist_pad (f : Format) (default : Align) (lead body : List Char) :
    (lead ++ body).Sublist (f.pad default ⟨lead, body⟩) := by
  rw [pad_eq]
  split
  · exact List.sublist_append_left _ _
  · exact List.sublist_append_right _ _
  · exact (List.sublist_append_right _ _).trans (List.sublist_append_left _ _)
  · rw [List.append_assoc]
    exact (List.Sublist.refl lead).append (List.sublist_append_right _ _)

/-- A text is shown from its beginning, up to the precision. -/
theorem bare?_text {s : List Char} (h : f.Suits (.text s)) :
    f.bare? (.text s) = some (s.take (f.precision.getD s.length)) := by
  have hpad (body : List Char) : (f.withWidth 0).pad .left ⟨[], body⟩ = body := pad_of_le (Nat.zero_le _)
  rcases h.kind_text with hkind | hkind <;>
    cases hprecision : f.precision <;> simp [bare?, display?, text, hkind, hprecision, hpad]

/-- Where the type of a format suits a value, the value has a text unless the format asks for too many digits of it,
which only the largest precisions do. Then the width of the format changes what is shown only by fill characters
that are added to it, as many as are missing. They go behind it, in front of it, to both sides with the odd one
behind, or between the sign with the mark and the rest. Nothing is cut off; a text alone is cut, and only by the
precision. -/
theorem display_fills (f : Format) (d : Displayed) (h : f.Suits d) :
    (f.Overlong d → f.bare? d = none ∧ f.display? d = none ∧ digitLimit ≤ f.precision.getD 6 + 2) ∧
    (¬f.Overlong d → ∃ bare shown body, f.bare? d = some bare ∧ f.display? d = some shown ∧
      shown.length = max f.width bare.length ∧
      bare = f.signOf d ++ f.markOf d ++ body ∧
      shown = (match f.align.getD (f.side d) with
        | .left => bare ++ f.filling (f.width - bare.length)
        | .right => f.filling (f.width - bare.length) ++ bare
        | .center => f.filling ((f.width - bare.length) / 2) ++ bare ++
            f.filling (f.width - bare.length - (f.width - bare.length) / 2)
        | .afterSign => (f.signOf d ++ f.markOf d) ++ f.filling (f.width - bare.length) ++ body) ∧
      bare.Sublist shown ∧
      ∀ s, d = .text s → bare = s.take (f.precision.getD s.length) ∧
        ∀ n, f.precision = some n → bare.length = min n s.length) := by
  obtain ⟨padded, hnone, hpadded⟩ := exists_padded h
  have hself : f.display? d = padded.map fun body => f.pad (f.side d) ⟨f.signOf d ++ f.markOf d, body⟩ :=
    hpadded f.width
  constructor
  · intro hlong
    rw [hnone.2 hlong] at hpadded hself
    exact ⟨hpadded 0, hself, hlong.le_precision⟩
  · intro hshort
    obtain ⟨body, rfl⟩ := Option.ne_none_iff_exists'.1 (mt hnone.1 hshort)
    have hbare : f.bare? d = some (f.signOf d ++ f.markOf d ++ body) := by
      rw [bare?, hpadded 0, Option.map_some, pad_of_le (Nat.zero_le _)]
    refine ⟨_, _, body, hbare, hself, ?_, rfl, pad_eq _ _ _ _, sublist_pad _ _ _ _, ?_⟩
    · simp only [pad_length, List.length_append]
    · rintro s rfl
      have htext : f.signOf (.text s) ++ f.markOf (.text s) ++ body = s.take (f.precision.getD s.length) :=
        Option.some.inj (hbare.symm.trans (bare?_text h))
      refine ⟨htext, fun n hn => ?_⟩
      rw [htext, hn, Option.getD_some, List.length_take]

/-- An odd number of fill characters around a negative number with a mark. -/
theorem display_fills_centered :
    let f : Format := ⟨'·', some .center, .plus, true, 12, some .underscore, none, some .lowerHex⟩
    Format.read "·^+#12_x" = .ok f ∧ f.Suits (.integer (-255)) ∧ ¬f.Overlong (.integer (-255)) ∧
      f.bare? (.integer (-255)) = some "-0xff".toList ∧
      f.display? (.integer (-255)) = some "···-0xff····".toList ∧
      ∃ bare shown, f.bare? (.integer (-255)) = some bare ∧ f.display? (.integer (-255)) = some shown ∧
        shown.length = max 12 bare.length ∧
        shown = f.filling ((12 - bare.length) / 2) ++ bare ++
          f.filling (12 - bare.length - (12 - bare.length) / 2) := by
  intro f
  have hsuits : f.Suits (.integer (-255)) := ⟨by decide, fun h => by cases h⟩
  have hshort : ¬f.Overlong (.integer (-255)) := by
    rintro ⟨⟨k, hk, heq, -⟩, -⟩
    cases heq
    exact absurd hk (by decide)
  obtain ⟨bare, shown, _, hbare, hshown, hlength, -, hfilled, -⟩ :=
    (display_fills f (.integer (-255)) hsuits).2 hshort
  exact ⟨by rfl, hsuits, hshort, by decide +kernel, by decide +kernel, bare, shown, hbare, hshown, hlength, hfilled⟩

/-- The largest precision in general notation asks for one decimal place too many of the number nearest to a
hundredth, and nothing is shown of it. -/
theorem display_fills_overlong :
    let f : Format := ⟨' ', none, .minus, false, 0, none, some 65535, some .lowerGeneral⟩
    let d : Displayed := .float ⟨0x3F847AE147AE147B⟩
    Format.read ".65535g" = .ok f ∧ f.Suits d ∧ f.bare? d = none ∧ f.display? d = none ∧
      ¬∀ d, f.Suits d → ∃ bare shown, f.bare? d = some bare ∧ f.display? d = some shown ∧
        shown.length = max f.width bare.length := by
  intro f d
  have hsuits : f.Suits d := by
    intro k hk
    cases hk
    decide
  have hnone : f.display? d = none := by decide +kernel
  refine ⟨by rfl, hsuits, hnone, hnone, fun h => ?_⟩
  obtain ⟨bare, shown, -, hshown, -⟩ := h d hsuits
  rw [hnone] at hshown
  cases hshown

end Format

end PackedStruct
