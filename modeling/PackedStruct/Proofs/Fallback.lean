import PackedStruct.Proofs.Alignment
/-!
Types that no number with a fraction can take. A finite number is then shown as if there were no format.
Infinities and what is no number are padded and signed all the same.
-/

namespace PackedStruct.Format

variable {f : Format} {k : Presentation}

/-- The types for whole numbers and texts only. -/
def unfractional : List Presentation :=
  [.binary, .character, .decimal, .octal, .lowerHex, .upperHex, .string]

/-- No finite number has a text in such a type. -/
theorem finite?_eq_none (hkind : f.kind = some k) (hk : k ∈ unfractional) (m : Nat) (q : Int) :
    f.finite? m q = none := by
  simp only [finite?, hkind]
  cases k with
  | binary | character | decimal | octal | lowerHex | upperHex | string => rfl
  | lowerExp | upperExp | lowerFixed | upperFixed | lowerGeneral | upperGeneral | number | percent =>
    exact absurd hk (by decide)

theorem special_of_unfractional (hkind : f.kind = some k) (hk : k ∈ unfractional) (lower upper : String) :
    f.special lower upper = lower.toList := by
  have hupper : f.isUpper = false := by
    rw [isUpper, hkind]
    cases k with
    | binary | character | decimal | octal | lowerHex | upperHex | string => rfl
    | lowerExp | upperExp | lowerFixed | upperFixed | lowerGeneral | upperGeneral | number | percent =>
      exact absurd hk (by decide)
  rw [special, hupper, if_neg Bool.false_ne_true]

/-- Only a width that is already reached leaves a text as it is. -/
theorem pad_eq_self_iff {a : Align} {lead body : List Char} :
    f.pad a ⟨lead, body⟩ = lead ++ body ↔ f.width ≤ (lead ++ body).length := by
  rw [List.length_append]
  constructor
  · intro h
    have hlength := pad_length f a ⟨lead, body⟩
    rw [h, List.length_append] at hlength
    omega
  · intro h
    exact pad_of_le h

theorem signText_false_eq_nil_iff : f.signText false = [] ↔ f.sign = .minus := by
  cases hsign : f.sign <;> simp [signText, hsign]

/-- A sign that the unformatted text does not have makes the text longer. -/
theorem pad_ne_of_signed {a : Align} {lead body s : List Char} (hlead : lead ≠ []) (hs : s.length = body.length) :
    f.pad a ⟨lead, body⟩ ≠ s := by
  intro h
  have hlength := pad_length f a ⟨lead, body⟩
  have hpos : 0 < lead.length := List.length_pos_iff.2 hlead
  rw [h, hs] at hlength
  dsimp only at hlength
  omega

/-- An infinity is left as it is if nothing is to be put around it. -/
theorem pad_infinite_iff {negative : Bool} :
    f.pad .right ⟨f.signText negative, "inf".toList⟩ = Spelling.minus negative ++ "inf".toList ↔
      f.width ≤ (Spelling.minus negative ++ "inf".toList).length ∧ (negative = true ∨ f.sign = .minus) := by
  cases negative with
  | true =>
    have hlead : f.signText true = Spelling.minus true := rfl
    rw [hlead, pad_eq_self_iff]
    simp
  | false =>
    by_cases hsign : f.sign = .minus
    · have hlead : f.signText false = Spelling.minus false := signText_false_eq_nil_iff.2 hsign
      rw [hlead, pad_eq_self_iff]
      simp [hsign]
    · have hlead : f.signText false ≠ [] := fun h => hsign (signText_false_eq_nil_iff.1 h)
      simp [Spelling.minus, hsign, pad_ne_of_signed hlead]

/-- What is no number is spelled in two ways. -/
theorem pad_nan_ne : f.pad .right ⟨f.signText false, "nan".toList⟩ ≠ "NaN".toList := by
  by_cases hsign : f.signText false = []
  · intro h
    have hlength := pad_length f .right ⟨f.signText false, "nan".toList⟩
    have hfits : f.width ≤ (f.signText false).length + "nan".toList.length := by
      rw [h, hsign] at hlength
      rw [hsign]
      exact max_eq_right_iff.1 hlength.symm
    rw [pad_of_le hfits, hsign] at h
    exact absurd h (by decide)
  · exact pad_ne_of_signed hsign rfl

/-- In a type that no number with a fraction can take, a finite number has the text that it has without a
format. An infinity has it only if neither a sign nor fill characters are asked for, and what is no number never
has it. -/
theorem float_misfit (f : Format) {k : Presentation} (hkind : f.kind = some k) (hk : k ∈ unfractional)
    (x : Binary64) :
    (∀ negative m q, x.read = .finite negative m q → f.float? x = some x.text) ∧
    (∀ negative, x.read = .infinite negative →
      f.float? x = some (f.pad .right ⟨f.signText negative, "inf".toList⟩) ∧
      (f.float? x = some x.text ↔ f.width ≤ x.text.length ∧ (negative = true ∨ f.sign = .minus))) ∧
    (x.read = .nan →
      f.float? x = some (f.pad .right ⟨f.signText false, "nan".toList⟩) ∧ f.float? x ≠ some x.text) := by
  refine ⟨fun negative m q hread => ?_, fun negative hread => ?_, fun hread => ?_⟩
  · simp only [float?, hread, finite?_eq_none hkind hk]
  · have hshown : f.float? x = some (f.pad .right ⟨f.signText negative, "inf".toList⟩) := by
      simp only [float?, hread, special_of_unfractional hkind hk]
    have htext : x.text = Spelling.minus negative ++ "inf".toList := by rw [Binary64.text, hread, Spelling.text]
    refine ⟨hshown, ?_⟩
    rw [hshown, htext, Option.some_inj]
    exact pad_infinite_iff
  · have hshown : f.float? x = some (f.pad .right ⟨f.signText false, "nan".toList⟩) := by
      simp only [float?, hread, special_of_unfractional hkind hk]
    have htext : x.text = "NaN".toList := by rw [Binary64.text, hread, Spelling.text]
    refine ⟨hshown, ?_⟩
    rw [hshown, htext, ne_eq, Option.some_inj]
    exact pad_nan_ne

/-- The type `x` on a finite number, where width and sign make no difference. -/
theorem float_misfit_hex :
    let f : Format := ⟨' ', none, .plus, false, 9, none, none, some .lowerHex⟩
    Format.read "+9x" = .ok f ∧ f.kind = some .lowerHex ∧ Presentation.lowerHex ∈ unfractional ∧
      Binary64.read ⟨0xBFF8000000000000⟩ = .finite true 6755399441055744 (-52) ∧
      f.float? ⟨0xBFF8000000000000⟩ = some (Binary64.text ⟨0xBFF8000000000000⟩) ∧
      Binary64.text ⟨0xBFF8000000000000⟩ = "-1.5".toList := by
  intro f
  have hread : Binary64.read ⟨0xBFF8000000000000⟩ = .finite true 6755399441055744 (-52) := by decide
  exact ⟨by rfl, rfl, by decide, hread, (float_misfit f rfl (by decide) _).1 _ _ _ hread, by decide +kernel⟩

/-- Where whole numbers are asked for with a sign and a width, what is no number gets both, and is not
spelled as without a format; an infinity gets both. -/
theorem float_misfit_padded :
    let f : Format := ⟨' ', none, .plus, false, 6, none, none, some .decimal⟩
    Format.read "+6d" = .ok f ∧ Presentation.decimal ∈ unfractional ∧
      (f.float? ⟨0x7FF8000000000000⟩ = some "  +nan".toList ∧
        Binary64.text ⟨0x7FF8000000000000⟩ = "NaN".toList) ∧
      (f.float? ⟨0x7FF0000000000000⟩ = some "  +inf".toList ∧
        Binary64.text ⟨0x7FF0000000000000⟩ = "inf".toList) ∧
      ¬∀ x : Binary64, f.float? x = some x.text := by
  intro f
  have hnan : f.float? ⟨0x7FF8000000000000⟩ = some "  +nan".toList := by decide +kernel
  have htext : Binary64.text ⟨0x7FF8000000000000⟩ = "NaN".toList := by decide +kernel
  refine ⟨by rfl, by decide, ⟨hnan, htext⟩, ⟨by decide +kernel, by decide +kernel⟩, fun h => ?_⟩
  have hsame := h ⟨0x7FF8000000000000⟩
  rw [hnan, htext] at hsame
  exact absurd hsame (by decide)

end PackedStruct.Format
