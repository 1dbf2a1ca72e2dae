/-!
Names for numbers. A plain table names single values; a table of flags also names a sum of single
bits, provided every bit of the number has a name.
-/

namespace PackedStruct

inductive LabelMode where
  | plain
  | flags
  deriving DecidableEq, Repr

/-- A table of named values in ascending order. -/
structure LabelTable where
  mode : LabelMode
  entries : List (Int × String)
  ascending : (entries.map Prod.fst).Pairwise (· < ·)
  deriving DecidableEq, Repr

namespace LabelTable

/-- Put a name at its place; a name that stood there is replaced. -/
def insert (value : Int) (name : String) : List (Int × String) → List (Int × String)
  | [] => [(value, name)]
  | (v, n) :: es =>
    if value < v then (value, name) :: (v, n) :: es
    else if value = v then (value, name) :: es
    else (v, n) :: insert value name es

theorem mem_keys_insert {value v : Int} {name : String} {es : List (Int × String)} :
    v ∈ (insert value name es).map Prod.fst ↔ v = value ∨ v ∈ es.map Prod.fst := by
  induction es with
  | nil => simp [insert]
  | cons e es ih => grind [insert]

theorem ascending_insert (value : Int) (name : String) {es : List (Int × String)}
    (h : (es.map Prod.fst).Pairwise (· < ·)) :
    ((insert value name es).map Prod.fst).Pairwise (· < ·) := by
  induction es with
  | nil => simp [insert]
  | cons e es ih =>
    simp only [List.map_cons, List.pairwise_cons] at h
    simp only [insert]
    split
    · simp only [List.map_cons, List.pairwise_cons]
      exact ⟨fun x hx => by
        rcases List.mem_cons.1 hx with rfl | hx
        · assumption
        · have := h.1 x hx; omega, h⟩
    · split
      · next hv => simpa [hv] using h
      · simp only [List.map_cons, List.pairwise_cons]
        refine ⟨fun x hx => ?_, ih h.2⟩
        rcases mem_keys_insert.1 hx with rfl | hx
        · omega
        · exact h.1 x hx

/-- The table of a list of pairs; of two pairs with one value the later stands. -/
def ofPairs (mode : LabelMode) (pairs : List (Int × String)) : LabelTable where
  mode := mode
  entries := pairs.foldl (fun es (value, name) => insert value name es) []
  ascending := by
    suffices h : ∀ es : List (Int × String), (es.map Prod.fst).Pairwise (· < ·) →
        ((pairs.foldl (fun es (value, name) => insert value name es) es).map Prod.fst).Pairwise (· < ·) from
      h [] List.Pairwise.nil
    induction pairs with
    | nil => exact fun _ h => h
    | cons p ps ih => exact fun es h => ih _ (ascending_insert p.1 p.2 h)

def isSingleBit (n : Nat) : Bool := n != 0 && Nat.pow 2 n.log2 == n

/-- The entries that stand for one bit of `n`. -/
def bitsOf (entries : List (Int × String)) (n : Nat) : List (Nat × String) :=
  entries.filterMap fun (value, name) =>
    if 0 < value && isSingleBit value.toNat && n.testBit value.toNat.log2 then some (value.toNat, name) else none

/-- The names of the bits of `n`, if all of them have one. -/
def compose? (entries : List (Int × String)) (n : Nat) : Option String :=
  let bits := bitsOf entries n
  if n ≠ 0 ∧ (bits.map Prod.fst).foldr (· ||| ·) 0 = n then some ("|".intercalate (bits.map Prod.snd))
  else none

/-- The name of a number: the one given to it, else in a table of flags that of its bits. -/
def label? (t : LabelTable) (value : Int) : Option String :=
  match t.entries.lookup value, t.mode with
  | some name, _ => some name
  | none, .plain => none
  | none, .flags => compose? t.entries value.toNat

end LabelTable

end PackedStruct
