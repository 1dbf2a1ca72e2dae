import PackedStruct.Data
import PackedStruct.Format.Number
import PackedStruct.Node.Declaration
import PackedStruct.Text.Quoted
/-!
Decoded data as indented text. Every scalar gets its text first, and then the texts are set out in lines: a
scalar on a line of its own, arrays in brackets, structs in braces.
-/

namespace PackedStruct

/-- The text of a scalar in a format, unless the format asks for too many digits. Integers without one are shown
in hexadecimal. -/
def Scalar.display? (format : Option Format) : Scalar → Option (List Char)
  | .null => some "null".toList
  | .bool b =>
    let word := (if b then "true" else "false").toList
    match format with
    | some f => if f.isNumeric then f.integer? (if b then 1 else 0) else some (f.text word)
    | none => some word
  | .signed v => (format.getD .hex).integer? v
  | .unsigned v => (format.getD .hex).integer? v
  | .pointer v => (format.getD .hex).integer? v
  | .single x =>
    match format with
    | some f => f.float? x.widen
    | none => some x.text
  | .double x =>
    match format with
    | some f => f.float? x
    | none => some x.text
  | .char b =>
    let c := Char.ofNat b.toNat
    match format with
    | some f => if f.isNumeric then f.integer? b.toNat else some (f.text [c])
    | none => some (Text.quote .single [c])
  | .text s =>
    match format with
    | some f => some (f.text s.toList)
    | none => some s.toList

/-- What is shown of a value: its shape, the names of fields and the texts of scalars. -/
inductive Outline where
  | text (s : String)
  | items (os : List Outline)
  | fields (fs : List (String × Outline))
  deriving Repr

namespace Outline

mutual

/-- The lines of a value, `depth` levels in, after `name`. -/
def lines (i : Indent) (depth : Nat) (name : String) : Outline → List String
  | .text s => [String.ofList (i.lead depth) ++ name ++ s ++ ","]
  | .items os =>
    (String.ofList (i.lead depth) ++ name ++ "[") :: itemLines i (depth+1) os ++
      [String.ofList (i.lead depth) ++ "]"]
  | .fields fs =>
    (String.ofList (i.lead depth) ++ name ++ "\x7b") :: fieldLines i (depth+1) fs ++
      [String.ofList (i.lead depth) ++ "\x7d"]

def itemLines (i : Indent) (depth : Nat) : List Outline → List String
  | [] => []
  | o :: os => o.lines i depth "" ++ itemLines i depth os

def fieldLines (i : Indent) (depth : Nat) : List (String × Outline) → List String
  | [] => []
  | (name, o) :: fs => o.lines i depth (name ++ ": ") ++ fieldLines i depth fs

end

end Outline

namespace Data

/-- What is shown for a scalar: its label, else its value. -/
def scalarText? (d : Data) : Option String :=
  match d.label?, d with
  | some label, _ => some label
  | none, .scalar h v => (v.display? h.format).map String.ofList
  | none, _ => some ""

mutual

/-- The texts of all scalars, if each of them has one. -/
def outline? : Data → Option Outline
  | .scalar h v => (scalar h v).scalarText?.map .text
  | .array _ items => (itemOutlines? items).map .items
  | .struct _ _ fs => (fieldOutlines? fs).map .fields

def itemOutlines? : List Data → Option (List Outline)
  | [] => some []
  | d :: ds => do return (← d.outline?) :: (← itemOutlines? ds)

def fieldOutlines? : List (String × Data) → Option (List (String × Outline))
  | [] => some []
  | (name, d) :: fs => do return (name, ← d.outline?) :: (← fieldOutlines? fs)

end

/-- The value as indented text. -/
def display? (i : Indent) (d : Data) : Option String :=
  d.outline?.map fun o => "\n".intercalate (o.lines i 0 "")

end Data

end PackedStruct
