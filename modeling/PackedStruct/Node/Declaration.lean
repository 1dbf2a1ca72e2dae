import PackedStruct.Node
import PackedStruct.Text.Blank
/-!
C-like declarations of compiled types: a line for each field, and the fields of a struct in braces
below its line.
-/

namespace PackedStruct

/-- How a tree is written as text. -/
structure Indent where
  step : Nat
  deriving DecidableEq, Repr

def Indent.lead (i : Indent) (depth : Nat) : List Char := List.replicate (depth * i.step) ' '

namespace Node

/-- The spelling of the type at the head of a line. -/
def spelling (short : Bool) (typeName : String) : Leaf → String
  | .pointer _ => typeName
  | .primitive p => if short then p.shortName else p.name

def stars : Leaf → List Char
  | .pointer depth => List.replicate depth '*'
  | .primitive _ => []

/-- Dimensions in brackets. -/
def brackets (dims : List Nat) : List Char :=
  dims.flatMap fun n => '[' :: Nat.toDigits 10 n ++ [']']

/-- Type, name and dimensions; blanks at the end are left out. -/
def headLine (lead : List Char) (type : String) (stars : List Char) (name : String) (dims : List Nat) :
    List Char :=
  Text.trimEnd (lead ++ type.toList ++ ' ' :: stars ++ name.toList ++ brackets dims)

mutual

/-- The lines of a declaration, `depth` levels in. -/
def declLines (i : Indent) (short : Bool) (depth : Nat) (name : String) : Node → List (List Char)
  | .leaf t l ds _ => [headLine (i.lead depth) (spelling short t l) (stars l) name ds]
  | .struct t fs ds _ =>
    (headLine (i.lead depth) t [] name ds ++ " \x7b".toList) ::
      fieldLines i short (depth+1) fs ++ [i.lead depth ++ ['\x7d']]

def fieldLines (i : Indent) (short : Bool) (depth : Nat) : List (String × Node) → List (List Char)
  | [] => []
  | (name, n) :: fs => n.declLines i short depth name ++ fieldLines i short depth fs

end

/-- The declaration of a type without a name. -/
def declaration (i : Indent) (short : Bool) (n : Node) : String :=
  "\n".intercalate ((n.declLines i short 0 "").map String.ofList)

end Node

end PackedStruct
