import PackedStruct.Text.Numeral
import PackedStruct.Text.Utf8
import PackedStruct.Yaml.Token
/-!
Directives, anchors, aliases and tags.
-/

namespace PackedStruct.Yaml

/-- The name after `&` or `*`, which something that is no part of a name must follow. -/
def anchorName (c : Cursor) : Except Fault (String × Cursor) :=
  let name := c.rest.takeWhile isWordChar
  let c := c.skip name.length
  let ends := endsWord c.rest || c.rest.head?.any fun x => x ∈ ['?', ':', ',', ']', '}', '%', '@', '`']
  if name.isEmpty || !ends then .error .badAnchor else .ok (String.ofList name, c)

/-- `!`, letters, and possibly another `!`. -/
def tagHandle (c : Cursor) : Except Fault (List Char × Cursor) :=
  match c.rest with
  | '!' :: s =>
    let name := s.takeWhile isWordChar
    let c := c.skip (name.length + 1)
    match c.rest with
    | '!' :: _ => .ok ('!' :: name ++ ['!'], c.next)
    | _ => .ok ('!' :: name, c)
  | _ => .error .badTag

/-- The characters of a tag besides letters and digits; commas and brackets only between `<` and `>`. -/
def isTagChar (verbatim : Bool) (c : Char) : Bool :=
  isWordChar c || c ∈ [';', '/', '?', ':', '@', '&', '=', '+', '$', '.', '!', '~', '*', '\'', '(', ')'] ||
    (verbatim && c ∈ [',', '[', ']'])

/-- A byte written as `%` and two digits. -/
def percentByte? : List Char → Option (UInt8 × List Char)
  | '%' :: a :: b :: s => (Text.natural? 16 [a, b]).map fun n => (UInt8.ofNat n, s)
  | _ => none

/-- How many bytes follow the first byte of an encoded character. -/
def bytesAfter? (b : UInt8) : Option Nat :=
  if b < 0x80 then some 0
  else if 0xC0 ≤ b && b < 0xE0 then some 1
  else if 0xE0 ≤ b && b < 0xF0 then some 2
  else if 0xF0 ≤ b && b < 0xF8 then some 3
  else none

def percentBytes? : Nat → List Char → Option (List UInt8 × List Char)
  | 0, s => some ([], s)
  | n+1, s => do
    let (b, s) ← percentByte? s
    if !Text.isContinuation b then failure
    let (bs, s) ← percentBytes? n s
    return (b :: bs, s)

/-- The longest run of tag characters and percent escapes. -/
def tagText (verbatim : Bool) : (fuel : Nat) → Cursor → Except Fault (List Char × Cursor)
  | 0, c => .ok ([], c)
  | fuel+1, c =>
    match c.rest with
    | [] => .ok ([], c)
    | x :: _ =>
      if x = '%' then
        let parsed := do
          let (b, s) ← percentByte? c.rest
          let (bs, s) ← percentBytes? (← bytesAfter? b) s
          return (b :: bs, s)
        match parsed with
        | none => .error .badTag
        | some (bytes, s) => do
          let (text, c) ← tagText verbatim fuel (c.skip (c.rest.length - s.length))
          return (Text.decodeUtf8 bytes ++ text, c)
      else if isTagChar verbatim x then do
        let (text, c) ← tagText verbatim fuel c.next
        return (x :: text, c)
      else .ok ([], c)

/-- A run of tag characters that is not empty. -/
def tagText1 (verbatim : Bool) (c : Cursor) : Except Fault (List Char × Cursor) := do
  let (text, c) ← tagText verbatim c.rest.length c
  if text.isEmpty then throw .badTag
  return (text, c)

/-- A tag: `!<…>`, `!handle!suffix`, `!suffix` or a lone `!`. -/
def tag (flow : Bool) (c : Cursor) : Except Fault (Token × Cursor) := do
  let (handle, suffix, c) ← match c.rest with
    | '!' :: '<' :: _ => do
      let (suffix, c) ← tagText1 true (c.skip 2)
      if c.rest.head? != some '>' then throw .badTag
      pure ([], suffix, c.next)
    | _ => do
      let (handle, d) ← tagHandle c
      if handle.length > 1 && handle.getLast? = some '!' then
        let (suffix, d) ← tagText1 false d
        pure (handle, suffix, d)
      else
        let (more, d) ← tagText false d.rest.length d
        match handle.drop 1 ++ more with
        | [] => pure ([], ['!'], d)
        | suffix => pure (['!'], suffix, d)
  if !endsWord c.rest && !(flow && c.rest.head? = some ',') then throw .badTag
  return (.tag (String.ofList handle) (String.ofList suffix), c)

/-- At most nine digits of a version. -/
def versionNumber (c : Cursor) : Except Fault (Nat × Cursor) :=
  let ds := c.rest.takeWhile Text.isDigit
  match Text.natural? 10 ds with
  | none => .error .badDirective
  | some n => if ds.length ≤ 9 then .ok (n, c.skip ds.length) else .error .badDirective

/-- A directive up to the end of its line, from after its `%`. -/
def directive (c : Cursor) : Except Fault (Token × Cursor) := do
  let name := c.rest.takeWhile isWordChar
  let c := c.skip name.length
  if name.isEmpty || !endsWord c.rest then throw .badDirective
  let c := c.skipWhile isGap
  let (token, c) ←
    if name = "YAML".toList then do
      let (major, c) ← versionNumber c
      if c.rest.head? != some '.' then throw .badDirective
      let (minor, c) ← versionNumber c.next
      pure (Token.version major minor, c)
    else if name = "TAG".toList then do
      let (handle, c) ← tagHandle c
      if handle != ['!'] && handle.getLast? != some '!' then throw .badDirective
      if !(c.rest.head?.any isGap) then throw .badDirective
      let (lead, c) ← tagText1 true (c.skipWhile isGap)
      if !endsWord c.rest then throw .badDirective
      pure (.tagDirective (String.ofList handle) (String.ofList lead), c)
    else throw .badDirective
  return (token, ← c.finishLine .badDirective)

end PackedStruct.Yaml
