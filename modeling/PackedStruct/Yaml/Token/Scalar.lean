import PackedStruct.Text.Numeral
import PackedStruct.Yaml.Token
/-!
Scalars: plain, quoted, and block scalars. Line breaks inside the first two and inside a folded block
scalar are folded: a single one is a blank, and of several the first is dropped.
-/

namespace PackedStruct.Yaml

/-- Blanks and line breaks between two parts of a scalar. -/
structure Space where
  spaces : List Char
  first : List Char
  others : List Char
  broken : Bool
  deriving Repr

namespace Space

def none : Space := ⟨[], [], [], false⟩

/-- What stands for the space in the text. -/
def fold (g : Space) : List Char :=
  if !g.broken then g.spaces
  else if g.first = ['\n'] then (if g.others.isEmpty then [' '] else g.others)
  else g.first ++ g.others

/-- Read on over blanks and breaks. In a new line a tab may not stand left of `indent`. -/
def read (indent : Option Nat) : (fuel : Nat) → Space → Cursor → Except Fault (Space × Cursor)
  | 0, g, c => .ok (g, c)
  | fuel+1, g, c =>
    match c.rest with
    | [] => .ok (g, c)
    | x :: _ =>
      if isGap x then
        if !g.broken then read indent fuel { g with spaces := g.spaces ++ [x] } c.next
        else if x = '\t' && indent.any (c.column < ·) then .error .badTab
        else read indent fuel g c.next
      else if isBreak x then
        if g.broken then read indent fuel { g with others := g.others ++ [x] } c.next
        else read indent fuel ⟨[], [x], [], true⟩ c.next
      else .ok (g, c)

end Space

/-- The length of a run of plain characters. In flow collections their punctuation ends it. -/
def plainRun (flow : Bool) : List Char → Except Fault Nat
  | [] => .ok 0
  | x :: s =>
    if isGap x || isBreak x then .ok 0
    else if flow && x = ':' && (s.head?.any fun y => y ∈ [',', '?', '[', ']', '{', '}']) then .error .noToken
    else if (x = ':' && endsWord s) || (flow && x ∈ [',', '[', ']', '{', '}']) then .ok 0
    else (· + 1) <$> plainRun flow s

/-- A plain scalar: its text, the place after it, and whether that is in a later line. -/
def plain (flow : Bool) (indent : Nat) : (fuel : Nat) → List Char → Space → Cursor →
    Except Fault (String × Cursor × Bool)
  | 0, text, g, c => .ok (String.ofList text, c, g.broken)
  | fuel+1, text, g, c => do
    if c.atMarker || c.rest.head? = some '#' then return (String.ofList text, c, g.broken)
    let n ← plainRun flow c.rest
    let text := if n = 0 then text else text ++ g.fold ++ c.rest.take n
    let g := if n = 0 then g else .none
    let c := c.skip n
    if !endsWord c.rest || c.rest.isEmpty then return (String.ofList text, c, g.broken)
    let (g, c) ← g.read (some indent) c.rest.length c
    if !flow && c.column < indent then return (String.ofList text, c, g.broken)
    plain flow indent fuel text g c

/-- The character of a one-letter escape. -/
def escaped? : Char → Option Char
  | '0' => some '\x00'
  | 'a' => some '\x07'
  | 'b' => some '\x08'
  | 't' | '\t' => some '\t'
  | 'n' => some '\n'
  | 'v' => some '\x0b'
  | 'f' => some '\x0c'
  | 'r' => some '\r'
  | 'e' => some '\x1b'
  | ' ' => some ' '
  | '"' => some '"'
  | '/' => some '/'
  | '\\' => some '\\'
  | 'N' => some '\x85'
  | '_' => some '\xa0'
  | 'L' => some '\u2028'
  | 'P' => some '\u2029'
  | _ => none

/-- The number of hexadecimal digits that follow an escape letter. -/
def escapeWidth? : Char → Option Nat
  | 'x' => some 2
  | 'u' => some 4
  | 'U' => some 8
  | _ => none

/-- The character with a code point of `width` hexadecimal digits. -/
def codePoint? (width : Nat) (s : List Char) : Option Char := do
  if s.length < width then failure
  let n ← Text.natural? 16 (s.take width)
  if h : n.isValidChar then some (Char.ofNatAux n h) else none

/-- A run of quoted characters up to a blank, a break or the closing mark: its text, its length, and
whether it ends in an escaped line break. -/
def quotedRun (single : Bool) : (fuel : Nat) → List Char → Except Fault (List Char × Nat × Bool)
  | 0, _ | _, [] => .ok ([], 0, false)
  | fuel+1, x :: s =>
    let add (c : Char) (n : Nat) (s : List Char) : Except Fault (List Char × Nat × Bool) := do
      let (text, m, escaped) ← quotedRun single fuel s
      return (c :: text, n+m, escaped)
    if isGap x || isBreak x then .ok ([], 0, false)
    else if single then
      if x != '\'' then add x 1 s
      else match s with
        | '\'' :: t => add '\'' 2 t
        | _ => .ok ([], 0, false)
    else if x = '"' then .ok ([], 0, false)
    else if x != '\\' then add x 1 s
    else match s with
      | [] => .error .badEscape
      | y :: t =>
        if isBreak y then .ok ([], 2, true)
        else match escaped? y, escapeWidth? y with
          | some c, _ => add c 2 t
          | none, some n =>
            match codePoint? n t with
            | some c => add c (2+n) (t.drop n)
            | none => .error .badEscape
          | none, none => .error .badEscape

/-- Quoted text, from after the opening mark to after the closing one. -/
def quotedText (single : Bool) : (fuel : Nat) → List Char → Cursor → Except Fault (String × Cursor)
  | 0, _, _ => .error .unfinishedText
  | fuel+1, text, c => do
    if c.atMarker || c.rest.isEmpty then throw .unfinishedText
    let (run, n, escaped) ← quotedRun single c.rest.length c.rest
    let c := c.skip n
    let text := text ++ run
    if c.rest.head? = some (if single then '\'' else '"') then return (String.ofList text, c.next)
    let (g, c) ← Space.read .none c.rest.length { Space.none with broken := escaped } c
    quotedText single fuel (text ++ g.fold) c

/-- What happens to the line breaks at the end of a block scalar. -/
inductive Chomp where
  | strip
  | clip
  | keep
  deriving DecidableEq, Repr

def chomp? : Char → Option Chomp
  | '-' => some .strip
  | '+' => some .keep
  | _ => none

/-- A nonzero digit that gives the indentation. -/
def indentDigit (c : Char) : Except Fault Nat :=
  if c = '0' then .error .badHeader else .ok (c.toNat - '0'.toNat)

/-- The header of a block scalar: both indicators are optional and come in either order. -/
def blockHeader (s : List Char) : Except Fault (Chomp × Nat × Nat) := do
  match s with
  | [] => return (.clip, 0, 0)
  | x :: s =>
    match chomp? x with
    | some chomp =>
      match s with
      | y :: _ => if Text.isDigit y then return (chomp, ← indentDigit y, 2) else return (chomp, 0, 1)
      | [] => return (chomp, 0, 1)
    | none =>
      if !Text.isDigit x then return (.clip, 0, 0)
      let n ← indentDigit x
      match s.head?.bind chomp? with
      | some chomp => return (chomp, n, 2)
      | none => return (.clip, n, 1)

/-- Skip indentation and collect the breaks of empty lines. While the indentation is not known it is
given as zero, and `widest` is the widest met. -/
def blockBreaks (indent : Nat) : (fuel : Nat) → (widest : Nat) → List Char → Cursor →
    Except Fault (Nat × List Char × Cursor)
  | 0, widest, breaks, c => .ok (widest, breaks, c)
  | fuel+1, widest, breaks, c =>
    let isOpen := indent == 0 || c.column < indent
    match c.rest with
    | ' ' :: _ =>
      if isOpen then blockBreaks indent fuel widest breaks c.next
      else .ok (max widest c.column, breaks, c)
    | '\t' :: _ => if isOpen then .error .badTab else .ok (max widest c.column, breaks, c)
    | x :: _ =>
      if isBreak x then blockBreaks indent fuel (max widest c.column) (breaks ++ [x]) c.next
      else .ok (max widest c.column, breaks, c)
    | [] => .ok (max widest c.column, breaks, c)

/-- The lines of a block scalar that are indented by `indent`. Returns the text, the break after the
last line, the breaks of the empty lines behind it, and the place after those. -/
def blockLines (literal : Bool) (indent : Nat) : (fuel : Nat) → (text first others : List Char) →
    (wasBlank : Bool) → Cursor → Except Fault (List Char × List Char × List Char × Cursor)
  | 0, text, first, others, _, c => .ok (text, first, others, c)
  | fuel+1, text, first, others, wasBlank, c => do
    match c.rest with
    | [] => return (text, first, others, c)
    | x :: _ =>
      if c.column != indent then return (text, first, others, c)
      let joined :=
        if !literal && first = ['\n'] && !wasBlank && !isGap x then (if others.isEmpty then [' '] else [])
        else first
      let line := c.rest.takeWhile (!isBreak ·)
      let c := c.skip line.length
      let first := c.rest.take 1
      let c := c.next
      let (_, breaks, c) ← blockBreaks indent (c.rest.length + 1) 0 [] c
      blockLines literal indent fuel (text ++ joined ++ others ++ line) first breaks (isGap x) c

/-- A block scalar, from after its indicator; `parent` is the indentation around it. -/
def blockScalar (literal : Bool) (parent : Int) (c : Cursor) : Except Fault (String × Cursor) := do
  let (chomp, digit, n) ← blockHeader c.rest
  let c ← (c.skip n).finishLine .badHeader
  let given := if digit = 0 then 0 else (max parent 0).toNat + digit
  let (widest, breaks, c) ← blockBreaks given (c.rest.length + 1) 0 [] c
  let indent := if given = 0 then max widest (max (parent+1) 1).toNat else given
  let (text, first, others, c) ← blockLines literal indent (c.rest.length + 1) [] [] breaks false c
  let tail := match chomp with
    | .strip => []
    | .clip => first
    | .keep => first ++ others
  return (String.ofList (text ++ tail), c)

end PackedStruct.Yaml
