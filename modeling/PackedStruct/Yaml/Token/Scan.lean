import PackedStruct.Yaml.Token.Property
import PackedStruct.Yaml.Token.Scalar
/-!
From text to tokens. Two things need memory: the indentation of the open block collections, and the
places where a key may have begun that is only seen to be one when its colon comes.
-/

namespace PackedStruct.Yaml

/-- A place where a key may have begun: the number of its token, and where it stands. A key that is
required stands where the next entry of an open mapping must begin. -/
structure KeyPlace where
  token : Nat
  required : Bool
  line : Nat
  index : Nat
  column : Nat
  deriving Repr

/-- A text on the way to its tokens. `tokens` has the latest first. `keys` has one entry for the block
context and one for each open flow collection, the innermost first. -/
structure Scanner where
  cursor : Cursor
  tokens : List Token
  indent : Int
  indents : List Int
  keyAllowed : Bool
  keys : List (Option KeyPlace)
  deriving Repr

namespace Scanner

def start (s : List Char) : Scanner := ⟨.start s, [], -1, [], true, [none]⟩

def inFlow (s : Scanner) : Bool := s.keys.length > 1

def emit (t : Token) (s : Scanner) : Scanner := { s with tokens := t :: s.tokens }

/-- Put a token in front of the token with number `n`. -/
def emitAt (n : Nat) (t : Token) (s : Scanner) : Scanner :=
  { s with tokens := s.tokens.insertIdx (s.tokens.length - n) t }

def skip (n : Nat) (s : Scanner) : Scanner := { s with cursor := s.cursor.skip n }

def allowKey (b : Bool) (s : Scanner) : Scanner := { s with keyAllowed := b }

/-- Forget a key place; one that is required must have had its colon. -/
def giveUp (k : Option KeyPlace) : Except Fault (Option KeyPlace) :=
  match k with
  | some k => if k.required then .error .noColon else .ok none
  | none => .ok none

/-- Forget the key place of the innermost collection. -/
def dropKey (s : Scanner) : Except Fault Scanner :=
  match s.keys with
  | k :: ks => do return { s with keys := (← giveUp k) :: ks }
  | [] => .ok s

/-- Remember that a key may begin here. -/
def saveKey (s : Scanner) : Except Fault Scanner := do
  if !s.keyAllowed then return s
  let s ← s.dropKey
  let c := s.cursor
  let k : KeyPlace := ⟨s.tokens.length, !s.inFlow && s.indent == c.column, c.line, c.index, c.column⟩
  return { s with keys := some k :: s.keys.drop 1 }

/-- A key stands in one line and has at most 1024 characters. -/
def dropStaleKeys (s : Scanner) : Except Fault Scanner := do
  let keys ← s.keys.mapM fun k =>
    match k with
    | some p => if p.line < s.cursor.line || p.index + 1024 < s.cursor.index then giveUp k else .ok k
    | none => .ok none
  return { s with keys }

/-- Open a block collection at `column`, unless one is open there. -/
def openBlock (column : Nat) (place : Scanner → Scanner) (s : Scanner) : Scanner :=
  if s.inFlow || (column : Int) ≤ s.indent then s
  else place { s with indent := column, indents := s.indent :: s.indents }

/-- Close block collections that are indented by more than `column`. -/
def closeBlocks (column : Int) (s : Scanner) : Scanner :=
  if s.inFlow then s
  else go s.indents s
where
  go : List Int → Scanner → Scanner
    | [], s => s
    | i :: is, s =>
      if s.indent ≤ column then s
      else go is ({ s with indent := i, indents := is }.emit .blockEnd)

/-- Past blanks, comments and line breaks. In block context tabs may not stand where a key may begin,
and after a line break a key may begin. -/
def toToken : (fuel : Nat) → Scanner → Scanner
  | 0, s => s
  | fuel+1, s =>
    let c := s.cursor
    let c := if c.column == 0 && c.rest.head? = some '\ufeff' then c.next else c
    let c := c.skipWhile fun x => x == ' ' || (x == '\t' && (s.inFlow || !s.keyAllowed))
    let c := c.skipComment
    match c.rest with
    | x :: _ =>
      if isBreak x then toToken fuel { s with cursor := c.next, keyAllowed := s.keyAllowed || !s.inFlow }
      else { s with cursor := c }
    | [] => { s with cursor := c }

/-- A token of block context, at which a block collection may begin. -/
def blockIndicator (t start : Token) (s : Scanner) : Except Fault Scanner := do
  let s ←
    if s.inFlow then pure s
    else if !s.keyAllowed then throw Fault.notAllowedHere
    else pure (s.openBlock s.cursor.column (emit start))
  return (s.skip 1).emit t

/-- The colon: it makes a key of what began at the remembered place. -/
def valueIndicator (s : Scanner) : Except Fault Scanner := do
  match s.keys with
  | some k :: ks =>
    let s := (s.emitAt k.token .key).openBlock k.column (emitAt k.token .blockMappingStart)
    return (({ s with keys := none :: ks }.allowKey false).skip 1).emit .value
  | _ =>
    let block := !s.inFlow
    return (← s.blockIndicator .value .blockMappingStart).allowKey block

/-- One-character tokens of flow collections. -/
def flowIndicator (t : Token) (s : Scanner) : Scanner := ((s.allowKey true).skip 1).emit t

def openFlow (t : Token) (s : Scanner) : Except Fault Scanner := do
  let s ← s.saveKey
  return { s with keys := none :: s.keys }.flowIndicator t

def closeFlow (t : Token) (s : Scanner) : Except Fault Scanner := do
  let s ← s.dropKey
  let keys := if s.inFlow then s.keys.drop 1 else s.keys
  return ({ s with keys }.flowIndicator t).allowKey false

/-- A document marker closes all blocks. -/
def documentMarker (t : Token) (s : Scanner) : Except Fault Scanner := do
  let s ← (s.closeBlocks (-1)).dropKey
  return ((s.allowKey false).skip 3).emit t

/-- A token that a key may begin with, read by `f` after `n` characters. -/
def keyToken (n : Nat) (f : Cursor → Except Fault (Token × Cursor)) (s : Scanner) : Except Fault Scanner := do
  let s ← s.saveKey
  let (t, c) ← f (s.cursor.skip n)
  return ({ s with cursor := c }.allowKey false).emit t

def plainToken (s : Scanner) : Except Fault Scanner := do
  let s ← s.saveKey
  let (text, c, broken) ←
    plain s.inFlow (s.indent + 1).toNat (s.cursor.rest.length + 1) [] .none s.cursor
  return ({ s with cursor := c }.allowKey broken).emit (.scalar true text)

def blockToken (literal : Bool) (s : Scanner) : Except Fault Scanner := do
  let s ← (s.dropKey)
  let (text, c) ← blockScalar literal s.indent (s.cursor.skip 1)
  return ({ s with cursor := c }.allowKey true).emit (.scalar false text)

def quotedToken (single : Bool) (s : Scanner) : Except Fault Scanner :=
  s.keyToken 1 fun c => do
    let (text, c) ← quotedText single (c.rest.length + 1) [] c
    return (.scalar false text, c)

def directiveToken (s : Scanner) : Except Fault Scanner := do
  let s ← (s.closeBlocks (-1)).dropKey
  let (t, c) ← directive (s.cursor.skip 1)
  return ({ s with cursor := c }.allowKey false).emit t

/-- Whether a plain scalar may begin with these characters. -/
def startsPlain (flow : Bool) (x : Char) (s : List Char) : Bool :=
  !(isGap x || isBreak x || x ∈ ['-', '?', ':', ',', '[', ']', '{', '}', '#', '&', '*', '!', '|', '>', '\'', '"',
      '%', '@', '`']) ||
    (x == '-' && !(s.head?.any isGap)) ||
    (!flow && (x == '?' || x == ':') && !endsWord s)

/-- Read the next token, which begins with `x` and goes on with `rest`. -/
def token (x : Char) (rest : List Char) (s : Scanner) : Except Fault Scanner := do
  if s.cursor.column == 0 && x == '%' then return ← s.directiveToken
  if s.cursor.atMarker then return ← s.documentMarker (if x == '-' then .documentStart else .documentEnd)
  match x with
  | '[' => s.openFlow .flowSequenceStart
  | '{' => s.openFlow .flowMappingStart
  | ']' => s.closeFlow .flowSequenceEnd
  | '}' => s.closeFlow .flowMappingEnd
  | ',' => return (← s.dropKey).flowIndicator .flowEntry
  | '*' => s.keyToken 1 fun c => do let (name, c) ← anchorName c; return (.alias name, c)
  | '&' => s.keyToken 1 fun c => do let (name, c) ← anchorName c; return (.anchor name, c)
  | '!' => s.keyToken 0 (tag s.inFlow)
  | '\'' => s.quotedToken true
  | '"' => s.quotedToken false
  | _ =>
    if x == '-' && endsWord rest then
      let s ← s.blockIndicator .blockEntry .blockSequenceStart
      return (← s.dropKey).allowKey true
    else if x == '?' && (s.inFlow || endsWord rest) then
      let block := !s.inFlow
      let s ← s.blockIndicator .key .blockMappingStart
      return (← s.dropKey).allowKey block
    else if x == ':' && (s.inFlow || endsWord rest) then s.valueIndicator
    else if x == '|' && !s.inFlow then s.blockToken true
    else if x == '>' && !s.inFlow then s.blockToken false
    else if startsPlain s.inFlow x rest then s.plainToken
    else throw .noToken

/-- The end of the text closes all blocks. -/
def finish (s : Scanner) : Except Fault (List Token) := do
  let s ← (s.closeBlocks (-1)).dropKey
  return s.tokens.reverse

/-- All tokens; each takes at least one character. -/
def run : (fuel : Nat) → Scanner → Except Fault (List Token)
  | 0, s => s.finish
  | fuel+1, s => do
    let s ← (s.toToken (s.cursor.rest.length + 1)).dropStaleKeys
    let s := s.closeBlocks s.cursor.column
    match s.cursor.rest with
    | [] => s.finish
    | x :: rest => run fuel (← s.token x rest)

end Scanner

/-- The tokens of a text. -/
def Token.scan (s : String) : Except Fault (List Token) :=
  if s.toList.all isAllowed then
    let text := unifyBreaks s.toList
    (Scanner.start text).run (text.length + 1)
  else .error .badCharacter

end PackedStruct.Yaml
