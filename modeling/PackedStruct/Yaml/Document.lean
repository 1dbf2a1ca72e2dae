import PackedStruct.Association
import PackedStruct.Yaml.Event
import PackedStruct.Yaml.Plain
import PackedStruct.Yaml.Token.Scan
/-!
From events to the tree of a document. Every alias is replaced by what its anchor marks, within
limits on depth and on the number of replacements; no mapping may hold a key twice.
-/

namespace PackedStruct.Yaml

/-- An event with the number of the anchor it sets or refers to. -/
abbrev Linked := Event × Option Nat

def Event.anchor? : Event → Option String
  | .scalar p .. => p.anchor
  | .sequenceStart p => p.anchor
  | .mappingStart p => p.anchor
  | _ => none

/-- Number the anchors. A name keeps a table entry with the number of its latest anchor, and a new
anchor takes the number of entries. -/
def link (known : List (String × Nat)) : List Event → Except Fault (List Linked)
  | [] => .ok []
  | .alias name :: es =>
    match known.lookup name with
    | none => .error .unknownAlias
    | some i => do return (.alias name, some i) :: (← link known es)
  | e :: es =>
    match e.anchor? with
    | none => do return (e, none) :: (← link known es)
    | some name => do return (e, some known.length) :: (← link (put name known.length known) es)

/-- The events from the last node with an anchor of this number on. -/
def target? (anchor : Nat) : List Linked → Option (List Linked)
  | [] => none
  | e :: es =>
    match target? anchor es, e with
    | some found, _ => some found
    | none, (.alias _, _) => none
    | none, (_, i) => if i = some anchor then some (e :: es) else none

/-- What is left to read, and how many aliases were replaced. -/
structure Reading where
  rest : List Linked
  jumps : Nat
  deriving Repr

abbrev Reader := StateT Reading (Except Fault)

namespace Reader

/-- Items up to the end of a sequence. -/
def items (node : Reader Tree) : (fuel : Nat) → Reader (List Tree)
  | 0 => throw .tooDeep
  | fuel+1 => do
    let s ← get
    match s.rest with
    | (.sequenceEnd, _) :: rest =>
      set { s with rest }
      return []
    | _ =>
      let t ← node
      return t :: (← items node fuel)

/-- Entries up to the end of a mapping, after those with the keys `seen`. -/
def entries (node : Reader Tree) : (fuel : Nat) → (seen : List Tree) → Reader (List (Tree × Tree))
  | 0, _ => throw .tooDeep
  | fuel+1, seen => do
    let s ← get
    match s.rest with
    | (.mappingEnd, _) :: rest =>
      set { s with rest }
      return []
    | _ =>
      let k ← node
      if seen.any k.same then throw .duplicateKey
      let v ← node
      return (k, v) :: (← entries node fuel (k :: seen))

def withTag (p : Properties) (t : Tree) : Tree :=
  match p.tag.bind localTag? with
  | some name => .tagged name t
  | none => t

/-- A node that is no alias. Its parts are read by `inner`, if the depth allows any. -/
def content (inner : Option (Reader Tree)) : Reader Tree := do
  let s ← get
  match s.rest with
  | (.scalar p plain text, _) :: rest =>
    set { s with rest }
    scalarTree p.tag plain text
  | (.sequenceStart p, _) :: rest =>
    match inner with
    | none => throw .tooDeep
    | some node =>
      set { s with rest }
      return withTag p (.sequence (← items node (rest.length + 1)))
  | (.mappingStart p, _) :: rest =>
    match inner with
    | none => throw .tooDeep
    | some node =>
      set { s with rest }
      return withTag p (.mapping (← entries node (rest.length + 1) []))
  | _ => throw .noContent

/-- A node of a document with the events `all`; for an alias, what its anchor marks. -/
def withAliases (all : List Linked) (inner : Option (Reader Tree)) : Reader Tree := do
  let s ← get
  match s.rest with
  | (.alias _, some anchor) :: rest =>
    if 100 * all.length ≤ s.jumps then throw .tooManyAliases
    match target? anchor all with
    | none => throw .unknownAlias
    | some found =>
      set (⟨found, s.jumps + 1⟩ : Reading)
      let t ← content inner
      modify fun s => { s with rest }
      return t
  | _ => content inner

/-- A node with at most `depth` collections inside one another. -/
def node (all : List Linked) : (depth : Nat) → Reader Tree
  | 0 => withAliases all none
  | depth+1 => withAliases all (some (node all depth))

end Reader

/-- Collections may be nested this deep. -/
def depthLimit : Nat := 128

/-- The tree of a document's events. -/
def Tree.ofEvents (es : List Event) : Except Fault Tree := do
  let all ← link [] es
  let (t, _) ← (Reader.node all depthLimit).run ⟨all, 0⟩
  return t

/-- The value of the one document in a text. -/
def parse (s : String) : Except Fault Tree := do
  Tree.ofEvents (← Event.ofTokens (← Token.scan s))

end PackedStruct.Yaml
