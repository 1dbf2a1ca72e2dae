import PackedStruct.Yaml.Token
/-!
The nodes of a document in the order of the text: scalars, aliases, and the starts and ends of
collections. What is left out in the text appears as an empty scalar.
-/

namespace PackedStruct.Yaml

/-- What may stand in front of a node. -/
structure Properties where
  anchor : Option String
  tag : Option String
  deriving DecidableEq, Repr

def Properties.none : Properties := ⟨.none, .none⟩

inductive Event where
  | alias (name : String)
  | scalar (properties : Properties) (plain : Bool) (text : String)
  | sequenceStart (properties : Properties)
  | sequenceEnd
  | mappingStart (properties : Properties)
  | mappingEnd
  deriving DecidableEq, Repr

namespace Event

def empty (p : Properties) : Event := .scalar p true ""

/-- The tag handles that need no directive. -/
def defaultHandles : List (String × String) := [("!", "!"), ("!!", "tag:yaml.org,2002:")]

/-- The full tag of a handle and a suffix. -/
def resolveTag (handles : List (String × String)) (handle suffix : String) : Except Fault String :=
  if handle = "" then .ok suffix
  else match handles.lookup handle with
    | some lead => .ok (lead ++ suffix)
    | none => .error .badTag

/-- An anchor and a tag, in either order. -/
def properties (handles : List (String × String)) (ts : List Token) : Except Fault (Properties × List Token) :=
  match ts with
  | .anchor a :: .tag h s :: ts => do return (⟨some a, some (← resolveTag handles h s)⟩, ts)
  | .anchor a :: ts => .ok (⟨some a, none⟩, ts)
  | .tag h s :: .anchor a :: ts => do return (⟨some a, some (← resolveTag handles h s)⟩, ts)
  | .tag h s :: ts => do return (⟨none, some (← resolveTag handles h s)⟩, ts)
  | ts => .ok (.none, ts)

/-- The tag `!` on a scalar says nothing. -/
def scalarProperties (p : Properties) : Properties := if p.tag = some "!" then ⟨p.anchor, none⟩ else p

/-- Events read so far, the latest first, and the tokens that are left. -/
abbrev Read := Except Fault (List Event × List Token)

/-- Whether a value or an item is left out before this token. -/
def endsItem (ends : List Token) (ts : List Token) : Bool :=
  match ts with
  | [] => false
  | t :: _ => t ∈ ends

mutual

/-- A node. `block` allows block collections, `indentless` a sequence that is not indented. -/
def node (handles : List (String × String)) (block indentless : Bool) :
    (fuel : Nat) → List Event → List Token → Read
  | 0, _, _ => .error .noContent
  | _+1, es, .alias name :: ts => .ok (.alias name :: es, ts)
  | fuel+1, es, ts => do
    let (p, ts) ← properties handles ts
    match ts with
    | .blockEntry :: _ =>
      if indentless then indentlessSequence handles fuel (.sequenceStart p :: es) ts
      else if p = .none then throw .noContent
      else return (empty p :: es, ts)
    | .scalar plain text :: ts => return (.scalar (scalarProperties p) plain text :: es, ts)
    | .flowSequenceStart :: ts => flowSequence handles fuel true (.sequenceStart p :: es) ts
    | .flowMappingStart :: ts => flowMapping handles fuel true (.mappingStart p :: es) ts
    | .blockSequenceStart :: rest =>
      if block then blockSequence handles fuel (.sequenceStart p :: es) rest
      else if p = .none then throw .noContent
      else return (empty p :: es, ts)
    | .blockMappingStart :: rest =>
      if block then blockMapping handles fuel (.mappingStart p :: es) rest
      else if p = .none then throw .noContent
      else return (empty p :: es, ts)
    | ts => if p = .none then throw .noContent else return (empty p :: es, ts)

/-- A node, or an empty scalar before one of the tokens `ends`. -/
def nodeOrEmpty (handles : List (String × String)) (block indentless : Bool) (ends : List Token) :
    (fuel : Nat) → List Event → List Token → Read
  | 0, _, _ => .error .noContent
  | fuel+1, es, ts =>
    if endsItem ends ts then .ok (empty .none :: es, ts)
    else node handles block indentless fuel es ts

def blockSequence (handles : List (String × String)) : (fuel : Nat) → List Event → List Token → Read
  | 0, _, _ => .error .noSeparator
  | fuel+1, es, ts =>
    match ts with
    | .blockEntry :: ts => do
      let (es, ts) ← nodeOrEmpty handles true false [.blockEntry, .blockEnd] fuel es ts
      blockSequence handles fuel es ts
    | .blockEnd :: ts => .ok (.sequenceEnd :: es, ts)
    | _ => .error .noSeparator

def indentlessSequence (handles : List (String × String)) : (fuel : Nat) → List Event → List Token → Read
  | 0, _, _ => .error .noSeparator
  | fuel+1, es, ts =>
    match ts with
    | .blockEntry :: ts => do
      let (es, ts) ← nodeOrEmpty handles true false [.blockEntry, .key, .value, .blockEnd] fuel es ts
      indentlessSequence handles fuel es ts
    | ts => .ok (.sequenceEnd :: es, ts)

def blockMapping (handles : List (String × String)) : (fuel : Nat) → List Event → List Token → Read
  | 0, _, _ => .error .noSeparator
  | fuel+1, es, ts =>
    match ts with
    | .key :: ts => do
      let (es, ts) ← nodeOrEmpty handles true true [.key, .value, .blockEnd] fuel es ts
      match ts with
      | .value :: ts =>
        let (es, ts) ← nodeOrEmpty handles true true [.key, .value, .blockEnd] fuel es ts
        blockMapping handles fuel es ts
      | ts => blockMapping handles fuel (empty .none :: es) ts
    | .blockEnd :: ts => .ok (.mappingEnd :: es, ts)
    | _ => .error .noSeparator

/-- The value of a pair in a flow collection, which may be left out with or without its colon. -/
def flowValue (handles : List (String × String)) (ends : List Token) :
    (fuel : Nat) → List Event → List Token → Read
  | 0, _, _ => .error .noContent
  | fuel+1, es, ts =>
    match ts with
    | .value :: ts => nodeOrEmpty handles false false ends fuel es ts
    | ts => .ok (empty .none :: es, ts)

/-- Items of a flow sequence; an item with a key is a mapping of that one pair. -/
def flowSequence (handles : List (String × String)) :
    (fuel : Nat) → (first : Bool) → List Event → List Token → Read
  | 0, _, _, _ => .error .noSeparator
  | _+1, _, es, .flowSequenceEnd :: ts => .ok (.sequenceEnd :: es, ts)
  | fuel+1, first, es, ts => do
    let ts ←
      if first then pure ts
      else match ts with
        | .flowEntry :: ts => pure ts
        | _ => throw .noSeparator
    match ts with
    | .flowSequenceEnd :: ts => return (.sequenceEnd :: es, ts)
    | .key :: ts =>
      let es := .mappingStart .none :: es
      let (es, ts) ←
        if endsItem [.value, .flowEntry, .flowSequenceEnd] ts then pure (empty .none :: es, ts.drop 1)
        else node handles false false fuel es ts
      let (es, ts) ← flowValue handles [.flowEntry, .flowSequenceEnd] fuel es ts
      flowSequence handles fuel false (.mappingEnd :: es) ts
    | ts =>
      let (es, ts) ← node handles false false fuel es ts
      flowSequence handles fuel false es ts

def flowMapping (handles : List (String × String)) :
    (fuel : Nat) → (first : Bool) → List Event → List Token → Read
  | 0, _, _, _ => .error .noSeparator
  | _+1, _, es, .flowMappingEnd :: ts => .ok (.mappingEnd :: es, ts)
  | fuel+1, first, es, ts => do
    let ts ←
      if first then pure ts
      else match ts with
        | .flowEntry :: ts => pure ts
        | _ => throw .noSeparator
    match ts with
    | .flowMappingEnd :: ts => return (.mappingEnd :: es, ts)
    | .key :: ts =>
      let (es, ts) ← nodeOrEmpty handles false false [.value, .flowEntry, .flowMappingEnd] fuel es ts
      let (es, ts) ← flowValue handles [.flowEntry, .flowMappingEnd] fuel es ts
      flowMapping handles fuel false es ts
    | ts =>
      let (es, ts) ← node handles false false fuel es ts
      flowMapping handles fuel false (empty .none :: es) ts

end

/-- Directives in front of a document: at most one version, and tag handles. -/
def directives : (version : Bool) → List (String × String) → List Token →
    Except Fault (List (String × String) × List Token)
  | version, handles, .version major minor :: ts =>
    if version || major != 1 || (minor != 1 && minor != 2) then .error .badDirective
    else directives true handles ts
  | version, handles, .tagDirective handle lead :: ts =>
    if (handles.lookup handle).isSome then .error .badDirective
    else directives version (handles ++ [(handle, lead)]) ts
  | _, handles, ts => .ok (handles ++ defaultHandles, ts)

/-- Whether a document that has begun with its marker holds nothing. -/
def isEmptyDocument : List Token → Bool
  | [] | .version .. :: _ | .tagDirective .. :: _ | .documentStart :: _ | .documentEnd :: _ => true
  | _ => false

/-- The events of one document. -/
def document (ts : List Token) : Read := do
  let fuel := 4 * ts.length + 4
  match ts with
  | .version .. :: _ | .tagDirective .. :: _ | .documentStart :: _ =>
    let (handles, ts) ← directives false [] ts
    match ts with
    | .documentStart :: ts =>
      if isEmptyDocument ts then return ([empty .none], ts)
      else node handles true false fuel [] ts
    | _ => throw .notOneDocument
  | ts => node defaultHandles true false fuel [] ts

/-- The events of a text, which holds at most one document. -/
def ofTokens (ts : List Token) : Except Fault (List Event) := do
  if ts.isEmpty then return [empty .none]
  let (es, ts) ← document ts
  if ts.all (· = .documentEnd) then return es.reverse else throw .notOneDocument

end Event

end PackedStruct.Yaml
