import PackedStruct.Text.Numeral
import PackedStruct.Text.Quoted
/-!
The command line: which options there are, how words are divided among them, and what their values
may be. Words are read from left to right, and the first fault or request for help decides.
-/

namespace PackedStruct.CommandLine

/-- What the words ask for. -/
structure Arguments where
  schemas : List String
  target : Option String
  verbose : Bool
  input : Option String
  bits : Nat
  endian : String
  offset : Nat
  json : Bool
  longNames : Bool
  indent : Nat
  deriving DecidableEq, Repr

inductive Flag where
  | schema
  | target
  | verbose
  | input
  | bits
  | endian
  | offset
  | json
  | longNames
  | indent
  | help
  deriving DecidableEq, Repr

namespace Flag

def ofLong? (s : String) : Option Flag :=
  [("yaml", schema), ("yaml-files", schema), ("struct", target), ("select", target), ("verbose", verbose),
    ("binary", input), ("bit", bits), ("endian", endian), ("offset", offset), ("json", json),
    ("long-names", longNames), ("indent", indent), ("help", help)].lookup s

def ofShort? (c : Char) : Option Flag :=
  [('y', schema), ('s', target), ('v', verbose), ('b', input), ('e', endian), ('o', offset), ('h', help)].lookup c

def takesValue : Flag → Bool
  | .verbose | .json | .longNames | .help => false
  | _ => true

end Flag

/-- Why no arguments come of the words. -/
inductive Stop where
  | help
  | unknownWord (word : String)
  | missingValue (flag : Flag)
  | unneededValue (flag : Flag)
  | badValue (flag : Flag) (value : String)
  | repeated (flag : Flag)
  | noSchema
  deriving DecidableEq, Repr

/-- An offset: an integer that fits into 64 bits without a sign. -/
def offset? (s : String) : Option Nat :=
  match Text.integer? s.toList with
  | some (.ofNat n) => if n < Nat.pow 2 64 then some n else none
  | _ => none

/-- The sentence that refuses an offset. -/
def offsetFault (s : String) : String := "invalid offset " ++ Text.quoted s

/-- A number of bits: decimal digits below `2^32`, with at most one sign. -/
def bits? (s : String) : Option Nat :=
  match s.toList with
  | '-' :: s => (Text.natural? 10 s).filter (· == 0)
  | s => (Text.unsigned? s).filter (· < Nat.pow 2 32)

def indent? (s : String) : Option Nat := (Text.unsigned? s.toList).filter (· < Nat.pow 2 64)

/-- What has been read so far; an option that has a default is absent until it is given. -/
structure Given where
  schemas : List String
  target : Option String
  input : Option String
  bits : Option Nat
  endian : Option String
  offset : Option Nat
  indent : Option Nat
  switches : List Flag
  deriving Repr

namespace Given

def none : Given := ⟨[], .none, .none, .none, .none, .none, .none, []⟩

/-- A path, which may not be empty. -/
def path (flag : Flag) (value : String) : Except Stop String :=
  if value = "" then .error (.badValue flag value) else .ok value

/-- An option that may be given once. -/
def once {α : Type} (flag : Flag) (old : Option α) (value : Except Stop α) : Except Stop (Option α) :=
  match old with
  | some _ => .error (.repeated flag)
  | .none => some <$> value

def orBad {α : Type} (flag : Flag) (value : String) (parsed : Option α) : Except Stop α :=
  match parsed with
  | some a => .ok a
  | .none => .error (.badValue flag value)

/-- Give an option its values. -/
def set (g : Given) (flag : Flag) (values : List String) : Except Stop Given := do
  match flag, values with
  | .schema, v :: vs => return { g with schemas := g.schemas ++ (← (v :: vs).mapM (path flag)) }
  | .target, [v] => return { g with target := ← once flag g.target (.ok v) }
  | .input, [v] => return { g with input := ← once flag g.input (path flag v) }
  | .bits, [v] => return { g with bits := ← once flag g.bits (orBad flag v (bits? v)) }
  | .endian, [v] => return { g with endian := ← once flag g.endian (.ok v) }
  | .offset, [v] => return { g with offset := ← once flag g.offset (orBad flag v (offset? v)) }
  | .indent, [v] => return { g with indent := ← once flag g.indent (orBad flag v (indent? v)) }
  | _, _ => throw (.missingValue flag)

/-- Turn on a switch. -/
def turnOn (g : Given) (flag : Flag) : Except Stop Given :=
  if flag = .help then .error .help
  else if flag ∈ g.switches then .error (.repeated flag)
  else .ok { g with switches := g.switches ++ [flag] }

/-- The arguments, with defaults for what is absent. -/
def finish (g : Given) : Except Stop Arguments :=
  if g.schemas.isEmpty then .error .noSchema
  else .ok {
    schemas := g.schemas
    target := g.target
    verbose := .verbose ∈ g.switches
    input := g.input
    bits := g.bits.getD 64
    endian := g.endian.getD "little"
    offset := g.offset.getD 0
    json := .json ∈ g.switches
    longNames := .longNames ∈ g.switches
    indent := g.indent.getD 2 }

end Given

/-- What one word is. -/
inductive Word where
  /-- Two hyphens: only values may follow, and none is expected. -/
  | last
  | long (name : String) (value : Option String)
  | short (letters : List Char)
  | value (text : String)
  deriving DecidableEq, Repr

def Word.of (s : String) : Word :=
  match s.toList with
  | ['-', '-'] => .last
  | '-' :: '-' :: rest =>
    let name := rest.takeWhile (· != '=')
    match rest.drop name.length with
    | [] => .long (String.ofList name) none
    | _ :: text => .long (String.ofList name) (some (String.ofList text))
  | '-' :: c :: rest => .short (c :: rest)
  | _ => .value s

/-- An option that still takes values, and those it has. -/
abbrev Pending := Option (Flag × List String)

/-- Give a pending option what it has. -/
def settle (g : Given) : Pending → Except Stop Given
  | none => .ok g
  | some (flag, values) => g.set flag values

/-- An option by name or letter, with the value attached to it. -/
def option (g : Given) (pending : Pending) (flag : Flag) (attached : Option String) :
    Except Stop (Given × Pending) := do
  let g ← settle g pending
  match attached with
  | some value => return (← g.set flag [value], none)
  | none => return (g, some (flag, []))

/-- Letters after one hyphen: switches, up to an option that takes the rest as its value. -/
def letters (g : Given) (pending : Pending) : List Char → Except Stop (Given × Pending)
  | [] => .ok (g, pending)
  | c :: rest =>
    match Flag.ofShort? c with
    | none => .error (.unknownWord (String.ofList ['-', c]))
    | some flag =>
      if flag.takesValue then
        let attached := match rest with
          | [] => none
          | '=' :: value => some (String.ofList value)
          | value => some (String.ofList value)
        option g pending flag attached
      else do
        let g ← settle g pending
        letters (← g.turnOn flag) none rest

/-- Read one word. -/
def word (g : Given) (pending : Pending) (s : String) : Except Stop (Given × Pending) := do
  match Word.of s with
  | .last => return (g, pending)
  | .long name attached =>
    match Flag.ofLong? name with
    | none => throw (.unknownWord s)
    | some flag =>
      if flag.takesValue then option g pending flag attached
      else match attached with
        | some _ => throw (.unneededValue flag)
        | none => return (← (← settle g pending).turnOn flag, none)
  | .short cs => letters g pending cs
  | .value v =>
    match pending with
    | none => throw (.unknownWord v)
    | some (flag, values) =>
      if flag = .schema then return (g, some (flag, values ++ [v]))
      else return (← g.set flag (values ++ [v]), none)

/-- Read all words. -/
def words (g : Given) (pending : Pending) : List String → Except Stop Arguments
  | [] => do (← settle g pending).finish
  | s :: ss => do
    if Word.of s = .last then
      match ss with
      | [] => (← settle g pending).finish
      | extra :: _ => throw (.unknownWord extra)
    else
      let (g, pending) ← word g pending s
      words g pending ss

def parse (ss : List String) : Except Stop Arguments := words .none none ss

/-- The answer to a request for help. -/
def helpText : String := "Decode packed C structs described by YAML schemas

Usage: nisin [OPTIONS] --yaml <YAML>...

Options:
  -y, --yaml <YAML>...        YAML schema files, merged in order
  -s, --struct <STRUCT_NAME>  Type to show or decode; lists the schema when omitted
  -v, --verbose               Also print layout size and format
  -b, --binary <BINARY>       Binary input to decode; `-` reads stdin
      --bit <BIT>             Pointer and size_t width in bits (32 or 64) [default: 64]
  -e, --endian <ENDIAN>       Byte order (little or big) [default: little]
  -o, --offset <OFFSET>       Byte offset into the input; decimal or 0x-prefixed [default: 0]
      --json                  Emit JSON instead of text
      --long-names            Use C spellings for primitive names in declarations
      --indent <INDENT>       Spaces per nesting level in text output [default: 2]
  -h, --help                  Print help
"

end PackedStruct.CommandLine
