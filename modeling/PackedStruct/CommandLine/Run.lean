import PackedStruct.CommandLine.Arguments
import PackedStruct.Compile
import PackedStruct.Data.Json
import PackedStruct.Data.Text
import PackedStruct.Decode
import PackedStruct.Node.Declaration
import PackedStruct.Schema.Document
import PackedStruct.Schema.Listing
/-!
What the program answers: schema files are loaded and merged, and then listed, or one type is laid
out, or one value is decoded. Files are given by their contents, so the answer is a function.
-/

namespace PackedStruct.CommandLine

/-- The bytes of a file, or why they could not be read. -/
abbrev Contents := Except String (List UInt8)

/-- What a run can read. -/
structure Inputs where
  file : String → Contents
  standard : Contents

/-- Why a run fails. -/
inductive Failure where
  | codec (error : Error)
  | unreadable (path reason : String)
  | yaml (path : String) (fault : Yaml.Fault)
  | shape (path : String) (fault : DocumentFault)
  deriving DecidableEq, Repr

def Failure.message : Failure → String
  | .codec error => error.message
  | .unreadable path reason => "failed to read " ++ path ++ ": " ++ reason
  | .yaml path fault => "failed to parse " ++ path ++ ": " ++ fault.message
  | .shape path fault => path ++ ": " ++ fault.message

/-- Exit status and output of a run. -/
structure Outcome where
  status : Nat
  output : String
  errors : String
  deriving DecidableEq, Repr

def readBytes (path : String) (c : Contents) : Except Failure (List UInt8) :=
  c.mapError (.unreadable path)

/-- The text of a file, which must be well-formed UTF-8. -/
def readText (inputs : Inputs) (path : String) : Except Failure String := do
  let bytes ← readBytes path (inputs.file path)
  match String.fromUTF8? ⟨bytes.toArray⟩ with
  | some s => return s
  | none => throw (.unreadable path "stream did not contain valid UTF-8")

/-- The schema in the text of a file. -/
def loadText (path text : String) : Except Failure Schema :=
  (Schema.load text).mapError fun fault => match fault with
    | .yaml f => .yaml path f
    | .shape f => .shape path f

/-- All files one after another; later definitions replace earlier ones. -/
def loadFiles (inputs : Inputs) (paths : List String) : Except Failure Schema :=
  paths.foldlM (fun s path => do return s.merge (← loadText path (← readText inputs path))) .empty

def liftError {α : Type} (r : Except Error α) : Except Failure α := r.mapError .codec

def outputLines (ls : List String) : String := String.join (ls.map (· ++ "\n"))

def listTypes (s : Schema) (json : Bool) : String :=
  if json then outputLines [s.toJson.pretty] else outputLines s.summaries

/-- The declaration of a type, and its layout if that is asked for. -/
def showLayout (s : Schema) (target : String) (w : BitWidth) (a : Arguments) : Except Failure String := do
  let node ← liftError (s.compile target)
  let layout ← liftError (node.layout codeCapacity w)
  let declaration := node.declaration ⟨a.indent⟩ (!a.longNames)
  if a.json then
    return outputLines [(Json.object [("type_name", .string target), ("bit_width", .integer w.bits),
      ("size", .integer layout.size), ("format", .string layout.formatString),
      ("declaration", .string declaration)]).pretty]
  let details := ["bit_width: " ++ toString w.bits, "size: " ++ toString layout.size,
    "format: " ++ layout.formatString]
  return outputLines (declaration :: if a.verbose then details else [])

/-- One value of a type, decoded from a file or from standard input. It may have no text, only JSON. -/
def showValue (inputs : Inputs) (s : Schema) (target : String) (w : BitWidth) (path : String) (a : Arguments) :
    Except Failure (Option String) := do
  let e ← liftError (Endian.read a.endian)
  let node ← liftError (s.compile target)
  let bytes ← readBytes path (if path = "-" then inputs.standard else inputs.file path)
  let data ← liftError (node.decode w e a.offset bytes)
  if a.json then return some (outputLines [data.toJson.pretty])
  return (data.display? ⟨a.indent⟩).map fun text => outputLines ["size: " ++ toString bytes.length, text]

def answer (inputs : Inputs) (a : Arguments) : Except Failure (Option String) := do
  let s ← loadFiles inputs a.schemas
  match a.target with
  | none => return some (listTypes s a.json)
  | some target =>
    let w ← liftError (BitWidth.read a.bits)
    match a.input with
    | none => return some (← showLayout s target w a)
    | some path => showValue inputs s target w path a

/-- The sentence for words that make no sense. -/
def Stop.message : Stop → String
  | .help => ""
  | .unknownWord w => "unexpected argument '" ++ w ++ "' found"
  | .missingValue _ => "a value is required for an option but none was supplied"
  | .unneededValue _ => "a switch takes no value"
  | .badValue .offset v => "invalid value '" ++ v ++ "': " ++ offsetFault v
  | .badValue _ v => "invalid value '" ++ v ++ "'"
  | .repeated _ => "an option cannot be used multiple times"
  | .noSchema => "the option '--yaml <YAML>...' is required"

/-- A whole run. It breaks off where a number has no text. -/
def run (inputs : Inputs) (args : List String) : Option Outcome :=
  match parse args with
  | .error .help => some ⟨0, helpText, ""⟩
  | .error stop => some ⟨2, "", "error: " ++ stop.message ++ "\n"⟩
  | .ok a =>
    match answer inputs a with
    | .ok output => output.map (⟨0, ·, ""⟩)
    | .error failure => some ⟨1, "", "error: " ++ failure.message ++ "\n"⟩

end PackedStruct.CommandLine
