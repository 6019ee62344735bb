import Reshape.Data
import Reshape.Editor.Position
import Reshape.Text.Quoted
import Reshape.Url.Basic

/-!
# Reading parameters

What the messages of an editor say, read from values. Readers say why a value will not do.

* `fieldsOf` takes the fields of a structure off a record, or off a list by their places;
  `namedFieldsOf` off a record alone.
* Further down are the parameters of each kind of message.
-/

namespace Reshape.Editor

/-! ## Values of simple types -/

/-- What a value is, in a complaint about it. -/
def described : Data → String
  | .null => "null"
  | .bool b => "boolean `" ++ (if b then "true" else "false") ++ "`"
  | .int n => "integer `" ++ toString n ++ "`"
  | .float => "floating point number"
  | .text s => "string " ++ quoteText s
  | .list _ => "sequence"
  | .record _ => "map"

/-- The complaint about a value of the wrong type. -/
def wrongType (d : Data) (expected : String) : String :=
  "invalid type: " ++ described d ++ ", expected " ++ expected

/-- The complaint about a value of the right type. -/
def wrongValue (d : Data) (expected : String) : String :=
  "invalid value: " ++ described d ++ ", expected " ++ expected

/-- A text. -/
def readText : Data → Except String String
  | .text s => .ok s
  | d => .error (wrongType d "a string")

/-- A truth value. -/
def readBool : Data → Except String Bool
  | .bool b => .ok b
  | d => .error (wrongType d "a boolean")

/-- A natural number of 32 bits. -/
def readNat : Data → Except String Nat
  | .int n => if 0 ≤ n ∧ n < 0x100000000 then .ok n.toNat else .error (wrongValue (.int n) "u32")
  | d => .error (wrongType d "u32")

/-- A whole number of 32 bits. -/
def readInt : Data → Except String Int
  | .int n =>
    if -0x80000000 ≤ n ∧ n < 0x80000000 then .ok n else .error (wrongValue (.int n) "i32")
  | d => .error (wrongType d "i32")

/-- An address. -/
def readUrl : Data → Except String Url
  | .text s =>
    match Url.parse? s with
    | some u => .ok u
    | none => .error (wrongValue (.text s) "relative URL without a base")
  | d => .error (wrongType d "a string representing an URL")

/-- A list. -/
def readList (read : Data → Except String α) : Data → Except String (List α)
  | .list ds => ds.mapM read
  | d => .error (wrongType d "a sequence")

/-- Any value but null. -/
def readOption (read : Data → Except String α) : Data → Except String (Option α)
  | .null => .ok none
  | d => (read d).map some

/-! ## Structures -/

/-- The fields of a structure in a record. -/
def namedFieldsOf (struct : String) (names : List String) (d : Data) :
    Except String (List (String × Option Data)) :=
  match d with
  | .record fields => .ok (names.map fun n => (n, fields.lookup n))
  | d => .error (wrongType d ("struct " ++ struct))

/-- The fields of a structure in a record, or in a list by their places. -/
def fieldsOf (struct : String) (names : List String) (d : Data) :
    Except String (List (String × Option Data)) :=
  match d with
  | .list ds =>
    if ds.length = names.length then .ok ((names.zip ds).map fun (n, d) => (n, some d))
    else .error ("invalid length " ++ toString ds.length ++ ", expected struct " ++ struct
      ++ " with " ++ toString names.length ++ " elements")
  | d => namedFieldsOf struct names d

/-- A field that must be there. -/
def required (name : String) (read : Data → Except String α) (fields : List (String × Option Data)) :
    Except String α :=
  match fields.lookup name with
  | some (some d) => read d
  | _ => .error ("missing field `" ++ name ++ "`")

/-- A field that may be missing or null. -/
def allowed (name : String) (read : Data → Except String α) (fields : List (String × Option Data)) :
    Except String (Option α) :=
  match fields.lookup name with
  | some (some d) => readOption read d
  | _ => .ok none

/-- A place. -/
def readPosition (d : Data) : Except String Position := do
  let fields ← fieldsOf "Position" ["line", "character"] d
  return ⟨← required "line" readNat fields, ← required "character" readNat fields⟩

/-- A range. -/
def readRange (d : Data) : Except String Range := do
  let fields ← fieldsOf "Range" ["start", "end"] d
  return ⟨← required "start" readPosition fields, ← required "end" readPosition fields⟩

/-- The address of a document. -/
def readDocument (d : Data) : Except String Url := do
  required "uri" readUrl (← fieldsOf "TextDocumentIdentifier" ["uri"] d)

/-! ## Parameters -/

/-- A place in a document. -/
structure DocumentPosition where
  document : Url
  position : Position
deriving DecidableEq

/-- A place in a document. -/
def readDocumentPosition (d : Data) : Except String DocumentPosition := do
  let fields ← fieldsOf "TextDocumentPositionParams" ["textDocument", "position"] d
  return ⟨← required "textDocument" readDocument fields, ← required "position" readPosition fields⟩

/-- What a server is started with: the directory of the project and the settings. -/
structure Start where
  root : Option Url
  settings : Option Data

/-- The address of a project directory. -/
def readFolder (d : Data) : Except String Url := do
  let fields ← fieldsOf "WorkspaceFolder" ["uri", "name"] d
  let uri ← required "uri" readUrl fields
  discard (required "name" readText fields)
  return uri

/-- A record with any fields. -/
def readRecord (struct : String) (d : Data) : Except String Unit :=
  discard (namedFieldsOf struct [] d)

/-- How much a server should report. -/
def readTrace (d : Data) : Except String Unit := do
  let s ← readText d
  if s ∈ ["off", "messages", "verbose"] then return
  else throw ("unknown variant `" ++ s ++ "`, expected one of `off`, `messages`, `verbose`")

/-- Name and version of an editor. -/
def readClient (d : Data) : Except String Unit := do
  let fields ← fieldsOf "ClientInfo" ["name", "version"] d
  discard (required "name" readText fields)
  discard (allowed "version" readText fields)

/-- What a server is started with. The first project directory counts, or else the root. -/
def readStart (d : Data) : Except String Start := do
  let fields ← fieldsOf "InitializeParams" ["processId", "rootPath", "rootUri",
    "initializationOptions", "capabilities", "trace", "workspaceFolders", "clientInfo", "locale"] d
  discard (allowed "processId" readNat fields)
  discard (allowed "rootPath" readText fields)
  let root ← allowed "rootUri" readUrl fields
  let settings ← allowed "initializationOptions" pure fields
  discard (required "capabilities" (readRecord "ClientCapabilities") fields)
  discard (allowed "trace" readTrace fields)
  let folders ← allowed "workspaceFolders" (readList readFolder) fields
  discard (allowed "clientInfo" readClient fields)
  discard (allowed "locale" readText fields)
  return ⟨(folders.bind List.head?).or root, settings⟩

/-- A document that is opened, and its text. -/
def readOpened (d : Data) : Except String (Url × String) := do
  let document := fun d => do
    let fields ← fieldsOf "TextDocumentItem" ["uri", "languageId", "version", "text"] d
    let uri ← required "uri" readUrl fields
    discard (required "languageId" readText fields)
    discard (required "version" readInt fields)
    return (uri, ← required "text" readText fields)
  required "textDocument" document (← fieldsOf "DidOpenTextDocumentParams" ["textDocument"] d)

/-- A document that is changed, and its new text: the first of the changes holds all of it. -/
def readChanged (d : Data) : Except String (Url × Option String) := do
  let document := fun d => do
    let fields ← fieldsOf "VersionedTextDocumentIdentifier" ["uri", "version"] d
    let uri ← required "uri" readUrl fields
    discard (required "version" readInt fields)
    return uri
  let change := fun d => do
    let fields ← fieldsOf "TextDocumentContentChangeEvent" ["range", "rangeLength", "text"] d
    discard (allowed "range" readRange fields)
    discard (allowed "rangeLength" readNat fields)
    required "text" readText fields
  let fields ← fieldsOf "DidChangeTextDocumentParams" ["textDocument", "contentChanges"] d
  let uri ← required "textDocument" document fields
  return (uri, (← required "contentChanges" (readList change) fields).head?)

/-- A document that is closed. -/
def readClosed (d : Data) : Except String Url := do
  required "textDocument" readDocument (← fieldsOf "DidCloseTextDocumentParams" ["textDocument"] d)

/-- The place that actions are asked for: the start of a range. -/
def readActionPlace (d : Data) : Except String DocumentPosition := do
  let diagnostic := fun d => do
    let fields ← fieldsOf "Diagnostic" ["range", "severity", "code", "codeDescription", "source",
      "message", "relatedInformation", "tags", "data"] d
    discard (required "range" readRange fields)
    discard (required "message" readText fields)
  let context := fun d => do
    let fields ← fieldsOf "CodeActionContext" ["diagnostics", "only", "triggerKind"] d
    discard (required "diagnostics" (readList diagnostic) fields)
    discard (allowed "only" (readList readText) fields)
    discard (allowed "triggerKind" readInt fields)
  let fields ← namedFieldsOf "CodeActionParams" ["textDocument", "range", "context"] d
  let uri ← required "textDocument" readDocument fields
  let range ← required "range" readRange fields
  discard (required "context" context fields)
  return ⟨uri, range.start⟩

/-- A command and its arguments. -/
def readCommand (d : Data) : Except String (String × List Data) := do
  let fields ← namedFieldsOf "ExecuteCommandParams" ["command", "arguments"] d
  let command ← required "command" readText fields
  match fields.lookup "arguments" with
  | some (some ds) => return (command, ← readList pure ds)
  | _ => return (command, [])

/-- The document whose symbols are asked for. -/
def readSymbolsDocument (d : Data) : Except String Url := do
  required "textDocument" readDocument (← namedFieldsOf "DocumentSymbolParams" ["textDocument"] d)

/-- Whether an editor has applied an edit, and its reason if not. -/
def readApplied (d : Data) : Except String (Bool × Option String) := do
  let fields ← fieldsOf "ApplyWorkspaceEditResponse" ["applied", "failureReason", "failedChange"] d
  let applied ← required "applied" readBool fields
  let reason ← allowed "failureReason" readText fields
  discard (allowed "failedChange" readNat fields)
  return (applied, reason)

end Reshape.Editor
