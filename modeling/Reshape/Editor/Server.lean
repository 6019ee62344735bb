import Reshape.Config.Read
import Reshape.Convert.Basic
import Reshape.Data
import Reshape.Editor.Message
import Reshape.Editor.Method
import Reshape.Files.Sources

/-!
# The server

A server holds the documents of an editor together with the sources of the project, so that a
conversion sees usages in files that are not open. It is started, serves, is shut down, and ends.

* `Server.receive` takes a message: the server afterwards, and what it sends.
* A conversion is computed in one step and sent to the editor as a request to apply edits. Until the
  editor replies it is pending; `Server.replied` takes the reply.
-/

namespace Reshape.Editor

/-- How far a server has come. -/
inductive Phase
  | created
  | started
  | shutDown
  | ended
deriving DecidableEq

/-- A conversion that waits for the reply of the editor: the number of the request to the editor,
the change, and the request that asked for the conversion. -/
structure Pending where
  id : Nat
  change : SourceChange
  asker : Data

/-- A server. -/
structure Server where
  phase : Phase
  workspace : Workspace
  config : Config
  nextId : Nat
  pending : List Pending

namespace Server

/-- A server that has not been started. -/
def initial : Server := ⟨.created, .empty, {}, 0, []⟩

/-! ## Documents -/

/-- Stores the text of a document and shows its problems. -/
def update (s : Server) (u : Url) (text : String) : Server × List Outgoing :=
  let (f, w) := s.workspace.setFile (documentPath u) text
  ({ s with workspace := w },
    [.diagnostics u.text (((w.file? f).map diagnosticsOf).getD [])])

/-- Goes back to the text of a file on disk, or forgets a document that has no file. -/
def close [Monad m] (files : Files m) (s : Server) (u : Url) : m (Server × List Outgoing) := do
  let path := documentPath u
  let w ←
    match ← files.read path with
    | .ok text => pure (s.workspace.setFile path text).2
    | .error _ =>
      pure (((s.workspace.fileId? path).bind fun f => (s.workspace.removeFile f).map (·.2)).getD
        s.workspace)
  return ({ s with workspace := w }, [.diagnostics u.text []])

/-- The place in a file that a place in a document means. -/
def filePosition? (w : Workspace) (p : DocumentPosition) : Option FilePosition := do
  let f ← w.fileId? (documentPath p.document)
  let source ← w.file? f
  let offset ← p.position.offset? source.text
  return ⟨f, offset⟩

/-! ## Conversions -/

/-- The command that converts what stands at a place. -/
def convertCommand : String := "rustic.convertToTuple"

/-- The title under which the conversion is offered. -/
def convertTitle : String := "Convert to tuple struct"

/-- The actions that are offered at a place. -/
def actionsAt (w : Workspace) (p : DocumentPosition) : Data :=
  if ((filePosition? w p).map (canConvert w)).getD false then
    .list [.record [("title", .text convertTitle), ("kind", .text "refactor.rewrite"),
      ("command", .record [("title", .text convertTitle), ("command", .text convertCommand),
        ("arguments", .list [p.toData])])]]
  else .null

/-- The change that a conversion asks for. -/
def conversionAt (s : Server) (p : DocumentPosition) : Except ConversionError SourceChange :=
  match filePosition? s.workspace p with
  | none => .error .unknownFile
  | some place => convert s.workspace place s.config false

/-- A line for a usage that cannot be rewritten, if its file is known. -/
def usageLine (w : Workspace) (u : Usage) : String :=
  match w.file? u.file with
  | none => ""
  | some source =>
    let (line, column) := source.lines.position u.span.start
    "\n" ++ source.path ++ ":" ++ toString line ++ ":" ++ toString column ++ ": "
      ++ u.fault.message

/-- What the user reads about a conversion that failed. -/
def failureText (w : Workspace) (e : ConversionError) : String :=
  "Cannot convert to tuple struct: " ++ e.message ++ "".intercalate (e.usages.map (usageLine w))

/-- Starts a conversion for a request. -/
def startConversion (s : Server) (asker : Data) (p : DocumentPosition) : Server × List Outgoing :=
  match s.conversionAt p with
  | .ok change =>
    ({ s with nextId := s.nextId + 1, pending := s.pending ++ [⟨s.nextId, change, asker⟩] },
      [.applyEdit s.nextId (documentEdits s.workspace change)])
  | .error .cancelled => (s, [.response asker (.ok .null)])
  | .error e => (s, [.showText .warning (failureText s.workspace e), .response asker (.ok .null)])

/-- Goes on with a conversion once the editor has replied. A change that the editor has applied is
carried out here as well, unless the workspace has changed meanwhile. -/
def finishConversion (s : Server) (p : Pending) (reply : Data) : Server × List Outgoing :=
  let answer := Outgoing.response p.asker (.ok .null)
  match readApplied reply with
  | .ok (true, _) =>
    match s.workspace.apply p.change with
    | .ok w => ({ s with workspace := w }, [answer])
    | .error _ => (s, [answer])
  | .ok (false, reason) =>
    (s, [.showText .warning ("The editor rejected the conversion. " ++ reason.getD ""), answer])
  | .error _ => (s, [answer])

/-- Takes the reply to a request of the server. -/
def replied (s : Server) (id : Nat) (reply : Data) : Server × List Outgoing :=
  match s.pending.find? (·.id == id) with
  | none => (s, [])
  | some p => finishConversion { s with pending := s.pending.filter (·.id != id) } p reply

/-! ## Requests and notices -/

/-- What a server says about itself. -/
def capabilities : Data :=
  .record [
    ("capabilities", .record [("textDocumentSync", .ofNat 1), ("documentSymbolProvider", .bool true),
      ("codeActionProvider", .bool true),
      ("executeCommandProvider", .record [("commands", .list [.text convertCommand])])]),
    ("serverInfo", .record [("name", .text "rustic-lsp"), ("version", .text "0.1.0")])]

/-- The settings that a server is started with. Settings that cannot be read are left aside. -/
def settingsOf (start : Start) (config : Config) : Config :=
  ((start.settings.bind Config.ofData?)).getD config

/-- Starts the server: it takes settings and loads the sources of the project. -/
def start [Monad m] (files : Files m) (s : Server) (id : Data) (params : Start) :
    m (Server × List Outgoing) := do
  let w ←
    match params.root.bind filePath? with
    | some root => do pure (← loadSources files root s.workspace).2
    | none => pure s.workspace
  return ({ s with phase := .started, config := settingsOf params s.config, workspace := w },
    [.response id (.ok capabilities)])

/-- Runs a command with its arguments. -/
def runCommand (s : Server) (id : Data) (command : String) (arguments : List Data) :
    Server × List Outgoing :=
  let refuse := fun message => (s, [Outgoing.response id (.error (.invalidParams message))])
  if command ≠ convertCommand then refuse ("unknown command `" ++ command ++ "`")
  else
    match arguments with
    | [] => refuse "missing position argument"
    | d :: _ =>
      match readDocumentPosition d with
      | .error message => refuse message
      | .ok p => s.startConversion id p

/-- The symbols of a document. -/
def symbolsIn (w : Workspace) (u : Url) : Data :=
  match (w.fileId? (documentPath u)).bind w.file? with
  | none => .null
  | some source => .list (symbolsData (symbolsOf source.text (outline source.parse.tree)))

/-- Parameters that have to be there. -/
def readParams (read : Data → Except String α) : Option Data → Except String α
  | some d => read d
  | none => .error "Missing params field"

/-- Carries out a request whose parameters have been read, or refuses it. -/
def answer [Monad m] (s : Server) (id : Data) (params : Except String α)
    (act : α → m (Server × List Outgoing)) : m (Server × List Outgoing) :=
  match params with
  | .ok a => act a
  | .error message => return (s, [.response id (.error (.invalidParams message))])

/-- Carries out a notice whose parameters have been read, or leaves it aside. -/
def note [Monad m] (s : Server) (params : Except String α)
    (act : α → m (Server × List Outgoing)) : m (Server × List Outgoing) :=
  match params with
  | .ok a => act a
  | .error _ => return (s, [])

/-- A server that is shut down takes no parameters for it. -/
def readNothing : Option Data → Except String Unit
  | none => .ok ()
  | some d => .error ("Unexpected params: " ++ d.written)

/-- Carries out a request. -/
def request [Monad m] (files : Files m) (s : Server) (id : Data) (method : Method)
    (params : Option Data) : m (Server × List Outgoing) :=
  match method with
  | .start => s.answer id (readParams readStart params) (s.start files id)
  | .shutdown => s.answer id (readNothing params) fun () => return (s, [.response id (.ok .null)])
  | .actions => s.answer id (readParams readActionPlace params) fun p =>
      return (s, [.response id (.ok (actionsAt s.workspace p))])
  | .command => s.answer id (readParams readCommand params) fun (command, arguments) =>
      return s.runCommand id command arguments
  | .symbols => s.answer id (readParams readSymbolsDocument params) fun u =>
      return (s, [.response id (.ok (symbolsIn s.workspace u))])
  | .otherRequest => s.answer id (readParams pure params) fun _ =>
      return (s, [.response id (.error .methodNotFound)])
  | _ => return (s, [])

/-- Carries out a notice. -/
def notice [Monad m] (files : Files m) (s : Server) (method : Method) (params : Option Data) :
    m (Server × List Outgoing) :=
  match method with
  | .started => s.note (readParams (readRecord "InitializedParams") params) fun () =>
      return (s, [.log .info "Rustic LSP server initialized"])
  | .opened => s.note (readParams readOpened params) fun (u, text) => return s.update u text
  | .changed => s.note (readParams readChanged params) fun (u, text) =>
      match text with
      | some text => return s.update u text
      | none => return (s, [])
  | .closed => s.note (readParams readClosed params) (s.close files)
  | _ => return (s, [])

/-- Carries out a message that comes at the right time. What has the form of a notice but is a
request, and the other way round, is left aside. -/
def serve [Monad m] (files : Files m) (s : Server) (msg : Message) (method : Method) :
    m (Server × List Outgoing) :=
  match msg.id with
  | some id => if method.isRequest then s.request files id method msg.params else return (s, [])
  | none => if method.isRequest then return (s, []) else s.notice files method msg.params

/-- Refuses a message that comes at the wrong time; a notice is left aside. -/
def refuse (s : Server) (msg : Message) (f : Failure) : Server × List Outgoing :=
  (s, (msg.id.map fun id => Outgoing.response id (.error f)).toList)

/-- What fails when a message comes before the server is started or after it is shut down. -/
def untimely (s : Server) : Failure :=
  if s.phase = .created then .notInitialized else .invalidRequest

/-- Takes a message. A server that has ended takes none. -/
def receive [Monad m] (files : Files m) (s : Server) (msg : Message) :
    m (Server × List Outgoing) :=
  let method := Method.ofName msg.method
  if s.phase = .ended then return (s, [])
  else
    match method with
    | .unknown =>
      if msg.method.startsWith "$/" then return (s, [])
      else return s.refuse msg .methodNotFound
    | .exit => return ({ s with phase := .ended }, [])
    | .start =>
      if s.phase = .created then s.serve files msg method
      else return s.refuse msg .invalidRequest
    | .shutdown =>
      if s.phase = .started then { s with phase := .shutDown }.serve files msg method
      else return s.refuse msg s.untimely
    | _ =>
      if s.phase = .started then s.serve files msg method
      else return s.refuse msg s.untimely

end Server

end Reshape.Editor
