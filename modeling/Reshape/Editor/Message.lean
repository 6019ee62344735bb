import Reshape.Data
import Reshape.Editor.Params
import Reshape.Editor.View

/-!
# Messages

* `Message` is what an editor sends: a request, if it has an identifier, or else a notice.
* `Failure` lists why a request fails.
* `Outgoing` is what a server sends; `Outgoing.toData` is the form in which it is sent.
-/

namespace Reshape.Editor

/-- A message of an editor. -/
structure Message where
  id : Option Data
  method : String
  params : Option Data

/-- Why a request fails. -/
inductive Failure
  | notInitialized
  | invalidRequest
  | methodNotFound
  | invalidParams (message : String)
deriving DecidableEq

/-- The number of a failure. -/
def Failure.code : Failure → Int
  | notInitialized => -32002
  | invalidRequest => -32600
  | methodNotFound => -32601
  | invalidParams _ => -32602

/-- The wording of a failure. -/
def Failure.message : Failure → String
  | notInitialized => "Server not initialized"
  | invalidRequest => "Invalid request"
  | methodNotFound => "Method not found"
  | invalidParams s => s

/-- How urgent a message to the user is. -/
inductive Urgency
  | warning
  | info
deriving DecidableEq

/-- What a server sends: the answer to a request, something for the log, something to show, the
problems of a document, or the request to apply edits. -/
inductive Outgoing
  | response (id : Data) (result : Except Failure Data)
  | log (urgency : Urgency) (text : String)
  | showText (urgency : Urgency) (text : String)
  | diagnostics (uri : String) (ds : List Diagnostic)
  | applyEdit (id : Nat) (edits : List (String × List RangeEdit))

/-- Whether the message is the answer to a request. -/
def Outgoing.isResponse : Outgoing → Bool
  | response _ _ => true
  | _ => false

/-! ## The form of messages -/

/-- The number of an urgency. -/
def Urgency.toData : Urgency → Data
  | warning => .ofNat 2
  | info => .ofNat 3

/-- The form of a place. -/
def Position.toData (p : Position) : Data :=
  .record [("line", .ofNat p.line), ("character", .ofNat p.character)]

/-- The form of a range. -/
def Range.toData (r : Range) : Data :=
  .record [("start", r.start.toData), ("end", r.stop.toData)]

/-- The form of a place in a document. -/
def DocumentPosition.toData (p : DocumentPosition) : Data :=
  .record [("textDocument", .record [("uri", .text p.document.text)]),
    ("position", p.position.toData)]

/-- The form of a problem in a document. -/
def Diagnostic.toData (uri : String) (d : Diagnostic) : Data :=
  .record ([("range", d.range.toData), ("severity", .ofNat 1), ("source", .text "rustic"),
    ("message", .text d.message)]
    ++ (d.related.map fun (range, note) =>
        ("relatedInformation", Data.list [.record [
          ("location", .record [("uri", .text uri), ("range", range.toData)]),
          ("message", .text note)]])).toList)

/-- The number of a kind of symbols. -/
def symbolNumber : Outline.Kind → Nat
  | .module => 2
  | .struct => 23
  | .field => 8
  | .enum => 10
  | .variant => 22
  | .traitItem => 11
  | .impl => 19
  | .function => 12
  | .const => 14
  | .static => 13
  | .typeAlias => 26

mutual

/-- The form of a symbol. -/
def Symbol.toData : Symbol → Data
  | ⟨kind, name, detail, range, selection, children⟩ =>
    .record ([("name", .text name)] ++ (detail.map fun d => ("detail", Data.text d)).toList
      ++ [("kind", .ofNat (symbolNumber kind)), ("range", range.toData),
        ("selectionRange", selection.toData)]
      ++ match children with
        | [] => []
        | cs => [("children", .list (symbolsData cs))])

/-- The forms of symbols. -/
def symbolsData : List Symbol → List Data
  | [] => []
  | s :: ss => s.toData :: symbolsData ss

end

/-- The form of an edit. -/
def RangeEdit.toData (e : RangeEdit) : Data :=
  .record [("range", e.range.toData), ("newText", .text e.replacement)]

/-- The form of a message. -/
def Outgoing.toData (o : Outgoing) : Data :=
  .record (("jsonrpc", Data.text "2.0") ::
    match o with
    | response id (.ok result) => [("id", id), ("result", result)]
    | response id (.error f) =>
      [("id", id), ("error", .record [("code", .int f.code), ("message", .text f.message)])]
    | log urgency text =>
      [("method", .text "window/logMessage"),
        ("params", .record [("type", urgency.toData), ("message", .text text)])]
    | showText urgency text =>
      [("method", .text "window/showMessage"),
        ("params", .record [("type", urgency.toData), ("message", .text text)])]
    | diagnostics uri ds =>
      [("method", .text "textDocument/publishDiagnostics"),
        ("params", .record [("uri", .text uri), ("diagnostics", .list (ds.map (·.toData uri)))])]
    | applyEdit id edits =>
      [("id", .ofNat id), ("method", .text "workspace/applyEdit"),
        ("params", .record [("edit", .record [("changes",
          .record (edits.map fun (uri, es) => (uri, .list (es.map (·.toData)))))])])])

end Reshape.Editor
