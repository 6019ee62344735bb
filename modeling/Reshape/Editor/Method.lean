/-!
# Methods

The methods of the protocol between an editor and a server. A server knows more of them than it
supports: what it knows decides how it answers before it is started and after it is shut down.

* `Method.ofName` is the method with a name.
-/

namespace Reshape.Editor

/-- What a message asks for. -/
inductive Method
  | start
  | started
  | shutdown
  | exit
  | opened
  | changed
  | closed
  | actions
  | command
  | symbols
  | otherRequest
  | otherNotice
  | unknown
deriving DecidableEq

/-- The methods that a server supports. -/
def supportedMethods : List (String × Method) := [
  ("initialize", .start), ("initialized", .started), ("shutdown", .shutdown),
  ("exit", .exit), ("textDocument/didOpen", .opened), ("textDocument/didChange", .changed),
  ("textDocument/didClose", .closed), ("textDocument/codeAction", .actions),
  ("workspace/executeCommand", .command), ("textDocument/documentSymbol", .symbols)]

/-- The requests that a server knows without supporting them. -/
def otherRequests : List String := [
  "textDocument/willSaveWaitUntil", "textDocument/declaration", "textDocument/definition",
  "textDocument/typeDefinition", "textDocument/implementation", "textDocument/references",
  "textDocument/prepareCallHierarchy", "callHierarchy/incomingCalls",
  "callHierarchy/outgoingCalls", "textDocument/prepareTypeHierarchy",
  "typeHierarchy/supertypes", "typeHierarchy/subtypes", "textDocument/documentHighlight",
  "textDocument/documentLink", "documentLink/resolve", "textDocument/hover",
  "textDocument/codeLens", "codeLens/resolve", "textDocument/foldingRange",
  "textDocument/selectionRange", "textDocument/semanticTokens/full",
  "textDocument/semanticTokens/full/delta", "textDocument/semanticTokens/range",
  "textDocument/inlineValue", "textDocument/inlayHint", "inlayHint/resolve",
  "textDocument/moniker", "textDocument/completion", "completionItem/resolve",
  "textDocument/diagnostic", "workspace/diagnostic", "textDocument/signatureHelp",
  "codeAction/resolve", "textDocument/documentColor", "textDocument/colorPresentation",
  "textDocument/formatting", "textDocument/rangeFormatting", "textDocument/onTypeFormatting",
  "textDocument/rename", "textDocument/prepareRename", "textDocument/linkedEditingRange",
  "workspace/symbol", "workspaceSymbol/resolve", "workspace/willCreateFiles",
  "workspace/willRenameFiles", "workspace/willDeleteFiles"]

/-- The notices that a server knows without supporting them. -/
def otherNotices : List String := [
  "textDocument/willSave", "textDocument/didSave", "workspace/didChangeConfiguration",
  "workspace/didChangeWorkspaceFolders", "workspace/didCreateFiles", "workspace/didRenameFiles",
  "workspace/didDeleteFiles", "workspace/didChangeWatchedFiles", "$/cancelRequest"]

namespace Method

/-- The method with a name. -/
def ofName (name : String) : Method :=
  match supportedMethods.lookup name with
  | some m => m
  | none =>
    if name ∈ otherRequests then .otherRequest
    else if name ∈ otherNotices then .otherNotice
    else .unknown

/-- Whether a message with the method has to be a request. -/
def isRequest : Method → Bool
  | start | shutdown | actions | command | symbols | otherRequest => true
  | started | exit | opened | changed | closed | otherNotice | unknown => false

end Method

end Reshape.Editor
