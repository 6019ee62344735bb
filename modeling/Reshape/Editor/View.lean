import Reshape.Editor.Position
import Reshape.Outline
import Reshape.Url.Basic
import Reshape.Workspace.Basic

/-!
# What an editor shows

An editor knows documents by addresses, a workspace by paths.

* `documentPath` is the path of a document. It is the path in the address, whatever the scheme is;
  where the address has another host than this machine, or no path, its text serves as the path.
* `documentUrl?` is the address of a path, if it has one.
* `diagnosticsOf` are the problems of a file with their ranges.
* `Symbol.ofEntry` is an entry of an outline with its ranges.
* `documentEdits` are the edits of a change by documents. Files without an address are left out.
-/

namespace Reshape.Editor

/-! ## Documents and files -/

/-- Whether a path ends in what could be a drive letter. -/
def endsInDrive (path : List Char) : Bool :=
  match path.reverse with
  | d :: c :: _ :: _ => c.isAlpha && (d = ':' || d = '|')
  | _ => false

/-- The path in an address without a foreign host. A drive letter at its end is followed by a
slash. -/
def filePath? (u : Url) : Option String :=
  match u.path with
  | .opaqueText _ => none
  | .segments [] => none
  | .segments ss =>
    if (u.authority.map (·.host)).getD "" ∈ ["", "localhost"] then
      let path := charsOfBytes (ss.flatMap fun s => 47 :: Url.percentDecode s.toList)
      some (String.ofList (if endsInDrive path then path ++ ['/'] else path))
    else none

/-- The path that a workspace keeps a document under. -/
def documentPath (u : Url) : String := (filePath? u).getD u.text

/-- The address of a path: that of a file if the path is absolute, or else the path itself, read as
an address. -/
def documentUrl? (path : String) : Option Url :=
  match pathParts path with
  | "/" :: names =>
    let segments := names.map fun n => String.ofList (Url.percentEncode Url.segmentSet n.toList)
    some ⟨"file", some ⟨"", "", none⟩, .segments (if segments = [] then [""] else segments), none,
      none⟩
  | _ => Url.parse? path

/-! ## Problems, symbols and edits -/

/-- A problem at a range of a document. -/
structure Diagnostic where
  range : Range
  message : String
  related : Option (Range × String)
deriving DecidableEq

/-- The problems of a file. -/
def diagnosticsOf (source : SourceFile) : List Diagnostic :=
  source.parse.problems.map fun p =>
    ⟨.ofSpan source.text p.span, p.message,
      p.related.map fun (s, note) => (.ofSpan source.text s, note)⟩

/-- An entry of an outline with ranges in place of spans. -/
structure Symbol where
  kind : Outline.Kind
  name : String
  detail : Option String
  range : Range
  selection : Range
  children : List Symbol

mutual

/-- An entry of the outline of a text. -/
def Symbol.ofEntry (text : String) : Outline.Entry → Symbol
  | ⟨kind, name, detail, span, selection, children⟩ =>
    ⟨kind, name, detail, .ofSpan text span, .ofSpan text selection, symbolsOf text children⟩

/-- Entries of the outline of a text. -/
def symbolsOf (text : String) : List Outline.Entry → List Symbol
  | [] => []
  | e :: es => Symbol.ofEntry text e :: symbolsOf text es

end

/-- An edit of a document. -/
structure RangeEdit where
  range : Range
  replacement : String
deriving DecidableEq

/-- The edits of a file with ranges in place of spans. -/
def rangeEdits (text : String) (es : List TextEdit) : List RangeEdit :=
  es.map fun e => ⟨.ofSpan text e.span, e.replacement⟩

/-- The edits of a change by documents. -/
def documentEdits (w : Workspace) (change : SourceChange) : List (String × List RangeEdit) :=
  change.edits.foldl (fun found (f, es) =>
    match (w.file? f).bind fun source => (documentUrl? source.path).map fun u => (u, source) with
    | some (u, source) => setEntry u.text (rangeEdits source.text es) found
    | none => found) []

end Reshape.Editor
