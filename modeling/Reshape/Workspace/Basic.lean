import Reshape.Entries
import Reshape.Parse
import Reshape.Text.LineIndex
import Reshape.Workspace.Edit
import Reshape.Workspace.Path

/-!
# Workspaces

A workspace holds the texts of files together with their trees. Files go by numbers, given out in
order and never again, and by paths.

* `Workspace.setFile`, `Workspace.setText` and `Workspace.removeFile` change one file.
* `Workspace.apply` carries out a change of several files, all of it or nothing. A change holds for
  the revision that it was made for only; every operation that changes something makes the next
  revision.
-/

namespace Reshape

/-- A file: its text, what was read from it, and where its lines start. -/
structure SourceFile where
  path : String
  text : String
  parse : Parse
  lines : LineIndex

namespace SourceFile

/-- The file with a text. -/
def ofText (path text : String) : SourceFile := ⟨path, text, parseFile text, .ofText text⟩

/-- The length of a file in bytes. -/
def size (f : SourceFile) : Nat := f.text.utf8ByteSize

end SourceFile

/-- The files by number, the numbers by path, the revision and the next free number. -/
structure Workspace where
  files : List (FileId × SourceFile)
  ids : List (List String × FileId)
  revision : Nat
  nextId : FileId

namespace Workspace

/-- The workspace without files. -/
def empty : Workspace := ⟨[], [], 0, 0⟩

/-- The file with a number. -/
def file? (w : Workspace) (f : FileId) : Option SourceFile := w.files.lookup f

/-- The number of the file with a path. -/
def fileId? (w : Workspace) (path : String) : Option FileId := w.ids.lookup (pathParts path)

/-- Stores a file under a number that is in use or is the next one; files stay in order. -/
def store (w : Workspace) (f : FileId) (source : SourceFile) : Workspace :=
  { w with files := setEntry f source w.files }

/-- Makes the next revision. -/
def advance (w : Workspace) : Workspace := { w with revision := w.revision + 1 }

/-- Adds a file, or gives the file with that path a new text. -/
def setFile (w : Workspace) (path text : String) : FileId × Workspace :=
  match w.fileId? path with
  | some f => (f, (w.store f (.ofText path text)).advance)
  | none =>
    let f := w.nextId
    let w := { w with nextId := f + 1, ids := setEntry (pathParts path) f w.ids }
    (f, (w.store f (.ofText path text)).advance)

/-- Gives a file a new text. -/
def setText (w : Workspace) (f : FileId) (text : String) : Except ConversionError Workspace :=
  match w.file? f with
  | some source => .ok (w.store f (.ofText source.path text)).advance
  | none => .error .unknownFile

/-- Takes a file away. -/
def removeFile (w : Workspace) (f : FileId) : Option (SourceFile × Workspace) :=
  (w.file? f).map fun source =>
    (source, { w with
      files := eraseEntry f w.files
      ids := eraseEntry (pathParts source.path) w.ids }.advance)

/-- The files that a change touches, with their new texts. -/
def stage (w : Workspace) (edits : List (FileId × List TextEdit)) :
    Except ConversionError (List (FileId × SourceFile)) :=
  edits.mapM fun (f, es) =>
    match w.file? f with
    | none => .error .unknownFile
    | some source => (applyEdits source.text es).map fun text => (f, .ofText source.path text)

/-- Carries out a change that was made for the current revision. -/
def apply (w : Workspace) (c : SourceChange) : Except ConversionError Workspace :=
  if c.base ≠ w.revision then .error (.staleSnapshot c.base w.revision)
  else
    match w.stage c.edits with
    | .ok staged => .ok (staged.foldl (fun w (f, source) => w.store f source) w).advance
    | .error e => .error e

/-- The workspace with files added in order. -/
def ofFiles (files : List (String × String)) : Workspace :=
  files.foldl (fun w (path, text) => (w.setFile path text).2) empty

end Workspace

end Reshape
