import Reshape.Text.Slice
import Reshape.Workspace.Error

/-!
# Edits

An edit puts a text in the place of a span. Edits are made together: all spans mean the text before
the first of them.

* `checkEdits` finds what keeps sorted edits from being made: a span beyond the end of the text, or
  two edits that clash. Spans may touch, and an insertion may stand at either end of a replaced
  span; two insertions at one place clash.
* `applyEdits` is the text with edits made. A span that splits a character lies outside the text.
* `SourceChange` holds the edits of several files, made for one revision of the workspace.
-/

namespace Reshape

/-- A text in the place of a span. -/
structure TextEdit where
  span : Span
  replacement : String
deriving DecidableEq

/-- Whether the first edit comes before the second, or stands at the same place. -/
def TextEdit.le (d e : TextEdit) : Bool :=
  d.span.start < e.span.start || (d.span.start == e.span.start && d.span.stop ≤ e.span.stop)

/-- Edits in the order of their places. -/
def sortEdits (es : List TextEdit) : List TextEdit := es.mergeSort TextEdit.le

/-- Whether an edit clashes with one that follows it. -/
def TextEdit.clashes (d e : TextEdit) : Bool :=
  e.span.start < d.span.stop || (d.span == e.span && d.span.isEmpty)

/-- Whether an edit clashes with the next one. -/
def haveClash : List TextEdit → Bool
  | d :: e :: es => d.clashes e || haveClash (e :: es)
  | _ => false

/-- What keeps sorted edits from being made in a text of the given length. -/
def checkEdits (length : Nat) (es : List TextEdit) : Except ConversionError Unit :=
  if es.any fun e => length < e.span.stop then .error .editOutOfBounds
  else if haveClash es then .error .overlappingEdits
  else .ok ()

/-- Makes sorted edits in the rest of a text that starts at an offset. -/
def spliceFrom (offset : Nat) (rest : List Char) : List TextEdit → Except ConversionError (List Char)
  | [] => .ok rest
  | e :: es =>
    let before := e.span.start - offset
    let upTo := e.span.stop - offset
    if offset ≤ e.span.start ∧ isBoundary before rest ∧ isBoundary upTo rest then
      match spliceFrom e.span.stop (dropBytes upTo rest) es with
      | .ok more => .ok (takeBytes before rest ++ e.replacement.toList ++ more)
      | .error err => .error err
    else .error .editOutOfBounds

/-- A text with edits made. -/
def applyEdits (text : String) (es : List TextEdit) : Except ConversionError String :=
  let sorted := sortEdits es
  match checkEdits text.utf8ByteSize sorted with
  | .ok () => (spliceFrom 0 text.toList sorted).map String.ofList
  | .error e => .error e

/-! ## Edits of several files -/

/-- Adds an edit to those of a file. Files stand in the order of their numbers. -/
def addEdit (file : FileId) (e : TextEdit) :
    List (FileId × List TextEdit) → List (FileId × List TextEdit)
  | [] => [(file, [e])]
  | (f, es) :: rest =>
    if f = file then (f, es ++ [e]) :: rest
    else if file < f then (file, [e]) :: (f, es) :: rest
    else (f, es) :: addEdit file e rest

/-- The edits of several files, for a revision of the workspace. -/
structure SourceChange where
  base : Nat
  edits : List (FileId × List TextEdit)
deriving DecidableEq

namespace SourceChange

/-- No edits yet. -/
def empty (base : Nat) : SourceChange := ⟨base, []⟩

/-- Adds an edit. -/
def push (c : SourceChange) (file : FileId) (e : TextEdit) : SourceChange :=
  { c with edits := addEdit file e c.edits }

/-- Whether there is no edit. -/
def isEmpty (c : SourceChange) : Bool := c.edits.all fun (_, es) => es.isEmpty

/-- The number of edits. -/
def editCount (c : SourceChange) : Nat := c.edits.foldr (fun (_, es) n => es.length + n) 0

/-- Sorts and checks the edits file by file, up to the first file that fails. -/
def checkFiles (length : FileId → Option Nat) :
    List (FileId × List TextEdit) → Except ConversionError Unit × List (FileId × List TextEdit)
  | [] => (.ok (), [])
  | (f, es) :: rest =>
    match length f with
    | none => (.error .unknownFile, (f, es) :: rest)
    | some n =>
      match checkEdits n (sortEdits es) with
      | .error e => (.error e, (f, sortEdits es) :: rest)
      | .ok () =>
        let (r, checked) := checkFiles length rest
        (r, (f, sortEdits es) :: checked)

/-- Sorts and checks the edits of a change, given the lengths of the files. -/
def validate (c : SourceChange) (length : FileId → Option Nat) :
    Except ConversionError Unit × SourceChange :=
  let (r, edits) := checkFiles length c.edits
  (r, { c with edits })

end SourceChange

end Reshape
