import Reshape.Config.Basic
import Reshape.Convert.Site

/-!
# Rewriting sites

The sites of a file are rewritten from the shortest to the longest, so that what stands inside a
site is finished before the site itself. A site copies parts of the text: finished edits inside such
a part are made in the copy and are no longer edits of their own.

* `Rewriting` is a step that changes the finished edits and may fail.
* `patternSlots` are the parts of a positional pattern.
* `rewriteSites` are the edits of a file that are left at the end: those of the outermost sites.
-/

namespace Reshape

/-- A step that changes the finished edits. -/
abbrev Rewriting := StateT (List TextEdit) (Except ConversionError)

namespace Rewriting

/-- The text between two offsets that fall between characters. -/
def slice (text : String) (s : Span) : Rewriting String :=
  if s.start ≤ s.stop ∧ isBoundary s.start text.toList ∧ isBoundary s.stop text.toList then
    pure (sliceText text s.start s.stop)
  else throw .editOutOfBounds

/-- An edit as it is made in a copy that starts at an offset. -/
def shift (offset : Nat) (e : TextEdit) : TextEdit :=
  ⟨⟨e.span.start - offset, e.span.stop - offset⟩, e.replacement⟩

/-- A copy of a part of the text with the finished edits inside it made. They are finished no
more. -/
def render (text : String) (s : Span) : Rewriting String := do
  let part ← slice text s
  let (inner, outer) := (← get).partition fun e => s.contains e.span
  set outer
  applyEdits part (inner.map (shift s.start))

end Rewriting

/-! ## Literals -/

/-- Whether values are given for all fields, each once. -/
def isComplete (count : Nat) (values : List (Nat × String)) : Bool :=
  values.length == count && (List.range count).all fun i => values.any (·.1 == i)

/-- Values in the order of their fields. -/
def byField (values : List (Nat × String)) : List (Nat × String) :=
  values.mergeSort fun v w => v.1 ≤ w.1

/-- The value of a field. -/
def renderValue (text : String) : Nat × FieldValue → Rewriting (Nat × String)
  | (i, .shorthand name) => pure (i, name)
  | (i, .expr s) => return (i, ← Rewriting.render text s)

/-- The value behind two dots. -/
def renderBase (text : String) : Option Span → Rewriting (List String)
  | none => pure []
  | some s => return [".." ++ (← Rewriting.render text s)]

/-- A literal with all fields becomes a call. Any other keeps its braces, and its fields go by their
places. -/
def rewriteLiteral (text : String) (plan : Plan) (path : Span) (fields : List (Nat × FieldValue))
    (base : Option Span) : Rewriting String := do
  let values ← fields.mapM (renderValue text)
  let name ← Rewriting.slice text path
  let values := byField values
  if base.isNone && isComplete plan.size values then
    return name ++ "(" ++ ", ".intercalate (values.map (·.2)) ++ ")"
  else
    let initializers := values.map fun (i, value) => toString i ++ ": " ++ value
    let parts := initializers ++ (← renderBase text base)
    return name ++ " \x7b " ++ ", ".intercalate parts ++ " \x7d"

/-! ## Patterns -/

/-- The part that is bound to each field; the later one counts if there are two. -/
def boundSlots (count : Nat) (bound : List (Nat × String)) : List (Option String) :=
  (List.range count).map fun i => bound.reverse.lookup i

/-- The parts of a positional pattern for so many fields, some of which are bound. A mark for all
other fields is kept if it stands for fields at the end only, and for enough of them. -/
def patternSlots (count : Nat) (bound : List (Nat × String)) (rest : Bool) (collapseMin : Nat) :
    List String :=
  let slots := boundSlots count bound
  let tail := (slots.reverse.takeWhile (·.isNone)).length
  let head := slots.take (count - tail)
  if rest && head.all (·.isSome) && 0 < tail && collapseMin ≤ tail then
    head.filterMap id ++ [".."]
  else slots.map (·.getD "_")

/-- A part of a pattern. -/
def renderPart (text : String) : Nat × Span → Rewriting (Nat × String)
  | (i, s) => return (i, ← Rewriting.render text s)

/-- A pattern becomes a positional one. -/
def rewritePattern (text : String) (plan : Plan) (config : Config) (path : Span)
    (parts : List (Nat × Span)) (rest : Bool) : Rewriting String := do
  let bound ← parts.mapM (renderPart text)
  let slots := patternSlots plan.size bound rest config.collapseRestMin
  return (← Rewriting.slice text path) ++ "(" ++ ", ".intercalate slots ++ ")"

/-! ## Sites -/

/-- What a site becomes. -/
def rewriteSite (text : String) (plan : Plan) (config : Config) (s : Site) : Rewriting Unit := do
  let replacement ← match s.kind with
    | .mention => return ()
    | .access i => pure (toString i)
    | .construction path fields base => rewriteLiteral text plan path fields base
    | .pattern path parts rest => rewritePattern text plan config path parts rest
  modify (· ++ [⟨s.span, replacement⟩])

/-- Whether a site is rewritten before another: shorter ones come first. -/
def Site.le (s t : Site) : Bool :=
  s.span.size < t.span.size || (s.span.size == t.span.size && s.span.start ≤ t.span.start)

/-- The edits that rewrite the sites of a file. -/
def rewriteSites (text : String) (sites : List Site) (plan : Plan) (config : Config) :
    Except ConversionError (List TextEdit) :=
  (((sites.mergeSort Site.le).forM (rewriteSite text plan config)).run []).map (·.2)

end Reshape
