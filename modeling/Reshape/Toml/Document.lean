import Reshape.Toml.Number
import Reshape.Toml.Table

/-!
# Settings files

* `value` reads a value. Lists may run over several lines and may end in a comma; records in braces
  may not.
* `Line` is what a line says, `lines` reads them all.
* `document?` reads a settings file: a key belongs to the table of the last header before it.
-/

namespace Reshape.Toml

open Reader

/-! ## Values -/

/-- A list in brackets. -/
def listOf (element : Reader Data) : Reader Data := do
  word "["
  let elements ← sepBy (do
    wideGap
    let d ← element
    wideGap
    return d) (word ",")
  if !elements.isEmpty then discard (optional (word ","))
  wideGap
  word "]"
  return .list elements

/-- A record in braces. -/
def recordOf (element : Reader Data) : Reader Data := do
  word "\x7b"
  let pairs ← sepBy (do
    let path ← key
    word "="
    gap
    let d ← element
    gap
    return (path, d)) (word ",")
  gap
  word "\x7d"
  match Table.ofPairs .header pairs with
  | some t => return t.toData
  | none => failure

/-- A value without parts. -/
def scalar : Reader Data := do
  match ← peek? with
  | some 't' =>
    word "true"
    return .bool true
  | some 'f' =>
    word "false"
    return .bool false
  | _ => (.text <$> string) <|> moment <|> float <|> int <|> specialFloat

/-- A value with lists and records nested to a limited depth. -/
def valueWithin : Nat → Reader Data
  | 0 => scalar
  | depth + 1 => do
    match ← peek? with
    | some '[' => listOf (valueWithin depth)
    | some '\x7b' => recordOf (valueWithin depth)
    | _ => scalar

/-- A value. -/
def value : Reader Data := valueWithin depthLimit

/-! ## Lines -/

/-- What a line says. -/
inductive Line
  | pair (path : List String) (d : Data)
  | header (path : List String)
  | element (path : List String)
  | nothing

/-- A line with a token on it, or the end of a line without one. -/
def line : Reader Line := do
  gap
  match ← peek? with
  | none => failure
  | some '\n' | some '\r' =>
    lineEnd
    return .nothing
  | some '#' =>
    lineRest
    return .nothing
  | some '[' =>
    let element ← optional (word "[[")
    if element.isSome then
      let path ← key
      word "]]"
      lineRest
      return .element path
    else
      word "["
      let path ← key
      word "]"
      lineRest
      return .header path
  | some _ =>
    let path ← key
    word "="
    gap
    let d ← value
    lineRest
    return .pair path d

/-- All lines of a text. A mark of the byte order may stand in front of them. -/
def lines : Reader (List Line) := do
  discard (optional (word "\uFEFF"))
  let ls ← many line
  gap
  finish
  return ls

/-! ## The whole file -/

/-- What has been read so far: the table of the whole file, and the header in force. -/
structure Draft where
  root : Table
  current : List String

/-- Adds what a line says. -/
def Draft.add (d : Draft) : Line → Option Draft
  | .nothing => some d
  | .header path => (d.root.openTable path).map (⟨·, path⟩)
  | .element path => (d.root.openElement path).map (⟨·, path⟩)
  | .pair path v =>
    (d.root.update .implied (Table.insert path v) d.current).map (⟨·, d.current⟩)

/-- The value of a settings file. -/
def document? (text : String) : Option Data := do
  let ls ← lines.all? text
  let draft ← ls.foldlM Draft.add ⟨.empty .header, []⟩
  return draft.root.toData

end Reshape.Toml
