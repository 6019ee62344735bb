import Reshape.Text.Span
import Reshape.Text.Slice

/-!
# Places in the view of an editor

An editor counts lines from zero, and inside a line the units of sixteen bits that encode its
characters.

* `Position.ofOffset` is the place of a byte offset. An offset inside a character means the start of
  the character, one behind the end of the text means its end.
* `Position.offset?` is the offset of a place. A place behind the end of its line means the end of
  the line, one inside a character the end of the character.
-/

namespace Reshape.Editor

/-- A line and a character in it, both counted from zero. -/
structure Position where
  line : Nat
  character : Nat
deriving DecidableEq

/-- The text between two places. -/
structure Range where
  start : Position
  stop : Position
deriving DecidableEq

/-- The number of units that encode a character. -/
def unitsOf (c : Char) : Nat := if c.toNat < 0x10000 then 1 else 2

/-- The number of units that encode characters. -/
def unitLength (cs : List Char) : Nat := cs.foldr (fun c n => unitsOf c + n) 0

/-- The characters that lie before an offset as a whole. -/
def wholeBefore : Nat → List Char → List Char
  | _, [] => []
  | n, c :: cs => if c.utf8Size ≤ n then c :: wholeBefore (n - c.utf8Size) cs else []

/-- The characters behind the last line feed. -/
def lastLine (cs : List Char) : List Char := (cs.reverse.takeWhile (· ≠ '\n')).reverse

/-- The place behind characters at the start of a text. -/
def Position.after (cs : List Char) : Position := ⟨cs.count '\n', unitLength (lastLine cs)⟩

/-- The place of an offset. -/
def Position.ofOffset (text : String) (offset : Nat) : Position :=
  .after (wholeBefore offset text.toList)

/-- The range that a span covers. -/
def Range.ofSpan (text : String) (s : Span) : Range :=
  ⟨.ofOffset text s.start, .ofOffset text s.stop⟩

/-- The offset at which a line starts, and what stands from there on. -/
def lineStart? : Nat → Nat → List Char → Option (Nat × List Char)
  | 0, offset, cs => some (offset, cs)
  | _ + 1, _, [] => none
  | n + 1, offset, c :: cs =>
    lineStart? (if c = '\n' then n else n + 1) (offset + c.utf8Size) cs

/-- The offset of a character in the rest of a line. -/
def columnOffset : Nat → Nat → List Char → Nat
  | _, offset, [] => offset
  | 0, offset, _ :: _ => offset
  | units + 1, offset, c :: cs =>
    if c = '\n' then offset else columnOffset (units + 1 - unitsOf c) (offset + c.utf8Size) cs

/-- The offset of a place, if the text has that line. -/
def Position.offset? (text : String) (p : Position) : Option Nat :=
  (lineStart? p.line 0 text.toList).map fun (offset, cs) => columnOffset p.character offset cs

end Reshape.Editor
