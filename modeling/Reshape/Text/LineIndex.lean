/-!
# Lines and columns

A line index holds the byte offset at which each line of a text starts. Lines and columns count
from one, columns in bytes; both are 32-bit words, as are the offsets computed from them.

* `LineIndex.position` is the line and column of an offset.
* `LineIndex.offset?` is the offset of a line and column; the column is not held against the
  length of the line.
-/

namespace Reshape

/-- The offsets behind the line feeds of a text that starts at offset `start`. -/
def lineStartsFrom (start : Nat) : List Char → List Nat
  | [] => []
  | c :: cs =>
    let next := start + c.utf8Size
    if c = '\n' then next :: lineStartsFrom next cs else lineStartsFrom next cs

/-- The offsets at which the lines after the first one start; the first starts at `0`. -/
structure LineIndex where
  later : List Nat
deriving DecidableEq

namespace LineIndex

/-- The line index of a text. -/
def ofText (text : String) : LineIndex := ⟨lineStartsFrom 0 text.toList⟩

/-- The offsets at which the lines start. -/
def starts (lines : LineIndex) : List Nat := 0 :: lines.later

/-- The number of lines: there is one more of them than of line feeds. -/
def count (lines : LineIndex) : Nat := lines.starts.length

/-- The line and column of an offset: the line is the last one that does not start behind it. -/
def position (lines : LineIndex) (offset : Nat) : Nat × Nat :=
  let reached := lines.starts.takeWhile (· ≤ offset)
  (reached.length, offset - reached.getLastD 0 + 1)

/-- The offset of a column of a line, computed in words. -/
def offset? (lines : LineIndex) (line column : UInt32) : Option UInt32 :=
  if line = 0 ∨ column = 0 then none
  else (lines.starts[line.toNat - 1]?).map fun start => UInt32.ofNat start + column - 1

end LineIndex

end Reshape
