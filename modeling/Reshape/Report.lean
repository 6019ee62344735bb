import Reshape.Parse

/-!
# Reports

A report shows a problem together with the line of the source that it lies in. The span of the
problem is marked below the line, and a message hangs from the middle of the mark.

* `Report.ofUsage` and `Report.ofProblem` are the two kinds of reports.
* `Report.text` is the layout of a report. The marks follow the width of what stands above them; a
  tab is as wide as the way to the next tab stop.
-/

namespace Reshape

/-- What a report says. -/
structure Report where
  code : String
  headline : String
  label : String
  span : Span
  help : Option String

namespace Report

/-- The report of a usage that cannot be rewritten. -/
def ofUsage (span : Span) (message : String) : Report where
  code := "R0001"
  headline := "usage cannot be converted"
  label := message
  span := span
  help := some "rewrite this usage by hand, then run the conversion again"

/-- The report of what is wrong with a text. -/
def ofProblem (p : Problem) : Report where
  code := "R0100"
  headline := p.message
  label := p.message
  span := p.span
  help := none

/-- The part of a span that lies inside a text, at least one character wide where there is one. -/
def clamp (length : Nat) (s : Span) : Span :=
  let start := min s.start length
  let stop := max (min s.stop length) start
  if start = stop then ⟨start, min (stop + 1) length⟩ else ⟨start, stop⟩

theorem clamp_stop_le (length : Nat) (s : Span) : (clamp length s).stop ≤ length := by
  unfold clamp
  dsimp only
  split <;> simp only <;> omega

theorem clamp_start_lt_stop {length : Nat} {s : Span} (h : s.start < length) :
    (clamp length s).start < (clamp length s).stop := by
  unfold clamp
  dsimp only
  split <;> simp only <;> omega

/-! ## Lines of the source -/

/-- Whether a character ends a line of a report. -/
def isLineEnd (c : Char) : Bool :=
  c ∈ ['\n', '\x0b', '\x0c', '\r', '\u0085', '\u2028', '\u2029']

/-- The lines of a text, each with what ends it. A carriage return and a line feed end one line. -/
def sourceLines : List Char → List (List Char)
  | [] => []
  | '\r' :: '\n' :: cs => ['\r', '\n'] :: sourceLines cs
  | c :: cs =>
    if isLineEnd c then [c] :: sourceLines cs
    else
      match sourceLines cs with
      | [] => [[c]]
      | l :: ls => (c :: l) :: ls

/-- A place in a text: the number of its line, its column, both from zero, and the line. -/
structure Place where
  line : Nat
  column : Nat
  content : List Char

/-- The place of an offset, given the number of lines in front. What follows the last character
belongs to the last line. -/
def place (before offset : Nat) : List (List Char) → Place
  | [] => ⟨before, offset, []⟩
  | l :: ls =>
    if offset < l.length ∨ ls.isEmpty then ⟨before, offset, l⟩
    else place (before + 1) (offset - l.length) ls

/-! ## Columns -/

/-- How wide a character is that stands in a column. -/
def cellWidth (column : Nat) (c : Char) : Nat := if c = '\t' then 4 - column % 4 else 1

/-- The widths of the columns of a line, up to a number of columns. -/
def cellWidths (content : List Char) (columns : Nat) : List (Nat × Nat) :=
  (List.range columns).map fun i => (i, (content[i]?.map (cellWidth i)).getD 1)

/-- A line as a report shows it, where all space looks alike. -/
def shownLine (line : List Char) : String :=
  String.ofList ((line.zipIdx.map fun (c, i) =>
    if isBlank c then List.replicate (cellWidth i c) ' ' else [c]).flatten)

/-- A line drawn column by column, where a column is one character and others to its right. -/
def drawn (widths : List (Nat × Nat)) (cell : Nat → Char × Char) : String :=
  String.ofList (widths.flatMap fun (i, width) =>
    match width with
    | 0 => []
    | w + 1 => (cell i).1 :: List.replicate w (cell i).2)

/-- The marks below the columns of a span, with a stem in the middle. -/
def markCell (start stop i : Nat) : Char × Char :=
  if i = (start + stop) / 2 then if start < stop then ('┬', '─') else ('│', ' ')
  else if start ≤ i ∧ i < stop then ('─', '─')
  else (' ', ' ')

/-- The arm that leads from the stem to the message. -/
def armCell (start stop i : Nat) : Char × Char :=
  if i = (start + stop) / 2 then ('╰', '─')
  else if (start + stop) / 2 < i then ('─', '─')
  else (' ', ' ')

/-! ## The layout -/

/-- The lines of a report about a text. -/
def lines (r : Report) (source : String) : List String :=
  let s := clamp source.utf8ByteSize r.span
  let spot := place 0 s.start (sourceLines source.toList)
  let number := toString (spot.line + 1)
  let line := trimBlanksEnd spot.content
  let stop := spot.column + (s.stop - s.start)
  let widths := cellWidths line (stop + 2)
  let blank := String.ofList (List.replicate (number.length + 2) ' ')
  let rule := String.ofList (List.replicate (number.length + 2) '─')
  ["[" ++ r.code ++ "] Error: " ++ r.headline,
   blank ++ "╭─[ <unknown>:" ++ number ++ ":" ++ toString (spot.column + 1) ++ " ]",
   blank ++ "│",
   " " ++ number ++ " │ " ++ shownLine line,
   blank ++ "│ " ++ drawn widths (markCell spot.column stop),
   blank ++ "│ " ++ drawn widths (armCell spot.column stop) ++ " " ++ r.label]
  ++ (match r.help with
    | some help => [blank ++ "│ ", blank ++ "│ Help: " ++ help]
    | none => [])
  ++ [rule ++ "╯"]

/-- A report about a text. -/
def text (r : Report) (source : String) : String :=
  "".intercalate ((r.lines source).map (· ++ "\n"))

end Report

end Reshape
