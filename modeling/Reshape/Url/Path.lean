import Reshape.Url.Percent

/-!
# Paths of addresses

A path is a list of segments. Reading one takes single dots away and lets double dots take away the
segment before them, whether they are escaped or not.

* `readPath` reads the segments of a path up to a query or fragment.
* In paths of files a drive letter at the start is kept by double dots, and no empty segment stands
  in front of another one.
-/

namespace Reshape.Url

/-- Whether a segment means the place itself. -/
def isSingleDot (segment : String) : Bool := segment.toLower ∈ [".", "%2e"]

/-- Whether a segment means the place above. -/
def isDoubleDot (segment : String) : Bool :=
  segment.toLower ∈ ["..", ".%2e", "%2e.", "%2e%2e"]

/-- Whether a segment is a drive letter with a colon or bar. -/
def isDrive (segment : String) : Bool :=
  match segment.toList with
  | [c, d] => c.isAlpha && (d = ':' || d = '|')
  | _ => false

/-- Whether a segment is a drive letter with a colon. -/
def isNormalDrive (segment : String) : Bool := isDrive segment && segment.endsWith ":"

/-- Takes away the last segment. The drive of a file stays. -/
def shorten (file : Bool) (segments : List String) : List String :=
  match segments with
  | [s] => if file && isNormalDrive s then [s] else []
  | _ => segments.dropLast

/-- Adds a segment; whether a slash follows it says if an empty segment has to end the path. -/
def addSegment (file slash : Bool) (segments : List String) (segment : String) : List String :=
  if isDoubleDot segment then
    let shorter := shorten file segments
    if slash then shorter else shorter ++ [""]
  else if isSingleDot segment then
    if slash then segments else segments ++ [""]
  else if file && segments.isEmpty && isDrive segment then [String.ofList [segment.front, ':']]
  else segments ++ [segment]

/-- Reads segments off a text, given what has been read of the present one. -/
def readSegments (special file : Bool) (segments : List String) (current : List Char) :
    List Char → List String × List Char
  | [] => (addSegment file false segments (segmentText current), [])
  | c :: cs =>
    if c = '?' ∨ c = '#' then (addSegment file false segments (segmentText current), c :: cs)
    else if c = '/' ∨ (special ∧ c = '\\') then
      readSegments special file (addSegment file true segments (segmentText current)) [] cs
    else readSegments special file segments (c :: current) cs
where
  /-- The text of a segment, read backwards. -/
  segmentText (current : List Char) : String :=
    String.ofList (percentEncode pathSet current.reverse)

/-- Reads the path of an address, and what stands behind it. A path of a file has no empty segment
in front of another one. -/
def readPath (special file : Bool) (cs : List Char) : List String × List Char :=
  let cs :=
    match cs with
    | [] => []
    | c :: rest => if c = '/' ∨ (special ∧ c = '\\') then rest else c :: rest
  let (segments, rest) := readSegments special file [] [] cs
  if file then
    let kept := segments.dropWhile (· = "")
    (if kept.isEmpty then [""] else kept, rest)
  else (segments, rest)

end Reshape.Url
