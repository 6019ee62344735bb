import Reshape.Text.Reader

/-!
# Strings, keys and the space between tokens

The lowest layer of the notation of settings files.

* A comment runs from a hash to the end of its line. Comments and strings hold no control character
  other than tab.
* Strings in double quotes know escapes, strings in single quotes do not. In three quotes of either
  kind a string may run over several lines; a line feed right behind the opening quotes does not
  count.
-/

namespace Reshape.Toml

open Reader

/-- Whether a character may stand in comments and strings as it is. -/
def isPlain (c : Char) : Bool := c = '\t' || (32 ≤ c.toNat && c.toNat ≠ 127)

/-- Whether a character separates tokens inside a line. -/
def isGap (c : Char) : Bool := c = ' ' || c = '\t'

/-- The space between two tokens inside a line. -/
def gap : Reader Unit := discard (chars isGap)

/-- The end of a line. -/
def lineEnd : Reader Unit := word "\n" <|> word "\r\n"

/-- A comment, without the end of its line. -/
def comment : Reader Unit := do
  word "#"
  discard (chars isPlain)

/-- The rest of a line behind its last token, or of the text. -/
def lineRest : Reader Unit := do
  gap
  discard (optional comment)
  lineEnd <|> finish

/-- The space between two tokens that may stand on different lines. -/
def wideGap : Reader Unit := do
  gap
  discard (many do
    discard (optional comment)
    lineEnd
    gap)

/-! ## Strings -/

/-- The value of a digit in base sixteen. -/
def hexValue (c : Char) : Nat :=
  if c.isDigit then c.toNat - '0'.toNat
  else if 'a' ≤ c then c.toNat - 'a'.toNat + 10
  else c.toNat - 'A'.toNat + 10

/-- Whether a character is a digit in base sixteen. -/
def isHexDigit (c : Char) : Bool :=
  c.isDigit || ('a' ≤ c && c ≤ 'f') || ('A' ≤ c && c ≤ 'F')

/-- The number that digits in base sixteen stand for. -/
def hexNumber (cs : List Char) : Nat := cs.foldl (fun n c => n * 16 + hexValue c) 0

/-- A character by its number, written with a given number of digits. -/
def numbered (digits : Nat) : Reader (List Char) := do
  let n := hexNumber (← exactly isHexDigit digits)
  require (n.isValidChar)
  return [Char.ofNat n]

/-- An escaped character. -/
def escape : Reader (List Char) := do
  word "\\"
  match ← char fun _ => true with
  | 'b' => return ['\x08']
  | 't' => return ['\t']
  | 'n' => return ['\n']
  | 'f' => return ['\x0c']
  | 'r' => return ['\r']
  | '"' => return ['"']
  | '\\' => return ['\\']
  | 'u' => numbered 4
  | 'U' => numbered 8
  | _ => failure

/-- A backslash at the end of a line, which takes away all space that follows. -/
def escapedLineEnd : Reader (List Char) := do
  word "\\"
  gap
  lineEnd
  discard (chars isGap)
  discard (many do lineEnd; gap)
  return []

/-- A string in double quotes. -/
def basicString : Reader String := do
  word "\""
  let pieces ← many (chars1 (fun c => isPlain c && c ≠ '"' && c ≠ '\\') <|> escape)
  word "\""
  return String.ofList pieces.flatten

/-- A string in single quotes. -/
def literalString : Reader String := do
  word "'"
  let cs ← chars fun c => isPlain c && c ≠ '\''
  word "'"
  return String.ofList cs

/-- A line end inside a string over several lines, which counts as a line feed. -/
def innerLineEnd : Reader (List Char) := do
  lineEnd
  return ['\n']

/-- One quote or two that do not belong to closing quotes. -/
def innerQuotes (quote : Char) : Reader (List Char) := ofFn fun cs =>
  let quotes := cs.takeWhile (· = quote)
  if quotes.length = 1 ∨ quotes.length = 2 then some (quotes, cs.dropWhile (· = quote)) else none

/-- Three closing quotes, with up to two more in front that belong to the string. -/
def closingQuotes (quote : Char) : Reader (List Char) := ofFn fun cs =>
  let quotes := cs.takeWhile (· = quote)
  if 3 ≤ quotes.length ∧ quotes.length ≤ 5 then some (quotes.drop 3, cs.dropWhile (· = quote))
  else none

/-- A string over several lines, from pieces of a given kind. -/
def longString (quote : Char) (piece : Reader (List Char)) : Reader String := do
  word (String.ofList [quote, quote, quote])
  discard (optional lineEnd)
  let pieces ← many (piece <|> innerLineEnd <|> innerQuotes quote)
  let last ← closingQuotes quote
  return String.ofList (pieces.flatten ++ last)

/-- A string over several lines in double quotes. -/
def longBasicString : Reader String :=
  longString '"'
    (chars1 (fun c => isPlain c && c ≠ '"' && c ≠ '\\') <|> escapedLineEnd <|> escape)

/-- A string over several lines in single quotes. -/
def longLiteralString : Reader String :=
  longString '\'' (chars1 fun c => isPlain c && c ≠ '\'')

/-- A string of any kind. -/
def string : Reader String :=
  longBasicString <|> basicString <|> longLiteralString <|> literalString

/-! ## Keys -/

/-- Whether a character may stand in a key without quotes. -/
def isBare (c : Char) : Bool := c.isAlphanum || c = '_' || c = '-'

/-- One part of a key. -/
def keyPart : Reader String := do
  gap
  let part ← basicString <|> literalString <|> (String.ofList <$> chars1 isBare)
  gap
  return part

/-- How deep values may nest and how many parts a key may have. -/
def depthLimit : Nat := 79

/-- A key of parts that are separated by dots. -/
def key : Reader (List String) := do
  let parts ← sepBy1 keyPart (word ".")
  require (parts.length ≤ depthLimit)
  return parts

end Reshape.Toml
