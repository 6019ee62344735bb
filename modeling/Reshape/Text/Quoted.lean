import Reshape.Text.Unprintable

/-!
# Quoted characters and texts

The written form of a character or text in messages and in printed trees: it stands in quotes, and
what would not be seen is escaped.

* `quoteChar` writes a character in single quotes, `quoteText` a text in double quotes.
* A backslash, the quote in use, tab, line feed, carriage return and the null character have an
  escape of two characters; extenders and unprintable characters are written by their number in
  base sixteen (`numberEscape`).
-/

namespace Reshape

/-- The number of a character in base sixteen, between braces. -/
def numberEscape (c : Char) : List Char :=
  ['\\', 'u', '{'] ++ Nat.toDigits 16 c.toNat ++ ['}']

/-- The written form of a character between two quotes. -/
def escapeChar (quote c : Char) : List Char :=
  if c = '\x00' then ['\\', '0']
  else if c = '\t' then ['\\', 't']
  else if c = '\r' then ['\\', 'r']
  else if c = '\n' then ['\\', 'n']
  else if c = '\\' ∨ c = quote then ['\\', c]
  else if isExtender c || isUnprintable c then numberEscape c
  else [c]

/-- A character in single quotes. -/
def quoteChar (c : Char) : String := String.ofList ('\'' :: escapeChar '\'' c ++ ['\''])

/-- A text in double quotes. -/
def quoteText (s : String) : String := String.ofList ('"' :: s.toList.flatMap (escapeChar '"') ++ ['"'])

end Reshape
