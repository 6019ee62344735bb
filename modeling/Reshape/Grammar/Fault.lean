import Reshape.Token.Lexeme
import Reshape.Text.Span

/-!
# What a parser finds wrong

* `Fault` lists what can be wrong with a text, `Fault.message` is the wording.
* `Problem` is a fault at a place, with a second place that explains it where there is one, such as
  the delimiter that was never closed.
-/

namespace Reshape

/-- What can be wrong with a text. -/
inductive Fault
  | lexical (f : LexFault)
  /-- A token of the given kind is missing. -/
  | missing (k : TokenKind)
  /-- Something else is missing; its description follows the word "expected". -/
  | expected (form : String)
  | unclosedDelimiter
  | mismatchedDelimiter
  | trailingToken
deriving DecidableEq

/-- How a kind of token is described where one is missing. -/
def TokenKind.describe : TokenKind → String
  | .lParen => "`(`"
  | .rParen => "`)`"
  | .lBracket => "`[`"
  | .rBracket => "`]`"
  | .lBrace => "`\x7b`"
  | .rBrace => "`\x7d`"
  | .comma => "`,`"
  | .colon => "`:`"
  | .semicolon => "`;`"
  | .eq => "`=`"
  | .gt => "`>`"
  | .fatArrow => "`=>`"
  | .keyword .inKw => "`in`"
  | .ident => "an identifier"
  | k => k.label

/-- The wording of a fault. -/
def Fault.message : Fault → String
  | .lexical f => f.message
  | .missing k => "expected " ++ k.describe
  | .expected form => "expected " ++ form
  | .unclosedDelimiter => "unclosed delimiter"
  | .mismatchedDelimiter => "mismatched closing delimiter"
  | .trailingToken => "unexpected token after the expression"

/-- A fault at a place. `related` is another place with a note on it. -/
structure Problem where
  fault : Fault
  span : Span
  related : Option (Span × String)
deriving DecidableEq

/-- The wording of a problem. -/
def Problem.message (p : Problem) : String := p.fault.message

end Reshape
