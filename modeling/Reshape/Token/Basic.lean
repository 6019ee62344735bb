import Reshape.Text.Slice
import Reshape.Text.Span
import Reshape.Token.Kind

/-!
# Tokens

A token is a kind and the text it stands for, at a place in the source.

* `Token.span` is its place, `Token.isTrivia` says whether it is a blank or a comment.
* `significant` are the tokens of a list that are not trivia.
* `tokensText` is the text that a list of tokens stands for.
-/

namespace Reshape

/-- A token that starts at the byte offset `start`. -/
structure Token where
  kind : TokenKind
  start : Nat
  text : String
deriving DecidableEq, Inhabited

namespace Token

/-- The offset behind the token. -/
def stop (t : Token) : Nat := t.start + t.text.utf8ByteSize

/-- The place of the token. -/
def span (t : Token) : Span := ⟨t.start, t.stop⟩

/-- Whether the token is a blank or a comment. -/
def isTrivia (t : Token) : Bool := t.kind.isTrivia

end Token

/-- The tokens that are neither blanks nor comments. -/
def significant (ts : List Token) : List Token := ts.filter (!·.isTrivia)

/-- The text that tokens stand for. -/
def tokensText (ts : List Token) : String := String.join (ts.map (·.text))

end Reshape
