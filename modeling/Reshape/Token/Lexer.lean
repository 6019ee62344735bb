import Reshape.Token.Basic
import Reshape.Token.Lexeme

/-!
# Tokens of a text

Lexing never stops early and skips nothing: what is no token comes out as a token of the kind
`error`, and its fault is recorded.

* `scan` reads the tokens off a list of characters, the empty token at the end included, each with
  its fault if it has one.
* `lexTokens` are the tokens of a text, `lexErrors` the faults with their places.
-/

namespace Reshape

/-- A token and what is wrong with it. -/
structure ScannedToken where
  token : Token
  fault : Option LexFault

/-- The tokens of a text that starts at offset `start`, behind a significant token that is a dot if
`afterDot` says so. -/
def scan (afterDot : Bool) (start : Nat) : List Char → List ScannedToken
  | [] => [⟨⟨.eof, start, ""⟩, none⟩]
  | c :: cs =>
    let l := lexeme afterDot c cs
    let token : Token := ⟨l.kind, start, String.ofList (c :: cs.take l.more)⟩
    let afterDot := if token.isTrivia then afterDot else l.kind == .dot
    ⟨token, l.fault⟩ :: scan afterDot token.stop (cs.drop l.more)
termination_by cs => cs.length
decreasing_by simp only [List.length_drop, List.length_cons]; omega

/-- The tokens of a text with their faults. -/
def scanText (text : String) : List ScannedToken := scan false 0 text.toList

/-- The tokens of a text. -/
def lexTokens (text : String) : List Token := (scanText text).map (·.token)

/-- The faults in a text with their places, in order. -/
def lexErrors (text : String) : List (Span × LexFault) :=
  (scanText text).filterMap fun s => s.fault.map fun f => (s.token.span, f)

end Reshape
