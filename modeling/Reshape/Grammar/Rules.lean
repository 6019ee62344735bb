import Reshape.Grammar.Items
import Reshape.Grammar.Types

/-!
# The named forms

* `Rule.grammar` says how each named form is read.
* `Grammar.runRule` runs a named form with a bound on the depth of names inside names.
-/

namespace Reshape

/-- The grammar of a named form. -/
def Rule.grammar : Rule → Grammar Bool
  | .type => do Grammar.typeBody; return true
  | .bounds => do Grammar.boundsBody; return true
  | .expr power noRecord => Grammar.exprBody power noRecord
  | .atom noRecord => Grammar.atomBody noRecord
  | .pattern => Grammar.singlePatternBody
  | .block => do Grammar.blockExpr; return true
  | .ifExpr => do Grammar.ifBody; return true
  | .item => Grammar.itemBody
  | .tokenTree => do Grammar.tokenTree; return true
  | .useTree => do Grammar.useTreeBody; return true
  | .pathType => do Grammar.pathType; return true

namespace Grammar

/-- Runs a named form in which names are nested at most `depth` deep. -/
def runRule : Nat → Rule → ParserState → Bool × ParserState
  | 0, _, s => (false, s.exhaust)
  | depth + 1, r, s => run (runRule depth) r.grammar s

end Grammar

end Reshape
