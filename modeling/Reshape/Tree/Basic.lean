import Reshape.Text.Quoted
import Reshape.Token.Basic
import Reshape.Tree.Kind

/-!
# Syntax trees

A syntax tree has the tokens of a text as its leaves, trivia included, and inner nodes of the kinds
of `NodeKind`. Every node carries its place in the text; a node without tokens has an empty place.

* `Tree.leaves` are the tokens of a tree, in order, and `Tree.text` is the text they stand for.
* `Tree.lines` prints a tree, one line for a node or token, indented by depth.
-/

namespace Reshape

/-- A syntax tree. -/
inductive Tree
  | leaf (token : Token)
  | node (kind : NodeKind) (span : Span) (children : List Tree)
deriving Inhabited

namespace Tree

/-- The place of a tree. -/
def span : Tree → Span
  | leaf t => t.span
  | node _ s _ => s

/-- The children of a tree. -/
def children : Tree → List Tree
  | leaf _ => []
  | node _ _ ts => ts

/-- The kind of an inner node. -/
def kind? : Tree → Option NodeKind
  | leaf _ => none
  | node k _ _ => some k

/-- The token of a leaf. -/
def token? : Tree → Option Token
  | leaf t => some t
  | node _ _ _ => none

mutual

/-- The tokens of a tree, in order. -/
def leaves : Tree → List Token
  | leaf t => [t]
  | node _ _ ts => forestLeaves ts

/-- The tokens of a list of trees, in order. -/
def forestLeaves : List Tree → List Token
  | [] => []
  | t :: ts => leaves t ++ forestLeaves ts

end

/-- The text that a tree stands for. -/
def text (t : Tree) : String := tokensText t.leaves

theorem forestLeaves_eq_flatMap (ts : List Tree) : forestLeaves ts = ts.flatMap leaves := by
  induction ts with
  | nil => rfl
  | cons t ts ih => simp [forestLeaves, ih]

/-! ## Printing -/

/-- A place as it is written in printed trees. -/
def showSpan (s : Span) : String := toString s.start ++ ".." ++ toString s.stop

/-- The line of a token. -/
def tokenLine (t : Token) : String :=
  t.kind.label ++ "@" ++ showSpan t.span ++ " " ++ quoteText t.text

/-- The line of an inner node. -/
def nodeLine (k : NodeKind) (s : Span) : String := k.label ++ "@" ++ showSpan s

mutual

/-- The lines of a printed tree whose root stands at a depth. -/
def linesAt (depth : Nat) : Tree → List String
  | leaf t => [String.ofList (List.replicate (2 * depth) ' ') ++ tokenLine t]
  | node k s ts =>
    (String.ofList (List.replicate (2 * depth) ' ') ++ nodeLine k s) :: forestLinesAt (depth + 1) ts

/-- The lines of printed trees whose roots stand at a depth. -/
def forestLinesAt (depth : Nat) : List Tree → List String
  | [] => []
  | t :: ts => linesAt depth t ++ forestLinesAt depth ts

end

/-- The lines of a printed tree. -/
def lines (t : Tree) : List String := t.linesAt 0

end Tree

end Reshape
