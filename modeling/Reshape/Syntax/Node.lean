import Reshape.Tree.Basic

/-!
# Nodes in their surroundings

A `Node` is an inner node of a syntax tree together with the nodes around it, so that one can walk
up as well as down.

* `Node.children`, `Node.descendants` walk down, `Node.parent?`, `Node.ancestors` walk up; descendants
  and ancestors begin with the node itself.
* `Node.child?` and `Node.childrenOf` select children by a class of kinds: most parts of a form are
  the first child of their class.
* `Node.located` pairs each token with the node that it is a child of, `Node.tokensAt` are the
  tokens that an offset touches.
* Two nodes of one tree are the same if they stand at the same place of it (`Node.same`).
-/

namespace Reshape

/-- An inner node and its number among the children of its parent. -/
structure Layer where
  kind : NodeKind
  span : Span
  elements : List Tree
  index : Nat

/-- A node with the nodes around it, innermost first. -/
structure Node extends Layer where
  above : List Layer

namespace Node

/-- The root of a tree. -/
def ofTree : Tree → Node
  | .node k s ts => ⟨⟨k, s, ts, 0⟩, []⟩
  | .leaf t => ⟨⟨.sourceFile, t.span, [.leaf t], 0⟩, []⟩

/-- The tree below a node. -/
def tree (n : Node) : Tree := .node n.kind n.span n.elements

/-- The text of a node. -/
def text (n : Node) : String := n.tree.text

/-- How a node is named in reports. -/
def label (n : Node) : String := Tree.nodeLine n.kind n.span

/-- The numbers that lead from the root to a node, last one first. -/
def address (n : Node) : List Nat := n.index :: n.above.map (·.index)

/-- Whether two nodes of one tree are the same. -/
def same (n m : Node) : Bool := n.address == m.address

/-! ## Up -/

/-- The node around a node. -/
def parent? (n : Node) : Option Node :=
  match n.above with
  | [] => none
  | l :: ls => some ⟨l, ls⟩

/-- The nodes of a list of layers, each in its surroundings. -/
def ofLayers : List Layer → List Node
  | [] => []
  | l :: ls => ⟨l, ls⟩ :: ofLayers ls

/-- A node and all nodes around it, innermost first. -/
def ancestors (n : Node) : List Node := n :: ofLayers n.above

/-! ## Down -/

/-- The nodes among trees whose numbers start at `i`, below the given layers. -/
def nodesAmong (above : List Layer) (i : Nat) : List Tree → List Node
  | [] => []
  | .leaf _ :: ts => nodesAmong above (i + 1) ts
  | .node k s es :: ts => ⟨⟨k, s, es, i⟩, above⟩ :: nodesAmong above (i + 1) ts

/-- The inner nodes among the children. -/
def children (n : Node) : List Node := nodesAmong (n.toLayer :: n.above) 0 n.elements

/-- The tokens among the children. -/
def tokens (n : Node) : List Token := n.elements.filterMap (·.token?)

mutual

/-- The inner nodes of a tree with the number `i`, below the given layers, parents before children. -/
def descendantsOf (above : List Layer) (i : Nat) : Tree → List Node
  | .leaf _ => []
  | .node k s es => ⟨⟨k, s, es, i⟩, above⟩ :: descendantsAmong (⟨k, s, es, i⟩ :: above) 0 es

/-- The inner nodes of trees whose numbers start at `i`. -/
def descendantsAmong (above : List Layer) (i : Nat) : List Tree → List Node
  | [] => []
  | t :: ts => descendantsOf above i t ++ descendantsAmong above (i + 1) ts

end

/-- A node and all nodes below it, parents before children. -/
def descendants (n : Node) : List Node := n :: descendantsAmong (n.toLayer :: n.above) 0 n.elements

/-- The first child of a class. -/
def child? (n : Node) (p : NodeKind → Bool) : Option Node := n.children.find? fun c => p c.kind

/-- The children of a class. -/
def childrenOf (n : Node) (p : NodeKind → Bool) : List Node := n.children.filter fun c => p c.kind

/-- The first child of a kind. -/
def childOfKind? (n : Node) (k : NodeKind) : Option Node := n.child? (· == k)

/-- The children of a kind. -/
def childrenOfKind (n : Node) (k : NodeKind) : List Node := n.childrenOf (· == k)

/-- The first token of a kind among the children. -/
def childToken? (n : Node) (k : TokenKind) : Option Token := n.tokens.find? fun t => t.kind == k

/-- Whether a token of a kind is among the children. -/
def hasToken (n : Node) (k : TokenKind) : Bool := (n.childToken? k).isSome

/-- The tokens among the children that are not trivia. -/
def significantTokens (n : Node) : List Token := significant n.tokens

/-- The first token of a node that is not trivia. -/
def firstSignificant? (n : Node) : Option Token := n.tree.leaves.find? fun t => !t.isTrivia

/-! ## Tokens by offset -/

mutual

/-- The tokens of a tree, each with the node it is a child of. -/
def locatedOf (above : List Layer) (i : Nat) (parent : Node) : Tree → List (Token × Node)
  | .leaf t => [(t, parent)]
  | .node k s es => locatedAmong (⟨k, s, es, i⟩ :: above) 0 ⟨⟨k, s, es, i⟩, above⟩ es

/-- The tokens of trees, each with the node it is a child of. -/
def locatedAmong (above : List Layer) (i : Nat) (parent : Node) : List Tree → List (Token × Node)
  | [] => []
  | t :: ts => locatedOf above i parent t ++ locatedAmong above (i + 1) parent ts

end

/-- The tokens of a node in order, each with the node it is a child of. -/
def located (n : Node) : List (Token × Node) :=
  locatedAmong (n.toLayer :: n.above) 0 n n.elements

/-- The tokens with text that an offset touches: one that it lies in, or two that it lies between. -/
def tokensAt (n : Node) (offset : Nat) : List (Token × Node) :=
  n.located.filter fun (t, _) => !t.span.isEmpty && t.span.touches offset

end Node

end Reshape
