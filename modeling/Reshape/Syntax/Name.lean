import Reshape.Syntax.Node

/-!
# Names and paths

* A name is declared by a node of the kind `name` and used by one of the kind `nameRef`, which may
  also be the index of a positional field.
* `Node.segments` are the segments of a path; the last one names what the path resolves to.
-/

namespace Reshape.Node

/-! ## Names -/

/-- The node that declares a name, among the children. -/
def name? (n : Node) : Option Node := n.childOfKind? .name

/-- The token of a declared name. -/
def identToken? (n : Node) : Option Token :=
  n.tokens.find? fun t => t.kind == .ident || t.kind == .keyword .selfKw

/-- The spelling of a declared name. -/
def identText? (n : Node) : Option String := n.identToken?.map (·.text)

/-- The spelling of the name that a form declares. -/
def nameText? (n : Node) : Option String := n.name?.bind (·.identText?)

/-- The node that uses a name, among the children. -/
def nameRef? (n : Node) : Option Node := n.childOfKind? .nameRef

/-- The token of a used name. -/
def refToken? (n : Node) : Option Token := n.tokens.find? fun t => !t.isTrivia

/-- The spelling of a used name. -/
def refText? (n : Node) : Option String := n.refToken?.map (·.text)

/-- Whether a used name is the index of a field. -/
def isIndex (n : Node) : Bool := n.refToken?.any (·.kind == .intLiteral)

/-! ## Paths -/

/-- The path among the children. -/
def path? (n : Node) : Option Node := n.childOfKind? .path

/-- The segments of a path. -/
def segments (n : Node) : List Node := n.childrenOfKind .pathSegment

/-- The last segment of a path. -/
def lastSegment? (n : Node) : Option Node := n.segments.getLast?

/-- The name that a segment uses. -/
def segmentText? (n : Node) : Option String := n.nameRef?.bind (·.refText?)

/-- The names in a path. -/
def segmentTexts (n : Node) : List String := n.segments.filterMap (·.segmentText?)

/-- Whether a path starts with a double colon. -/
def isGlobal (n : Node) : Bool := n.firstSignificant?.any (·.kind == .colonColon)

/-- Whether a segment is the word `Self`. -/
def isSelfType (n : Node) : Bool :=
  (n.nameRef?.bind (·.refToken?)).any (·.kind == .keyword .selfTypeKw)

/-- The name that the last segment of a path uses. -/
def lastName? (n : Node) : Option String := n.lastSegment?.bind (·.segmentText?)

/-! ## Generic arguments and visibility -/

/-- The generic arguments among the children. -/
def genericArgs? (n : Node) : Option Node := n.childOfKind? .genericArgList

/-- The types among generic arguments. -/
def typeArgs (n : Node) : List Node := n.childrenOfKind .typeArg

/-- The generic parameters among the children. -/
def genericParams? (n : Node) : Option Node := n.childOfKind? .genericParamList

/-- The types among generic parameters. -/
def typeParams (n : Node) : List Node := n.childrenOfKind .typeParam

/-- The names of the types among the generic parameters of an item. -/
def typeParamNames (n : Node) : List String :=
  match n.genericParams? with
  | some list => list.typeParams.filterMap (·.nameText?)
  | none => []

/-- The visibility among the children. -/
def visibility? (n : Node) : Option Node := n.childOfKind? .visibility

/-- The attributes among the children. -/
def attributes (n : Node) : List Node := n.childrenOfKind .attr

/-- The token tree of a macro call. -/
def tokenTree? (n : Node) : Option Node := n.childOfKind? .tokenTree

end Reshape.Node
