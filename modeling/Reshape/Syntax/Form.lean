import Reshape.Syntax.Name

/-!
# Parts of types, patterns, expressions and items

The parts of a form by their role. A part is the first child of its class, or the one that the
role's description names.
-/

namespace Reshape.Node

/-! ## Types -/

/-- The first type among the children. -/
def type? (n : Node) : Option Node := n.child? NodeKind.isType

/-- The types among the children. -/
def types (n : Node) : List Node := n.childrenOf NodeKind.isType

mutual

/-- A type without the references and pointers around it, as the tree with the number `i` below the
given layers. -/
def strippedOf (above : List Layer) (i : Nat) : Tree → Option Node
  | .leaf _ => none
  | .node k s es =>
    if k = .refType ∨ k = .ptrType then strippedAmong (⟨k, s, es, i⟩ :: above) 0 es
    else some ⟨⟨k, s, es, i⟩, above⟩

/-- The first type among trees without the references and pointers around it. -/
def strippedAmong (above : List Layer) (i : Nat) : List Tree → Option Node
  | [] => none
  | t :: ts =>
    if (t.kind?.map NodeKind.isType).getD false then strippedOf above i t
    else strippedAmong above (i + 1) ts

end

/-- A type without the references and pointers around it. -/
def strippedType? (n : Node) : Option Node := strippedOf n.above n.index n.tree

/-- Whether the word `mut` is among the tokens. -/
def isMut (n : Node) : Bool := n.hasToken (.keyword .mutKw)

/-- The type behind the arrow of a function or closure. -/
def retType? (n : Node) : Option Node := n.childOfKind? .retType

/-! ## Patterns -/

/-- The first pattern among the children. -/
def pattern? (n : Node) : Option Node := n.child? NodeKind.isPattern

/-- The patterns among the children. -/
def patterns (n : Node) : List Node := n.childrenOf NodeKind.isPattern

/-- Whether the word `ref` is among the tokens. -/
def isRef (n : Node) : Bool := n.hasToken (.keyword .refKw)

/-- The fields of a record pattern. -/
def patternFieldList? (n : Node) : Option Node := n.childOfKind? .recordPatFieldList

/-- The fields in a list of the fields of a record pattern. -/
def patternFields (n : Node) : List Node := n.childrenOfKind .recordPatField

/-- The mark for all other fields. -/
def restPattern? (n : Node) : Option Node := n.childOfKind? .restPat

/-- The name of the field that an entry of a record pattern matches. A lone name stands for the
field of that name. -/
def patternFieldName? (n : Node) : Option String :=
  match n.nameRef? with
  | some r => r.refText?
  | none =>
    match n.pattern? with
    | some p => if p.kind = .identPat then p.nameText? else none
    | none => none

/-- Whether a pattern binds a name. -/
def binds (n : Node) (name : String) : Bool :=
  n.descendants.any fun p => p.kind == .identPat && p.nameText? == some name

/-! ## Expressions -/

/-- The first expression among the children. -/
def expr? (n : Node) : Option Node := n.child? NodeKind.isExpr

/-- The expressions among the children. -/
def exprs (n : Node) : List Node := n.childrenOf NodeKind.isExpr

/-- The second expression among the children. -/
def secondExpr? (n : Node) : Option Node := n.exprs[1]?

/-- The first block among the children. -/
def block? (n : Node) : Option Node := n.childOfKind? .blockExpr

/-- The last block among the children. -/
def lastBlock? (n : Node) : Option Node := (n.childrenOfKind .blockExpr).getLast?

/-- The token of a literal; a minus sign may stand before it. -/
def literalToken? (n : Node) : Option Token := n.significantTokens.getLast?

/-- The fields of a record literal. -/
def exprFieldList? (n : Node) : Option Node := n.childOfKind? .recordExprFieldList

/-- The fields in a list of the fields of a record literal. -/
def exprFields (n : Node) : List Node := n.childrenOfKind .recordExprField

/-- Whether a field of a record literal is a lone name. -/
def isShorthand (n : Node) : Bool := !n.hasToken .colon

/-- The name of a field of a record literal. -/
def exprFieldName? (n : Node) : Option String := n.nameRef?.bind (·.refText?)

/-- The arguments of a call. -/
def argList? (n : Node) : Option Node := n.childOfKind? .argList

/-- The operator before an operand. -/
def prefixToken? (n : Node) : Option Token :=
  n.tokens.find? fun t => t.kind == .minus || t.kind == .bang || t.kind == .star

/-- Whether the operator before an operand is a star. -/
def isDeref (n : Node) : Bool := n.prefixToken?.any (·.kind == .star)

/-- The operator between two operands, which may be written as two tokens. -/
def operatorText (n : Node) : String := tokensText n.significantTokens

/-- Whether the operator between two operands assigns. -/
def isAssignment (n : Node) : Bool :=
  let op := n.operatorText
  op == "=" || (op.toList.getLast? == some '=' && op ∉ ["==", "!=", "<=", ">="])

/-- The value of a block: the last expression in it that is no statement. -/
def tailExpr? (n : Node) : Option Node := n.exprs.getLast?

/-- The statements of a block. -/
def statements (n : Node) : List Node := n.childrenOf NodeKind.isStatement

/-- The items among the children. -/
def itemChildren (n : Node) : List Node := n.childrenOf NodeKind.isItem

/-- The value that a `let` gives to its pattern. -/
def initializer? (n : Node) : Option Node := n.expr?

/-- What happens where a `let` does not match. -/
def letElse? (n : Node) : Option Node := n.childOfKind? .letElse

/-- The condition of an `if` or `while`. -/
def condition? (n : Node) : Option Node := n.expr?

/-- The first branch of an `if`: the second expression, if that is a block. -/
def thenBranch? (n : Node) : Option Node :=
  match n.secondExpr? with
  | some b => if b.kind = .blockExpr then some b else none
  | none => none

/-- The second branch of an `if`: the first expression behind `else`. -/
def elseBranch? (n : Node) : Option Node :=
  match n.childToken? (.keyword .elseKw) with
  | some word => n.exprs.find? fun e => word.start < e.span.start
  | none => none

/-- The value that a match looks at. -/
def scrutinee? (n : Node) : Option Node := n.expr?

/-- The arms of a match. -/
def arms (n : Node) : List Node :=
  (n.childrenOfKind .matchArmList).flatMap (·.childrenOfKind .matchArm)

/-- The condition of an arm. -/
def guard? (n : Node) : Option Node := (n.childOfKind? .matchGuard).bind (·.expr?)

/-- The value of an arm. -/
def armBody? (n : Node) : Option Node := n.expr?

/-- What a `for` goes through. -/
def iterable? (n : Node) : Option Node := n.expr?

/-! ## Items -/

/-- The parameters of a function or closure. -/
def paramList? (n : Node) : Option Node := n.childOfKind? .paramList

/-- The receiver among parameters. -/
def selfParam? (n : Node) : Option Node := n.childOfKind? .selfParam

/-- The parameters in a list, the receiver left out. -/
def params (n : Node) : List Node := n.childrenOfKind .param

/-- The where clause of an item. -/
def whereClause? (n : Node) : Option Node := n.childOfKind? .whereClause

/-- The fields of a struct or variant, named or positional. -/
def fieldList? (n : Node) : Option Node :=
  n.child? fun k => k == .recordFieldList || k == .tupleFieldList

/-- The named fields in a list. -/
def recordFields (n : Node) : List Node := n.childrenOfKind .recordField

/-- The positional fields in a list. -/
def tupleFields (n : Node) : List Node := n.childrenOfKind .tupleField

/-- Whether a struct is a union. -/
def isUnion (n : Node) : Bool := !n.hasToken (.keyword .structKw)

/-- The variants of an enum. -/
def variants (n : Node) : List Node :=
  (n.childrenOfKind .variantList).flatMap (·.childrenOfKind .variant)

/-- The enum around a variant. -/
def parentEnum? (n : Node) : Option Node := n.ancestors.find? (·.kind == .enumDef)

/-- The trait that an impl block implements. -/
def implTrait? (n : Node) : Option Node :=
  if n.hasToken (.keyword .forKw) then n.type? else none

/-- The type that an impl block is for. -/
def implSelf? (n : Node) : Option Node :=
  if n.hasToken (.keyword .forKw) then n.types[1]? else n.type?

/-- The items of an impl block or trait. -/
def assocItems (n : Node) : List Node :=
  (n.childrenOfKind .assocItemList).flatMap (·.itemChildren)

/-- The items of a module. -/
def moduleItems (n : Node) : List Node := (n.childrenOfKind .itemList).flatMap (·.itemChildren)

/-- The impl block or trait whose items the node is one of. -/
def owningItem? (n : Node) : Option Node :=
  match n.parent? with
  | some list => if list.kind = .assocItemList then list.parent? else none
  | none => none

end Reshape.Node
