import Reshape.Syntax.Form

/-!
# The named parts of a form

* `Part` is what can be a part: a node, nodes, a text, texts or a truth value.
* `Node.parts` lists the parts of a node by name, in a fixed order for each kind; kinds without
  named parts have none.
* `Node.classes` lists the classes of a node as letters.
-/

namespace Reshape

/-- A part of a form. -/
inductive Part
  | node (n : Option Node)
  | nodes (ns : List Node)
  | text (s : Option String)
  | texts (ss : List String)
  | flag (b : Bool)

namespace Node

/-- The text of a token as a part. -/
def tokenPart (t : Option Token) : Part := .text (t.map (·.text))

/-- The parts of names, paths and macro calls. -/
def nameParts (n : Node) : List (String × Part) :=
  match n.kind with
  | .name => [("text", .text n.identText?), ("token", tokenPart n.identToken?)]
  | .nameRef => [("text", .text n.refText?), ("index", .flag n.isIndex)]
  | .path => [("segments", .nodes n.segments), ("last", .node n.lastSegment?),
      ("texts", .texts n.segmentTexts), ("global", .flag n.isGlobal)]
  | .pathSegment => [("name_ref", .node n.nameRef?), ("args", .node n.genericArgs?),
      ("self", .flag n.isSelfType)]
  | .genericArgList => [("type_args", .nodes n.typeArgs)]
  | .typeArg => [("ty", .node n.type?)]
  | .visibility => [("pub", tokenPart (n.childToken? (.keyword .pubKw)))]
  | .macroCall => [("path", .node n.path?), ("tree", .node n.tokenTree?)]
  | _ => []

/-- The parts of items. -/
def itemParts (n : Node) : List (String × Part) :=
  match n.kind with
  | .sourceFile => [("items", .nodes n.itemChildren)]
  | .fnDef => [("vis", .node n.visibility?), ("name", .node n.name?),
      ("generics", .node n.genericParams?), ("params", .node n.paramList?),
      ("ret", .node n.retType?), ("body", .node n.block?)]
  | .paramList => [("self", .node n.selfParam?), ("params", .nodes n.params)]
  | .param => [("pat", .node n.pattern?), ("ty", .node n.type?)]
  | .selfParam | .retType => [("ty", .node n.type?)]
  | .genericParamList => [("type_params", .nodes n.typeParams)]
  | .typeParam => [("name", .node n.name?)]
  | .whereClause => [("where", tokenPart (n.childToken? (.keyword .whereKw))),
      ("predicates", .nodes (n.childrenOfKind .wherePred))]
  | .structDef => [("attrs", .nodes n.attributes), ("vis", .node n.visibility?),
      ("name", .node n.name?), ("generics", .node n.genericParams?),
      ("where", .node n.whereClause?), ("fields", .node n.fieldList?),
      ("semi", tokenPart (n.childToken? .semicolon)), ("union", .flag n.isUnion)]
  | .recordFieldList => [("fields", .nodes n.recordFields)]
  | .recordField => [("attrs", .nodes n.attributes), ("vis", .node n.visibility?),
      ("name", .node n.name?), ("ty", .node n.type?)]
  | .tupleFieldList => [("fields", .nodes n.tupleFields)]
  | .tupleField => [("vis", .node n.visibility?), ("ty", .node n.type?)]
  | .enumDef => [("vis", .node n.visibility?), ("name", .node n.name?),
      ("generics", .node n.genericParams?), ("variants", .nodes n.variants)]
  | .variant => [("name", .node n.name?), ("fields", .node n.fieldList?),
      ("enum", .node n.parentEnum?), ("discriminant", .node n.expr?)]
  | .implDef => [("generics", .node n.genericParams?), ("trait", .node n.implTrait?),
      ("self_ty", .node n.implSelf?), ("items", .nodes n.assocItems)]
  | .traitDef => [("name", .node n.name?), ("items", .nodes n.assocItems)]
  | .modItem => [("name", .node n.name?), ("items", .nodes n.moduleItems)]
  | .constItem | .staticItem => [("name", .node n.name?), ("ty", .node n.type?), ("body", .node n.expr?)]
  | .typeAlias => [("name", .node n.name?), ("ty", .node n.type?)]
  | _ => []

/-- The parts of expressions and statements. -/
def exprParts (n : Node) : List (String × Part) :=
  match n.kind with
  | .literal => [("token", tokenPart n.literalToken?)]
  | .pathExpr => [("path", .node n.path?)]
  | .recordExpr => [("path", .node n.path?), ("list", .node n.exprFieldList?)]
  | .recordExprFieldList => [("fields", .nodes n.exprFields),
      ("dotdot", tokenPart (n.childToken? .dotDot)), ("spread", .node n.expr?)]
  | .recordExprField => [("name_ref", .node n.nameRef?), ("expr", .node n.expr?),
      ("shorthand", .flag n.isShorthand), ("field", .text n.exprFieldName?)]
  | .callExpr => [("callee", .node n.expr?), ("args", .node n.argList?)]
  | .argList => [("args", .nodes n.exprs)]
  | .methodCallExpr => [("receiver", .node n.expr?), ("name_ref", .node n.nameRef?),
      ("generics", .node n.genericArgs?), ("args", .node n.argList?)]
  | .fieldExpr => [("receiver", .node n.expr?), ("name_ref", .node n.nameRef?)]
  | .indexExpr => [("base", .node n.expr?), ("index", .node n.secondExpr?)]
  | .prefixExpr => [("op", tokenPart n.prefixToken?), ("expr", .node n.expr?), ("deref", .flag n.isDeref)]
  | .refExpr => [("expr", .node n.expr?), ("mut", .flag n.isMut)]
  | .binExpr => [("lhs", .node n.expr?), ("rhs", .node n.secondExpr?),
      ("op", .text (some n.operatorText)), ("assign", .flag n.isAssignment)]
  | .castExpr => [("expr", .node n.expr?), ("ty", .node n.type?)]
  | .tryExpr | .parenExpr | .exprStmt | .returnExpr => [("expr", .node n.expr?)]
  | .rangeExpr => [("bounds", .nodes n.exprs)]
  | .tupleExpr => [("fields", .nodes n.exprs)]
  | .arrayExpr => [("exprs", .nodes n.exprs), ("repeat", .flag (n.hasToken .semicolon))]
  | .blockExpr => [("statements", .nodes n.statements), ("tail", .node n.tailExpr?),
      ("items", .nodes n.itemChildren)]
  | .letStmt => [("pat", .node n.pattern?), ("ty", .node n.type?), ("init", .node n.initializer?),
      ("else", .node n.letElse?)]
  | .letElse => [("block", .node n.block?)]
  | .ifExpr => [("cond", .node n.condition?), ("then", .node n.thenBranch?),
      ("else", .node n.elseBranch?)]
  | .letExpr => [("pat", .node n.pattern?), ("expr", .node n.expr?)]
  | .matchExpr => [("scrutinee", .node n.scrutinee?), ("arms", .nodes n.arms)]
  | .matchArm => [("pat", .node n.pattern?), ("guard", .node n.guard?), ("body", .node n.armBody?)]
  | .whileExpr => [("cond", .node n.condition?), ("body", .node n.lastBlock?)]
  | .loopExpr => [("body", .node n.block?)]
  | .forExpr => [("pat", .node n.pattern?), ("iter", .node n.iterable?), ("body", .node n.lastBlock?)]
  | .closureExpr => [("params", .node n.paramList?), ("ret", .node n.retType?), ("body", .node n.expr?)]
  | _ => []

/-- The parts of patterns. -/
def patternParts (n : Node) : List (String × Part) :=
  match n.kind with
  | .identPat => [("name", .node n.name?), ("ref", .flag n.isRef), ("mut", .flag n.isMut),
      ("sub", .node n.pattern?)]
  | .tuplePat => [("fields", .nodes n.patterns)]
  | .parenPat | .refPat => [("pat", .node n.pattern?)]
  | .slicePat | .orPat => [("pats", .nodes n.patterns)]
  | .tupleStructPat => [("path", .node n.path?), ("fields", .nodes n.patterns)]
  | .recordPat => [("path", .node n.path?), ("list", .node n.patternFieldList?)]
  | .recordPatFieldList => [("fields", .nodes n.patternFields), ("rest", .node n.restPattern?)]
  | .recordPatField => [("name_ref", .node n.nameRef?), ("pat", .node n.pattern?),
      ("shorthand", .flag n.nameRef?.isNone), ("field", .text n.patternFieldName?)]
  | .pathPat => [("path", .node n.path?)]
  | _ => []

/-- The parts of types. -/
def typeParts (n : Node) : List (String × Part) :=
  match n.kind with
  | .pathType => [("path", .node n.path?)]
  | .refType => [("ty", .node n.type?), ("mut", .flag n.isMut)]
  | .ptrType | .sliceType | .arrayType => [("ty", .node n.type?)]
  | .tupleType => [("fields", .nodes n.types)]
  | _ => []

/-- The named parts of a node. Every type also has the type that it is without references. -/
def parts (n : Node) : List (String × Part) :=
  n.nameParts ++ n.itemParts ++ n.exprParts ++ n.patternParts ++ n.typeParts ++
    if n.kind.isType then [("stripped", .node n.strippedType?)] else []

/-- Whether nodes of the kind have named parts. -/
def hasParts (n : Node) : Bool := !n.parts.isEmpty

/-- The classes of a node: small letters for those that its kind says of itself, capital letters for
those that it is read as. -/
def classes (n : Node) : String :=
  let k := n.kind
  let flags := [(k.isExpr, 'e'), (k.isPattern, 'p'), (k.isType, 't'), (k.isExpr, 'E'),
    (k.isPattern, 'P'), (k.isType, 'T'), (k.isItem, 'I'), (k.isStatement, 'S')]
  String.ofList (flags.filterMap fun (b, c) => if b then some c else none)

end Node

end Reshape
