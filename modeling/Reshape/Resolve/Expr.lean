import Reshape.Resolve.Local
import Reshape.Ty.Unify

/-!
# The types of expressions

A small inference, enough to tell what the receiver of a field access is: it follows local names,
literals, fields, calls of functions and methods of the workspace, and the methods that are known
without a declaration.

* `View.exprType?` is the type of an expression, found within a number of steps.
* `View.typeOf?` and `View.typeOfLocal?` allow `inferenceDepth` steps, so that chains that lead
  round in circles come to an end.
-/

namespace Reshape.View

/-- How many steps an inference takes at most. -/
def inferenceDepth : Nat := 49

/-- The result type of a function, with a substitution made. -/
def fnReturn? (v : View) (f : FnDecl) (s : Substitution) : Option Ty :=
  ((f.node.retType?.bind (·.type?)).bind (Scope.ofNode v.decls f.file f.node).lower?).map s.apply

/-- The result of a method of a receiver. The parameters of the impl block are matched with the
receiver; a method of the workspace hides one that is known without a declaration. -/
def methodReturn? (v : View) (receiver : Ty) (method : String) : Option Ty :=
  match receiver with
  | .slice element => sequenceMethod? element method
  | _ =>
    let declared := match receiver.decl? with
      | some d => v.decls.methods d method
      | none => []
    if declared.isEmpty then (if sameTypeMethods.contains method then some receiver else none)
    else
      declared.findSome? fun (f, _) =>
        let self := (Scope.ofNode v.decls f.file f.node).self
        v.fnReturn? f ((self.bind (inferSubstitution · receiver)).getD .empty)

/-- The result of a call of what a path names: a constructor or a function. -/
def callReturn? (v : View) (callee path : Node) : Option Ty :=
  let names := path.segmentNames
  match names.reverse with
  | [] => none
  | [name] =>
    match v.resolve? names callee with
    | some target => some (v.constructed target)
    | none => (v.decls.freeFn? name v.file).bind fun (f, _) => v.fnReturn? f .empty
  | name :: parent :: _ =>
    match v.resolve? names callee with
    | some (.variant d i) => some (v.constructed (.variant d i))
    | _ =>
      let owner := if parent = "Self" then v.selfDecl? callee else v.decls.resolve? parent v.file
      (owner.bind fun d => (v.decls.methods d name).head?).bind fun (f, _) => v.fnReturn? f .empty

/-- The index that a positional field is selected by. -/
def fieldIndex? (text : String) : Option Nat :=
  if text.toList.all Char.isDigit then text.toNat? else none

/-- How a field access selects its field. -/
def fieldKey? (nameRef : Node) : Option FieldKey :=
  nameRef.refText?.bind fun text =>
    if nameRef.isIndex then (fieldIndex? text).map .index else some (.named text)

/-- The type that the suffix of a number names. -/
def suffixType? (text : List Char) : Option Ty :=
  let based := [['0', 'x'], ['0', 'b'], ['0', 'o']].any fun start => start.isPrefixOf text
  let suffix := text.dropWhile fun c => c != 'i' && c != 'u' && c != 'f'
  if based || suffix.isEmpty then none else (Prim.ofName? (String.ofList suffix)).map .prim

/-- The type of a literal. A number has one only if it has a suffix. -/
def literalType? (n : Node) : Option Ty :=
  n.literalToken?.bind fun t =>
    match t.kind with
    | .keyword .trueKw | .keyword .falseKw => some (.prim .bool)
    | .charLiteral => some (.prim .char)
    | .stringLiteral => some (.prim .str)
    | .intLiteral | .floatLiteral => suffixType? t.text.toList
    | _ => none

/-- The type of an element, or of a part of the same type as the whole. -/
def indexed? (n : Node) : Ty → Option Ty
  | .slice t => some (if n.secondExpr?.any (·.kind == .rangeExpr) then .slice t else t)
  | _ => none

/-- The type of an expression, found within a number of steps. -/
def exprType? (v : View) : Nat → Node → Option Ty
  | 0, _ => none
  | steps + 1, e =>
    let infer := v.exprType? steps
    match e.kind with
    | .pathExpr =>
      match e.path?.map (·.segmentNames) with
      | some [name] => if name = "Self" then none else v.localType? infer name e
      | _ => none
    | .recordExpr => (e.path?.bind v.target?).map v.constructed
    | .fieldExpr =>
      (e.expr?.bind infer).bind fun receiver =>
        (e.nameRef?.bind fieldKey?).bind (v.fieldType? receiver)
    | .methodCallExpr =>
      (e.expr?.bind infer).bind fun receiver =>
        (e.nameRef?.bind (·.refText?)).bind (v.methodReturn? receiver)
    | .callExpr =>
      e.expr?.bind fun callee =>
        if callee.kind = .pathExpr then callee.path?.bind (v.callReturn? callee) else infer callee
    | .parenExpr | .refExpr => e.expr?.bind infer
    | .prefixExpr => if e.isDeref then e.expr?.bind infer else none
    | .indexExpr => (e.expr?.bind infer).bind (indexed? e)
    | .blockExpr => e.tailExpr?.bind infer
    | .ifExpr => (e.thenBranch?.bind (·.tailExpr?)).bind infer
    | .matchExpr => e.arms.findSome? fun arm => arm.armBody?.bind infer
    | .castExpr => e.type?.bind (v.lowerAt? e)
    | .arrayExpr => (e.exprs.head?.bind infer).map .slice
    | .literal => literalType? e
    | _ => none

/-- The type of an expression. -/
def typeOf? (v : View) (e : Node) : Option Ty := v.exprType? inferenceDepth e

/-- The type of a name at a node. -/
def typeOfLocal? (v : View) (name : String) (n : Node) : Option Ty :=
  v.localType? (v.exprType? inferenceDepth) name n

end Reshape.View
