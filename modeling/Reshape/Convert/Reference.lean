import Reshape.Resolve.Expr

/-!
# References

Where the files of a workspace mention the target of a conversion.

* A path mentions the target if that is what it means.
* A field access mentions a struct if it names one of the struct's fields and its receiver has the
  struct's type. If the type of the receiver is not known, the access is a reference as well, as it
  may mention the struct.
* In the token trees of macro calls there are no paths and field accesses. A token there mentions a
  struct if it is its name, or a field of a local name of the struct's type; it mentions a variant
  if it is its name behind the name of the enum.
* `references` lists them by file and place, one for each place.
-/

namespace Reshape

/-- What mentions a target. -/
inductive ReferenceKind
  | path (path : Node)
  | field (nameRef : Node)
  | macroToken (token : Token)
  | unknownReceiver (nameRef : Node)

/-- A mention of a target. -/
structure Reference where
  file : FileId
  span : Span
  kind : ReferenceKind

namespace Reference

/-- Whether a reference comes before another, or stands at the same place. -/
def le (r s : Reference) : Bool :=
  r.file < s.file || (r.file == s.file &&
    (r.span.start < s.span.start || (r.span.start == s.span.start && r.span.stop ≤ s.span.stop)))

/-- Whether two references stand at the same place. -/
def samePlace (r s : Reference) : Bool := r.file == s.file && r.span == s.span

/-- Leaves one of the references that stand next to each other at the same place. -/
def dedup : List Reference → List Reference
  | [] => []
  | r :: rs => r :: dedupBehind r rs
where
  /-- Leaves those that do not stand at the same place as the one before. -/
  dedupBehind (last : Reference) : List Reference → List Reference
    | [] => []
    | r :: rs => if last.samePlace r then dedupBehind last rs else r :: dedupBehind r rs

end Reference

namespace Target

/-- The name of the struct or variant itself. -/
def ownName (ds : Decls) : Target → String
  | decl d => (ds.name? d).getD ""
  | variant d i => (variantName? ds d i).getD ""

end Target

namespace View

variable (v : View) (target : Target)

/-- The paths among nodes that mean the target. -/
def pathReferences (nodes : List Node) : List Reference :=
  let name := target.ownName v.decls
  (nodes.filter fun n =>
    n.kind == .path && n.lastName?.any (fun last => last == name || last == "Self")
      && v.target? n == some target).map fun n => ⟨v.file, n.span, .path n⟩

/-- The field access of a node, if it may mention a declaration with the given fields. -/
def fieldReference? (d : DeclId) (fieldNames : List String) (access : Node) : Option Reference :=
  access.nameRef?.bind fun nameRef =>
    if nameRef.isIndex || !nameRef.refText?.any fieldNames.contains then none
    else
      access.expr?.bind fun receiver =>
        match v.typeOf? receiver with
        | some t => if t.decl? = some d then some ⟨v.file, nameRef.span, .field nameRef⟩ else none
        | none => some ⟨v.file, nameRef.span, .unknownReceiver nameRef⟩

/-- The field accesses among nodes that mention the target. -/
def fieldReferences (fieldNames : List String) (nodes : List Node) : List Reference :=
  match target with
  | .decl d =>
    (nodes.filter (·.kind == .fieldExpr)).filterMap (v.fieldReference? d fieldNames)
  | .variant _ _ => []

/-- Whether a token is a field of a local name of the declaration's type, given the tokens before it,
last one first. Fields of fields are not followed. -/
def isFieldOfLocal (d : DeclId) (fieldNames : List String) (tree : Node) (t : Token) :
    List Token → Bool
  | dot :: name :: before =>
    t.kind == .ident && fieldNames.contains t.text && dot.kind == .dot
      && (name.kind == .ident || name.kind == .keyword .selfKw)
      && !(before.head?.any (·.kind == .dot))
      && ((v.typeOfLocal? name.text tree).bind (·.decl?)) == some d
  | _ => false

/-- Whether a token stands behind the name of an enum, given the tokens before it, last one first. -/
def isBehindEnum (d : DeclId) (tree : Node) (t : Token) : List Token → Bool
  | separator :: name :: _ =>
    separator.kind == .colonColon &&
      match v.resolve? [name.text, t.text] tree with
      | some (.variant parent _) => parent == d
      | _ => false
  | _ => false

/-- Whether a token of a macro call mentions the target, given the tokens before it. -/
def isMention (fieldNames : List String) (tree : Node) (t : Token) (before : List Token) : Bool :=
  let name := target.ownName v.decls
  match target with
  | .decl d => (t.kind == .ident && t.text == name) || v.isFieldOfLocal d fieldNames tree t before
  | .variant d _ => t.text == name && v.isBehindEnum d tree t before

/-- The tokens of a list that mention the target, given the tokens before them, last one first. -/
def mentions (fieldNames : List String) (tree : Node) : List Token → List Token → List Reference
  | _, [] => []
  | before, t :: ts =>
    let rest := mentions fieldNames tree (t :: before) ts
    if v.isMention target fieldNames tree t before then ⟨v.file, t.span, .macroToken t⟩ :: rest
    else rest

/-- The tokens in the token trees among nodes that mention the target. -/
def macroReferences (fieldNames : List String) (nodes : List Node) : List Reference :=
  (nodes.filter (·.kind == .tokenTree)).flatMap fun tree =>
    v.mentions target fieldNames tree [] tree.significantTokens

end View

/-- All references to a target with the given fields. -/
def references (ds : Decls) (target : Target) (fieldNames : List String) : List Reference :=
  let found := ds.roots.flatMap fun (file, root) =>
    let v : View := ⟨ds, file⟩
    let nodes := root.descendants
    v.pathReferences target nodes ++ v.fieldReferences target fieldNames nodes
      ++ v.macroReferences target fieldNames nodes
  Reference.dedup (found.mergeSort Reference.le)

end Reshape
