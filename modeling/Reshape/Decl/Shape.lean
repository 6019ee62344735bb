import Reshape.Decl.Scope
import Reshape.Text.Blank

/-!
# The fields of structs and variants

* A `Target` is what a path can name: a declaration, or a variant of an enum.
* `Shape.ofTarget?` reads the name and the fields of a struct or variant off its node.
-/

namespace Reshape

/-- A declaration, or a variant by its place in an enum. -/
inductive Target
  | decl (d : DeclId)
  | variant (parent : DeclId) (index : Nat)
deriving DecidableEq

namespace Target

/-- The declaration that a target is or belongs to. -/
def owner : Target → DeclId
  | decl d => d
  | variant d _ => d

/-- The node of a struct or variant. -/
def node? (ds : Decls) : Target → Option Node
  | decl d => ds.nodeOf? .struct d
  | variant d i => (ds.nodeOf? .enum d).bind fun n => n.variants[i]?

/-- The name of a variant, by its place in the enum. -/
def variantName? (ds : Decls) (d : DeclId) (i : Nat) : Option String :=
  (ds.decl? d).bind fun decl => decl.variants[i]?

/-- How a target is named in reports. -/
def display (ds : Decls) : Target → String
  | decl d => (ds.name? d).getD ""
  | variant d i => (ds.name? d).getD "" ++ "::" ++ (variantName? ds d i).getD "?"

end Target

/-- How the fields of a struct or variant are written. -/
inductive FieldStyle
  | record
  | tuple
  | unit
deriving DecidableEq

/-- A field; positional fields have no name. `docs` are the comments that document it. -/
structure Field where
  name : Option String
  typeText : String
  ty : Option Ty
  visibility : Option String
  attributes : List String
  docs : List String

/-- The name and the fields of a struct or variant. -/
structure Shape where
  name : String
  style : FieldStyle
  fields : List Field
  isUnion : Bool

/-- Whether a comment documents what follows it. -/
def isOuterDoc (comment : String) : Bool :=
  (comment.startsWith "///" && !comment.startsWith "////")
    || (comment.startsWith "/**" && !comment.startsWith "/***" && comment != "/**/")

namespace Shape

/-- The documentation among tokens. -/
def docsAmong (ts : List Token) : List String :=
  (ts.filter fun t => isOuterDoc t.text).map fun t => trimEnd t.text

/-- The documentation of a field: comments right before it, and comments in it. -/
def docs (field : Node) : List String :=
  let siblings := (field.parent?.map (·.elements)).getD []
  let before := (siblings.take field.index).reverse.takeWhile fun t => t.token?.any (·.isTrivia)
  docsAmong (before.reverse.filterMap (·.token?))
    ++ docsAmong (field.tokens.filter fun t => t.kind == .comment)

/-- Reads a field with the given name and attributes. -/
def field (ds : Decls) (file : FileId) (n : Node) (name : Option String)
    (attributes : List String) : Field where
  name
  typeText := (n.type?.map (·.text)).getD ""
  ty := n.type?.bind fun t => (Scope.ofNode ds file t).lower? t
  visibility := n.visibility?.map (·.text)
  attributes
  docs := docs n

/-- Reads the fields of a struct or variant. -/
def ofNode (ds : Decls) (file : FileId) (n : Node) (name : String) (isUnion : Bool) : Shape :=
  match n.fieldList? with
  | none => ⟨name, .unit, [], isUnion⟩
  | some list =>
    if list.kind = .recordFieldList then
      ⟨name, .record, list.recordFields.map fun f =>
        field ds file f f.nameText? (f.attributes.map (·.text)), isUnion⟩
    else ⟨name, .tuple, list.tupleFields.map fun f => field ds file f none [], isUnion⟩

/-- The shape of a struct or variant that has a name. -/
def ofTarget? (ds : Decls) (target : Target) : Option Shape :=
  let file := ((ds.decl? target.owner).map (·.file)).getD 0
  (target.node? ds).bind fun n =>
    n.nameText?.map fun name => ofNode ds file n name (n.kind == .structDef && n.isUnion)

end Shape

end Reshape
