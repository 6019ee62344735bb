import Reshape.Decl.Shape
import Reshape.Ty.Substitution

/-!
# What paths and fields mean in a file

A `View` is the table of declarations as seen from one file.

* `View.target?` is what a path names: a declaration or a variant.
* `View.selfDecl?` is the declaration that `Self` stands for at a node.
* `View.fieldType?` is the type of a field of a type, with the arguments of that type put in.
-/

namespace Reshape

/-- The declarations as seen from a file. -/
structure View where
  decls : Decls
  file : FileId

/-- How a field is selected: by name, or by its place. -/
inductive FieldKey
  | named (name : String)
  | index (i : Nat)

/-- The names in a path; a segment without a name reads as an underscore. -/
def Node.segmentNames (path : Node) : List String :=
  path.segments.map fun s => s.segmentText?.getD "_"

namespace View

/-! ## Paths -/

/-- The declaration that `Self` stands for at a node. In a trait it stands for none. -/
def selfDecl? (v : View) (n : Node) : Option DeclId :=
  let item := n.ancestors.find? fun a =>
    a.kind == .implDef || a.kind == .structDef || a.kind == .enumDef || a.kind == .traitDef
  item.bind fun a =>
    match a.kind with
    | .implDef => v.decls.implOwner? v.file a
    | .traitDef => none
    | _ => v.decls.declAt? v.file a

/-- What a lone name means. -/
def lone? (v : View) (name : String) (n : Node) : Option Target :=
  (if name = "Self" then v.selfDecl? n else v.decls.resolve? name v.file).map .decl

/-- What the names of a path at a node mean: a variant if the name before the last one is that of a
declaration, otherwise what the last name means. -/
def resolve? (v : View) (names : List String) (n : Node) : Option Target :=
  match names.reverse with
  | [] => none
  | [name] => v.lone? name n
  | name :: parent :: _ =>
    match (if parent = "Self" then v.selfDecl? n else v.decls.resolve? parent v.file) with
    | some d => (v.decls.variantIndex? d name).map (.variant d)
    | none => if parent = "Self" ∨ name = "Self" then none else v.lone? name n

/-- What a path means. -/
def target? (v : View) (path : Node) : Option Target := v.resolve? path.segmentNames path

/-- What the first segments of a path mean. -/
def prefixTarget? (v : View) (path : Node) (count : Nat) : Option Target :=
  if count ≤ path.segmentNames.length then v.resolve? (path.segmentNames.take count) path else none

/-! ## Fields -/

/-- The type of a selected field, as it is declared. -/
def declaredType? (shape : Shape) : FieldKey → Option Ty
  | .named name => (shape.fields.find? (·.name == some name)).bind (·.ty)
  | .index i => shape.fields[i]?.bind fun f => if f.name.isSome then none else f.ty

/-- The type of a field of a struct type. -/
def fieldType? (v : View) (owner : Ty) (key : FieldKey) : Option Ty :=
  match owner with
  | .nominal d args params =>
    ((Shape.ofTarget? v.decls (.decl d)).bind fun shape => declaredType? shape key).map
      (Substitution.ofInstantiation params args).apply
  | _ => none

/-- The names and types of the fields that a pattern of a target matches. Arguments are taken from
the type of the matched value if that is the same declaration. -/
def patternFields? (v : View) (target : Target) (value : Option Ty) :
    Option (List (Option String × Option Ty)) :=
  let args := match value with
    | some (.nominal d args params) =>
      if d = target.owner then Substitution.ofInstantiation params args else .empty
    | _ => .empty
  (Shape.ofTarget? v.decls target).map fun shape =>
    shape.fields.map fun f => (f.name, f.ty.map args.apply)

/-- The type that a literal or constructor of a target has. -/
def constructed (v : View) (target : Target) : Ty := v.decls.identityType target.owner

end View

end Reshape
