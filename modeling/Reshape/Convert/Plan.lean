import Reshape.Decl.Shape

/-!
# Plans

A plan says at which place each named field of a struct or variant stands once the fields are
positional: the place it is declared at.

* `Plan.ofShape` makes a plan, or names the obstacle.
* `Plan.tupleFieldList` writes the positional fields. They stand on one line, unless a field has
  documentation that runs to the end of a line: then each field has lines of its own.
-/

namespace Reshape

/-- A field and its place. -/
structure PlannedField where
  name : String
  index : Nat
  typeText : String
  visibility : Option String
  attributes : List String
  docs : List String

/-- The name of what is converted, and its fields. -/
structure Plan where
  name : String
  fields : List PlannedField

namespace PlannedField

/-- The documentation that runs to the ends of lines. -/
def lineDocs (f : PlannedField) : List String := f.docs.filter (·.startsWith "///")

/-- The documentation that ends with a mark. -/
def blockDocs (f : PlannedField) : List String := f.docs.filter (·.startsWith "/**")

/-- The field as it is written in a list: documentation in blocks, attributes, visibility, type. -/
def slot (f : PlannedField) : String :=
  String.join ((f.blockDocs ++ f.attributes ++ f.visibility.toList).map (· ++ " ")) ++ f.typeText

/-- The lines of a field in a list that is indented. -/
def lines (indent : String) (f : PlannedField) : List String :=
  (f.lineDocs ++ [f.slot ++ ","]).map fun line => indent ++ "    " ++ line

end PlannedField

namespace Plan

/-- Plans a field at its place. -/
def field (shape : Shape) (f : Field) (index : Nat) : Except Obstacle PlannedField :=
  match f.name with
  | some name => .ok ⟨name, index, f.typeText, f.visibility, f.attributes, f.docs⟩
  | none => .error (.namelessField index shape.name)

/-- Plans the conversion of a struct or variant with named fields. -/
def ofShape (shape : Shape) : Except Obstacle Plan :=
  if shape.isUnion then .error (.isUnion shape.name)
  else
    match shape.style with
    | .tuple => .error (.positional shape.name)
    | .unit => .error (.noFieldList shape.name)
    | .record => do
      let fields ← shape.fields.zipIdx.mapM fun (f, i) => field shape f i
      return ⟨shape.name, fields⟩

/-- The number of fields. -/
def size (p : Plan) : Nat := p.fields.length

/-- The names of the fields. -/
def fieldNames (p : Plan) : List String := p.fields.map (·.name)

/-- The place of a field. -/
def indexOf? (p : Plan) (name : String) : Option Nat :=
  (p.fields.find? (·.name == name)).map (·.index)

/-- The positional fields in parentheses. `indent` is the indentation of the declaration. -/
def tupleFieldList (p : Plan) (indent : String) : String :=
  if p.fields.all fun f => f.lineDocs.isEmpty then
    "(" ++ ", ".intercalate (p.fields.map (·.slot)) ++ ")"
  else
    String.join (("(" :: p.fields.flatMap (·.lines indent)).map (· ++ "\n")) ++ indent ++ ")"

end Plan

end Reshape
