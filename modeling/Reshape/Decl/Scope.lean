import Reshape.Decl.Table

/-!
# What types mean

A `Scope` holds what names mean at a place: the generic parameters of the items around it, innermost
first, and the meaning of `Self`.

* `Scope.at?` is the scope of a node.
* `Scope.lower?` is the type that a type expression means. It knows what field accesses see:
  references, pointers and the usual smart pointers are looked through, arrays and vectors are
  slices, and `Option` and `Result` stand for what is in them. Everything else has no meaning.
* `Scope.fillArgs` gives a declared type as many arguments as it has parameters.
-/

namespace Reshape

/-- What names mean at a place in a file. -/
structure Scope where
  decls : Decls
  file : FileId
  generics : List Placeholder
  self : Option Ty

namespace Scope

/-- Types that stand for their first argument. -/
def transparent : List String := ["Box", "Rc", "Arc", "Cow", "Option", "Result"]

/-- Types that are slices of their first argument. -/
def sequences : List String := ["Vec", "VecDeque"]

/-- One argument for each parameter: the one given at its place, otherwise the parameter itself. -/
def fillArgs (params : List Placeholder) (args : List (Option Ty)) : List Ty :=
  params.zipIdx.map fun (p, i) => (args[i]?.join).getD (.param p)

/-- The meaning of a name with arguments that stands alone or at the end of a path. -/
def named? (s : Scope) (name : String) (args : List (Option Ty)) : Option Ty :=
  match s.decls.resolve? name s.file with
  | some d =>
    let params := ((s.decls.decl? d).map (·.params)).getD []
    some (.nominal d (fillArgs params args) params)
  | none =>
    if transparent.contains name then args.head?.join
    else if sequences.contains name then args.head?.join.map .slice
    else if name = "String" then some (.prim .str)
    else none

/-- The meaning of a path, given the meanings of the arguments of its last segment. -/
def path? (s : Scope) (path : Node) (args : List (Option Ty)) : Option Ty :=
  match path.lastSegment? with
  | none => none
  | some last =>
    let lone := path.segments.length == 1
    if last.isSelfType then (if lone then s.self else none)
    else
      match last.segmentText? with
      | none => none
      | some name =>
        match s.generics.find? (·.name == name), Prim.ofName? name with
        | some p, _ => if lone then some (.param p) else s.named? name args
        | none, some p => if lone then some (.prim p) else s.named? name args
        | none, none => s.named? name args

mutual

/-- The meaning of a type. -/
def lower (s : Scope) : Tree → Option Ty
  | .leaf _ => none
  | .node k _ es =>
    match k with
    | .pathType => lowerPath s es
    | .refType | .ptrType => lowerFirst s es
    | .sliceType | .arrayType => (lowerFirst s es).map .slice
    | _ => none

/-- The meaning of the first type among trees. -/
def lowerFirst (s : Scope) : List Tree → Option Ty
  | [] => none
  | t :: ts => if (t.kind?.map NodeKind.isType).getD false then lower s t else lowerFirst s ts

/-- The meaning of the first path among trees. -/
def lowerPath (s : Scope) : List Tree → Option Ty
  | [] => none
  | .leaf _ :: ts => lowerPath s ts
  | .node k sp es :: ts =>
    if k = .path then s.path? (Node.ofTree (.node k sp es)) (lastArgs s es) else lowerPath s ts

/-- The meanings of the arguments of the last segment among trees. -/
def lastArgs (s : Scope) : List Tree → List (Option Ty)
  | [] => []
  | .leaf _ :: ts => lastArgs s ts
  | .node k _ es :: ts =>
    if k = .pathSegment ∧ ts.all fun t => t.kind? ≠ some .pathSegment then segmentArgs s es
    else lastArgs s ts

/-- The meanings of the arguments in the first list of them among trees. -/
def segmentArgs (s : Scope) : List Tree → List (Option Ty)
  | [] => []
  | .leaf _ :: ts => segmentArgs s ts
  | .node k _ es :: ts => if k = .genericArgList then listArgs s es else segmentArgs s ts

/-- The meanings of the types among arguments. -/
def listArgs (s : Scope) : List Tree → List (Option Ty)
  | [] => []
  | .leaf _ :: ts => listArgs s ts
  | .node k _ es :: ts =>
    if k = .typeArg then lowerFirst s es :: listArgs s ts else listArgs s ts

end

/-- The meaning of a type. -/
def lower? (s : Scope) (n : Node) : Option Ty := s.lower n.tree

/-- Whether an item can have generic parameters that its parts see. -/
def isGeneric (k : NodeKind) : Bool :=
  k == .fnDef || k == .implDef || k == .structDef || k == .enumDef

/-- The generic parameters of an item. -/
def genericsOf (ds : Decls) (file : FileId) (item : Node) : List Placeholder :=
  match ds.site? file item with
  | some site => item.typeParamNames.map fun p => ⟨p, site⟩
  | none => []

/-- The scope of a node. `Self` is what the nearest impl block is for, or the nearest struct or enum;
it means nothing in the header of its own impl block. -/
def ofNode (ds : Decls) (file : FileId) (n : Node) : Scope :=
  let items := n.ancestors.filter fun a => isGeneric a.kind
  let scope := ⟨ds, file, items.flatMap (genericsOf ds file), none⟩
  match items.find? fun a => a.kind ≠ .fnDef with
  | none => scope
  | some item =>
    let self :=
      if item.kind = .implDef then item.implSelf?.bind scope.lower?
      else (ds.declAt? file item).map ds.identityType
    { scope with self }

end Scope

end Reshape
