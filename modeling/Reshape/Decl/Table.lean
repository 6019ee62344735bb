import Reshape.Syntax.Form
import Reshape.Ty.Basic
import Reshape.Workspace.Basic

/-!
# Declarations

The table of the structs, enums, impl blocks and functions of a workspace, nested modules and the
bodies of functions included. Declarations are numbered file by file in the order of the text.

* `Decls.ofWorkspace` builds the table. Every item in it that can have generic parameters has a
  site, the number that tells its parameters from those of other items.
* `Decls.resolve?` finds the declaration that a name means in a file: one of that file if there is
  one, otherwise the only one of the workspace.
* `Decls.methods` and `Decls.freeFn?` find functions by name.
-/

namespace Reshape

/-- What is declared. -/
inductive DeclKind
  | struct
  | enum
deriving DecidableEq

/-- A struct or enum. `params` are its generic parameters, `variants` the names of the variants of
an enum. -/
structure Decl where
  name : String
  kind : DeclKind
  file : FileId
  node : Node
  params : List Placeholder
  site : Nat
  variants : List String

/-- An impl block, with the declaration that it is for. -/
structure ImplBlock where
  file : FileId
  node : Node
  owner : Option DeclId
  site : Nat

/-- A function that is free or belongs to the impl block with the given number. -/
structure FnDecl where
  name : String
  file : FileId
  node : Node
  impl : Option Nat
  site : Nat

/-- The declarations of a workspace. `sites` are the sites by file and place, the newest first. -/
structure Decls where
  roots : List (FileId × Node)
  decls : List Decl
  impls : List ImplBlock
  fns : List FnDecl
  sites : List ((FileId × Span) × Nat)

namespace Decls

/-! ## Looking up -/

/-- The files in order. -/
def files (ds : Decls) : List FileId := ds.roots.map (·.1)

/-- The root of a file. -/
def root? (ds : Decls) (file : FileId) : Option Node := ds.roots.lookup file

/-- The declaration with a number. -/
def decl? (ds : Decls) (d : DeclId) : Option Decl := ds.decls[d]?

/-- The name of a declaration. -/
def name? (ds : Decls) (d : DeclId) : Option String := (ds.decl? d).map (·.name)

/-- The node of a declaration of the given kind. -/
def nodeOf? (ds : Decls) (kind : DeclKind) (d : DeclId) : Option Node :=
  match ds.decl? d with
  | some decl => if decl.kind = kind then some decl.node else none
  | none => none

/-- The declaration that stands at a node. -/
def declAt? (ds : Decls) (file : FileId) (n : Node) : Option DeclId :=
  ds.decls.findIdx? fun d => d.file == file && d.node.span == n.span && d.node.kind == n.kind

/-- The site of an item. -/
def site? (ds : Decls) (file : FileId) (n : Node) : Option Nat := ds.sites.lookup (file, n.span)

/-- The declaration that a name means in a file. -/
def resolve? (ds : Decls) (name : String) (file : FileId) : Option DeclId :=
  let candidates := ds.decls.zipIdx.filter fun (d, _) => d.name == name
  match candidates.find? fun (d, _) => d.file == file with
  | some (_, d) => some d
  | none =>
    match candidates with
    | [(_, d)] => some d
    | _ => none

/-- The place of a variant in an enum. -/
def variantIndex? (ds : Decls) (d : DeclId) (name : String) : Option Nat :=
  match ds.decl? d with
  | some decl => if decl.kind = .enum then decl.variants.findIdx? (· == name) else none
  | none => none

/-- A declared type with its own parameters as arguments. -/
def identityType (ds : Decls) (d : DeclId) : Ty :=
  let params := ((ds.decl? d).map (·.params)).getD []
  .nominal d (params.map .param) params

/-- A type as a program writes it. -/
def display (ds : Decls) (t : Ty) : String := t.display ds.name?

/-- The number of the impl block that stands at a node. -/
def implIndex? (ds : Decls) (file : FileId) (n : Node) : Option Nat :=
  ds.impls.findIdx? fun i => i.file == file && i.node.span == n.span

/-- The declaration that the impl block at a node is for. -/
def implOwner? (ds : Decls) (file : FileId) (n : Node) : Option DeclId :=
  ((ds.implIndex? file n).bind fun i => ds.impls[i]?).bind (·.owner)

/-- The functions with a name, with their numbers. -/
def fnsNamed (ds : Decls) (name : String) : List (FnDecl × Nat) :=
  ds.fns.zipIdx.filter fun (f, _) => f.name == name

/-- The functions with a name in impl blocks for a declaration. -/
def methods (ds : Decls) (d : DeclId) (name : String) : List (FnDecl × Nat) :=
  (ds.fnsNamed name).filter fun (f, _) =>
    (f.impl.bind fun i => ds.impls[i]?).any (·.owner == some d)

/-- The free function that a name means in a file. -/
def freeFn? (ds : Decls) (name : String) (file : FileId) : Option (FnDecl × Nat) :=
  let candidates := (ds.fnsNamed name).filter fun (f, _) => f.impl.isNone
  match candidates.find? fun (f, _) => f.file == file with
  | some f => some f
  | none =>
    match candidates with
    | [f] => some f
    | _ => none

/-! ## Building -/

/-- Gives an item the next site. -/
def addSite (ds : Decls) (file : FileId) (n : Node) : Nat × Decls :=
  let site := ds.sites.length
  (site, { ds with sites := ((file, n.span), site) :: ds.sites })

/-- Adds a struct or enum that has a name. -/
def addDecl (ds : Decls) (file : FileId) (n : Node) (kind : DeclKind) (variants : List String) :
    Decls :=
  match n.nameText? with
  | none => ds
  | some name =>
    let (site, ds) := ds.addSite file n
    let params := n.typeParamNames.map fun p => ⟨p, site⟩
    { ds with decls := ds.decls ++ [⟨name, kind, file, n, params, site, variants⟩] }

/-- Adds a node if it is a struct or enum. -/
def addIfDecl (file : FileId) (ds : Decls) (n : Node) : Decls :=
  match n.kind with
  | .structDef => ds.addDecl file n .struct []
  | .enumDef => ds.addDecl file n .enum (n.variants.map fun v => v.nameText?.getD "")
  | _ => ds

/-- The name of a type that is a path. -/
def typeName? (n : Node) : Option String :=
  if n.kind = .pathType then n.path?.bind (·.lastName?) else none

/-- Adds a node if it is an impl block. All structs and enums are in the table by then. -/
def addIfImpl (file : FileId) (ds : Decls) (n : Node) : Decls :=
  if n.kind = .implDef then
    let name := (n.implSelf?.bind (·.strippedType?)).bind typeName?
    let owner := name.bind fun s => ds.resolve? s file
    let (site, ds) := ds.addSite file n
    { ds with impls := ds.impls ++ [⟨file, n, owner, site⟩] }
  else ds

/-- Adds a function with a name. -/
def addFn (ds : Decls) (file : FileId) (n : Node) (name : String) (impl : Option Nat) : Decls :=
  let (site, ds) := ds.addSite file n
  { ds with fns := ds.fns ++ [⟨name, file, n, impl, site⟩] }

/-- Adds a node if it is a function with a name. Functions of traits are left out: they have no body
of their own. -/
def addIfFn (file : FileId) (ds : Decls) (n : Node) : Decls :=
  if n.kind = .fnDef then
    match n.nameText?, n.owningItem? with
    | some name, none => ds.addFn file n name none
    | some name, some item =>
      if item.kind = .implDef then
        match ds.implIndex? file item with
        | some i => ds.addFn file n name (some i)
        | none => ds
      else ds
    | none, _ => ds
  else ds

/-- The table of the declarations below the roots of files. -/
def ofRoots (roots : List (FileId × Node)) : Decls :=
  let nodes := roots.map fun (file, r) => (file, r.descendants)
  let ds := nodes.foldl (fun ds (file, ns) => ns.foldl (addIfDecl file) ds) ⟨roots, [], [], [], []⟩
  nodes.foldl (fun ds (file, ns) => ns.foldl (addIfFn file) (ns.foldl (addIfImpl file) ds)) ds

/-- The table of the declarations of a workspace. -/
def ofWorkspace (w : Workspace) : Decls :=
  ofRoots (w.files.map fun (file, source) => (file, Node.ofTree source.parse.tree))

end Decls

end Reshape
