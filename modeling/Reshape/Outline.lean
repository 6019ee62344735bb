import Reshape.Syntax.Form

/-!
# The outline of a file

An outline lists the items of a file with what they contain: fields, variants, associated items and
the items of modules.

* `Entry` is an item with its place, the place of its name or header, and its children.
* `Entry.ofTree?` is the entry of an item; imports, macro calls and items without a name have none.
* `outline` are the entries of the items in a file.
-/

namespace Reshape.Outline

/-- What an entry stands for. -/
inductive Kind
  | module
  | struct
  | field
  | enum
  | variant
  | traitItem
  | impl
  | function
  | const
  | static
  | typeAlias
deriving DecidableEq

/-- An item, field or variant. `detail` is its type or signature, `selection` the place of its name
or header. -/
structure Entry where
  kind : Kind
  name : String
  detail : Option String
  span : Span
  selection : Span
  children : List Entry

/-- The text of the type among the children. -/
def typeText? (n : Node) : Option String := n.type?.map (·.text)

/-- The entry of a form that declares a name. -/
def named? (kind : Kind) (n : Node) (detail : Option String) (children : List Entry) :
    Option Entry :=
  match n.name? with
  | some name => name.identText?.map fun text => ⟨kind, text, detail, n.span, name.span, children⟩
  | none => none

/-- The parameters and result of a function. -/
def signature (n : Node) : String :=
  let params := (n.paramList?.map (·.text)).getD "()"
  match n.retType?.bind (·.type?) with
  | some t => params ++ " -> " ++ t.text
  | none => params

/-- The entries of the fields of a struct or variant; positional fields go by their numbers. -/
def fieldEntries (n : Node) : List Entry :=
  match n.fieldList? with
  | none => []
  | some list =>
    if list.kind = .recordFieldList then
      list.recordFields.filterMap fun f => named? .field f (typeText? f) []
    else
      list.tupleFields.zipIdx.map fun (f, i) => ⟨.field, toString i, typeText? f, f.span, f.span, []⟩

/-- The entries of the variants of an enum. -/
def variantEntries (n : Node) : List Entry :=
  n.variants.filterMap fun v => named? .variant v none (fieldEntries v)

/-- The entry of a trait, with its parameters and bounds. -/
def traitEntry? (n : Node) (children : List Entry) : Option Entry :=
  (named? .traitItem n none children).map fun e =>
    let params := (n.genericParams?.map (·.text)).getD ""
    let bounds := ((n.childOfKind? .typeBoundList).map fun b => ": " ++ b.text).getD ""
    { e with name := e.name ++ params ++ bounds }

/-- The entry of an impl block. -/
def implEntry? (n : Node) (children : List Entry) : Option Entry :=
  n.implSelf?.map fun self =>
    let title := match n.implTrait? with
      | some t => t.text ++ " for " ++ self.text
      | none => self.text
    ⟨.impl, title, none, n.span, self.span, children⟩

/-- The entries of impl blocks and traits, in the order of their places. -/
def inOrder (es : List Entry) : List Entry := es.mergeSort fun d e => d.span.start ≤ e.span.start

/-- Whether an associated item has an entry. -/
def isAssociated (k : NodeKind) : Bool := k == .fnDef || k == .constItem || k == .typeAlias

mutual

/-- The entry of an item. -/
def Entry.ofTree? : Tree → Option Entry
  | .leaf _ => none
  | .node k s es =>
    let n := Node.ofTree (.node k s es)
    match k with
    | .fnDef => named? .function n (some (signature n)) []
    | .structDef => named? .struct n none (fieldEntries n)
    | .enumDef => named? .enum n none (variantEntries n)
    | .traitDef => traitEntry? n (inOrder (entriesIn .assocItemList isAssociated es))
    | .implDef => implEntry? n (inOrder (entriesIn .assocItemList isAssociated es))
    | .modItem => named? .module n none (entriesIn .itemList NodeKind.isItem es)
    | .constItem => named? .const n (typeText? n) []
    | .staticItem => named? .static n (typeText? n) []
    | .typeAlias => named? .typeAlias n none []
    | _ => none

/-- The entries of the trees of a class. -/
def entriesAmong (p : NodeKind → Bool) : List Tree → List Entry
  | [] => []
  | t :: ts =>
    let rest := entriesAmong p ts
    if (t.kind?.map p).getD false then (Entry.ofTree? t).toList ++ rest else rest

/-- The entries of the trees of a class in the lists of a kind. -/
def entriesIn (list : NodeKind) (p : NodeKind → Bool) : List Tree → List Entry
  | [] => []
  | .leaf _ :: ts => entriesIn list p ts
  | .node k _ es :: ts =>
    if k = list then entriesAmong p es ++ entriesIn list p ts else entriesIn list p ts

end

end Outline

/-- The outline of a file. -/
def outline (file : Tree) : List Outline.Entry :=
  Outline.entriesAmong NodeKind.isItem file.children

end Reshape
