import Reshape.Convert.Plan

/-!
# Rewriting the declaration

* `declarationEdit?` puts the positional fields in the place of the named ones.
* The fields of a struct come right behind its name and generic parameters, its where clause follows
  them, and a semicolon ends it.
-/

namespace Reshape

/-- The blanks at the start of the line that an offset lies in. -/
def lineIndent (text : String) (offset : Nat) : String :=
  let cs := text.toList
  let before := ((takeBytes offset cs).reverse.takeWhile (· ≠ '\n')).reverse
  String.ofList ((before ++ dropBytes offset cs).takeWhile fun c => c = ' ' || c = '\t')

/-- The root of the tree that a node is in. -/
def Node.root (n : Node) : Node := n.ancestors.getLast?.getD n

/-- A where clause without the comma that ends it. -/
def trimClause (clause : List Char) : List Char :=
  trimBlanksEnd ((trimBlanksEnd clause).reverse.dropWhile (· = ',')).reverse

/-- The where clause of a struct, with what stands between it and an offset. There is none if the clause
does not stand behind the offset. -/
def clauseBehind? (n : Node) (anchor : Nat) : Option (List Char) :=
  match n.whereClause? with
  | none => some []
  | some clause => do
    let cs := n.text.toList
    let start := clause.span.start - n.span.start
    let gap ← sliceChars? cs (anchor - n.span.start) start
    let text ← sliceChars? cs start (clause.span.stop - n.span.start)
    return gap ++ trimClause text

/-- Where the fields of a struct start once they are positional. -/
def fieldAnchor? (n : Node) : Option Nat :=
  match n.genericParams? with
  | some list => some list.span.stop
  | none => n.name?.map (·.span.stop)

/-- The edit that makes the fields of a struct positional. -/
def structEdit? (n : Node) (fields : String) : Option TextEdit := do
  let anchor ← fieldAnchor? n
  let clause ← clauseBehind? n anchor
  return ⟨⟨anchor, n.span.stop⟩, fields ++ String.ofList clause ++ ";"⟩

theorem structEdit?_eq {n : Node} {anchor : Nat} {clause : List Char}
    (hanchor : fieldAnchor? n = some anchor) (hclause : clauseBehind? n anchor = some clause)
    (fields : String) : structEdit? n fields =
      some ⟨⟨anchor, n.span.stop⟩, fields ++ String.ofList clause ++ ";"⟩ := by
  simp [structEdit?, hanchor, hclause]

/-- The edit that makes the fields of a variant positional. -/
def variantEdit? (n : Node) (fields : String) : Option TextEdit :=
  match n.fieldList?, n.name? with
  | some list, some name =>
    if list.kind = .recordFieldList then some ⟨⟨name.span.stop, list.span.stop⟩, fields⟩ else none
  | _, _ => none

/-- The edit that makes the fields of a target positional. -/
def declarationEdit? (ds : Decls) (target : Target) (plan : Plan) : Option TextEdit :=
  (target.node? ds).bind fun n =>
    let fields := plan.tupleFieldList (lineIndent n.root.text n.span.start)
    match target with
    | .decl _ => structEdit? n fields
    | .variant _ _ => variantEdit? n fields

end Reshape
