import Reshape.Convert.Plan
import Reshape.Convert.Reference

/-!
# Sites

A site is a reference that can be rewritten, with all that the rewriting needs to know about it.

* `SiteKind` lists the kinds: a literal, a pattern, a field access, and mentions that stay as they
  are.
* `Site.ofReference` turns a reference into a site, or says why it cannot be rewritten.
-/

namespace Reshape

/-- The value of a field in a literal: an expression, or a lone name that is also the field's. -/
inductive FieldValue
  | expr (span : Span)
  | shorthand (name : String)
deriving DecidableEq

/-- What a reference is. Fields and parts of patterns stand with the places of their fields, in the
order of the text. -/
inductive SiteKind
  | construction (path : Span) (fields : List (Nat × FieldValue)) (base : Option Span)
  | pattern (path : Span) (parts : List (Nat × Span)) (rest : Bool)
  | access (index : Nat)
  | mention
deriving DecidableEq

/-- A reference that can be rewritten; `span` is what is replaced. -/
structure Site where
  file : FileId
  span : Span
  kind : SiteKind
deriving DecidableEq

namespace Site

/-- Reads a field of a literal. -/
def literalField (file : FileId) (plan : Plan) (f : Node) : Except Usage (Nat × FieldValue) :=
  if !f.attributes.isEmpty then .error ⟨file, f.span, .attributeInLiteral⟩
  else
    let name := f.exprFieldName?.getD ""
    match plan.indexOf? name with
    | none => .error ⟨file, f.span, .noFieldIn name plan.name⟩
    | some i =>
      if f.isShorthand then .ok (i, .shorthand name)
      else
        match f.expr? with
        | some e => .ok (i, .expr e.span)
        | none => .error ⟨file, f.span, .noValue name⟩

/-- Reads the value behind two dots in a literal. -/
def literalBase (file : FileId) (list : Node) : Except Usage (Option Span) :=
  match list.childToken? .dotDot, list.expr? with
  | none, _ => .ok none
  | some _, some e => .ok (some e.span)
  | some dots, none => .error ⟨file, dots.span, .restWithoutBase⟩

/-- Reads a literal. -/
def ofLiteral (file : FileId) (plan : Plan) (n : Node) : Except Usage Site :=
  match n.path?, n.exprFieldList? with
  | some path, some list => do
    let fields ← list.exprFields.mapM (literalField file plan)
    let base ← literalBase file list
    return ⟨file, n.span, .construction path.span fields base⟩
  | _, _ => .error ⟨file, n.span, .incompleteLiteral⟩

/-- Reads a field of a pattern. -/
def patternField (file : FileId) (plan : Plan) (f : Node) : Except Usage (Nat × Span) :=
  let name := f.patternFieldName?.getD ""
  match plan.indexOf? name, f.pattern? with
  | none, _ => .error ⟨file, f.span, .noFieldIn name plan.name⟩
  | some i, some p => .ok (i, p.span)
  | some _, none => .error ⟨file, f.span, .noPattern name⟩

/-- Reads a pattern. -/
def ofPattern (file : FileId) (plan : Plan) (n : Node) : Except Usage Site :=
  match n.path?, n.patternFieldList? with
  | some path, some list =>
    match list.attributes with
    | a :: _ => .error ⟨file, a.span, .attributeInPattern⟩
    | [] => do
      let parts ← list.patternFields.mapM (patternField file plan)
      return ⟨file, n.span, .pattern path.span parts list.restPattern?.isSome⟩
  | _, _ => .error ⟨file, n.span, .incompletePattern⟩

/-- Reads a reference. A path is looked at together with the node around it. -/
def ofReference (plan : Plan) (r : Reference) : Except Usage Site :=
  match r.kind with
  | .macroToken t => .error ⟨r.file, t.span, .insideMacro t.text⟩
  | .unknownReceiver n => .error ⟨r.file, n.span, .unknownReceiver (n.refText?.getD "")⟩
  | .field n =>
    let name := n.refText?.getD ""
    match plan.indexOf? name with
    | some i => .ok ⟨r.file, n.span, .access i⟩
    | none => .error ⟨r.file, n.span, .noFieldOn name plan.name⟩
  | .path p =>
    match p.parent? with
    | some n =>
      if n.kind = .recordExpr then ofLiteral r.file plan n
      else if n.kind = .recordPat then ofPattern r.file plan n
      else .ok ⟨r.file, r.span, .mention⟩
    | none => .ok ⟨r.file, r.span, .mention⟩

end Site

end Reshape
