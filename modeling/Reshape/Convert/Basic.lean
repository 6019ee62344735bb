import Reshape.Convert.Declaration
import Reshape.Convert.Rewrite

/-!
# Converting named fields to positional ones

* `planAt` finds the struct or variant around a place and plans its conversion.
* `convert` is the change that converts it, in every file of the workspace: either every reference
  can be rewritten, or there is no change.
* `runConvert` carries the change out. If there is none, the workspace stays as it is.
-/

namespace Reshape

/-- A place in a file. -/
structure FilePosition where
  file : FileId
  offset : Nat
deriving DecidableEq

/-- The token at an offset. Between two tokens it is the right one, unless that is trivia. -/
def Node.caretToken? (root : Node) (offset : Nat) : Option (Token × Node) :=
  match root.tokensAt offset with
  | left :: right :: _ => if right.1.isTrivia then some left else some right
  | [single] => some single
  | [] => none

/-- The target that a struct or variant node is. -/
def targetOfNode? (ds : Decls) (file : FileId) (n : Node) : Option Target :=
  if n.kind = .structDef then (ds.declAt? file n).map .decl
  else
    n.parentEnum?.bind fun parent =>
      (ds.declAt? file parent).bind fun d =>
        (parent.variants.findIdx? (·.same n)).map (.variant d)

/-- The innermost struct or variant around a place. -/
def targetAt? (ds : Decls) (p : FilePosition) : Option Target :=
  (ds.root? p.file).bind fun root =>
    (root.caretToken? p.offset).bind fun (_, parent) =>
      (parent.ancestors.find? fun n => n.kind == .structDef || n.kind == .variant).bind
        (targetOfNode? ds p.file)

/-- The target around a place, and the plan of its conversion. -/
def planAt (ds : Decls) (p : FilePosition) : Except Obstacle (Target × Plan) :=
  match targetAt? ds p with
  | none => .error .noTarget
  | some target =>
    match Shape.ofTarget? ds target with
    | none => .error .incomplete
    | some shape => (Plan.ofShape shape).map fun plan => (target, plan)

/-- Whether there is something to convert at a place. -/
def canConvert (w : Workspace) (p : FilePosition) : Bool :=
  match planAt (.ofWorkspace w) p with
  | .ok _ => true
  | .error _ => false

/-- The sites among references, and the references that cannot be rewritten. -/
def classify (plan : Plan) (refs : List Reference) : List Site × List Usage :=
  let read := refs.map (Site.ofReference plan)
  (read.filterMap fun
    | .ok s => some s
    | .error _ => none,
   read.filterMap fun
    | .ok _ => none
    | .error u => some u)

/-- Adds the edits that rewrite the sites of a file. -/
def rewriteFile (w : Workspace) (plan : Plan) (config : Config) (sites : List Site)
    (change : SourceChange) (file : FileId) : Except ConversionError SourceChange :=
  match w.file? file with
  | none => .error .unknownFile
  | some source => do
    let edits ← rewriteSites source.text (sites.filter (·.file == file)) plan config
    return edits.foldl (fun c e => c.push file e) change

/-- The change that converts what stands at a place. It is given up if it is cancelled once it is
known that there is something to convert. -/
def convert (w : Workspace) (p : FilePosition) (config : Config) (cancelled : Bool) :
    Except ConversionError SourceChange := do
  let ds := Decls.ofWorkspace w
  let (target, plan) ← (planAt ds p).mapError .notApplicable
  if cancelled then throw .cancelled
  let (sites, usages) := classify plan (references ds target plan.fieldNames)
  if !usages.isEmpty then throw (.unsupportedUsage usages)
  let files := ds.files.filter fun f => sites.any (·.file == f)
  let change ← files.foldlM (rewriteFile w plan config sites) (.empty w.revision)
  match declarationEdit? ds target plan with
  | none => throw (.notApplicable .incomplete)
  | some e =>
    let file := ((ds.decl? target.owner).map (·.file)).getD 0
    let (checked, change) := (change.push file e).validate fun f => (w.file? f).map (·.size)
    checked
    return change

/-- Converts what stands at a place, and gives the new revision. -/
def runConvert (w : Workspace) (p : FilePosition) (config : Config) (cancelled : Bool) :
    Except ConversionError Nat × Workspace :=
  match convert w p config cancelled with
  | .error e => (.error e, w)
  | .ok change =>
    match w.apply change with
    | .error e => (.error e, w)
    | .ok next => (.ok next.revision, next)

end Reshape
