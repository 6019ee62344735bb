import Reshape.Resolve.Pattern

/-!
# What local names mean

A name at a node is looked for in the forms around it, from the inside out, up to the function, and
then among the constants of the file. The types of expressions come from a function `infer`, so that
this module does not depend on how they are found.

* `View.bindingIn?` asks one form: what it binds for the child that the name stands in. A name that
  is bound with an unknown type hides all outer bindings.
* `View.localType?` is the type of a name at a node.

Methods of slices, iterators and optional values are known without a declaration. As `Option` and
`Result` stand for what is in them, `unwrap` and its like leave the type of a value alone.

* `sequenceMethod?` is the result of a method of a slice.
* `closureParam?` is the type of a parameter of a closure that is the argument of a method of a
  slice.
-/

namespace Reshape

/-! ## Known methods -/

/-- Methods whose result has the type of the value. -/
def sameTypeMethods : List String :=
  ["unwrap", "expect", "unwrap_or", "unwrap_or_else", "unwrap_or_default", "unwrap_unchecked",
    "as_ref", "as_mut", "as_deref", "as_deref_mut", "clone", "to_owned", "borrow", "borrow_mut"]

/-- Methods of sequences that yield a sequence of the same elements. -/
def sequenceMethods : List String :=
  ["iter", "iter_mut", "into_iter", "as_slice", "as_mut_slice", "to_vec", "filter", "rev", "skip",
    "take", "skip_while", "take_while", "step_by", "cloned", "copied", "peekable", "fuse", "by_ref",
    "inspect", "chain"]

/-- Methods of sequences that yield an element. -/
def elementMethods : List String :=
  ["first", "last", "get", "get_mut", "first_mut", "last_mut", "next", "next_back", "nth", "find",
    "max", "min", "max_by", "min_by", "max_by_key", "min_by_key", "pop", "remove", "swap_remove"]

/-- Methods of sequences that give their closure an element. -/
def elementClosureMethods : List String :=
  ["map", "for_each", "try_for_each", "filter", "filter_map", "flat_map", "map_while", "any", "all",
    "find", "find_map", "position", "rposition", "inspect", "take_while", "skip_while", "partition",
    "max_by_key", "min_by_key", "sort_by_key", "sort_unstable_by_key", "sort_by_cached_key", "retain",
    "retain_mut"]

/-- Methods of sequences that give their closure two elements. -/
def pairClosureMethods : List String :=
  ["sort_by", "sort_unstable_by", "max_by", "min_by", "dedup_by"]

/-- Methods of sequences that give their closure a result so far and an element. -/
def foldMethods : List String := ["fold", "try_fold", "rfold"]

/-- Methods of optional values that give their closure the value. -/
def valueClosureMethods : List String :=
  ["map", "and_then", "filter", "is_some_and", "is_ok_and", "inspect"]

/-- The result of a method of a slice. -/
def sequenceMethod? (element : Ty) (method : String) : Option Ty :=
  if sequenceMethods.contains method || sameTypeMethods.contains method then some (.slice element)
  else if elementMethods.contains method then some element
  else none

/-- The type of a parameter, by its place, of a closure that is the argument of a method of a
slice. -/
def closureParam? (element : Ty) (method : String) (index : Nat) : Option Ty :=
  if foldMethods.contains method then (if index = 1 then some element else none)
  else if pairClosureMethods.contains method then some element
  else if elementClosureMethods.contains method ∧ index = 0 then some element
  else none

end Reshape

namespace Reshape.View

variable (v : View) (infer : Node → Option Ty)

/-- The meaning of a type in the scope of a node. -/
def lowerAt? (n : Node) (ty : Node) : Option Ty := (Scope.ofNode v.decls v.file n).lower? ty

/-- What a block binds by its `let` statements that end before an offset, the last one first. -/
def blockBinding? (block : Node) (offset : Nat) (name : String) : Option (Option Ty) :=
  let lets := block.children.filter fun n => n.span.stop ≤ offset && n.kind == .letStmt
  lets.reverse.findSome? fun s =>
    s.pattern?.bind fun p =>
      v.bind? p name fun _ =>
        match s.type? with
        | some t => v.lowerAt? s t
        | none => s.initializer?.bind infer

/-- What an arm of a match binds outside its pattern. -/
def armBinding? (arm child : Node) (name : String) : Option (Option Ty) :=
  arm.pattern?.bind fun p =>
    if p.same child then none
    else
      v.bind? p name fun _ =>
        ((arm.parent?.bind (·.parent?)).bind fun m =>
          if m.kind = .matchExpr then m.scrutinee? else none).bind infer

/-- What the `let`s in a condition bind in the body that they guard, the last one first. -/
def conditionBinding? (condition : Node) (name : String) : Option (Option Ty) :=
  (condition.descendants.filter (·.kind == .letExpr)).reverse.findSome? fun l =>
    l.pattern?.bind fun p => v.bind? p name fun _ => l.expr?.bind infer

/-- What a `for` binds in its body: an element of the slice that it goes through. -/
def forBinding? (loop : Node) (name : String) : Option (Option Ty) :=
  loop.pattern?.bind fun p =>
    v.bind? p name fun _ =>
      match loop.iterable?.bind infer with
      | some (.slice t) => some t
      | _ => none

/-- The type of a parameter, by its place, of a closure that is the argument of a method. -/
def closureParamType? (closure : Node) (index : Nat) : Option Ty :=
  ((closure.parent?.bind (·.parent?)).filter (·.kind == .methodCallExpr)).bind fun call =>
    (call.nameRef?.bind (·.refText?)).bind fun method =>
      (call.expr?.bind infer).bind fun receiver =>
        match receiver with
        | .slice element => closureParam? element method index
        | value =>
          let declared := value.decl?.any fun d => !(v.decls.methods d method).isEmpty
          if valueClosureMethods.contains method ∧ index = 0 ∧ !declared then some value else none

/-- What the parameters of a closure bind. -/
def closureBinding? (closure : Node) (name : String) : Option (Option Ty) :=
  closure.paramList?.bind fun list =>
    list.params.zipIdx.findSome? fun (param, i) =>
      param.pattern?.bind fun p =>
        v.bind? p name fun _ =>
          match param.type? with
          | some t => v.lowerAt? param t
          | none => v.closureParamType? infer closure i

/-- What the parameters of a function bind. -/
def fnBinding? (fn : Node) (name : String) : Option (Option Ty) :=
  fn.paramList?.bind fun list =>
    if name = "self" then
      list.selfParam?.map fun receiver =>
        let scope := Scope.ofNode v.decls v.file fn
        match receiver.type? with
        | some t => scope.lower? t
        | none => scope.self
    else
      list.params.findSome? fun param =>
        param.pattern?.bind fun p =>
          v.bind? p name fun _ => param.type?.bind (v.lowerAt? param)

/-- What a form binds for one of its children: nothing, or a name with a type that may be
unknown. -/
def bindingIn? (form child : Node) (name : String) : Option (Option Ty) :=
  let inBody (body : Option Node) := body.any (·.same child)
  match form.kind with
  | .blockExpr => v.blockBinding? infer form child.span.start name
  | .matchArm => v.armBinding? infer form child name
  | .ifExpr =>
    if inBody form.thenBranch? then form.condition?.bind (v.conditionBinding? infer · name) else none
  | .whileExpr =>
    if inBody form.lastBlock? then form.condition?.bind (v.conditionBinding? infer · name) else none
  | .forExpr => if inBody form.lastBlock? then v.forBinding? infer form name else none
  | .closureExpr => v.closureBinding? infer form name
  | .fnDef => v.fnBinding? form name
  | _ => none

/-- What the forms around a node bind, the innermost first, up to the function. -/
def findBinding? (name : String) : Node → List Node → Option (Option Ty)
  | _, [] => none
  | child, form :: outer =>
    match v.bindingIn? infer form child name with
    | some t => some t
    | none => if form.kind = .fnDef then none else findBinding? name form outer

/-- The type of a constant of the file. Constants of traits have no fixed type. -/
def constantType? (name : String) : Option Ty :=
  ((v.decls.root? v.file).bind fun root =>
    root.descendants.find? fun n =>
      (n.kind == .constItem || n.kind == .staticItem) && n.nameText? == some name
        && !n.owningItem?.any (·.kind == .traitDef)).bind fun n =>
    n.type?.bind (v.lowerAt? n)

/-- The type of a name at a node. -/
def localType? (name : String) (n : Node) : Option Ty :=
  match v.findBinding? infer name n n.ancestors.tail with
  | some t => t
  | none => v.constantType? name

end Reshape.View
