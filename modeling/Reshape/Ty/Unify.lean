import Reshape.Ty.Substitution
import Reshape.Ty.Written

/-!
# Unification

* `canUnify` asks whether two types agree once a substitution is applied to both; a placeholder then
  agrees with itself only.
* A `Unifier` holds what is known of placeholders: classes of placeholders that stand for the same
  type, and the type of a class where it has one. `Unifier.unify` adds what makes two types equal,
  or says why nothing does; what it found out before it failed stays.
* `Unifier.resolve` puts into a type all that is known.
* `inferSubstitution` is the substitution that makes two types equal.

The types of classes may mention placeholders that have a type of their own. No class leads back to
itself that way, as `Unifier.occurs` is asked before a class gets a type; so as many steps as there
are classes with a type get to the end of every chain, and the depth of a fully resolved type is
bounded by `Unifier.depthBound`.
-/

namespace Reshape

/-! ## Agreement under a substitution -/

namespace Ty

mutual

/-- Whether two types agree, with placeholders taken as types of their own. -/
def agrees (a b : Ty) : Bool :=
  a == b ||
    match a, b with
    | prim p, prim q => p == q
    | slice s, slice t => agrees s t
    | nominal d ss _, nominal e ts _ => d == e && agreesAll ss ts
    | _, _ => false

/-- Whether two lists have the same length and types that agree. -/
def agreesAll : List Ty → List Ty → Bool
  | [], [] => true
  | s :: ss, t :: ts => agrees s t && agreesAll ss ts
  | _, _ => false

end

end Ty

/-- Whether two types agree once a substitution is applied to both. -/
def canUnify (a b : Ty) (context : Substitution) : Bool :=
  (context.apply a).agrees (context.apply b)

/-! ## Knowledge about placeholders -/

/-- Why two types cannot be made equal: they are different types, one declaration has different
numbers of arguments, or a placeholder would have to contain itself. -/
inductive UnifyError
  | mismatch (left right : Ty)
  | arity (left right : Nat)
  | occurs (p : Placeholder) (ty : Ty)

/-- The wording of an error. -/
def UnifyError.message : UnifyError → String
  | mismatch l r => "type mismatch: " ++ l.written ++ " vs " ++ r.written
  | arity l r => "expected " ++ toString l ++ " type arguments, found " ++ toString r
  | occurs p _ => "`" ++ p.name ++ "` would have to contain itself"

/-- The placeholder that stands for the class of each placeholder, how high the tree of merged
classes behind it is, the type that a class is bound to, and all placeholders that were merged or
bound. -/
structure Unifier where
  known : List Placeholder
  root : Placeholder → Placeholder
  rank : Placeholder → Nat
  bound : Placeholder → Option Ty

namespace Unifier

/-- Nothing is known. -/
def empty : Unifier := ⟨[], id, fun _ => 0, fun _ => none⟩

/-- Makes two different roots one class. The root of lower rank gives way, the first of two equal
ones, whose partner rises. -/
def merge (u : Unifier) (p q : Placeholder) : Unifier :=
  let gone := if u.rank q < u.rank p then q else p
  let stays := if u.rank q < u.rank p then p else q
  { u with
    known := u.known.insert p |>.insert q
    root := fun x =>
      let r := u.root x
      if r = gone then stays else r
    rank := fun x =>
      let n := u.rank x
      if x = stays ∧ u.rank p = u.rank q then n + 1 else n }

/-- Binds a root to a type. -/
def assign (u : Unifier) (p : Placeholder) (t : Ty) : Unifier :=
  { u with
    known := u.known.insert p
    bound := fun x => if x = p then some t else u.bound x }

/-- A type with the class of a placeholder in its place: its type, or its root. -/
def head (u : Unifier) : Ty → Ty
  | .param p => (u.bound (u.root p)).getD (.param (u.root p))
  | t => t

/-- What a placeholder stands for, followed through at most `n` bindings. -/
def lookup (u : Unifier) : Nat → Placeholder → Ty
  | 0, p => .param (u.root p)
  | n + 1, p =>
    match u.bound (u.root p) with
    | some t => t.bind (u.lookup n)
    | none => .param (u.root p)

/-- A type with all that is known put in. -/
def resolve (u : Unifier) (t : Ty) : Ty := t.bind (u.lookup u.known.length)

/-- Whether a placeholder leads to a root through at most `n` bindings. -/
def reaches (u : Unifier) (root : Placeholder) : Nat → Placeholder → Bool
  | 0, p => u.root p == root
  | n + 1, p =>
    u.root p == root ||
      match u.bound (u.root p) with
      | some t => t.anyPlaceholder (u.reaches root n)
      | none => false

/-- Whether a type leads to a root. -/
def occurs (u : Unifier) (root : Placeholder) (t : Ty) : Bool :=
  t.anyPlaceholder (u.reaches root u.known.length)

/-! ## Unifying -/

/-- How an attempt ends, and what is known then. -/
abbrev Outcome := Except UnifyError Unit × Unifier

/-- Unifies types pair by pair, up to the first failure. -/
def unifyEach (unify : Unifier → Ty → Ty → Outcome) : Unifier → List Ty → List Ty → Outcome
  | u, a :: as, b :: bs =>
    match unify u a b with
    | (.ok (), v) => unifyEach unify v as bs
    | (.error e, v) => (.error e, v)
  | u, _, _ => (.ok (), u)

/-- Unifies two types that are no deeper than `n` once resolved. -/
def unifyWithin : Nat → Unifier → Ty → Ty → Outcome
  | 0, u, a, b => (.error (.mismatch a b), u)
  | n + 1, u, a, b =>
    match u.head a, u.head b with
    | .param p, .param q => if p = q then (.ok (), u) else (.ok (), u.merge p q)
    | .param p, t | t, .param p =>
      if u.occurs p t then (.error (.occurs p t), u) else (.ok (), u.assign p t)
    | .slice s, .slice t => unifyWithin n u s t
    | .nominal d ss ps, .nominal e ts qs =>
      if d ≠ e then (.error (.mismatch (.nominal d ss ps) (.nominal e ts qs)), u)
      else if ss.length ≠ ts.length then (.error (.arity ss.length ts.length), u)
      else unifyEach (unifyWithin n) u ss ts
    | .prim p, .prim q => if p = q then (.ok (), u) else (.error (.mismatch (.prim p) (.prim q)), u)
    | s, t => (.error (.mismatch s t), u)

/-- The size of the type that a placeholder is bound to. -/
def boundSize (u : Unifier) (p : Placeholder) : Nat := ((u.bound p).map Ty.size).getD 0

/-- The sizes of all types that placeholders are bound to, together. -/
def knownSize (u : Unifier) : Nat := u.known.foldr (fun p n => u.boundSize p + n) 0

/-- More than the depth that two types can reach: each class with a type is passed at most once, and
every type met on the way is part of one that is there at the start. -/
def depthBound (u : Unifier) (a b : Ty) : Nat :=
  let n := u.known.length + a.size + b.size + u.knownSize
  (n + 1) * (n + 1)

/-- Makes two types equal. -/
def unify (u : Unifier) (a b : Ty) : Outcome := unifyWithin (u.depthBound a b) u a b

/-- What is known, as a substitution: placeholders that stand for themselves are left out. -/
def substitution (u : Unifier) : Substitution :=
  .ofList (u.known.filterMap fun p =>
    let t := u.resolve (.param p)
    if t == .param p then none else some (p, t))

end Unifier

/-- The substitution that makes two types equal. -/
def inferSubstitution (a b : Ty) : Option Substitution :=
  match Unifier.empty.unify a b with
  | (.ok (), u) => some u.substitution
  | (.error _, _) => none

end Reshape
