import Reshape.Proofs.Ty.Unification

/-!
# A unifier over many calls

A unifier is called again and again, and a call that fails leaves behind what it found out before it
failed. Whatever the calls are, no class leads back to itself, and what two types were made equal by
stays known.

* `Unifier.Call` lists the calls, and `Unifier.run` makes them one after the other.
* `Unifier.Follows` is the relation along which types are gone through. On a well-formed unifier it is
  well-founded (`WellFormed.wellFounded_follows`), and the answers satisfy the equations of the
  recursion along it (`Unifier.Terminates`).
* `wellFormed_after` and `solves_of_after` are the step lemmas, `wellFormed_run` and `solves_of_run` the
  run lemmas; `run_resolve_eq` puts them together.
-/

namespace Reshape.Unifier

open Relation

variable {r : Placeholder → Ty} {u : Unifier} {p : Placeholder} {t : Ty}

/-! ## Calls -/

/-- A call of a unifier. -/
inductive Call
  | unify (a b : Ty)
  | resolve (t : Ty)
  | substitution

/-- What is known after a call. To read off what is known adds nothing. -/
def after (u : Unifier) : Call → Unifier
  | .unify a b => (u.unify a b).2
  | .resolve _ | .substitution => u

/-- What is known after calls that are made one after the other. -/
def run (u : Unifier) (calls : List Call) : Unifier := calls.foldl after u

theorem run_append (u : Unifier) (calls more : List Call) :
    u.run (calls ++ more) = (u.run calls).run more := List.foldl_append

theorem wellFormed_after (hu : u.WellFormed) (c : Call) : (u.after c).WellFormed := by
  cases c with
  | unify a b => exact (unify_answers hu a b).wellFormed
  | resolve t => exact hu
  | substitution => exact hu

/-- No call takes back what is known. -/
theorem solves_of_after (hu : u.WellFormed) {c : Call} (h : Solves r (u.after c)) : Solves r u := by
  cases c with
  | unify a b => exact (unify_answers hu a b).solves_of r h
  | resolve t => exact h
  | substitution => exact h

theorem wellFormed_run (hu : u.WellFormed) (calls : List Call) : (u.run calls).WellFormed := by
  induction calls generalizing u with
  | nil => exact hu
  | cons c calls ih => exact ih (wellFormed_after hu c)

theorem solves_of_run (hu : u.WellFormed) {calls : List Call} (h : Solves r (u.run calls)) :
    Solves r u := by
  induction calls generalizing u with
  | nil => exact h
  | cons c calls ih => exact solves_of_after hu (ih (wellFormed_after hu c) h)

/-! ## Going through types -/

/-- A type that is gone through leads to its parts next, and a placeholder to what its class is bound
to. -/
inductive Follows (u : Unifier) : Ty → Ty → Prop
  | part {s t : Ty} : s ∈ t.parts → Follows u s t
  | bound {s : Ty} {p : Placeholder} : u.bound (u.root p) = some s → Follows u s (.param p)

/-- One step of resolving a type, given the answers for the types that follow. -/
def resolveStep (u : Unifier) (answer : Ty → Ty) : Ty → Ty
  | .prim p => .prim p
  | .slice t => .slice (answer t)
  | .nominal d ts ps => .nominal d (ts.map answer) ps
  | .param p =>
    match u.bound (u.root p) with
    | some t => answer t
    | none => .param (u.root p)

/-- One step of looking for a root in a type, given the answers for the types that follow. -/
def occursStep (u : Unifier) (root : Placeholder) (answer : Ty → Bool) : Ty → Bool
  | .prim _ => false
  | .slice t => answer t
  | .nominal _ ts _ => ts.any answer
  | .param p =>
    u.root p == root ||
      match u.bound (u.root p) with
      | some t => answer t
      | none => false

/-- To go through a type comes to an end, and the answers of the unifier are those of the steps. -/
structure Terminates (u : Unifier) : Prop where
  wellFounded : WellFounded u.Follows
  head_eq : ∀ p t, u.bound (u.root p) = some t → u.head (.param p) = t ∧ u.head t = t
  resolve_eq : ∀ t, u.resolve t = u.resolveStep u.resolve t
  occurs_eq : ∀ root t, u.occurs root t = u.occursStep root (u.occurs root) t

/-- A type comes to an end if its placeholders do. -/
theorem acc_follows (h : ∀ x, t.Occurs x → Acc u.Follows (.param x)) : Acc u.Follows t := by
  induction t using Ty.argInduction with
  | prim q =>
    refine ⟨_, fun s hs => ?_⟩
    cases hs with
    | part hpart => cases hpart
  | slice t ih =>
    refine ⟨_, fun s hs => ?_⟩
    cases hs with
    | part hpart =>
      obtain rfl := List.mem_singleton.1 hpart
      exact ih fun x hx => h x (Ty.occurs_slice.2 hx)
  | nominal d ts ps ih =>
    refine ⟨_, fun s hs => ?_⟩
    cases hs with
    | part hpart => exact ih s hpart fun x hx => h x (Ty.occurs_nominal.2 ⟨s, hpart, hx⟩)
  | param q => exact h q (Ty.occurs_param.2 rfl)

namespace WellFormed

theorem wellFounded_follows (hu : u.WellFormed) : WellFounded u.Follows := by
  -- The types of classes mention placeholders of lower levels only.
  have hparam (p : Placeholder) : Acc u.Follows (.param p) := by
    induction hl : u.level (u.root p) using Nat.strong_induction_on generalizing p with
    | _ l ih =>
      refine ⟨_, fun s hs => ?_⟩
      cases hs with
      | part hpart => cases hpart
      | bound hb => exact acc_follows fun x hx => ih _ (hl ▸ hu.level_root_lt hb hx) x rfl
  exact ⟨fun t => acc_follows fun x _ => hparam x⟩

theorem head_of_bound (hu : u.WellFormed) (h : u.bound (u.root p) = some t) :
    u.head (.param p) = t ∧ u.head t = t := by
  refine ⟨by simp [head, h], ?_⟩
  cases t with
  | param q => exact absurd rfl (hu.ne_param _ _ h q)
  | _ => rfl

theorem resolve_eq_step (hu : u.WellFormed) (t : Ty) : u.resolve t = u.resolveStep u.resolve t := by
  cases t with
  | prim p => rfl
  | slice t => rfl
  | nominal d ts ps => exact congrArg (Ty.nominal d · ps) (Ty.bindAll_eq_map _ ts)
  | param p =>
    simp only [resolveStep]
    cases h : u.bound (u.root p) with
    | some t => exact hu.meaning_of_bound h
    | none => exact meaning_of_unbound h

theorem occurs_eq_step (hu : u.WellFormed) (root : Placeholder) (t : Ty) :
    u.occurs root t = u.occursStep root (u.occurs root) t := by
  cases t with
  | prim p => rfl
  | slice t => rfl
  | nominal d ts ps => exact Ty.anyPlaceholderAmong_eq_any _ ts
  | param p =>
    have hparam : u.occurs root (.param p) = true ↔ ReflTransGen u.Edge (u.root p) root := by
      simp [hu.occurs_eq_true_iff, Ty.occurs_param]
    rw [Bool.eq_iff_iff, hparam, ReflTransGen.cases_head_iff]
    simp only [occursStep, Bool.or_eq_true, beq_iff_eq]
    refine or_congr_right ?_
    cases h : u.bound (u.root p) with
    | some t => simp only [hu.occurs_eq_true_iff, Edge, h]; grind
    | none => simp [Edge, h]

theorem terminates (hu : u.WellFormed) : u.Terminates where
  wellFounded := hu.wellFounded_follows
  head_eq _ _ := hu.head_of_bound
  resolve_eq := hu.resolve_eq_step
  occurs_eq := hu.occurs_eq_step

theorem resolve_resolve (hu : u.WellFormed) (t : Ty) : u.resolve (u.resolve t) = u.resolve t := by
  rw [resolve_eq_bind, resolve_eq_bind, Ty.bind_bind]
  exact Ty.bind_congr fun x _ => hu.bind_meaning x

/-- Two types that were made equal are equal once all that is known later is put in. -/
theorem resolve_run_equiv (hu : u.WellFormed) {a b : Ty} (hok : (u.unify a b).1 = .ok ())
    (calls : List Call) :
    ((u.unify a b).2.run calls).resolve a ≈ ((u.unify a b).2.run calls).resolve b := by
  have hans := unify_answers hu a b
  have hlater : Solves (((u.unify a b).2.run calls).meaning) (u.unify a b).2 :=
    solves_of_run hans.wellFormed (wellFormed_run hans.wellFormed calls).solves_meaning
  exact ((hans.solves_iff hok _).1 hlater).2

end WellFormed

/-! ## All calls together -/

/-- After any calls no class leads back to itself, so that types are gone through to an end; what is
known is put in all at once; and types that some call has made equal are equal. -/
theorem run_resolve_eq (calls : List Call) :
    (∀ p, ¬ TransGen (empty.run calls).Edge p p) ∧ (empty.run calls).Terminates ∧
    (∀ t, (empty.run calls).resolve ((empty.run calls).resolve t) = (empty.run calls).resolve t) ∧
    ∀ before a b later, calls = before ++ .unify a b :: later →
      ((empty.run before).unify a b).1 = .ok () →
      ((empty.run calls).resolve a == (empty.run calls).resolve b) = true := by
  have hu : (empty.run calls).WellFormed := wellFormed_run wellFormed_empty calls
  refine ⟨hu.not_transGen_self, hu.terminates, hu.resolve_resolve, ?_⟩
  rintro before a b later rfl hok
  have hbefore : (empty.run before).WellFormed := wellFormed_run wellFormed_empty before
  rw [run_append]
  exact Ty.beq_iff_equiv.2 (hbefore.resolve_run_equiv hok later)

/-- Two placeholders that were made equal are equal after a call that binds one of them and then fails. -/
theorem run_resolve_eq_after_failure :
    let t := Ty.param ⟨"T", 0⟩
    let u := Ty.param ⟨"U", 1⟩
    let v := Ty.param ⟨"V", 2⟩
    let failing := (Ty.nominal 0 [u, .slice v] [], Ty.nominal 0 [.prim .bool, v] [])
    let known := empty.run [.unify t u, .unify failing.1 failing.2, .resolve t]
    (empty.unify t u).1 = .ok () ∧
      ((empty.run [.unify t u]).unify failing.1 failing.2).1 = .error (.occurs ⟨"V", 2⟩ (.slice v)) ∧
      known.resolve t = .prim .bool ∧ (known.resolve t == known.resolve u) = true := by
  intro t u v failing known
  have hok : (empty.unify t u).1 = .ok () := rfl
  exact ⟨hok, rfl, rfl, (run_resolve_eq [.unify t u, .unify failing.1 failing.2, .resolve t]).2.2.2
    [] t u [.unify failing.1 failing.2, .resolve t] rfl hok⟩

end Reshape.Unifier
