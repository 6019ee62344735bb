import Mathlib.Data.List.Forall2
import Reshape.Proofs.Ty.Equality
import Reshape.Ty.Unify

/-!
# Agreement under a substitution

Two types agree under a substitution exactly if they are equal once it is applied to both. The
search part by part, with its count of the arguments and its answer for types of different kinds,
sees no agreement that equality does not see and misses none.

* `Ty.agrees_iff_equiv` compares the search with equality, by induction on types.
* `canUnify_slice` and `canUnify_nominal` take agreement apart along a type.
* `canUnify_congruence` is the result: agreement is equality after the substitution, so that it is
  an equivalence, and slices and declared types agree if what is in them agrees.
-/

namespace Reshape

variable {R : Ty → Ty → Prop} {a b : Ty} {d e : DeclId} {ss ts : List Ty} {ps qs : List Placeholder}
  {context : Substitution}

namespace Ty

/-! ## Equality part by part -/

theorem slice_equiv_iff : slice a ≈ slice b ↔ a ≈ b := by
  simp only [equiv_def, erase, slice.injEq]

theorem nominal_equiv_iff :
    nominal d ss ps ≈ nominal e ts qs ↔ d = e ∧ List.Forall₂ (· ≈ ·) ss ts := by
  have hargs : eraseAll ss = eraseAll ts ↔ List.Forall₂ (· ≈ ·) ss ts := by
    rw [eraseAll_eq_map, eraseAll_eq_map, ← List.forall₂_eq_eq_eq, List.forall₂_map_left_iff,
      List.forall₂_map_right_iff]
    rfl
  simp only [equiv_def, erase, nominal.injEq, and_true, hargs]

/-! ## The search part by part -/

/-- The search through two lists asks for the same number of types, pair by pair equal. -/
theorem agreesAll_iff (h : ∀ s ∈ ss, ∀ t, agrees s t = true ↔ s ≈ t) :
    agreesAll ss ts = true ↔ List.Forall₂ (· ≈ ·) ss ts := by
  induction ss generalizing ts with
  | nil => cases ts <;> simp [agreesAll]
  | cons s ss ih =>
    cases ts with
    | nil => simp [agreesAll]
    | cons t ts =>
      have hrest : agreesAll ss ts = true ↔ List.Forall₂ (· ≈ ·) ss ts :=
        ih fun x hx => h x (List.mem_cons_of_mem s hx)
      rw [agreesAll, Bool.and_eq_true, h s List.mem_cons_self t, hrest, List.forall₂_cons]

/-- The search finds equality and nothing else: what it finds behind the test for equality are types
whose parts are equal. -/
theorem agrees_iff_equiv (a b : Ty) : agrees a b = true ↔ a ≈ b := by
  induction a using argInduction generalizing b with
  | prim p => cases b <;> simp [agrees, beq_iff_equiv, equiv_def, erase]
  | slice t ih =>
    cases b with
    | slice u => rw [agrees, Bool.or_eq_true, beq_iff_equiv, ih u, slice_equiv_iff, or_self]
    | _ => simp [agrees, beq_iff_equiv, equiv_def, erase]
  | nominal d ss ps ih =>
    cases b with
    | nominal e ts qs =>
      rw [agrees, Bool.or_eq_true, beq_iff_equiv, Bool.and_eq_true, beq_iff_eq, agreesAll_iff ih,
        nominal_equiv_iff, or_self]
    | _ => simp [agrees, beq_iff_equiv, equiv_def, erase]
  | param p => cases b <;> simp [agrees, beq_iff_equiv, equiv_def, erase]

end Ty

/-! ## Agreement once a substitution is applied -/

theorem canUnify_iff_equiv : canUnify a b context = true ↔ context.apply a ≈ context.apply b :=
  Ty.agrees_iff_equiv _ _

theorem Substitution.apply_slice (s : Substitution) (t : Ty) :
    s.apply (.slice t) = .slice (s.apply t) := by
  rw [apply_eq_bind, apply_eq_bind, Ty.bind]

theorem Substitution.apply_nominal (s : Substitution) (d : DeclId) (ts : List Ty)
    (ps : List Placeholder) : s.apply (.nominal d ts ps) = .nominal d (ts.map s.apply) ps := by
  rw [apply_eq_bind, Ty.bind, Ty.bindAll_eq_map]
  exact congrArg (Ty.nominal d · ps) (List.map_congr_left fun t _ => (s.apply_eq_bind t).symm)

theorem canUnify_slice : canUnify (.slice a) (.slice b) context = canUnify a b context := by
  rw [Bool.eq_iff_iff, canUnify_iff_equiv, canUnify_iff_equiv, Substitution.apply_slice,
    Substitution.apply_slice, Ty.slice_equiv_iff]

/-- Declared types agree if the declaration is the same and the arguments agree place by place. -/
theorem canUnify_nominal : canUnify (.nominal d ss ps) (.nominal e ts qs) context = true ↔
    d = e ∧ List.Forall₂ (fun a b => canUnify a b context = true) ss ts := by
  simp only [canUnify_iff_equiv, Substitution.apply_nominal, Ty.nominal_equiv_iff,
    List.forall₂_map_left_iff, List.forall₂_map_right_iff]

theorem equivalence_canUnify (context : Substitution) :
    Equivalence fun a b => canUnify a b context = true where
  refl _ := canUnify_iff_equiv.2 (Setoid.refl _)
  symm h := canUnify_iff_equiv.2 (Setoid.symm (canUnify_iff_equiv.1 h))
  trans h h' :=
    canUnify_iff_equiv.2 (Setoid.trans (canUnify_iff_equiv.1 h) (canUnify_iff_equiv.1 h'))

/-- Two lists that differ in one place are related if what stands there is. -/
theorem forall₂_around (hR : ∀ t, R t t) (before behind : List Ty) :
    List.Forall₂ R (before ++ a :: behind) (before ++ b :: behind) ↔ R a b := by
  induction before with
  | nil =>
    rw [List.nil_append, List.nil_append, List.forall₂_cons]
    exact and_iff_left (List.forall₂_same.2 fun t _ => hR t)
  | cons t before ih =>
    rw [List.cons_append, List.cons_append, List.forall₂_cons, ih, and_iff_right (hR t)]

/-- Agreement under a substitution is equality after it. So it is an equivalence, and types agree in
a slice, or in one place among the arguments of one declaration, exactly if they agree. -/
theorem canUnify_congruence (context : Substitution) :
    (∀ a b, canUnify a b context = (context.apply a == context.apply b)) ∧
    (Equivalence fun a b => canUnify a b context = true) ∧
    (∀ a b, canUnify (.slice a) (.slice b) context = canUnify a b context) ∧
    ∀ d before behind ps qs a b,
      canUnify (.nominal d (before ++ a :: behind) ps) (.nominal d (before ++ b :: behind) qs)
        context = canUnify a b context := by
  have hequiv := equivalence_canUnify context
  refine ⟨fun a b => ?_, hequiv, fun a b => canUnify_slice, fun d before behind ps qs a b => ?_⟩
  · rw [Bool.eq_iff_iff, canUnify_iff_equiv, Ty.beq_iff_equiv]
  · rw [Bool.eq_iff_iff, canUnify_nominal, forall₂_around hequiv.refl before behind]
    exact and_iff_right rfl

end Reshape
