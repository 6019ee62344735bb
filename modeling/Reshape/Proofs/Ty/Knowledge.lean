import Mathlib.Data.Finset.Card
import Mathlib.Logic.Relation
import Reshape.Proofs.Ty.Equality
import Reshape.Ty.Unify

/-!
# What a unifier knows

A class of placeholders leads to those that occur in its type. As long as no class leads back to
itself (`Unifier.WellFormed`), all that is known can be put in, whatever else may be known.

* `WellFormed.level_lt` and `level_le`: how many bound classes can be reached from a class falls along
  every edge, and there are no more of them than placeholders that were merged or bound.
* `WellFormed.meaning_of_bound` and `meaning_of_unbound`: as many steps as there are such placeholders
  find all that a placeholder stands for.
* `WellFormed.occurs_eq_true_iff`: the occurs check looks through classes and their types.
* `WellFormed.merge` and `WellFormed.assign`: merging two classes without types, and binding a class
  to a type that does not lead to it, keep a unifier well-formed.
-/

namespace Reshape.Unifier

open Relation

/-- The class of `p` has a type in which a placeholder of the class of `q` occurs. -/
def Edge (u : Unifier) (p q : Placeholder) : Prop :=
  ∃ t, u.bound p = some t ∧ ∃ x, t.Occurs x ∧ u.root x = q

/-- Roots are roots of themselves, only they are bound, and to no bare placeholder; what was never merged
or bound stands for itself, and no class leads back to itself. -/
structure WellFormed (u : Unifier) : Prop where
  root_root : ∀ p, u.root (u.root p) = u.root p
  fresh : ∀ p, p ∉ u.known → u.root p = p ∧ u.bound p = none
  root_mem : ∀ p, u.root p ≠ p → u.root p ∈ u.known
  bound_root : ∀ p t, u.bound p = some t → u.root p = p
  ne_param : ∀ p t, u.bound p = some t → ∀ q, t ≠ .param q
  acyclic : ∃ height : Placeholder → Nat, ∀ p q, u.Edge p q → height q < height p

theorem wellFormed_empty : empty.WellFormed where
  root_root _ := rfl
  fresh _ _ := ⟨rfl, rfl⟩
  root_mem _ h := absurd rfl h
  bound_root _ _ h := by cases h
  ne_param _ _ h := by cases h
  acyclic := ⟨fun _ => 0, fun p q ⟨t, ht, _⟩ => by cases ht⟩

variable {u : Unifier}

theorem WellFormed.mem_known (hu : u.WellFormed) {p : Placeholder} {t : Ty}
    (h : u.bound p = some t) : p ∈ u.known := by
  by_contra hp
  rw [(hu.fresh p hp).2] at h
  cases h

/-! ## Levels -/

open Classical in
/-- The number of bound classes that a class leads to, itself included. -/
noncomputable def level (u : Unifier) (p : Placeholder) : Nat :=
  (u.known.toFinset.filter fun q => u.bound q ≠ none ∧ ReflTransGen u.Edge p q).card

theorem WellFormed.not_transGen_self (hu : u.WellFormed) (p : Placeholder) :
    ¬ TransGen u.Edge p p := by
  obtain ⟨height, hheight⟩ := hu.acyclic
  have hlt : ∀ q, TransGen u.Edge p q → height q < height p := by
    intro q h
    induction h with
    | single h => exact hheight _ _ h
    | tail _ h ih => exact (hheight _ _ h).trans ih
  exact fun h => lt_irrefl _ (hlt p h)

theorem level_le (u : Unifier) (p : Placeholder) : u.level p ≤ u.known.toFinset.card := by
  classical
  exact Finset.card_filter_le _ _

/-- The level falls along every edge. -/
theorem WellFormed.level_lt (hu : u.WellFormed) {p q : Placeholder} (h : u.Edge p q) :
    u.level q < u.level p := by
  classical
  obtain ⟨t, ht, -⟩ := id h
  refine Finset.card_lt_card (Finset.ssubset_iff_of_subset ?_ |>.2 ⟨p, ?_, ?_⟩)
  · intro x hx
    simp only [Finset.mem_filter, List.mem_toFinset] at hx ⊢
    exact ⟨hx.1, hx.2.1, ReflTransGen.head h hx.2.2⟩
  · simp only [Finset.mem_filter, List.mem_toFinset]
    exact ⟨hu.mem_known ht, by simp [ht], ReflTransGen.refl⟩
  · simp only [Finset.mem_filter, not_and]
    exact fun _ _ hqp => hu.not_transGen_self p (TransGen.head' h hqp)

/-- A bound class has itself among those that it leads to. -/
theorem WellFormed.level_pos (hu : u.WellFormed) {p : Placeholder} {t : Ty}
    (h : u.bound p = some t) : 0 < u.level p := by
  classical
  refine Finset.card_pos.2 ⟨p, ?_⟩
  simp only [Finset.mem_filter, List.mem_toFinset]
  exact ⟨hu.mem_known h, by simp [h], ReflTransGen.refl⟩

theorem edge_of_bound {p x : Placeholder} {t : Ty} (h : u.bound p = some t) (hx : t.Occurs x) :
    u.Edge p (u.root x) := ⟨t, h, x, hx, rfl⟩

theorem WellFormed.level_root_lt (hu : u.WellFormed) {p x : Placeholder} {t : Ty}
    (h : u.bound p = some t) (hx : t.Occurs x) : u.level (u.root x) < u.level p :=
  hu.level_lt (edge_of_bound h hx)

/-! ## Following bindings -/

theorem lookup_eq_of_level_le (hu : u.WellFormed) {n m : Nat} {p : Placeholder}
    (hn : u.level (u.root p) ≤ n) (hm : u.level (u.root p) ≤ m) : u.lookup n p = u.lookup m p := by
  induction n generalizing m p with
  | zero =>
    cases hb : u.bound (u.root p) with
    | none => cases m <;> simp [lookup, hb]
    | some t => exact absurd hn (hu.level_pos hb).not_ge
  | succ n ih =>
    cases hb : u.bound (u.root p) with
    | none => cases m <;> simp [lookup, hb]
    | some t =>
      cases m with
      | zero => exact absurd hm (hu.level_pos hb).not_ge
      | succ m =>
        simp only [lookup, hb]
        refine Ty.bind_congr fun x hx => ih ?_ ?_
        · have := hu.level_root_lt hb hx
          omega
        · have := hu.level_root_lt hb hx
          omega

/-- What a placeholder stands for. -/
def meaning (u : Unifier) (p : Placeholder) : Ty := u.lookup u.known.length p

theorem resolve_eq_bind (u : Unifier) (t : Ty) : u.resolve t = t.bind u.meaning := rfl

theorem level_le_length (u : Unifier) (p : Placeholder) : u.level p ≤ u.known.length :=
  (u.level_le p).trans (List.toFinset_card_le _)

/-- A class without a type stands for its root. -/
theorem meaning_of_unbound {p : Placeholder} (h : u.bound (u.root p) = none) :
    u.meaning p = .param (u.root p) := by
  unfold meaning
  cases u.known.length <;> simp [lookup, h]

/-- A class with a type stands for that type with all that is known put in. -/
theorem WellFormed.meaning_of_bound (hu : u.WellFormed) {p : Placeholder} {t : Ty}
    (h : u.bound (u.root p) = some t) : u.meaning p = t.bind u.meaning := by
  have hstep : u.lookup (u.known.length + 1) p = t.bind u.meaning := by
    simp only [lookup, h]
    rfl
  rw [← hstep]
  have hle := u.level_le_length (u.root p)
  exact lookup_eq_of_level_le hu hle (by omega)

theorem WellFormed.meaning_root (hu : u.WellFormed) (p : Placeholder) :
    u.meaning (u.root p) = u.meaning p := by
  cases h : u.bound (u.root p) with
  | none => rw [meaning_of_unbound h, meaning_of_unbound (by rwa [hu.root_root]), hu.root_root]
  | some t => rw [hu.meaning_of_bound h, hu.meaning_of_bound (by rwa [hu.root_root])]

/-- Putting in what is known a second time changes nothing. -/
theorem WellFormed.bind_meaning (hu : u.WellFormed) (p : Placeholder) :
    (u.meaning p).bind u.meaning = u.meaning p := by
  induction hl : u.level (u.root p) using Nat.strong_induction_on generalizing p with
  | _ l ih =>
    cases h : u.bound (u.root p) with
    | none => rw [meaning_of_unbound h, Ty.bind, hu.meaning_root, meaning_of_unbound h]
    | some t =>
      rw [hu.meaning_of_bound h, Ty.bind_bind]
      exact Ty.bind_congr fun x hx => ih _ (hl ▸ hu.level_root_lt h hx) x rfl

/-! ## The occurs check -/

theorem reaches_eq_true_iff (hu : u.WellFormed) {root p : Placeholder} {n : Nat}
    (hn : u.level (u.root p) ≤ n) :
    u.reaches root n p = true ↔ ReflTransGen u.Edge (u.root p) root := by
  induction n generalizing p with
  | zero =>
    simp only [reaches, beq_iff_eq]
    constructor
    · rintro rfl
      exact ReflTransGen.refl
    · intro h
      rcases ReflTransGen.cases_head h with h | ⟨q, hq, -⟩
      · exact h
      · have := hu.level_lt hq
        omega
  | succ n ih =>
    simp only [reaches, Bool.or_eq_true, beq_iff_eq]
    constructor
    · rintro (rfl | h)
      · exact ReflTransGen.refl
      · cases hb : u.bound (u.root p) with
        | none => simp [hb] at h
        | some t =>
          simp only [hb, Ty.anyPlaceholder_iff] at h
          obtain ⟨x, hx, hreach⟩ := h
          have hlt := hu.level_root_lt hb hx
          exact ReflTransGen.head (edge_of_bound hb hx) ((ih (by omega)).1 hreach)
    · intro h
      rcases ReflTransGen.cases_head h with h | ⟨q, hq, hqr⟩
      · exact Or.inl h
      · obtain ⟨t, hb, x, hx, rfl⟩ := hq
        have hlt := hu.level_root_lt hb hx
        refine Or.inr ?_
        simp only [hb, Ty.anyPlaceholder_iff]
        exact ⟨x, hx, (ih (by omega)).2 hqr⟩

/-- The occurs check finds a root in a type if and only if a class in the type leads to it. -/
theorem WellFormed.occurs_eq_true_iff (hu : u.WellFormed) {root : Placeholder} {t : Ty} :
    u.occurs root t = true ↔ ∃ x, t.Occurs x ∧ ReflTransGen u.Edge (u.root x) root := by
  rw [occurs, Ty.anyPlaceholder_iff]
  exact exists_congr fun x => and_congr_right fun _ =>
    reaches_eq_true_iff hu (u.level_le_length _)

/-! ## Steps -/

section Steps

variable {p q : Placeholder} {t : Ty}

/-- Which of two different roots gives way, and which stays. -/
theorem merge_cases (u : Unifier) (p q : Placeholder) :
    ∃ gone stays, ((gone = p ∧ stays = q) ∨ (gone = q ∧ stays = p)) ∧
      (u.merge p q).known = (u.known.insert p).insert q ∧ (u.merge p q).bound = u.bound ∧
      ∀ x, (u.merge p q).root x = if u.root x = gone then stays else u.root x := by
  by_cases h : u.rank q < u.rank p
  · exact ⟨q, p, Or.inr ⟨rfl, rfl⟩, rfl, rfl, fun x => by simp [merge, h]⟩
  · exact ⟨p, q, Or.inl ⟨rfl, rfl⟩, rfl, rfl, fun x => by simp [merge, h]⟩

/-- Two different roots without types can be merged. -/
theorem WellFormed.merge (hu : u.WellFormed) (hpq : p ≠ q) (hp : u.root p = p) (hq : u.root q = q)
    (hbp : u.bound p = none) (hbq : u.bound q = none) : (u.merge p q).WellFormed := by
  obtain ⟨gone, stays, hgs, hknown, hbound, hroot⟩ := u.merge_cases p q
  have hne : gone ≠ stays := by rcases hgs with ⟨rfl, rfl⟩ | ⟨rfl, rfl⟩ <;> simp [hpq, Ne.symm hpq]
  have hstays : u.root stays = stays := by rcases hgs with ⟨-, rfl⟩ | ⟨-, rfl⟩ <;> assumption
  have hgone : u.bound gone = none := by rcases hgs with ⟨rfl, -⟩ | ⟨rfl, -⟩ <;> assumption
  have hbstays : u.bound stays = none := by rcases hgs with ⟨-, rfl⟩ | ⟨-, rfl⟩ <;> assumption
  have hmem : ∀ x, x ∈ (u.merge p q).known ↔ x = q ∨ x = p ∨ x ∈ u.known := by
    intro x
    rw [hknown, List.mem_insert_iff, List.mem_insert_iff]
  have hstaysMem : stays ∈ (u.merge p q).known := by
    rw [hmem]
    rcases hgs with ⟨-, rfl⟩ | ⟨-, rfl⟩ <;> simp
  refine ⟨?root_root, ?fresh, ?root_mem, ?bound_root, fun x s hs => hu.ne_param x s (hbound ▸ hs),
    ?acyclic⟩
  case root_root =>
    intro x
    by_cases hx : u.root x = gone
    · rw [hroot x, if_pos hx, hroot, hstays, if_neg hne.symm]
    · rw [hroot x, if_neg hx, hroot, hu.root_root, if_neg hx]
  case fresh =>
    intro x hx
    rw [hmem, not_or, not_or] at hx
    obtain ⟨hxroot, hxbound⟩ := hu.fresh x hx.2.2
    have hxgone : x ≠ gone := by rcases hgs with ⟨rfl, -⟩ | ⟨rfl, -⟩ <;> simp [hx.1, hx.2.1]
    exact ⟨by rw [hroot, hxroot, if_neg hxgone], by rw [hbound, hxbound]⟩
  case root_mem =>
    intro x hx
    by_cases hg : u.root x = gone
    · rwa [hroot, if_pos hg]
    · rw [hroot, if_neg hg] at hx ⊢
      exact (hmem _).2 (Or.inr (Or.inr (hu.root_mem x hx)))
  case bound_root =>
    intro x s hs
    rw [hbound] at hs
    have hx : x ≠ gone := by
      rintro rfl
      rw [hgone] at hs
      cases hs
    rw [hroot, hu.bound_root x s hs, if_neg hx]
  case acyclic =>
    -- Classes without a type lead nowhere: they go to the bottom, below all others.
    obtain ⟨height, hheight⟩ := hu.acyclic
    refine ⟨fun x => if u.bound x = none then 0 else height x + 1, ?_⟩
    rintro x y ⟨s, hs, z, hz, rfl⟩
    rw [hbound] at hs
    simp only [hs, hroot z]
    by_cases hg : u.root z = gone
    · simp [hg, hbstays]
    · by_cases hb : u.bound (u.root z) = none
      · simp [hg, hb]
      · have := hheight _ _ (edge_of_bound hs hz)
        simpa [hg, hb] using this

theorem exists_height_bound (height : Placeholder → Nat) (t : Ty) (f : Placeholder → Placeholder) :
    ∃ b, ∀ x, t.Occurs x → height (f x) ≤ b := by
  refine ⟨(t.vars.map fun x => height (f x)).foldr max 0, fun x hx => ?_⟩
  have hmem : height (f x) ∈ t.vars.map fun x => height (f x) :=
    List.mem_map_of_mem (Ty.mem_vars.2 hx)
  generalize t.vars.map (fun x => height (f x)) = l at hmem
  induction l with
  | nil => cases hmem
  | cons n l ih =>
    rw [List.foldr_cons]
    rcases List.mem_cons.1 hmem with h | h
    · exact h ▸ le_max_left _ _
    · exact (ih h).trans (le_max_right _ _)

/-- A root without a type can be bound to a type that does not lead to it. -/
theorem WellFormed.assign (hu : u.WellFormed) (hp : u.root p = p) (hparam : ∀ q, t ≠ .param q)
    (hocc : u.occurs p t = false) : (u.assign p t).WellFormed := by
  have hmem : ∀ x, x ∈ (u.assign p t).known ↔ x = p ∨ x ∈ u.known := fun x =>
    List.mem_insert_iff
  refine ⟨hu.root_root, ?fresh, ?root_mem, ?bound_root, ?ne_param, ?acyclic⟩
  case fresh =>
    intro x hx
    rw [hmem, not_or] at hx
    obtain ⟨hxroot, hxbound⟩ := hu.fresh x hx.2
    exact ⟨hxroot, by simp [Unifier.assign, hx.1, hxbound]⟩
  case root_mem => exact fun x hx => (hmem _).2 (Or.inr (hu.root_mem x hx))
  case bound_root =>
    intro x s hs
    by_cases hx : x = p
    · subst hx; exact hp
    · simp only [Unifier.assign, if_neg hx] at hs
      exact hu.bound_root x s hs
  case ne_param =>
    intro x s hs
    change (if x = p then some t else u.bound x) = some s at hs
    by_cases hx : x = p
    · rw [if_pos hx, Option.some.injEq] at hs
      exact hs ▸ hparam
    · rw [if_neg hx] at hs
      exact hu.ne_param x s hs
  case acyclic =>
    classical
    -- All classes that lead to `p` are lifted above everything that `t` mentions.
    obtain ⟨height, hheight⟩ := hu.acyclic
    obtain ⟨b, hb⟩ := exists_height_bound height t u.root
    have hnot : ∀ x, t.Occurs x → ¬ ReflTransGen u.Edge (u.root x) p := by
      intro x hx hreach
      rw [hu.occurs_eq_true_iff.2 ⟨x, hx, hreach⟩] at hocc
      cases hocc
    refine ⟨fun x => if ReflTransGen u.Edge x p then height x + b + 1 else height x, ?_⟩
    rintro x y ⟨s, hs, z, hz, hzy⟩
    change (if x = p then some t else u.bound x) = some s at hs
    change u.root z = y at hzy
    subst hzy
    beta_reduce
    by_cases hx : x = p
    · subst hx
      rw [if_pos rfl, Option.some.injEq] at hs
      subst hs
      rw [if_neg (hnot z hz), if_pos ReflTransGen.refl]
      have := hb z hz
      omega
    · rw [if_neg hx] at hs
      have hedge := edge_of_bound hs hz
      have hlt := hheight _ _ hedge
      by_cases hy : ReflTransGen u.Edge (u.root z) p
      · rw [if_pos hy, if_pos (ReflTransGen.head hedge hy)]
        omega
      · rw [if_neg hy]
        split <;> omega

end Steps

end Reshape.Unifier
