import Reshape.Proofs.Ty.Knowledge

/-!
# Solutions of what a unifier knows

What a unifier knows is a set of equations between placeholders, their roots and the types of roots.

* `Unifier.Solves` says that types put in for placeholders make them true. `solves_merge_iff` and
  `solves_assign_iff` say which equation a step adds, `WellFormed.solves_meaning` that what is known
  solves itself.
* `Unifier.Descends` follows the parts of a type and of the types put in for them.
  `Descends.depth_lt` bounds how deep that goes by the levels and sizes of the types known.
-/

namespace Reshape

namespace Unifier

variable {r : Placeholder → Ty} {u v : Unifier}

/-! ## Solutions -/

/-- The types put in for placeholders make true all that is known. -/
structure Solves (r : Placeholder → Ty) (u : Unifier) : Prop where
  root : ∀ p, r (u.root p) ≈ r p
  bound : ∀ p t, u.bound p = some t → r p ≈ t.bind r

theorem solves_empty : Solves r empty := ⟨fun _ => Setoid.refl _, fun _ _ h => by cases h⟩

/-- A solution does not tell a type from the one with its class put in its place. -/
theorem Solves.head (hr : Solves r u) (t : Ty) : (u.head t).bind r ≈ t.bind r := by
  cases t with
  | param p =>
    cases h : u.bound (u.root p) with
    | none => simpa [Unifier.head, h, Ty.bind] using hr.root p
    | some t =>
      simp only [Unifier.head, h, Option.getD_some]
      exact Setoid.trans (Setoid.symm (hr.bound _ t h)) (hr.root p)
  | _ => exact Setoid.refl _

/-- All that is known is made true by putting it in. -/
theorem WellFormed.solves_meaning (hu : u.WellFormed) : Solves u.meaning u where
  root p := (hu.meaning_root p).symm ▸ Setoid.refl _
  bound p t h := by
    have hb : u.bound (u.root p) = some t := by rw [hu.bound_root p t h, h]
    exact (hu.meaning_of_bound hb).symm ▸ Setoid.refl _

/-- Every solution takes what is known into account. -/
theorem Solves.bind_lookup (hr : Solves r u) (n : Nat) (p : Placeholder) :
    (u.lookup n p).bind r ≈ r p := by
  induction n generalizing p with
  | zero => exact hr.root p
  | succ n ih =>
    cases h : u.bound (u.root p) with
    | none => simpa [lookup, h, Ty.bind] using hr.root p
    | some t =>
      simp only [lookup, h, Ty.bind_bind]
      have hbind : t.bind (fun x => (u.lookup n x).bind r) ≈ t.bind r :=
        Ty.bind_equiv (Setoid.refl t) ih
      exact Setoid.trans hbind (Setoid.trans (Setoid.symm (hr.bound _ t h)) (hr.root p))

theorem Solves.bind_resolve (hr : Solves r u) (t : Ty) : (u.resolve t).bind r ≈ t.bind r := by
  rw [resolve_eq_bind, Ty.bind_bind]
  exact Ty.bind_equiv (Setoid.refl t) (hr.bind_lookup _)

/-- To merge two roots is to ask for one type for both. -/
theorem solves_merge_iff {p q : Placeholder} (hp : u.root p = p) (hq : u.root q = q) :
    Solves r (u.merge p q) ↔ Solves r u ∧ r p ≈ r q := by
  obtain ⟨gone, stays, hgs, -, hbound, hroot⟩ := u.merge_cases p q
  have hiff : r p ≈ r q ↔ r stays ≈ r gone := by
    rcases hgs with ⟨rfl, rfl⟩ | ⟨rfl, rfl⟩
    · exact ⟨Setoid.symm, Setoid.symm⟩
    · exact Iff.rfl
  have hgone : u.root gone = gone := by rcases hgs with ⟨rfl, -⟩ | ⟨rfl, -⟩ <;> assumption
  rw [hiff]
  constructor
  · intro h
    have hstays : r stays ≈ r gone := by
      have := h.root gone
      rwa [hroot, hgone, if_pos rfl] at this
    refine ⟨⟨fun x => ?_, fun x t ht => h.bound x t (by rwa [hbound])⟩, hstays⟩
    have hx := h.root x
    rw [hroot] at hx
    by_cases hg : u.root x = gone
    · rw [if_pos hg] at hx
      rw [hg]
      exact Setoid.trans (Setoid.symm hstays) hx
    · rwa [if_neg hg] at hx
  · rintro ⟨h, hstays⟩
    refine ⟨fun x => ?_, fun x t ht => h.bound x t (by rwa [hbound] at ht)⟩
    rw [hroot]
    by_cases hg : u.root x = gone
    · rw [if_pos hg]
      exact Setoid.trans hstays (hg ▸ h.root x)
    · rw [if_neg hg]
      exact h.root x

/-- To bind a root is to ask for the type that it is bound to. -/
theorem solves_assign_iff {p : Placeholder} {t : Ty} (hp : u.bound p = none) :
    Solves r (u.assign p t) ↔ Solves r u ∧ r p ≈ t.bind r := by
  constructor
  · intro h
    refine ⟨⟨h.root, fun x s hs => h.bound x s ?_⟩, h.bound p t (if_pos rfl)⟩
    have hx : x ≠ p := by
      rintro rfl
      rw [hp] at hs
      cases hs
    exact (if_neg hx).trans hs
  · rintro ⟨h, hpt⟩
    refine ⟨h.root, fun x s hs => ?_⟩
    by_cases hx : x = p
    · subst hx
      rw [show (u.assign x t).bound x = some t from if_pos rfl, Option.some.injEq] at hs
      exact hs ▸ hpt
    · exact h.bound x s ((if_neg hx).symm.trans hs)

/-- In a solution, types get no larger from a class to one that it leads to. -/
theorem Solves.size_le_of_reaches (hr : Solves r u) {p q : Placeholder}
    (h : Relation.ReflTransGen u.Edge p q) : (r q).size ≤ (r p).size := by
  induction h with
  | refl => exact Nat.le_refl _
  | tail _ hedge ih =>
    obtain ⟨t, ht, x, hx, rfl⟩ := hedge
    rw [Ty.size_eq_of_equiv (hr.root x)]
    rw [Ty.size_eq_of_equiv (hr.bound _ t ht)] at ih
    exact (Ty.size_le_size_bind hx).trans ih

/-- Nothing makes a placeholder equal to a larger type that leads to it. -/
theorem Solves.not_equiv_of_occurs (hr : Solves r u) (hu : u.WellFormed) {p : Placeholder} {t : Ty}
    (ht : ∀ q, t ≠ .param q) (hocc : u.occurs p t = true) : ¬ r p ≈ t.bind r := by
  obtain ⟨x, hx, hreach⟩ := hu.occurs_eq_true_iff.1 hocc
  intro h
  have hle := hr.size_le_of_reaches hreach
  rw [Ty.size_eq_of_equiv (hr.root x), Ty.size_eq_of_equiv h] at hle
  exact absurd (Ty.size_lt_size_bind hx ht) hle.not_gt

/-! ## How deep types can be -/

section Depth

variable {V : Finset Placeholder} {m d : Nat} {a x y : Ty}

/-- All placeholders are in `V`, and classes have types of at most `m` constructors. -/
structure Fits (V : Finset Placeholder) (m : Nat) (u : Unifier) : Prop where
  known_mem : ∀ p ∈ u.known, p ∈ V
  bound_fits : ∀ p t, u.bound p = some t → t.Fits V m

/-- A type is found inside another by passing `d` constructors, classes being followed on the way. -/
inductive Descends (u : Unifier) (a : Ty) : Nat → Ty → Prop
  | here : Descends u a 0 a
  | inside {d : Nat} {x y : Ty} (hx : Descends u a d x) (hy : y ∈ (u.head x).parts) :
    Descends u a (d + 1) y

/-- What has a type keeps it. -/
def Extends (u v : Unifier) : Prop :=
  ∀ p t, u.bound (u.root p) = some t → v.bound (v.root p) = some t

theorem Extends.refl (u : Unifier) : u.Extends u := fun _ _ h => h

theorem Extends.trans {w : Unifier} (huv : u.Extends v) (hvw : v.Extends w) : u.Extends w :=
  fun p t h => hvw p t (huv p t h)

theorem Extends.head_eq (h : u.Extends v) (hy : y ∈ (u.head x).parts) : v.head x = u.head x := by
  cases x with
  | param p =>
    cases hb : u.bound (u.root p) with
    | none => simp [head, hb, Ty.parts] at hy
    | some t => simp [head, hb, h p t hb]
  | _ => rfl

theorem Descends.mono (h : u.Extends v) (hx : u.Descends a d x) : v.Descends a d x := by
  induction hx with
  | here => exact .here
  | inside _ hy ih => exact .inside ih (h.head_eq hy ▸ hy)

/-- Passing constructors uses up the type at the start, and then the types of classes, each of which
is of a lower level than the one before. -/
theorem Descends.exists_level (hu : u.WellFormed) (hV : u.Fits V m) (h : u.Descends a d x) :
    ∃ k, d + x.size + k * m ≤ u.known.toFinset.card * m + a.size ∧
      ∀ p, x.Occurs p → u.level (u.root p) ≤ k := by
  induction h with
  | here => exact ⟨u.known.toFinset.card, by omega, fun p _ => u.level_le _⟩
  | @inside d x y _ hy ih =>
    obtain ⟨k, hk, hlevel⟩ := ih
    have below : ∀ t, u.head x = t → y.size + 1 ≤ t.size ∧ ∀ p, y.Occurs p → t.Occurs p := by
      rintro t rfl
      exact ⟨Ty.size_lt_of_mem_parts hy, fun p hp => Ty.occurs_of_mem_parts hy hp⟩
    cases x with
    | param q =>
      cases hb : u.bound (u.root q) with
      | none => simp [head, hb, Ty.parts] at hy
      | some t =>
        obtain ⟨hsize, hocc⟩ := below t (by simp [head, hb])
        have hm := (hV.bound_fits _ t hb).size_le
        have hq := hlevel q (Ty.occurs_param.2 rfl)
        have hpos := hu.level_pos hb
        obtain ⟨k, rfl⟩ : ∃ l, k = l + 1 := ⟨k - 1, by omega⟩
        refine ⟨k, ?_, fun p hp => ?_⟩
        · rw [Nat.succ_mul] at hk
          omega
        · have := hu.level_root_lt hb (hocc p hp)
          omega
    | _ =>
      obtain ⟨hsize, hocc⟩ := below _ rfl
      simp only [head] at hsize hocc
      exact ⟨k, by omega, fun p hp => hlevel p (hocc p hp)⟩

/-- No type lies deeper than the number of placeholders times the size of their types, and the size of
the type at the start. -/
theorem Descends.depth_lt (hu : u.WellFormed) (hV : u.Fits V m) (h : u.Descends a d x) :
    d < V.card * m + a.size := by
  obtain ⟨k, hk, -⟩ := h.exists_level hu hV
  have hcard : u.known.toFinset.card ≤ V.card :=
    Finset.card_le_card fun p hp => hV.known_mem p (List.mem_toFinset.1 hp)
  have hmul := Nat.mul_le_mul_right m hcard
  have hpos := x.size_pos
  omega

theorem Fits.root_mem (hV : u.Fits V m) (hu : u.WellFormed) {p : Placeholder} (hp : p ∈ V) :
    u.root p ∈ V := by
  by_cases h : u.root p = p
  · rwa [h]
  · exact hV.known_mem _ (hu.root_mem p h)

theorem Fits.head (hV : u.Fits V m) (hu : u.WellFormed) (hx : x.Fits V m) : (u.head x).Fits V m := by
  cases x with
  | param p =>
    cases hb : u.bound (u.root p) with
    | none =>
      simp only [Unifier.head, hb, Option.getD_none]
      refine ⟨hx.size_le, fun y hy => ?_⟩
      obtain rfl := Ty.occurs_param.1 hy
      exact hV.root_mem hu (hx.occurs_mem p (Ty.occurs_param.2 rfl))
    | some t =>
      simp only [Unifier.head, hb, Option.getD_some]
      exact hV.bound_fits _ t hb
  | _ => exact hx

end Depth

end Unifier

end Reshape
