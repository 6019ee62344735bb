import Mathlib.Algebra.Order.BigOperators.Group.List
import Mathlib.Algebra.Order.Ring.Nat
import Mathlib.Data.Finset.Defs
import Reshape.Ty.Substitution

/-!
# Equality of types, and placeholders put in

Equality of types takes no notice of the parameters that declared types carry. It is the kernel of
`Ty.erase`, which takes those parameters away, so that it is an equivalence and respects everything
that does not look at them.

* `beq_iff_equiv`: `==` is the equivalence `≈` of equal erasures.
* `bind_equiv` and `bind_congr`: a type with placeholders replaced depends on what is put in for those
  that occur in it only, and on that up to `≈` only.
* `Substitution.apply_eq_bind`: a substitution replaces every placeholder by its target.
-/

namespace Reshape

namespace Ty

/-- Induction on types, with a hypothesis for every argument of a declared type. -/
@[elab_as_elim]
theorem argInduction {P : Ty → Prop} (prim : ∀ p, P (prim p)) (slice : ∀ t, P t → P (slice t))
    (nominal : ∀ d ts ps, (∀ t ∈ ts, P t) → P (nominal d ts ps)) (param : ∀ p, P (param p)) :
    ∀ t, P t := by
  refine @Ty.rec P (fun ts => ∀ t ∈ ts, P t) prim slice nominal param ?nil ?cons
  case nil => intro t ht; cases ht
  case cons =>
    intro t ts iht ihts s hs
    rcases List.mem_cons.1 hs with rfl | hs
    · exact iht
    · exact ihts s hs

/-! ## Erasure -/

mutual

/-- A type whose declared types carry no parameters. -/
def erase : Ty → Ty
  | prim p => prim p
  | slice t => slice (erase t)
  | nominal d ts _ => nominal d (eraseAll ts) []
  | param p => param p

/-- Types whose declared types carry no parameters. -/
def eraseAll : List Ty → List Ty
  | [] => []
  | t :: ts => erase t :: eraseAll ts

end

theorem eraseAll_eq_map (ts : List Ty) : eraseAll ts = ts.map erase := by
  induction ts with
  | nil => rfl
  | cons t ts ih => simp [eraseAll, ih]

/-- Types are equivalent if they are the same apart from the parameters that are carried. -/
instance : Setoid Ty where
  r a b := a.erase = b.erase
  iseqv := ⟨fun _ => rfl, Eq.symm, Eq.trans⟩

theorem equiv_def {a b : Ty} : a ≈ b ↔ a.erase = b.erase := Iff.rfl

theorem sameAll_iff {as bs : List Ty} (h : ∀ a ∈ as, ∀ b, same a b = true ↔ a ≈ b) :
    sameAll as bs = true ↔ eraseAll as = eraseAll bs := by
  induction as generalizing bs with
  | nil => cases bs <;> simp [sameAll, eraseAll]
  | cons a as ih =>
    cases bs with
    | nil => simp [sameAll, eraseAll]
    | cons b bs =>
      have ha := h a (by simp) b
      have has : sameAll as bs = true ↔ eraseAll as = eraseAll bs :=
        ih fun a' ha' => h a' (by simp [ha'])
      simp only [sameAll, Bool.and_eq_true, eraseAll, List.cons.injEq, ha, has, equiv_def]

theorem same_iff_equiv (a b : Ty) : same a b = true ↔ a ≈ b := by
  induction a using argInduction generalizing b with
  | prim p => cases b <;> simp [same, equiv_def, erase]
  | slice t ih =>
    cases b with
    | slice u => simpa [same, equiv_def, erase] using ih u
    | _ => simp [same, equiv_def, erase]
  | nominal d ts ps ih =>
    cases b with
    | nominal e us qs => simp [same, equiv_def, erase, sameAll_iff ih]
    | _ => simp [same, equiv_def, erase]
  | param p => cases b <;> simp [same, equiv_def, erase]

theorem beq_iff_equiv {a b : Ty} : (a == b) = true ↔ a ≈ b := same_iff_equiv a b

theorem eq_param_of_equiv {t : Ty} {p : Placeholder} (h : t ≈ param p) : t = param p := by
  cases t <;> simp_all [equiv_def, erase]

/-! ## Placeholders that occur -/

/-- A placeholder occurs in a type. -/
def Occurs (x : Placeholder) (t : Ty) : Prop := t.anyPlaceholder (· == x) = true

theorem occurs_param {x p : Placeholder} : Occurs x (param p) ↔ p = x := by
  simp [Occurs, anyPlaceholder]

theorem occurs_slice {x : Placeholder} {t : Ty} : Occurs x (slice t) ↔ Occurs x t := by
  simp [Occurs, anyPlaceholder]

theorem occurs_nominal {x : Placeholder} {d : DeclId} {ts : List Ty} {ps : List Placeholder} :
    Occurs x (nominal d ts ps) ↔ ∃ t ∈ ts, Occurs x t := by
  simp [Occurs, anyPlaceholder, anyPlaceholderAmong_eq_any]

theorem not_occurs_prim {x : Placeholder} {p : Prim} : ¬ Occurs x (prim p) := by
  simp [Occurs, anyPlaceholder]

theorem anyPlaceholder_iff (P : Placeholder → Bool) (t : Ty) :
    t.anyPlaceholder P = true ↔ ∃ x, Occurs x t ∧ P x = true := by
  induction t using argInduction with
  | prim p => simp [anyPlaceholder, not_occurs_prim]
  | slice t ih => simp only [anyPlaceholder, ih, occurs_slice]
  | nominal d ts ps ih =>
    simp only [anyPlaceholder, anyPlaceholderAmong_eq_any, List.any_eq_true, occurs_nominal]
    constructor
    · rintro ⟨t, ht, hP⟩
      obtain ⟨x, hx, hPx⟩ := (ih t ht).1 hP
      exact ⟨x, ⟨t, ht, hx⟩, hPx⟩
    · rintro ⟨x, ⟨t, ht, hx⟩, hPx⟩
      exact ⟨t, ht, (ih t ht).2 ⟨x, hx, hPx⟩⟩
  | param p => simp [anyPlaceholder, occurs_param]

/-- The placeholders that occur in a type. -/
def vars : Ty → List Placeholder
  | prim _ => []
  | slice t => vars t
  | nominal _ ts _ => varsAll ts
  | param p => [p]
where
  /-- The placeholders that occur in a list of types. -/
  varsAll : List Ty → List Placeholder
    | [] => []
    | t :: ts => vars t ++ varsAll ts

theorem varsAll_eq_flatMap (ts : List Ty) : vars.varsAll ts = ts.flatMap vars := by
  induction ts with
  | nil => rfl
  | cons t ts ih => simp [vars.varsAll, ih]

theorem mem_vars {x : Placeholder} {t : Ty} : x ∈ t.vars ↔ Occurs x t := by
  induction t using argInduction with
  | prim p => simp [vars, not_occurs_prim]
  | slice t ih => simp only [vars, ih, occurs_slice]
  | nominal d ts ps ih =>
    simp only [vars, varsAll_eq_flatMap, List.mem_flatMap, occurs_nominal]
    exact exists_congr fun t => and_congr_right fun ht => ih t ht
  | param p => simp [vars, occurs_param, eq_comm]

theorem sizeAll_eq_sum (ts : List Ty) : sizeAll ts = (ts.map size).sum := by
  induction ts with
  | nil => rfl
  | cons t ts ih => simp [sizeAll, ih]

theorem size_le_sizeAll {t : Ty} {ts : List Ty} (h : t ∈ ts) : t.size ≤ sizeAll ts := by
  rw [sizeAll_eq_sum]
  exact List.le_sum_of_mem (List.mem_map_of_mem h)

theorem length_vars_le (t : Ty) : t.vars.length ≤ t.size := by
  induction t using argInduction with
  | prim p => simp [vars, size]
  | slice t ih => simp only [vars, size]; omega
  | nominal d ts ps ih =>
    simp only [vars, varsAll_eq_flatMap, List.length_flatMap, size, sizeAll_eq_sum]
    exact (List.sum_le_sum ih).trans (Nat.le_succ _)
  | param p => simp [vars, size]

theorem size_pos (t : Ty) : 0 < t.size := by
  cases t <;> simp [size]

/-- What a type is made of directly. -/
def parts : Ty → List Ty
  | slice t => [t]
  | nominal _ ts _ => ts
  | _ => []

theorem size_lt_of_mem_parts {s t : Ty} (h : s ∈ t.parts) : s.size < t.size := by
  cases t with
  | slice t =>
    obtain rfl := List.mem_singleton.1 h
    exact Nat.lt_succ_self _
  | nominal d ts ps => exact Nat.lt_succ_of_le (size_le_sizeAll h)
  | _ => cases h

theorem occurs_of_mem_parts {s t : Ty} {x : Placeholder} (h : s ∈ t.parts) (hx : Occurs x s) :
    Occurs x t := by
  cases t with
  | slice t =>
    obtain rfl := List.mem_singleton.1 h
    exact occurs_slice.2 hx
  | nominal d ts ps => exact occurs_nominal.2 ⟨s, h, hx⟩
  | _ => cases h

/-- A type has at most `m` constructors, and placeholders of `V` only. -/
structure Fits (V : Finset Placeholder) (m : Nat) (t : Ty) : Prop where
  size_le : t.size ≤ m
  occurs_mem : ∀ x, Occurs x t → x ∈ V

theorem Fits.of_mem_parts {V : Finset Placeholder} {m : Nat} {s t : Ty} (ht : t.Fits V m)
    (h : s ∈ t.parts) : s.Fits V m :=
  ⟨(size_lt_of_mem_parts h).le.trans ht.size_le, fun x hx => ht.occurs_mem x (occurs_of_mem_parts h hx)⟩

theorem Fits.param_mem {V : Finset Placeholder} {m : Nat} {p : Placeholder}
    (h : (param p).Fits V m) : p ∈ V :=
  h.occurs_mem p (occurs_param.2 rfl)

/-! ## Placeholders put in -/

theorem bind_congr {f g : Placeholder → Ty} {t : Ty} (h : ∀ x, Occurs x t → f x = g x) :
    t.bind f = t.bind g := by
  induction t using argInduction with
  | prim p => rfl
  | slice t ih => simp only [bind, ih fun x hx => h x (occurs_slice.2 hx)]
  | nominal d ts ps ih =>
    simp only [bind, bindAll_eq_map]
    rw [List.map_congr_left fun t ht => ih t ht fun x hx => h x (occurs_nominal.2 ⟨t, ht, hx⟩)]
  | param p => exact h p (occurs_param.2 rfl)

theorem bind_param (t : Ty) : t.bind param = t := by
  induction t using argInduction with
  | prim p => rfl
  | slice t ih => simp only [bind, ih]
  | nominal d ts ps ih =>
    simp only [bind, bindAll_eq_map]
    rw [List.map_congr_left ih, List.map_id']
  | param p => rfl

theorem bind_bind (f g : Placeholder → Ty) (t : Ty) :
    (t.bind f).bind g = t.bind fun x => (f x).bind g := by
  induction t using argInduction with
  | prim p => rfl
  | slice t ih => simp only [bind, ih]
  | nominal d ts ps ih =>
    simp only [bind, bindAll_eq_map, List.map_map]
    exact congrArg (nominal d · ps) (List.map_congr_left ih)
  | param p => rfl

theorem erase_bind (f : Placeholder → Ty) (t : Ty) :
    (t.bind f).erase = t.erase.bind fun x => (f x).erase := by
  induction t using argInduction with
  | prim p => rfl
  | slice t ih => simp only [bind, erase, ih]
  | nominal d ts ps ih =>
    simp only [bind, erase, bindAll_eq_map, eraseAll_eq_map, List.map_map]
    exact congrArg (nominal d · []) (List.map_congr_left ih)
  | param p => rfl

/-- What is put in matters up to equivalence only. -/
theorem bind_equiv {f g : Placeholder → Ty} {a b : Ty} (hab : a ≈ b)
    (hfg : ∀ x, f x ≈ g x) : a.bind f ≈ b.bind g := by
  rw [equiv_def] at hab ⊢
  rw [erase_bind, erase_bind, hab]
  exact bind_congr fun x _ => hfg x

theorem size_erase (t : Ty) : t.erase.size = t.size := by
  induction t using argInduction with
  | prim p => rfl
  | slice t ih => simp only [erase, size, ih]
  | nominal d ts ps ih =>
    simp only [erase, size, sizeAll_eq_sum, eraseAll_eq_map, List.map_map]
    exact congrArg (List.sum · + 1) (List.map_congr_left ih)
  | param p => rfl

theorem size_eq_of_equiv {a b : Ty} (h : a ≈ b) : a.size = b.size := by
  rw [← size_erase a, ← size_erase b, equiv_def.1 h]

/-- What is put in for a placeholder is no larger than the whole. -/
theorem size_le_size_bind {f : Placeholder → Ty} {x : Placeholder} {t : Ty} (h : Occurs x t) :
    (f x).size ≤ (t.bind f).size := by
  induction t using argInduction with
  | prim p => exact absurd h not_occurs_prim
  | slice t ih => exact (ih (occurs_slice.1 h)).trans (Nat.le_succ _)
  | nominal d ts ps ih =>
    obtain ⟨t, ht, hx⟩ := occurs_nominal.1 h
    have hle : (t.bind f).size ≤ sizeAll (bindAll f ts) :=
      size_le_sizeAll (bindAll_eq_map f ts ▸ List.mem_map_of_mem ht)
    simp only [bind, size]
    exact ((ih t ht hx).trans hle).trans (Nat.le_succ _)
  | param p => rw [occurs_param.1 h, bind]

/-- What is put in for a placeholder is smaller than the whole, unless it is the whole. -/
theorem size_lt_size_bind {f : Placeholder → Ty} {x : Placeholder} {t : Ty} (h : Occurs x t)
    (ht : ∀ p, t ≠ param p) : (f x).size < (t.bind f).size := by
  cases t with
  | prim p => exact absurd h not_occurs_prim
  | slice t => exact Nat.lt_succ_of_le (size_le_size_bind (occurs_slice.1 h))
  | nominal d ts ps =>
    obtain ⟨t, hts, hx⟩ := occurs_nominal.1 h
    have hle : (t.bind f).size ≤ sizeAll (bindAll f ts) :=
      size_le_sizeAll (bindAll_eq_map f ts ▸ List.mem_map_of_mem hts)
    exact Nat.lt_succ_of_le ((size_le_size_bind hx).trans hle)
  | param p => exact absurd rfl (ht p)

end Ty

/-! ## Substitutions -/

namespace Substitution

/-- A substitution puts in the target of every placeholder, also if it has no entries. -/
theorem apply_eq_bind (s : Substitution) (t : Ty) : s.apply t = t.bind s.target := by
  by_cases h : s.isEmpty
  · have hs : s.entries = [] := List.isEmpty_iff.1 h
    have htarget : s.target = Ty.param := by
      funext p
      simp [target, get?, hs]
    rw [apply, if_pos h, htarget, Ty.bind_param]
  · rw [apply, if_neg h]

/-- The entries of a list whose types are given by a function are found by it. -/
theorem get?_ofList {f : Placeholder → Ty} {es : List (Placeholder × Ty)}
    (h : ∀ e ∈ es, e.2 = f e.1) (p : Placeholder) :
    (ofList es).get? p = if p ∈ es.map (·.1) then some (f p) else none := by
  suffices hfold : ∀ s : Substitution, (es.foldl (fun s e => s.insert e.1 e.2) s).get? p =
      if p ∈ es.map (·.1) then some (f p) else s.get? p from hfold empty
  induction es with
  | nil => intro s; rfl
  | cons e es ih =>
    intro s
    have he : e.2 = f e.1 := h e (by simp)
    rw [List.foldl_cons, ih (fun e he => h e (by simp [he])), get?_insert]
    by_cases hp : p ∈ es.map (·.1)
    · simp [hp]
    · by_cases hpe : p = e.1
      · subst hpe
        simp [he]
      · simp only [List.map_cons, List.mem_cons, hp, hpe, or_false, if_false]

end Substitution

end Reshape
