import Mathlib.Data.List.Forall2

/-!
# Steps that may fail

What is known of the steps of a computation that came to a result.

* `bind_eq_ok` takes one step off, and `mapM_eq_ok_iff` takes all results with the items that they
  were made from. From it, `exists_of_mapM_eq_ok` finds the item of a result, and
  `exists_ok_of_mapM_eq_ok` the result of an item; `map_eq_of_mapM_eq_ok` is about all results in order,
  and `pairwise_of_mapM_eq_ok` about any two of them.
* `mapM_eq_ok` runs a step that fails for no item, `mapError_mapM` one with other errors.
-/

namespace Reshape

variable {ε α β : Type}

theorem bind_eq_ok {x : Except ε α} {f : α → Except ε β} {b : β} :
    x >>= f = .ok b ↔ ∃ a, x = .ok a ∧ f a = .ok b := by
  cases x <;> simp [bind, Except.bind]

theorem map_eq_ok {x : Except ε α} {f : α → β} {b : β} :
    x.map f = .ok b ↔ ∃ a, x = .ok a ∧ f a = b := by
  cases x <;> simp [Except.map]

theorem toOption_eq_some {x : Except ε α} {a : α} : x.toOption = some a ↔ x = .ok a := by
  cases x <;> simp [Except.toOption]

theorem toOption_map_eq_some {x : Except ε α} {f : α → β} {b : β} :
    x.toOption.map f = some b ↔ ∃ a, x = .ok a ∧ f a = b := by
  cases x <;> simp [Except.toOption]

theorem pure_eq_ok {a b : α} : (pure a : Except ε α) = .ok b ↔ a = b := by
  simp [pure, Except.pure]

/-- Errors that are named in another way, step by step. -/
theorem mapError_bind {ε' : Type} (g : ε → ε') (x : Except ε α) (f : α → Except ε β) :
    (x >>= f).mapError g = x.mapError g >>= fun a => (f a).mapError g := by
  cases x <;> rfl

theorem mapError_mapM {ε' : Type} (g : ε → ε') (f : α → Except ε β) (as : List α) :
    (as.mapM f).mapError g = as.mapM fun a => (f a).mapError g := by
  induction as with
  | nil => rfl
  | cons a as ih =>
    rw [List.mapM_cons, List.mapM_cons, mapError_bind, ← ih]
    congr 1
    funext b
    rw [mapError_bind]
    rfl

/-- A step succeeds for all items if it makes the result in each item's place from that item. -/
theorem mapM_eq_ok_iff {f : α → Except ε β} {as : List α} {bs : List β} :
    as.mapM f = .ok bs ↔ List.Forall₂ (fun a b => f a = .ok b) as bs := by
  induction as generalizing bs with
  | nil => rw [List.mapM_nil, pure_eq_ok, List.forall₂_nil_left_iff, eq_comm]
  | cons a as ih =>
    simp only [List.mapM_cons, bind_eq_ok, pure_eq_ok, ih, List.forall₂_cons_left_iff]
    constructor
    · rintro ⟨b, hfirst, bs, hrest, rfl⟩
      exact ⟨b, bs, hfirst, hrest, rfl⟩
    · rintro ⟨b, bs, hfirst, hrest, rfl⟩
      exact ⟨b, hfirst, bs, hrest, rfl⟩

theorem exists_of_mapM_eq_ok {f : α → Except ε β} {as : List α} {bs : List β}
    (h : as.mapM f = .ok bs) {b : β} (hb : b ∈ bs) : ∃ a ∈ as, f a = .ok b := by
  induction mapM_eq_ok_iff.1 h with
  | nil => cases hb
  | @cons a b' as bs hok hrest ih =>
    obtain rfl | hb := List.mem_cons.1 hb
    · exact ⟨a, List.mem_cons_self, hok⟩
    · obtain ⟨a', ha', hok'⟩ := ih (mapM_eq_ok_iff.2 hrest) hb
      exact ⟨a', List.mem_cons_of_mem _ ha', hok'⟩

theorem exists_ok_of_mapM_eq_ok {f : α → Except ε β} {as : List α} {bs : List β}
    (h : as.mapM f = .ok bs) {a : α} (ha : a ∈ as) : ∃ b, f a = .ok b := by
  induction mapM_eq_ok_iff.1 h with
  | nil => cases ha
  | @cons a' b as bs hok hrest ih =>
    obtain rfl | ha := List.mem_cons.1 ha
    · exact ⟨b, hok⟩
    · exact ih (mapM_eq_ok_iff.2 hrest) ha

theorem length_of_mapM_eq_ok {f : α → Except ε β} {as : List α} {bs : List β}
    (h : as.mapM f = .ok bs) : bs.length = as.length :=
  (mapM_eq_ok_iff.1 h).length_eq.symm

/-- What can be said of a result by the item that it was made from is said of all of them in order. -/
theorem map_eq_of_mapM_eq_ok {γ : Type} {f : α → Except ε β} {g : β → γ} {k : α → γ} {as : List α}
    {bs : List β} (h : as.mapM f = .ok bs) (hgk : ∀ a b, f a = .ok b → g b = k a) :
    bs.map g = as.map k := by
  induction mapM_eq_ok_iff.1 h with
  | nil => rfl
  | cons hok hrest ih =>
    rw [List.map_cons, List.map_cons, hgk _ _ hok, ih (mapM_eq_ok_iff.2 hrest)]

/-- What holds of any two items, the earlier one first, holds of their results. -/
theorem pairwise_of_mapM_eq_ok {f : α → Except ε β} {as : List α} {bs : List β}
    (h : as.mapM f = .ok bs) {R : α → α → Prop} {S : β → β → Prop} (has : as.Pairwise R)
    (hRS : ∀ a a' b b', R a a' → f a = .ok b → f a' = .ok b' → S b b') : bs.Pairwise S := by
  induction mapM_eq_ok_iff.1 h with
  | nil => exact .nil
  | @cons a b as bs hok hrest ih =>
    have hrest := mapM_eq_ok_iff.2 hrest
    obtain ⟨ha, has⟩ := List.pairwise_cons.1 has
    refine List.pairwise_cons.2 ⟨fun b' hb' => ?_, ih hrest has⟩
    obtain ⟨a', ha', hok'⟩ := exists_of_mapM_eq_ok hrest hb'
    exact hRS a a' b b' (ha a' ha') hok hok'

theorem mapM_eq_ok {f : α → Except ε β} {g : α → β} {as : List α}
    (h : ∀ a ∈ as, f a = .ok (g a)) : as.mapM f = .ok (as.map g) :=
  mapM_eq_ok_iff.2 (List.forall₂_map_right_iff.2 (List.forall₂_same.2 h))

end Reshape
