import Mathlib.Data.List.Forall2

/-!
# Optional values that are related

Two computations that go the same way have related answers if their steps have. Here are the ways in
which answers that may be missing are put together.

* `rel_bind`, `rel_map`, `rel_getD` and `rel_join` follow one answer, `rel_findSome?` and `rel_find?` a
  search through a list.
* `forall₂_getElem?` looks up a place in two related lists, `rel_head?` the first one.
-/

namespace Reshape

variable {α β γ δ : Type} {R : α → β → Prop} {S : γ → δ → Prop} {x : Option α} {y : Option β}

theorem rel_bind {f : α → Option γ} {g : β → Option δ} (h : Option.Rel R x y)
    (hfg : ∀ a b, R a b → Option.Rel S (f a) (g b)) : Option.Rel S (x.bind f) (y.bind g) := by
  cases h with
  | some h => exact hfg _ _ h
  | none => exact .none

theorem rel_map {f : α → γ} {g : β → δ} (h : Option.Rel R x y) (hfg : ∀ a b, R a b → S (f a) (g b)) :
    Option.Rel S (x.map f) (y.map g) := by
  cases h with
  | some h => exact .some (hfg _ _ h)
  | none => exact .none

theorem rel_imp {R' : α → β → Prop} (h : Option.Rel R x y) (hR : ∀ a b, R a b → R' a b) :
    Option.Rel R' x y := by
  cases h with
  | some h => exact .some (hR _ _ h)
  | none => exact .none

theorem rel_getD {a : α} {b : β} (h : Option.Rel R x y) (hab : R a b) : R (x.getD a) (y.getD b) := by
  cases h with
  | some h => exact h
  | none => exact hab

theorem rel_join {x : Option (Option α)} {y : Option (Option β)}
    (h : Option.Rel (Option.Rel R) x y) : Option.Rel R x.join y.join := by
  cases h with
  | some h => exact h
  | none => exact .none

/-- The same value, and what is made of it on both sides. -/
theorem rel_bind_same {f : α → Option γ} {g : α → Option δ} (x : Option α)
    (hfg : ∀ a, Option.Rel S (f a) (g a)) : Option.Rel S (x.bind f) (x.bind g) := by
  cases x with
  | some a => exact hfg a
  | none => exact .none

theorem rel_map_same {f : α → γ} {g : α → δ} (x : Option α) (hfg : ∀ a, S (f a) (g a)) :
    Option.Rel S (x.map f) (x.map g) := by
  cases x with
  | some a => exact .some (hfg a)
  | none => exact .none

theorem rel_findSome? {f : α → Option γ} {g : β → Option δ} {as : List α} {bs : List β}
    (h : List.Forall₂ R as bs) (hfg : ∀ a b, R a b → Option.Rel S (f a) (g b)) :
    Option.Rel S (as.findSome? f) (bs.findSome? g) := by
  induction h with
  | nil => exact .none
  | @cons a b as bs hab _ ih =>
    rw [List.findSome?_cons, List.findSome?_cons]
    have hab := hfg a b hab
    revert hab
    generalize f a = x
    generalize g b = y
    rintro (hab | _)
    · exact .some hab
    · exact ih

/-- A search through one list with two functions. -/
theorem rel_findSome?_same {f : α → Option γ} {g : α → Option δ} (as : List α)
    (hfg : ∀ a, Option.Rel S (f a) (g a)) : Option.Rel S (as.findSome? f) (as.findSome? g) :=
  rel_findSome? (R := Eq) (List.forall₂_same.2 fun _ _ => rfl) fun a _ hab => hab ▸ hfg a

theorem rel_find? {p : α → Bool} {q : β → Bool} {as : List α} {bs : List β}
    (h : List.Forall₂ R as bs) (hpq : ∀ a b, R a b → p a = q b) :
    Option.Rel R (as.find? p) (bs.find? q) := by
  induction h with
  | nil => exact .none
  | @cons a b as bs hab _ ih =>
    rw [List.find?_cons, List.find?_cons, hpq a b hab]
    cases q b with
    | true => exact .some hab
    | false => exact ih

theorem forall₂_getElem? {as : List α} {bs : List β} (h : List.Forall₂ R as bs) (i : Nat) :
    Option.Rel R as[i]? bs[i]? := by
  induction h generalizing i with
  | nil => exact .none
  | cons hab _ ih =>
    cases i with
    | zero => exact .some hab
    | succ i => exact ih i

theorem rel_head? {as : List α} {bs : List β} (h : List.Forall₂ R as bs) :
    Option.Rel R as.head? bs.head? := by
  cases h with
  | nil => exact .none
  | cons hab _ => exact .some hab

theorem isEmpty_eq_of_forall₂ {as : List α} {bs : List β} (h : List.Forall₂ R as bs) :
    bs.isEmpty = as.isEmpty := by
  cases h <;> rfl

/-- The same choice on both sides, between an answer for no elements and one for some. -/
theorem rel_ite_isEmpty {as : List α} {bs : List β} {x x' : Option γ} {y y' : Option δ}
    (h : List.Forall₂ R as bs) (hempty : Option.Rel S x y) (hsome : Option.Rel S x' y') :
    Option.Rel S (if as.isEmpty then x else x') (if bs.isEmpty then y else y') := by
  cases h with
  | nil => exact hempty
  | cons => exact hsome

theorem exists_of_rel_some {a : α} (h : Option.Rel R (some a) y) : ∃ b, y = some b ∧ R a b := by
  cases h with
  | some h => exact ⟨_, rfl, h⟩

theorem map_eq_map_of_rel {f : α → γ} {g : β → γ} (h : Option.Rel R x y)
    (hfg : ∀ a b, R a b → g b = f a) : y.map g = x.map f := by
  cases h with
  | some h => exact congrArg some (hfg _ _ h)
  | none => rfl

/-- A value that is made of another one has every relation that the two have. -/
theorem rel_of_eq_map {f : α → β} (h : y = x.map f) (hf : ∀ a ∈ x, R a (f a)) :
    Option.Rel R x y := by
  cases x with
  | none => exact h ▸ .none
  | some a => exact h ▸ .some (hf a rfl)

end Reshape
