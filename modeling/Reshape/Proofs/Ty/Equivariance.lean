import Reshape.Proofs.Related
import Reshape.Proofs.Ty.Renaming
import Reshape.Ty.Unify

/-!
# Unification under other numbers

Unification asks of placeholders and declarations only whether they are the same. So it answers in
the same way under other numbers, and what it finds out is well formed if what it was asked is.

* `Unifier.Renamed` relates what is known to its copy under new numbers.
* `Unifier.Renamed.unifyWithin` is one step lemma for each answer of the algorithm, by induction on
  the number of steps.
* `renamed_inferSubstitution` is the result.
-/

namespace Reshape

namespace Unifier

variable {ρ : Renaming} {params? : DeclId → Option (List Placeholder)} {u u' v v' : Unifier}
  {a a' b b' t t' : Ty}

/-- What is known, and its copy under new numbers. -/
structure Renamed (ρ : Renaming) (params? : DeclId → Option (List Placeholder)) (u u' : Unifier) :
    Prop where
  known : u'.known = u.known.map ρ.placeholder
  root : ∀ p, u'.root (ρ.placeholder p) = ρ.placeholder (u.root p)
  rank : ∀ p, u'.rank (ρ.placeholder p) = u.rank p
  bound : ∀ p, Option.Rel (Ty.Renamed ρ params?) (u.bound p) (u'.bound (ρ.placeholder p))

theorem renamed_empty : Renamed ρ params? empty empty :=
  ⟨rfl, fun _ => rfl, fun _ => rfl, fun _ => .none⟩

theorem map_insert (ρ : Renaming) (p : Placeholder) (ps : List Placeholder) :
    (ps.insert p).map ρ.placeholder = (ps.map ρ.placeholder).insert (ρ.placeholder p) := by
  by_cases h : p ∈ ps
  · rw [List.insert_of_mem h, List.insert_of_mem (List.mem_map_of_mem h)]
  · rw [List.insert_of_not_mem h, List.insert_of_not_mem, List.map_cons]
    rwa [List.mem_map_of_injective ρ.placeholder_injective]

namespace Renamed

theorem merge (h : Renamed ρ params? u u') (p q : Placeholder) :
    Renamed ρ params? (u.merge p q) (u'.merge (ρ.placeholder p) (ρ.placeholder q)) where
  known := by simp only [Unifier.merge, h.known, map_insert]
  root x := by
    simp only [Unifier.merge, h.root, h.rank, ← apply_ite ρ.placeholder, ρ.placeholder_inj]
  rank x := by
    simp only [Unifier.merge, h.rank, ← apply_ite ρ.placeholder, ρ.placeholder_inj]
  bound := h.bound

theorem assign (h : Renamed ρ params? u u') (ht : Ty.Renamed ρ params? t t') (p : Placeholder) :
    Renamed ρ params? (u.assign p t) (u'.assign (ρ.placeholder p) t') where
  known := by simp only [Unifier.assign, h.known, map_insert]
  root := h.root
  rank := h.rank
  bound x := by
    simp only [Unifier.assign, ρ.placeholder_inj]
    split
    · exact .some ht
    · exact h.bound x

theorem head (h : Renamed ρ params? u u') (ht : Ty.Renamed ρ params? t t') :
    Ty.Renamed ρ params? (u.head t) (u'.head t') := by
  cases ht with
  | param p =>
    simp only [Unifier.head, h.root]
    exact rel_getD (h.bound _) (.param _)
  | prim p => exact .prim p
  | slice hs => exact .slice hs
  | nominal hparams hlength hargs hall => exact .nominal hparams hlength hargs hall

theorem lookup (h : Renamed ρ params? u u') (n : Nat) (p : Placeholder) :
    Ty.Renamed ρ params? (u.lookup n p) (u'.lookup n (ρ.placeholder p)) := by
  induction n generalizing p with
  | zero => simpa only [Unifier.lookup, h.root] using .param _
  | succ n ih =>
    have hbound := h.bound (u.root p)
    simp only [Unifier.lookup, h.root]
    revert hbound
    generalize u.bound (u.root p) = x
    generalize u'.bound (ρ.placeholder (u.root p)) = x'
    rintro (hx | _)
    · exact hx.bind ih
    · exact .param _

theorem length_known (h : Renamed ρ params? u u') : u'.known.length = u.known.length := by
  rw [h.known, List.length_map]

theorem resolve (h : Renamed ρ params? u u') (ht : Ty.Renamed ρ params? t t') :
    Ty.Renamed ρ params? (u.resolve t) (u'.resolve t') := by
  rw [Unifier.resolve, Unifier.resolve, h.length_known]
  exact ht.bind (h.lookup _)

theorem reaches_eq (h : Renamed ρ params? u u') (root : Placeholder) (n : Nat) (p : Placeholder) :
    u'.reaches (ρ.placeholder root) n (ρ.placeholder p) = u.reaches root n p := by
  have hroot (p : Placeholder) :
      (u'.root (ρ.placeholder p) == ρ.placeholder root) = (u.root p == root) := by
    rw [h.root, Bool.eq_iff_iff, beq_iff_eq, beq_iff_eq, ρ.placeholder_inj]
  induction n generalizing p with
  | zero => exact hroot p
  | succ n ih =>
    have hbound := h.bound (u.root p)
    simp only [Unifier.reaches, hroot]
    rw [h.root]
    revert hbound
    generalize u.bound (u.root p) = x
    generalize u'.bound (ρ.placeholder (u.root p)) = x'
    rintro (hx | _)
    · simp only [hx.anyPlaceholder_eq ih]
    · rfl

theorem occurs_eq (h : Renamed ρ params? u u') (ht : Ty.Renamed ρ params? t t') (root : Placeholder) :
    u'.occurs (ρ.placeholder root) t' = u.occurs root t := by
  rw [Unifier.occurs, Unifier.occurs, h.length_known]
  exact ht.anyPlaceholder_eq (h.reaches_eq root _)

theorem knownSize_eq (h : Renamed ρ params? u u') : u'.knownSize = u.knownSize := by
  have hsize (p : Placeholder) : u'.boundSize (ρ.placeholder p) = u.boundSize p := by
    have hbound := h.bound p
    rw [boundSize, boundSize]
    revert hbound
    generalize u.bound p = x
    generalize u'.bound (ρ.placeholder p) = x'
    rintro (hx | _)
    · exact hx.size_eq
    · rfl
  rw [knownSize, knownSize, h.known, List.foldr_map]
  simp only [hsize]

end Renamed

/-! ## Answers -/

/-- An answer and its copy under new numbers: both are successes or both are failures. -/
structure OutcomeRenamed (ρ : Renaming) (params? : DeclId → Option (List Placeholder))
    (o o' : Outcome) : Prop where
  ok_iff : o.1 = .ok () ↔ o'.1 = .ok ()
  knowledge : Renamed ρ params? o.2 o'.2

theorem OutcomeRenamed.ok (h : Renamed ρ params? u u') :
    OutcomeRenamed ρ params? (.ok (), u) (.ok (), u') :=
  ⟨Iff.rfl, h⟩

theorem OutcomeRenamed.error (h : Renamed ρ params? u u') (e e' : UnifyError) :
    OutcomeRenamed ρ params? (.error e, u) (.error e', u') :=
  ⟨by simp, h⟩

theorem renamed_unifyEach {unify unify' : Unifier → Ty → Ty → Outcome}
    (hunify : ∀ {u u' a a' b b'}, Renamed ρ params? u u' → Ty.Renamed ρ params? a a' →
      Ty.Renamed ρ params? b b' → OutcomeRenamed ρ params? (unify u a b) (unify' u' a' b'))
    {as as' bs bs' : List Ty} (h : Renamed ρ params? u u')
    (has : List.Forall₂ (Ty.Renamed ρ params?) as as')
    (hbs : List.Forall₂ (Ty.Renamed ρ params?) bs bs') :
    OutcomeRenamed ρ params? (unifyEach unify u as bs) (unifyEach unify' u' as' bs') := by
  induction has generalizing u u' bs bs' with
  | nil => exact .ok h
  | cons ha _ ih =>
    cases hbs with
    | nil => exact .ok h
    | cons hb hbs =>
      have hstep := hunify h ha hb
      simp only [unifyEach]
      revert hstep
      generalize unify u _ _ = o
      generalize unify' u' _ _ = o'
      obtain ⟨r, w⟩ := o
      obtain ⟨r', w'⟩ := o'
      rintro ⟨hok, hw⟩
      cases r with
      | ok =>
        cases r' with
        | ok => exact ih hw hbs
        | error e => exact absurd (hok.1 rfl) (by simp)
      | error e =>
        cases r' with
        | ok => exact absurd (hok.2 rfl) (by simp)
        | error e' => exact .error hw e e'

theorem renamed_bindParam (h : Renamed ρ params? u u') (ht : Ty.Renamed ρ params? t t')
    (p : Placeholder) :
    OutcomeRenamed ρ params?
      (if u.occurs p t then (.error (.occurs p t), u) else (.ok (), u.assign p t))
      (if u'.occurs (ρ.placeholder p) t' then
          (.error (.occurs (ρ.placeholder p) t'), u')
        else (.ok (), u'.assign (ρ.placeholder p) t')) := by
  rw [h.occurs_eq ht]
  split
  · exact .error h _ _
  · exact .ok (h.assign ht p)

theorem renamed_unifyWithin (n : Nat) (h : Renamed ρ params? u u') (ha : Ty.Renamed ρ params? a a')
    (hb : Ty.Renamed ρ params? b b') :
    OutcomeRenamed ρ params? (unifyWithin n u a b) (unifyWithin n u' a' b') := by
  induction n generalizing u u' a a' b b' with
  | zero => exact .error h _ _
  | succ n ih =>
    have hheadA := h.head ha
    have hheadB := h.head hb
    simp only [unifyWithin]
    revert hheadA hheadB
    generalize u.head a = s
    generalize u'.head a' = s'
    generalize u.head b = t
    generalize u'.head b' = t'
    intro hs ht
    cases hs with
    | param p =>
      cases ht with
      | param q =>
        simp only [ρ.placeholder_inj]
        split
        · exact .ok h
        · exact .ok (h.merge p q)
      | prim q => exact renamed_bindParam h (.prim q) p
      | slice ht => exact renamed_bindParam h (.slice ht) p
      | nominal hparams hlength hargs hall =>
        exact renamed_bindParam h (.nominal hparams hlength hargs hall) p
    | prim p =>
      cases ht with
      | param q => exact renamed_bindParam h (.prim p) q
      | prim q =>
        dsimp only
        split
        · exact .ok h
        · exact .error h _ _
      | slice ht => exact .error h _ _
      | nominal => exact .error h _ _
    | slice hs =>
      cases ht with
      | param q => exact renamed_bindParam h (.slice hs) q
      | prim q => exact .error h _ _
      | slice ht => exact ih h hs ht
      | nominal => exact .error h _ _
    | nominal hparams hlength hargs hall =>
      cases ht with
      | param q => exact renamed_bindParam h (.nominal hparams hlength hargs hall) q
      | prim q => exact .error h _ _
      | slice ht => exact .error h _ _
      | nominal hparams' hlength' hargs' hall' =>
        simp only [ne_eq, ρ.decl_injective.eq_iff, ← hargs, ← hargs']
        split
        · exact .error h _ _
        split
        · exact .error h _ _
        · exact renamed_unifyEach ih h (List.forall₂_iff_zip.2 ⟨hargs, fun hmem => hall _ _ hmem⟩)
            (List.forall₂_iff_zip.2 ⟨hargs', fun hmem => hall' _ _ hmem⟩)

theorem renamed_unify (h : Renamed ρ params? u u') (ha : Ty.Renamed ρ params? a a')
    (hb : Ty.Renamed ρ params? b b') :
    OutcomeRenamed ρ params? (u.unify a b) (u'.unify a' b') := by
  have hdepth : u'.depthBound a' b' = u.depthBound a b := by
    rw [depthBound, depthBound, h.length_known, ha.size_eq, hb.size_eq, h.knownSize_eq]
  rw [unify, unify, hdepth]
  exact renamed_unifyWithin _ h ha hb

theorem Renamed.substitution (h : Renamed ρ params? u u') :
    Substitution.Renamed ρ params? u.substitution u'.substitution := by
  refine Substitution.renamed_ofList ?_
  have hknown : List.Forall₂ (fun p p' => p' = ρ.placeholder p) u.known u'.known := by
    rw [h.known, List.forall₂_map_right_iff, List.forall₂_same]
    exact fun _ _ => rfl
  refine List.rel_filterMap (fun p p' hp => ?_) hknown
  have hresolved := h.resolve (.param p)
  simp only [hp, hresolved.beq_param_eq]
  split
  · exact .none
  · exact .some ⟨rfl, hresolved⟩

end Unifier

/-- **Inference does not depend on numbers.** -/
theorem renamed_inferSubstitution {ρ : Renaming} {params? : DeclId → Option (List Placeholder)}
    {a a' b b' : Ty} (ha : Ty.Renamed ρ params? a a') (hb : Ty.Renamed ρ params? b b') :
    Option.Rel (Substitution.Renamed ρ params?) (inferSubstitution a b)
      (inferSubstitution a' b') := by
  have hunify := Unifier.renamed_unify Unifier.renamed_empty ha hb
  rw [inferSubstitution, inferSubstitution]
  revert hunify
  generalize Unifier.empty.unify a b = o
  generalize Unifier.empty.unify a' b' = o'
  obtain ⟨r, w⟩ := o
  obtain ⟨r', w'⟩ := o'
  rintro ⟨hok, hw⟩
  cases r with
  | ok =>
    cases r' with
    | ok => exact .some hw.substitution
    | error e => exact absurd (hok.1 rfl) (by simp)
  | error e =>
    cases r' with
    | ok => exact absurd (hok.2 rfl) (by simp)
    | error e' => exact .none

end Reshape
