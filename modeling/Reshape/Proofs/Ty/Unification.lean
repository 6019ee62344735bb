import Mathlib.Data.List.Forall2
import Reshape.Proofs.Ty.Solutions

/-!
# Unification finds the most general unifier

A step of a unifier that succeeds adds one equation to what it knows, and a step that fails is asked
for something that no solution makes true.

* `unify_answers`: an attempt ends with the equations of the two types added, or it fails and they have
  no common solution.
* `Substitution.MostGeneral`: a substitution unifies two types, is idempotent, and every other one that
  unifies them factors through it.
* `inferSubstitution_mostGeneral`: a most general unifier is found whenever there is a unifier.
-/

namespace Reshape

namespace Unifier

variable {r : Placeholder → Ty} {u v : Unifier}

/-! ## Attempts -/

section Attempts

variable {V : Finset Placeholder} {m d : Nat} {a₀ a b : Ty} {o : Outcome}
  {goal : (Placeholder → Ty) → Prop}

/-- An attempt to reach a goal: it adds the goal to what is known, or fails because nothing that makes
true what is known reaches it. What it found out stays known either way. -/
structure Answers (V : Finset Placeholder) (m : Nat) (u : Unifier)
    (goal : (Placeholder → Ty) → Prop) (o : Outcome) : Prop where
  wellFormed : o.2.WellFormed
  fits : o.2.Fits V m
  extends_ : u.Extends o.2
  solves_of : ∀ r, Solves r o.2 → Solves r u
  solves_iff : o.1 = .ok () → ∀ r, Solves r o.2 ↔ Solves r u ∧ goal r
  no_solution : ∀ e, o.1 = .error e → ∀ r, Solves r u → ¬ goal r

/-- Goals that all solutions of what is known judge alike are reached alike. -/
theorem Answers.congr {goal' : (Placeholder → Ty) → Prop} (h : Answers V m u goal o)
    (hgoal : ∀ r, Solves r u → (goal r ↔ goal' r)) : Answers V m u goal' o where
  wellFormed := h.wellFormed
  fits := h.fits
  extends_ := h.extends_
  solves_of := h.solves_of
  solves_iff hok r := (h.solves_iff hok r).trans (and_congr_right (hgoal r))
  no_solution e he r hr := fun hg => h.no_solution e he r hr ((hgoal r hr).2 hg)

/-- Nothing is to be done where the goal is reached anyway. -/
theorem answers_ok (hu : u.WellFormed) (hV : u.Fits V m) (h : ∀ r, Solves r u → goal r) :
    Answers V m u goal (.ok (), u) where
  wellFormed := hu
  fits := hV
  extends_ := .refl u
  solves_of _ hr := hr
  solves_iff _ r := ⟨fun hr => ⟨hr, h r hr⟩, And.left⟩
  no_solution _ he := by cases he

theorem answers_error {e : UnifyError} (hu : u.WellFormed) (hV : u.Fits V m)
    (h : ∀ r, Solves r u → ¬ goal r) : Answers V m u goal (.error e, u) where
  wellFormed := hu
  fits := hV
  extends_ := .refl u
  solves_of _ hr := hr
  solves_iff he := by cases he
  no_solution _ _ := h

/-- Types whose heads differ have no solution. -/
theorem answers_mismatch {s t : Ty} (hu : u.WellFormed) (hV : u.Fits V m)
    (h : ∀ r : Placeholder → Ty, ¬ s.bind r ≈ t.bind r) :
    Answers V m u (fun r => s.bind r ≈ t.bind r) (.error (.mismatch s t), u) :=
  answers_error hu hV fun r _ => h r

/-- Two goals are reached one after the other. -/
theorem Answers.seq {goal' : (Placeholder → Ty) → Prop} {o' : Outcome}
    (h : Answers V m u goal (.ok (), v)) (h' : Answers V m v goal' o') :
    Answers V m u (fun r => goal r ∧ goal' r) o' where
  wellFormed := h'.wellFormed
  fits := h'.fits
  extends_ := h.extends_.trans h'.extends_
  solves_of r hr := h.solves_of r (h'.solves_of r hr)
  solves_iff hok r := by rw [h'.solves_iff hok r, h.solves_iff rfl r, and_assoc]
  no_solution e he r hr := fun ⟨hg, hg'⟩ =>
    h'.no_solution e he r ((h.solves_iff rfl r).2 ⟨hr, hg⟩) hg'

theorem Answers.error_seq {e : UnifyError} {goal' : (Placeholder → Ty) → Prop}
    (h : Answers V m u goal (.error e, v)) :
    Answers V m u (fun r => goal r ∧ goal' r) (.error e, v) where
  wellFormed := h.wellFormed
  fits := h.fits
  extends_ := h.extends_
  solves_of := h.solves_of
  solves_iff he := by cases he
  no_solution _ _ r hr hg := h.no_solution e rfl r hr hg.1

/-- Merging two different roots without types makes them one. -/
theorem answers_merge {p q : Placeholder} (hu : u.WellFormed) (hV : u.Fits V m) (hpq : p ≠ q)
    (hp : u.root p = p) (hq : u.root q = q) (hbp : u.bound p = none) (hbq : u.bound q = none)
    (hpV : p ∈ V) (hqV : q ∈ V) :
    Answers V m u (fun r => r p ≈ r q) (.ok (), u.merge p q) := by
  obtain ⟨gone, stays, hgs, hknown, hbound, hroot⟩ := u.merge_cases p q
  have hsolves : ∀ r, Solves r (u.merge p q) ↔ Solves r u ∧ r p ≈ r q := fun r =>
    solves_merge_iff hp hq
  refine ⟨hu.merge hpq hp hq hbp hbq, ⟨fun x hx => ?_, fun x t ht => ?_⟩, fun x t ht => ?_,
    fun r hr => ((hsolves r).1 hr).1, fun _ => hsolves, fun _ he => by cases he⟩
  · rw [hknown, List.mem_insert_iff, List.mem_insert_iff] at hx
    rcases hx with rfl | rfl | hx
    · exact hqV
    · exact hpV
    · exact hV.known_mem x hx
  · rw [hbound] at ht
    exact hV.bound_fits x t ht
  · have hx : u.root x ≠ gone := by
      intro h
      rw [h] at ht
      rcases hgs with ⟨rfl, -⟩ | ⟨rfl, -⟩ <;> simp_all
    rw [hbound, hroot, if_neg hx, ht]

/-- Binding a root to a type that does not lead to it makes the two equal; a larger type that leads to
it never is. -/
theorem answers_bind {p : Placeholder} {t : Ty} (hu : u.WellFormed) (hV : u.Fits V m)
    (hp : u.root p = p) (hbp : u.bound p = none) (hpV : p ∈ V) (ht : t.Fits V m)
    (hparam : ∀ q, t ≠ .param q) :
    Answers V m u (fun r => r p ≈ t.bind r)
      (if u.occurs p t then (.error (.occurs p t), u) else (.ok (), u.assign p t)) := by
  by_cases hocc : u.occurs p t = true
  · rw [if_pos hocc]
    exact answers_error hu hV fun r hr => hr.not_equiv_of_occurs hu hparam hocc
  · rw [if_neg hocc]
    have hsolves : ∀ r, Solves r (u.assign p t) ↔ Solves r u ∧ r p ≈ t.bind r := fun r =>
      solves_assign_iff hbp
    refine ⟨hu.assign hp hparam (Bool.eq_false_iff.2 hocc), ⟨fun x hx => ?_, fun x s hs => ?_⟩,
      fun x s hs => ?_, fun r hr => ((hsolves r).1 hr).1, fun _ => hsolves, fun _ he => by cases he⟩
    · rcases List.mem_insert_iff.1 hx with rfl | hx
      · exact hpV
      · exact hV.known_mem x hx
    · change (if x = p then some t else u.bound x) = some s at hs
      by_cases hx : x = p
      · rw [if_pos hx, Option.some.injEq] at hs
        exact hs ▸ ht
      · rw [if_neg hx] at hs
        exact hV.bound_fits x s hs
    · have hx : u.root x ≠ p := by
        intro h
        rw [h, hbp] at hs
        cases hs
      exact (if_neg hx).trans hs

/-- Lists of types are made equal pair by pair, if every pair is. -/
theorem unifyEach_answers {unify : Unifier → Ty → Ty → Outcome}
    (hpair : ∀ u a b, u.WellFormed → u.Fits V m → u.Descends a₀ d a → a.Fits V m → b.Fits V m →
      Answers V m u (fun r => a.bind r ≈ b.bind r) (unify u a b))
    {as bs : List Ty} (hlen : as.length = bs.length) (hu : u.WellFormed) (hV : u.Fits V m)
    (has : ∀ a ∈ as, u.Descends a₀ d a ∧ a.Fits V m) (hbs : ∀ b ∈ bs, b.Fits V m) :
    Answers V m u (fun r => List.Forall₂ (fun a b => a.bind r ≈ b.bind r) as bs)
      (unifyEach unify u as bs) := by
  induction as generalizing u bs with
  | nil =>
    obtain rfl := List.length_eq_zero_iff.1 hlen.symm
    exact answers_ok hu hV fun r _ => .nil
  | cons a as ih =>
    cases bs with
    | nil => cases hlen
    | cons b bs =>
      obtain ⟨hdesc, haV⟩ := has a (by simp)
      have hfirst := hpair u a b hu hV hdesc haV (hbs b (by simp))
      simp only [List.forall₂_cons]
      unfold unifyEach
      rcases hout : unify u a b with ⟨_ | _, v⟩
      · rw [hout] at hfirst
        exact hfirst.error_seq
      · rw [hout] at hfirst
        refine hfirst.seq (ih (Nat.succ.inj hlen) hfirst.wellFormed hfirst.fits (fun a ha => ?_)
          fun b hb => hbs b (by simp [hb]))
        obtain ⟨hdesc, haV⟩ := has a (by simp [ha])
        exact ⟨hdesc.mono hfirst.extends_, haV⟩

theorem nominal_bind_equiv_iff {r : Placeholder → Ty} {e : DeclId} {ss ts : List Ty}
    {ps qs : List Placeholder} : (Ty.nominal e ss ps).bind r ≈ (Ty.nominal e ts qs).bind r ↔
      List.Forall₂ (fun s t => s.bind r ≈ t.bind r) ss ts := by
  simp only [Ty.equiv_def, Ty.bind, Ty.erase, Ty.bindAll_eq_map, Ty.eraseAll_eq_map, List.map_map,
    Ty.nominal.injEq, true_and, and_true, ← List.forall₂_eq_eq_eq, List.forall₂_map_left_iff,
    List.forall₂_map_right_iff, Function.comp_apply]

/-- Two nominal types are made equal by their arguments, if they are of one declaration. -/
theorem answers_nominal {unify : Unifier → Ty → Ty → Outcome}
    (hpair : ∀ u a b, u.WellFormed → u.Fits V m → u.Descends a₀ d a → a.Fits V m → b.Fits V m →
      Answers V m u (fun r => a.bind r ≈ b.bind r) (unify u a b))
    {e f : DeclId} {ss ts : List Ty} {ps qs : List Placeholder} (hu : u.WellFormed) (hV : u.Fits V m)
    (hss : ∀ s ∈ ss, u.Descends a₀ d s ∧ s.Fits V m) (hts : ∀ t ∈ ts, t.Fits V m) :
    Answers V m u (fun r => (Ty.nominal e ss ps).bind r ≈ (Ty.nominal f ts qs).bind r)
      (if e ≠ f then (.error (.mismatch (.nominal e ss ps) (.nominal f ts qs)), u)
      else if ss.length ≠ ts.length then (.error (.arity ss.length ts.length), u)
      else unifyEach unify u ss ts) := by
  by_cases hef : e = f
  · subst hef
    by_cases hlen : ss.length = ts.length
    · simp only [ne_eq, not_true_eq_false, if_false, hlen]
      exact (unifyEach_answers hpair hlen hu hV hss hts).congr fun r _ => nominal_bind_equiv_iff.symm
    · simp only [ne_eq, not_true_eq_false, if_false, hlen, not_false_eq_true, if_true]
      exact answers_error hu hV fun r _ h => hlen (nominal_bind_equiv_iff.1 h).length_eq
  · simp only [ne_eq, hef, not_false_eq_true, if_true]
    exact answers_mismatch hu hV fun r h => hef (by simp [Ty.equiv_def, Ty.bind, Ty.erase] at h; exact h.1)

theorem head_eq_param (hu : u.WellFormed) {p : Placeholder} (h : u.head a = .param p) :
    u.root p = p ∧ u.bound p = none := by
  cases a with
  | param q =>
    cases hb : u.bound (u.root q) with
    | none =>
      simp only [head, hb, Option.getD_none, Ty.param.injEq] at h
      subst h
      exact ⟨hu.root_root q, hb⟩
    | some t =>
      simp only [head, hb, Option.getD_some] at h
      exact absurd h (hu.ne_param _ t hb p)
  | _ => cases h

/-- A type on the left is bound to a placeholder on the right. -/
theorem answers_bind_right {t : Ty} {q : Placeholder} (hu : u.WellFormed) (hV : u.Fits V m)
    (hb : u.head b = .param q) (hbV : (u.head b).Fits V m) (ht : t.Fits V m)
    (hparam : ∀ p, t ≠ .param p) :
    Answers V m u (fun r => t.bind r ≈ (Ty.param q).bind r)
      (if u.occurs q t then (.error (.occurs q t), u) else (.ok (), u.assign q t)) := by
  obtain ⟨hroot, hbound⟩ := head_eq_param hu hb
  rw [hb] at hbV
  exact (answers_bind hu hV hroot hbound hbV.param_mem ht hparam).congr fun r _ =>
    ⟨Setoid.symm, Setoid.symm⟩

/-- Types are made equal, if they can be, by as many steps as types reach deep. -/
theorem unifyWithin_answers {n : Nat} (hu : u.WellFormed) (hV : u.Fits V m)
    (hdesc : u.Descends a₀ d a) (haV : a.Fits V m) (hbV : b.Fits V m)
    (hn : V.card * m + a₀.size ≤ d + n) :
    Answers V m u (fun r => a.bind r ≈ b.bind r) (unifyWithin n u a b) := by
  induction n generalizing u d a b with
  | zero => exact absurd (hdesc.depth_lt hu hV) (by omega)
  | succ n ih =>
    -- It is the same to make the heads equal.
    suffices h : Answers V m u (fun r => (u.head a).bind r ≈ (u.head b).bind r)
        (unifyWithin (n + 1) u a b) from h.congr fun r hr =>
      ⟨fun h => Setoid.trans (Setoid.symm (hr.head a)) (Setoid.trans h (hr.head b)),
        fun h => Setoid.trans (hr.head a) (Setoid.trans h (Setoid.symm (hr.head b)))⟩
    have haV' := hV.head hu haV
    have hbV' := hV.head hu hbV
    have hinside : ∀ y ∈ (u.head a).parts, u.Descends a₀ (d + 1) y := fun y hy => .inside hdesc hy
    unfold unifyWithin
    cases ha : u.head a with
    | param p =>
      obtain ⟨hp, hbp⟩ := head_eq_param hu ha
      rw [ha] at haV'
      cases hb : u.head b with
      | param q =>
        obtain ⟨hq, hbq⟩ := head_eq_param hu hb
        by_cases hpq : p = q
        · subst hpq
          simp only [if_pos]
          exact answers_ok hu hV fun r _ => Setoid.refl _
        · simp only [if_neg hpq]
          rw [hb] at hbV'
          exact answers_merge hu hV hpq hp hq hbp hbq haV'.param_mem hbV'.param_mem
      | _ => exact answers_bind hu hV hp hbp haV'.param_mem (hb ▸ hbV') fun q h => by cases h
    | prim p =>
      cases hb : u.head b with
      | param q => exact answers_bind_right hu hV hb hbV' (ha ▸ haV') fun q h => by cases h
      | prim q =>
        by_cases hpq : p = q
        · subst hpq
          simp only [if_pos]
          exact answers_ok hu hV fun r _ => Setoid.refl _
        · simp only [if_neg hpq]
          exact answers_mismatch hu hV fun r h => hpq (by simpa [Ty.equiv_def, Ty.bind, Ty.erase] using h)
      | _ => exact answers_mismatch hu hV fun r h => by simp [Ty.equiv_def, Ty.bind, Ty.erase] at h
    | slice s =>
      cases hb : u.head b with
      | param q => exact answers_bind_right hu hV hb hbV' (ha ▸ haV') fun q h => by cases h
      | slice t =>
        rw [ha] at haV' hinside
        rw [hb] at hbV'
        have hs := ih hu hV (hinside s (by simp [Ty.parts])) (haV'.of_mem_parts (by simp [Ty.parts]))
          (hbV'.of_mem_parts (s := t) (by simp [Ty.parts])) (by omega)
        exact hs.congr fun r _ => by simp [Ty.equiv_def, Ty.bind, Ty.erase]
      | _ => exact answers_mismatch hu hV fun r h => by simp [Ty.equiv_def, Ty.bind, Ty.erase] at h
    | nominal e ss ps =>
      cases hb : u.head b with
      | param q => exact answers_bind_right hu hV hb hbV' (ha ▸ haV') fun q h => by cases h
      | nominal f ts qs =>
        rw [ha] at haV' hinside
        rw [hb] at hbV'
        exact answers_nominal
          (fun u a b hu hV hdesc haV hbV => ih hu hV hdesc haV hbV (by omega)) hu hV
          (fun s hs => ⟨hinside s hs, haV'.of_mem_parts hs⟩) fun t ht => hbV'.of_mem_parts ht
      | _ => exact answers_mismatch hu hV fun r h => by simp [Ty.equiv_def, Ty.bind, Ty.erase] at h

end Attempts

/-! ## Any two types -/

theorem size_le_knownSize {p : Placeholder} {t : Ty} (hp : p ∈ u.known) (ht : u.bound p = some t) :
    t.size ≤ u.knownSize := by
  have hsize : u.boundSize p = t.size := by simp [boundSize, ht]
  unfold knownSize
  rw [← hsize]
  generalize u.known = ps at hp
  induction ps with
  | nil => cases hp
  | cons q ps ih =>
    rw [List.foldr_cons]
    rcases List.mem_cons.1 hp with rfl | hp
    · exact Nat.le_add_right _ _
    · exact (ih hp).trans (Nat.le_add_left _ _)

/-- The placeholders that occur in the types of known placeholders. -/
def boundVars (u : Unifier) : List Placeholder :=
  u.known.flatMap fun p => ((u.bound p).map Ty.vars).getD []

theorem length_boundVars_le (u : Unifier) : u.boundVars.length ≤ u.knownSize := by
  unfold boundVars knownSize
  induction u.known with
  | nil => exact Nat.le_refl _
  | cons p ps ih =>
    have hp : (((u.bound p).map Ty.vars).getD []).length ≤ u.boundSize p := by
      cases h : u.bound p with
      | none => simp
      | some t => simpa [boundSize, h] using t.length_vars_le
    rw [List.flatMap_cons, List.length_append, List.foldr_cons]
    omega

theorem mem_boundVars {p x : Placeholder} {t : Ty} (hp : p ∈ u.known) (ht : u.bound p = some t)
    (hx : t.Occurs x) : x ∈ u.boundVars :=
  List.mem_flatMap.2 ⟨p, hp, by simpa [ht] using Ty.mem_vars.2 hx⟩

/-- All placeholders that two types and what is known mention. -/
def mentioned (u : Unifier) (a b : Ty) : List Placeholder :=
  u.known ++ a.vars ++ b.vars ++ u.boundVars

/-- Two types are made equal if what is known and the two types have a common solution. -/
theorem unify_answers (hu : u.WellFormed) (a b : Ty) :
    Answers (u.mentioned a b).toFinset (a.size + b.size + u.knownSize) u
      (fun r => a.bind r ≈ b.bind r) (u.unify a b) := by
  have hV : u.Fits (u.mentioned a b).toFinset (a.size + b.size + u.knownSize) := by
    refine ⟨fun p hp => by simp [mentioned, hp], fun p t ht => ⟨?_, fun x hx => ?_⟩⟩
    · have := size_le_knownSize (hu.mem_known ht) ht
      omega
    · simp [mentioned, mem_boundVars (hu.mem_known ht) ht hx]
  refine unifyWithin_answers hu hV .here ⟨by omega, fun x hx => ?_⟩ ⟨by omega, fun x hx => ?_⟩ ?_
  · simp [mentioned, Ty.mem_vars.2 hx]
  · simp [mentioned, Ty.mem_vars.2 hx]
  · have hcard : (u.mentioned a b).toFinset.card ≤ u.known.length + a.size + b.size + u.knownSize := by
      have ha := a.length_vars_le
      have hb := b.length_vars_le
      have hu := u.length_boundVars_le
      refine (List.toFinset_card_le _).trans ?_
      simp only [mentioned, List.length_append]
      omega
    simp only [depthBound]
    generalize hn : u.known.length + a.size + b.size + u.knownSize = n at hcard
    have hmul : (u.mentioned a b).toFinset.card * (a.size + b.size + u.knownSize) ≤ n * n :=
      Nat.mul_le_mul hcard (by omega)
    rw [Nat.succ_mul, Nat.mul_succ]
    omega

/-! ## Reading substitutions off -/

/-- The substitution that is read off puts in all that is known. -/
theorem WellFormed.target_substitution (hu : u.WellFormed) : u.substitution.target = u.meaning := by
  funext p
  have hentries : ∀ e ∈ u.known.filterMap fun p =>
      let t := u.resolve (.param p)
      if t == .param p then none else some (p, t), e.2 = u.meaning e.1 := by
    intro e he
    obtain ⟨q, -, hq⟩ := List.mem_filterMap.1 he
    by_cases h : (u.resolve (.param q) == .param q) = true
    · simp [h] at hq
    · simp only [h] at hq
      obtain rfl := Option.some.inj hq
      rfl
  rw [Substitution.target, substitution, Substitution.get?_ofList hentries]
  split
  case isTrue => rfl
  case isFalse hp =>
    -- What is left out stands for itself.
    by_cases hk : p ∈ u.known
    · have heq : (u.resolve (.param p) == .param p) = true := by
        by_contra h
        exact hp (List.mem_map.2 ⟨(p, u.resolve (.param p)),
          List.mem_filterMap.2 ⟨p, hk, by simp [h]⟩, rfl⟩)
      exact (Ty.eq_param_of_equiv (Ty.beq_iff_equiv.1 heq)).symm
    · obtain ⟨hroot, hbound⟩ := hu.fresh p hk
      rw [meaning_of_unbound (by rw [hroot, hbound]), hroot, Option.getD_none]

theorem WellFormed.apply_substitution (hu : u.WellFormed) (t : Ty) :
    u.substitution.apply t = u.resolve t := by
  rw [Substitution.apply_eq_bind, hu.target_substitution, resolve_eq_bind]

end Unifier

/-! ## The most general unifier -/

namespace Substitution

/-- A substitution makes two types equal. -/
def Unifies (s : Substitution) (a b : Ty) : Prop := (s.apply a == s.apply b) = true

/-- A substitution makes two types equal, it changes nothing when it is applied again, and every other
one that makes them equal factors through it. -/
structure MostGeneral (s : Substitution) (a b : Ty) : Prop where
  unifies : s.Unifies a b
  idempotent : ∀ t, (s.apply (s.apply t) == s.apply t) = true
  factors : ∀ r : Substitution, r.Unifies a b → ∀ t, (r.apply (s.apply t) == r.apply t) = true

theorem unifies_iff {s : Substitution} {a b : Ty} :
    s.Unifies a b ↔ a.bind s.target ≈ b.bind s.target := by
  rw [Unifies, Ty.beq_iff_equiv, apply_eq_bind, apply_eq_bind]

end Substitution

/-- A substitution is inferred for two types if and only if there is one that makes them equal, and the
one that is inferred is the most general one. -/
theorem inferSubstitution_mostGeneral (a b : Ty) :
    ((∃ s, inferSubstitution a b = some s) ↔ ∃ r : Substitution, r.Unifies a b) ∧
      ∀ s ∈ inferSubstitution a b, s.MostGeneral a b := by
  have hans := Unifier.unify_answers Unifier.wellFormed_empty a b
  have hsolves : ∀ r : Substitution, Unifier.Solves r.target Unifier.empty := fun _ =>
    Unifier.solves_empty
  unfold inferSubstitution
  rcases hout : Unifier.empty.unify a b with ⟨e | ⟨⟨⟩⟩, u⟩
  · rw [hout] at hans
    have hnone : ∀ r : Substitution, ¬ r.Unifies a b := fun r hr =>
      hans.no_solution e rfl r.target (hsolves r) (Substitution.unifies_iff.1 hr)
    refine ⟨⟨?_, fun ⟨r, hr⟩ => absurd hr (hnone r)⟩, fun s hs => by cases hs⟩
    rintro ⟨s, hs⟩
    cases hs
  · rw [hout] at hans
    have hu := hans.wellFormed
    have hunifies : u.substitution.Unifies a b := by
      rw [Substitution.unifies_iff, hu.target_substitution]
      exact ((hans.solves_iff rfl _).1 hu.solves_meaning).2
    refine ⟨⟨fun _ => ⟨_, hunifies⟩, fun _ => ⟨_, rfl⟩⟩, fun s hs => ?_⟩
    obtain rfl : u.substitution = s := Option.some.inj hs
    refine ⟨hunifies, fun t => ?_, fun r hr t => ?_⟩
    · rw [hu.apply_substitution, hu.apply_substitution, Unifier.resolve_eq_bind,
        Unifier.resolve_eq_bind, Ty.bind_bind]
      refine Ty.beq_iff_equiv.2 (Ty.bind_equiv (Setoid.refl t) fun x => ?_)
      exact (hu.bind_meaning x).symm ▸ Setoid.refl _
    · have hsol : Unifier.Solves r.target u :=
        (hans.solves_iff rfl _).2 ⟨hsolves r, Substitution.unifies_iff.1 hr⟩
      rw [Ty.beq_iff_equiv, Substitution.apply_eq_bind r, Substitution.apply_eq_bind r,
        hu.apply_substitution]
      exact hsol.bind_resolve t

end Reshape
