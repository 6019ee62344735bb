import Reshape.Proofs.Resolve.WellFormed
import Reshape.Proofs.Ty.Unification

/-!
# Method results and the arguments of the receiver

The parameters of an impl block are matched with the arguments of a receiver by unification, and the
parameters of a struct with the arguments of a value place by place. The placeholders of the block are
not renamed before, so the two differ where the arguments mention them.

* `Substitution.Settles`: no argument mentions a parameter that is replaced by another type.
* `inferSubstitution_target_eq`: then unification finds the instantiation place by place.
* `settles_of_bind_equiv`: it finds it only then, as far as a type that mentions all parameters can
  tell.
* `View.exprType?_methodCall`: what this means for the type of a method call.
-/

namespace Reshape

/-! ## Equal results of replacing -/

namespace Ty

/-- Replacements with equivalent results replace what occurs in the same way. -/
theorem equiv_of_bind_equiv {f g : Placeholder → Ty} {x : Placeholder} {t : Ty}
    (h : t.bind f ≈ t.bind g) (hx : t.Occurs x) : f x ≈ g x := by
  induction t using argInduction with
  | prim p => exact absurd hx not_occurs_prim
  | slice t ih =>
    refine ih ?_ (occurs_slice.1 hx)
    simpa only [equiv_def, bind, erase, slice.injEq] using h
  | nominal d ts ps ih =>
    obtain ⟨t, ht, hx⟩ := occurs_nominal.1 hx
    refine ih t ht ?_ hx
    simp only [equiv_def, bind, erase, bindAll_eq_map, eraseAll_eq_map, nominal.injEq, List.map_map,
      List.map_inj_left, true_and, and_true] at h
    exact h t ht
  | param p => exact occurs_param.1 hx ▸ h

/-- A replacement that keeps a type keeps every placeholder in it. -/
theorem eq_param_of_bind_equiv {f : Placeholder → Ty} {x : Placeholder} {t : Ty}
    (h : t.bind f ≈ t) (hx : t.Occurs x) : f x = .param x :=
  eq_param_of_equiv (equiv_of_bind_equiv (g := .param) ((bind_param t).symm ▸ h) hx)

theorem eq_nominal_of_equiv {t a : Ty} {d : DeclId} {ps : List Placeholder}
    (h : t ≈ nominal d [a] ps) : ∃ b qs, t = nominal d [b] qs ∧ b ≈ a := by
  cases t with
  | nominal e ts qs =>
    simp only [equiv_def, erase, eraseAll_eq_map, List.map_cons, List.map_nil, nominal.injEq,
      and_true, List.map_eq_singleton_iff] at h
    obtain ⟨rfl, b, rfl, hb⟩ := h
    exact ⟨b, qs, rfl, hb⟩
  | _ => simp [equiv_def, erase] at h

theorem eq_prim_of_equiv {t : Ty} {p : Prim} (h : t ≈ prim p) : t = prim p := by
  cases t <;> simp_all [equiv_def, erase]

end Ty

/-! ## Instantiations that settle -/

namespace Substitution

variable {ps : List Placeholder} {args : List Ty}

/-- No placeholder that occurs in one of the types is replaced by another type. -/
def Settles (s : Substitution) (args : List Ty) : Prop :=
  ∀ a ∈ args, ∀ x, a.Occurs x → s.target x = .param x

/-- Different parameters are mapped to the arguments at their places. -/
theorem map_target_ofInstantiation (hps : ps.Nodup) (hlen : args.length = ps.length) :
    ps.map (ofInstantiation ps args).target = args := by
  refine List.ext_getElem (by simp [hlen]) fun i hi hi' => ?_
  have hip : i < ps.length := hlen ▸ hi'
  have hget := (matches_ofInstantiation hlen).get?_eq i ps[i] (List.getElem?_eq_getElem hip)
    fun j hj h => by
      obtain ⟨hj', heq⟩ := List.getElem?_eq_some_iff.1 h
      exact absurd (hps.getElem_inj_iff.1 heq) (by omega)
  rw [List.getElem_map, target, hget, List.getElem?_eq_getElem hi', Option.getD_some]

theorem target_ofInstantiation_of_notMem (hlen : args.length = ps.length) {x : Placeholder}
    (hx : x ∉ ps) : (ofInstantiation ps args).target x = .param x := by
  have hnone : (ofInstantiation ps args).get? x = none := by
    rw [← Option.not_isSome_iff_eq_none, (matches_ofInstantiation hlen).isSome_get?]
    exact hx
  rw [target, hnone, Option.getD_none]

end Substitution

/-! ## Matching parameters with arguments -/

namespace Unifier

variable {σ : Placeholder → Ty} {u : Unifier} {done : List Placeholder} {p q x : Placeholder}

/-- What is known after the parameters `done` have been matched with their arguments: a parameter whose
argument is a placeholder has that one for its root, any other is bound to its argument. A parameter
that is replaced never became the root of another. -/
structure Placed (σ : Placeholder → Ty) (done : List Placeholder) (u : Unifier) : Prop where
  root_of_param : ∀ p q, p ∈ done → σ p = .param q → u.root p = q
  root_eq : ∀ p, p ∉ done ∨ (∀ q, σ p ≠ .param q) → u.root p = p
  bound_of_mem : ∀ p, p ∈ done → (∀ q, σ p ≠ .param q) → u.bound p = some (σ p)
  bound_eq_none : ∀ p, p ∉ done ∨ (∃ q, σ p = .param q) → u.bound p = none
  rank_eq : ∀ p, σ p ≠ .param p → u.rank p = 0

theorem placed_empty (σ : Placeholder → Ty) : Placed σ [] empty where
  root_of_param _ _ h := by cases h
  root_eq _ _ := rfl
  bound_of_mem _ h := by cases h
  bound_eq_none _ _ := rfl
  rank_eq _ _ := rfl

/-- A placeholder that stays is a root. -/
theorem Placed.root_of_stays (h : Placed σ done u) (hp : σ p = .param p) : u.root p = p := by
  by_cases hmem : p ∈ done
  · exact h.root_of_param p p hmem hp
  · exact h.root_eq p (.inl hmem)

theorem Placed.head_of_stays (h : Placed σ done u) (hp : σ p = .param p) :
    u.head (.param p) = .param p := by
  rw [head, h.root_of_stays hp, h.bound_eq_none p (.inr ⟨p, hp⟩), Option.getD_none]

theorem Placed.head_of_notMem (h : Placed σ done u) (hp : p ∉ done) :
    u.head (.param p) = .param p := by
  rw [head, h.root_eq p (.inl hp), h.bound_eq_none p (.inl hp), Option.getD_none]

/-- Nothing leads from placeholders that stay to one that is replaced. -/
theorem Placed.occurs_eq_false (h : Placed σ done u) {t : Ty}
    (ht : ∀ x, t.Occurs x → σ x = .param x) (hp : σ p ≠ .param p) : u.occurs p t = false := by
  rw [Bool.eq_false_iff, occurs, Ne, Ty.anyPlaceholder_iff]
  rintro ⟨x, hx, hreach⟩
  have hstays := ht x hx
  have hroot := h.root_of_stays hstays
  have hbound := h.bound_eq_none x (.inr ⟨x, hstays⟩)
  have hxp : x ≠ p := by
    rintro rfl
    exact hp hstays
  cases hn : u.known.length with
  | zero => simp [hn, reaches, hroot, hxp] at hreach
  | succ n => simp [hn, reaches, hroot, hbound, hxp] at hreach

/-- A parameter that is its own argument is matched already. -/
theorem Placed.cons_of_stays (h : Placed σ done u) (hp : σ p = .param p) :
    Placed σ (p :: done) u where
  root_of_param x y hx hy := by
    rcases List.mem_cons.1 hx with rfl | hx
    · rw [hp, Ty.param.injEq] at hy
      rw [h.root_of_stays hp, hy]
    · exact h.root_of_param x y hx hy
  root_eq x hx := h.root_eq x (hx.imp_left fun hx hmem => hx (List.mem_cons_of_mem p hmem))
  bound_of_mem x hx hparam := by
    rcases List.mem_cons.1 hx with rfl | hx
    · exact absurd hp (hparam x)
    · exact h.bound_of_mem x hx hparam
  bound_eq_none x hx :=
    h.bound_eq_none x (hx.imp_left fun hx hmem => hx (List.mem_cons_of_mem p hmem))
  rank_eq := h.rank_eq

variable (hσ : ∀ p x, (σ p).Occurs x → σ x = .param x)
include hσ

/-- The placeholder that is the argument of a parameter becomes its root: it never is the one that gives
way. -/
theorem Placed.merge (h : Placed σ done u) (hp : p ∉ done) (hpq : σ p = .param q) (hne : p ≠ q) :
    Placed σ (p :: done) (u.merge p q) := by
  have hq : σ q = .param q := hσ p q (hpq ▸ Ty.occurs_param.2 rfl)
  have hmoves : σ p ≠ .param p := by
    rw [hpq]
    exact fun heq => hne (Ty.param.inj heq).symm
  have hrank : ¬ u.rank q < u.rank p := by
    rw [h.rank_eq p hmoves]
    exact Nat.not_lt_zero _
  have hmergeRoot : ∀ x, (u.merge p q).root x = if u.root x = p then q else u.root x := fun x => by
    simp [Unifier.merge, hrank]
  -- Only placeholders that stay are arguments, so that nothing else leads to the parameter yet.
  have hroot : ∀ x, x ≠ p → u.root x ≠ p := by
    intro x hx heq
    by_cases hparam : x ∈ done ∧ ∃ y, σ x = .param y
    · obtain ⟨hmem, y, hy⟩ := hparam
      obtain rfl := (h.root_of_param x y hmem hy).symm.trans heq
      exact hmoves (hσ x y (hy ▸ Ty.occurs_param.2 rfl))
    · rw [h.root_eq x] at heq
      · exact hx heq
      · simpa only [not_and_or, not_exists] using hparam
  refine ⟨fun x y hx hy => ?_, fun x hx => ?_, fun x hx hparam => ?_, fun x hx => ?_, fun x hx => ?_⟩
  · rw [hmergeRoot]
    by_cases hxp : x = p
    · subst hxp
      rw [h.root_eq x (.inl hp), if_pos rfl]
      exact Ty.param.inj (hpq.symm.trans hy)
    · rw [if_neg (hroot x hxp)]
      exact h.root_of_param x y ((List.mem_cons.1 hx).resolve_left hxp) hy
  · have hxp : x ≠ p := by
      rintro rfl
      exact hx.elim (fun hx => hx (List.mem_cons_self ..)) fun hx => hx q hpq
    rw [hmergeRoot, if_neg (hroot x hxp)]
    exact h.root_eq x (hx.imp_left fun hx hmem => hx (List.mem_cons_of_mem p hmem))
  · have hxp : x ≠ p := by
      rintro rfl
      exact hparam q hpq
    exact h.bound_of_mem x ((List.mem_cons.1 hx).resolve_left hxp) hparam
  · by_cases hxp : x = p
    · exact hxp ▸ h.bound_eq_none p (.inl hp)
    · exact h.bound_eq_none x (hx.imp_left fun hx hmem => hx (List.mem_cons_of_mem p hmem))
  · have hxq : x ≠ q := by
      rintro rfl
      exact hx hq
    have hstays : ¬ (x = (if u.rank q < u.rank p then p else q) ∧ u.rank p = u.rank q) := by
      rw [if_neg hrank]
      exact fun h => hxq h.1
    exact (if_neg hstays).trans (h.rank_eq x hx)

omit hσ in
/-- A parameter is bound to an argument that is no placeholder. -/
theorem Placed.assign (h : Placed σ done u) (hparam : ∀ q, σ p ≠ .param q) :
    Placed σ (p :: done) (u.assign p (σ p)) := by
  refine ⟨fun x y hx hy => ?_, fun x hx => ?_, fun x hx hxparam => ?_, fun x hx => ?_, h.rank_eq⟩
  · have hxp : x ≠ p := by
      rintro rfl
      exact hparam y hy
    exact h.root_of_param x y ((List.mem_cons.1 hx).resolve_left hxp) hy
  · exact h.root_eq x (hx.imp_left fun hx hmem => hx (List.mem_cons_of_mem p hmem))
  · change (if x = p then some (σ p) else u.bound x) = some (σ x)
    by_cases hxp : x = p
    · rw [if_pos hxp, hxp]
    · rw [if_neg hxp]
      exact h.bound_of_mem x ((List.mem_cons.1 hx).resolve_left hxp) hxparam
  · have hxp : x ≠ p := by
      rintro rfl
      exact hx.elim (fun hx => hx (List.mem_cons_self ..)) fun ⟨y, hy⟩ => hparam y hy
    exact (if_neg hxp).trans
      (h.bound_eq_none x (hx.imp_left fun hx hmem => hx (List.mem_cons_of_mem p hmem)))

/-- A parameter is matched with its argument in one step. -/
theorem Placed.unifyWithin (h : Placed σ done u) (hp : p ∉ done) (n : Nat) :
    ∃ v, Unifier.unifyWithin (n + 1) u (.param p) (σ p) = (.ok (), v) ∧ Placed σ (p :: done) v := by
  unfold Unifier.unifyWithin
  rw [h.head_of_notMem hp]
  cases harg : σ p with
  | param q =>
    rw [h.head_of_stays (hσ p q (harg ▸ Ty.occurs_param.2 rfl))]
    by_cases hpq : p = q
    · subst hpq
      exact ⟨u, if_pos rfl, h.cons_of_stays harg⟩
    · exact ⟨u.merge p q, if_neg hpq, h.merge hσ hp harg hpq⟩
  | _ =>
    have hocc := h.occurs_eq_false (t := σ p) (hσ p) (p := p) (by rw [harg]; exact Ty.noConfusion)
    have hassign := h.assign (p := p) (by rw [harg]; exact fun q => Ty.noConfusion)
    rw [harg] at hocc hassign
    exact ⟨_, by simp only [head, hocc, Bool.false_eq_true, if_false], hassign⟩

/-- Different parameters are matched with their arguments one after the other. -/
theorem Placed.unifyEach {ps : List Placeholder} (h : Placed σ done u) (hps : ps.Nodup)
    (hdisj : ps.Disjoint done) (n : Nat) :
    ∃ v, Unifier.unifyEach (Unifier.unifyWithin (n + 1)) u (ps.map .param) (ps.map σ) = (.ok (), v) ∧
      Placed σ (ps.reverse ++ done) v := by
  induction ps generalizing u done with
  | nil => exact ⟨u, rfl, h⟩
  | cons p ps ih =>
    obtain ⟨hp, hps⟩ := List.nodup_cons.1 hps
    obtain ⟨hpdone, hdisj⟩ := List.disjoint_cons_left.1 hdisj
    obtain ⟨v, hv, hplaced⟩ := h.unifyWithin hσ hpdone n
    obtain ⟨w, hw, hplaced⟩ := ih hplaced hps (List.disjoint_cons_right.2 ⟨hp, hdisj⟩)
    refine ⟨w, ?_, by simpa using hplaced⟩
    simp only [List.map_cons, Unifier.unifyEach, hv, hw]

/-- What is known in the end puts in the arguments. -/
theorem Placed.meaning_eq (h : Placed σ done u) (hu : u.WellFormed)
    (hdone : ∀ p, σ p ≠ .param p → p ∈ done) : u.meaning = σ := by
  have hstays : ∀ p, σ p = .param p → u.meaning p = σ p := by
    intro p hp
    have hroot := h.root_of_stays hp
    rw [meaning_of_unbound (by rw [hroot]; exact h.bound_eq_none p (.inr ⟨p, hp⟩)), hroot, hp]
  funext p
  by_cases hp : σ p = .param p
  · exact hstays p hp
  · by_cases hparam : ∃ q, σ p = .param q
    · obtain ⟨q, hq⟩ := hparam
      have hqstays : σ q = .param q := hσ p q (hq ▸ Ty.occurs_param.2 rfl)
      rw [← hu.meaning_root, h.root_of_param p q (hdone p hp) hq, hstays q hqstays, hqstays, hq]
    · have hparam := not_exists.1 hparam
      have hbound : u.bound (u.root p) = some (σ p) := by
        rw [h.root_eq p (.inr hparam), h.bound_of_mem p (hdone p hp) hparam]
      rw [hu.meaning_of_bound hbound]
      refine (Ty.bind_congr fun x hx => ?_).trans (Ty.bind_param _)
      rw [hstays x (hσ p x hx), hσ p x hx]

end Unifier

section Inferred

variable {d : DeclId} {ps qs params : List Placeholder} {args : List Ty}

/-- Where the instantiation settles, it is what unification finds. -/
theorem inferSubstitution_target_eq (hps : ps.Nodup) (hlen : args.length = ps.length)
    (hsettles : (Substitution.ofInstantiation ps args).Settles args) :
    ∃ s, inferSubstitution (.nominal d (ps.map .param) qs) (.nominal d args params) = some s ∧
      s.target = (Substitution.ofInstantiation ps args).target := by
  generalize hσ : (Substitution.ofInstantiation ps args).target = σ
  have hargs : args = ps.map σ := by rw [← hσ, Substitution.map_target_ofInstantiation hps hlen]
  have hmem : ∀ p, σ p ≠ .param p → p ∈ ps := fun p hp => by
    by_contra hnot
    exact hp (hσ ▸ Substitution.target_ofInstantiation_of_notMem hlen hnot)
  have hstays : ∀ p x, (σ p).Occurs x → σ x = .param x := by
    intro p x hx
    by_cases hp : σ p = .param p
    · rw [hp, Ty.occurs_param] at hx
      exact hx ▸ hp
    · have harg : σ p ∈ args := hargs ▸ List.mem_map_of_mem (hmem p hp)
      exact hσ ▸ hsettles (σ p) harg x hx
  -- One step goes inside the declaration, another one matches a parameter.
  obtain ⟨n, hn⟩ : ∃ n, Unifier.empty.depthBound (.nominal d (ps.map .param) qs)
      (.nominal d args params) = n + 2 := by
    refine ⟨_, (Nat.sub_add_cancel ?_).symm⟩
    have hpos := (Ty.nominal d args params).size_pos
    simp only [Unifier.depthBound]
    exact le_trans (by omega) (Nat.le_mul_self _)
  obtain ⟨u, hu, hplaced⟩ :=
    (Unifier.placed_empty σ).unifyEach hstays hps (List.disjoint_nil_right ps) n
  have hunify : Unifier.empty.unify (.nominal d (ps.map .param) qs) (.nominal d args params) =
      (.ok (), u) := by
    rw [Unifier.unify, hn, Unifier.unifyWithin]
    simpa [Unifier.head, hargs] using hu
  have hwf : u.WellFormed := by
    have hans := Unifier.unify_answers Unifier.wellFormed_empty
      (.nominal d (ps.map .param) qs) (.nominal d args params)
    rw [hunify] at hans
    exact hans.wellFormed
  refine ⟨u.substitution, by rw [inferSubstitution, hunify], ?_⟩
  rw [hwf.target_substitution]
  exact hplaced.meaning_eq hstays hwf fun p hp => by simpa using hmem p hp

/-- What is found makes the two types equal. -/
theorem bind_equiv_of_inferSubstitution {a b : Ty} {s : Substitution}
    (h : inferSubstitution a b = some s) : a.bind s.target ≈ b.bind s.target := by
  have hans := Unifier.unify_answers Unifier.wellFormed_empty a b
  unfold inferSubstitution at h
  rcases hout : Unifier.empty.unify a b with ⟨e | ⟨⟨⟩⟩, u⟩
  · simp [hout] at h
  · simp only [hout, Option.some.injEq] at h
    rw [hout] at hans
    rw [← h, hans.wellFormed.target_substitution]
    exact ((hans.solves_iff rfl _).1 hans.wellFormed.solves_meaning).2

/-- An instantiation that a type which mentions all parameters cannot tell from what unification finds
settles. Where unification finds nothing, nothing is replaced. -/
theorem settles_of_bind_equiv (hps : ps.Nodup) (hlen : args.length = ps.length) {t : Ty}
    (ht : ∀ p ∈ ps, t.Occurs p)
    (h : (((inferSubstitution (.nominal d (ps.map .param) qs) (.nominal d args params)).getD
      .empty).apply t) ≈ (Substitution.ofInstantiation ps args).apply t) :
    (Substitution.ofInstantiation ps args).Settles args := by
  generalize hσ : Substitution.ofInstantiation ps args = σ at h ⊢
  have hargs : args = ps.map σ.target := by
    rw [← hσ, Substitution.map_target_ofInstantiation hps hlen]
  rw [Substitution.apply_eq_bind, Substitution.apply_eq_bind] at h
  intro a ha x hx
  by_cases hxps : x ∈ ps
  · obtain ⟨p, hp, rfl⟩ := List.mem_map.1 (hargs ▸ ha)
    cases hs : inferSubstitution (.nominal d (ps.map .param) qs) (.nominal d args params) with
    | none =>
      rw [hs] at h
      exact Ty.eq_param_of_equiv (Setoid.symm (Ty.equiv_of_bind_equiv h (ht x hxps)))
    | some s =>
      rw [hs, Option.getD_some] at h
      have hplaces : ∀ q ∈ ps, s.target q ≈ σ.target q := fun q hq => Ty.equiv_of_bind_equiv h (ht q hq)
      have hunifies := bind_equiv_of_inferSubstitution hs
      rw [Unifier.nominal_bind_equiv_iff, hargs, List.forall₂_map_left_iff, List.forall₂_map_right_iff,
        List.forall₂_same] at hunifies
      -- The argument is kept, and so is every placeholder in it.
      have hkept : ∀ q ∈ ps, (σ.target q).bind s.target ≈ σ.target q := fun q hq =>
        Setoid.trans (Setoid.symm (hunifies q hq)) (hplaces q hq)
      have hstays := Ty.eq_param_of_bind_equiv (hkept p hp) hx
      exact Ty.eq_param_of_equiv (hstays ▸ Setoid.symm (hplaces x hxps))
  · exact hσ ▸ Substitution.target_ofInstantiation_of_notMem hlen hxps

end Inferred

/-! ## Method calls -/

namespace View

/-- The result of the only method of a name is its declared type, with what unification finds put in. -/
theorem methodReturn?_of_methods {v : View} {d : DeclId} {m : String} {f : FnDecl} {i : Nat}
    {args : List Ty} {params : List Placeholder} {self result : Ty}
    (hmethods : v.decls.methods d m = [(f, i)])
    (hself : (Scope.ofNode v.decls f.file f.node).self = some self)
    (hresult : (f.node.retType?.bind (·.type?)).bind
      (Scope.ofNode v.decls f.file f.node).lower? = some result) :
    v.methodReturn? (.nominal d args params) m =
      some (((inferSubstitution self (.nominal d args params)).getD .empty).apply result) := by
  rw [Option.bind_eq_some_iff] at hresult
  obtain ⟨ret, hret, hlower⟩ := hresult
  simp [methodReturn?, Ty.decl?, hmethods, hself, fnReturn?, hret, hlower]

section

variable {v : View} {d : DeclId} {m : String} {f : FnDecl} {i : Nat} {ps qs params : List Placeholder}
  {args : List Ty} {result : Ty} {steps : Nat} {call receiver : Node}

/-- **Results of methods are instantiated like fields, unless parameters get in each other's way.** Let
`m` have one declaration only among the methods of a type, in a block `impl<P1, .., Pn> D<P1, .., Pn>`
with different parameters. A call of `m` on a value of type `D<A1, .., An>` has the declared result type
with every parameter replaced by the argument at its place, all at once, if the parameters that the
arguments mention are not replaced by other types; and if the declared type mentions all parameters,
only then. -/
theorem exprType?_methodCall (hmethods : v.decls.methods d m = [(f, i)])
    (hself : (Scope.ofNode v.decls f.file f.node).self = some (.nominal d (ps.map .param) qs))
    (hps : ps.Nodup)
    (hresult : (f.node.retType?.bind (·.type?)).bind
      (Scope.ofNode v.decls f.file f.node).lower? = some result)
    (hlen : args.length = ps.length) (hkind : call.kind = .methodCallExpr)
    (hexpr : call.expr? = some receiver)
    (hreceiver : v.exprType? steps receiver = some (.nominal d args params))
    (hname : call.nameRef?.bind (·.refText?) = some m) :
    ((Substitution.ofInstantiation ps args).Settles args →
      v.exprType? (steps + 1) call =
        some ((Substitution.ofInstantiation ps args).apply result)) ∧
      ((∀ p ∈ ps, result.Occurs p) →
        v.exprType? (steps + 1) call =
          some ((Substitution.ofInstantiation ps args).apply result) →
        (Substitution.ofInstantiation ps args).Settles args) := by
  have hcall : v.exprType? (steps + 1) call =
      some (((inferSubstitution (.nominal d (ps.map .param) qs) (.nominal d args params)).getD
        .empty).apply result) := by
    rw [← methodReturn?_of_methods hmethods hself hresult]
    simp [exprType?, hkind, hexpr, hreceiver, hname]
  rw [hcall]
  constructor
  · intro hsettles
    obtain ⟨s, hs, htarget⟩ : ∃ s, inferSubstitution (.nominal d (ps.map .param) qs)
        (.nominal d args params) = some s ∧
          s.target = (Substitution.ofInstantiation ps args).target :=
      inferSubstitution_target_eq hps hlen hsettles
    rw [hs, Option.getD_some, Substitution.apply_eq_bind, htarget, Substitution.apply_eq_bind]
  · intro hmentions heq
    have hsame : (((inferSubstitution (.nominal d (ps.map .param) qs) (.nominal d args params)).getD
        .empty).apply result) ≈ (Substitution.ofInstantiation ps args).apply result :=
      Option.some.inj heq ▸ Setoid.refl _
    exact settles_of_bind_equiv hps hlen hmentions hsame

/-- The method of a value of type `W<u8>` whose declared type is the parameter of the block. -/
theorem exprType?_methodCall_prim :
    let v : View := ⟨.ofWorkspace (.ofFiles [("a.rs",
      "struct W<T>{t:T}impl<T> W<T>{fn get(self)->T{}}fn g(w:W<bool>){w.get();}")]), 0⟩
    ∃ call : Node, call.kind = .methodCallExpr ∧ v.typeOf? call = some (.prim .bool) := by
  intro v
  have hmethod : ((v.decls.methods 0 "get").length == 1 && (v.decls.methods 0 "get").all fun m =>
      (Scope.ofNode v.decls m.1.file m.1.node).self.any (· == .nominal 0 [.param ⟨"T", 1⟩] []) &&
        ((m.1.node.retType?.bind (·.type?)).bind
          (Scope.ofNode v.decls m.1.file m.1.node).lower?).any (· == .param ⟨"T", 1⟩)) = true := by
    decide +kernel
  have hcall : ((v.decls.root? 0).any fun root => root.descendants.any fun n =>
      n.kind == .methodCallExpr && n.nameRef?.bind (·.refText?) == some "get" &&
        n.expr?.any fun e => (v.exprType? 48 e).any (· == .nominal 0 [.prim .bool] [])) = true := by
    decide +kernel
  obtain ⟨root, -, hcall⟩ := (Option.any_eq_true _ _).1 hcall
  obtain ⟨call, -, hcall⟩ := List.any_eq_true.1 hcall
  simp only [Bool.and_eq_true, beq_iff_eq, Option.any_eq_true] at hcall
  obtain ⟨⟨hkind, hname⟩, receiver, hexpr, t, hreceiver, ht⟩ := hcall
  obtain ⟨a, params, rfl, ha⟩ := Ty.eq_nominal_of_equiv (Ty.beq_iff_equiv.1 ht)
  obtain rfl := Ty.eq_prim_of_equiv ha
  rw [Bool.and_eq_true, beq_iff_eq, List.length_eq_one_iff] at hmethod
  obtain ⟨⟨⟨f, i⟩, hmethods⟩, hall⟩ := hmethod
  rw [hmethods, List.all_cons, List.all_nil, Bool.and_true] at hall
  simp only [Bool.and_eq_true, Option.any_eq_true] at hall
  obtain ⟨⟨self, hself, hselfEq⟩, result, hresult, hresultEq⟩ := hall
  obtain ⟨b, qs, rfl, hb⟩ := Ty.eq_nominal_of_equiv (Ty.beq_iff_equiv.1 hselfEq)
  obtain rfl := Ty.eq_param_of_equiv hb
  obtain rfl := Ty.eq_param_of_equiv (Ty.beq_iff_equiv.1 hresultEq)
  have hblock : (Scope.ofNode v.decls f.file f.node).self =
      some (.nominal 0 ([⟨"T", 1⟩].map .param) qs) := hself
  obtain ⟨hcall, -⟩ := exprType?_methodCall hmethods hblock (List.nodup_singleton _) hresult rfl
    hkind hexpr hreceiver hname
  refine ⟨call, hkind, hcall fun a ha x hx => ?_⟩
  obtain rfl := List.mem_singleton.1 ha
  exact absurd hx Ty.not_occurs_prim

/-- A value of type `W<W<T>>` inside the block `impl<T> W<T>` leads to the question whether `T` is
`W<T>`. Nothing is found then, so that the parameter is not replaced: the type of the call is `T` where
the field of the same type has the type `W<T>`. -/
theorem exprType?_methodCall_not_instantiated :
    let v : View := ⟨.ofWorkspace (.ofFiles [("a.rs", "struct W<T>{t:T}impl<T> W<T>" ++
      "{fn wrap(self)->W<W<T>>{}fn get(self)->T{}fn g(self){self.wrap().get();}}")]), 0⟩
    let T : Placeholder := ⟨"T", 1⟩
    (v.decls.methods 0 "get").length = 1 ∧
      (v.decls.methods 0 "get").all (fun (f, _) =>
        (Scope.ofNode v.decls f.file f.node).self.any (· == .nominal 0 [.param T] []) &&
          ((f.node.retType?.bind (·.type?)).bind
            (Scope.ofNode v.decls f.file f.node).lower?).any (· == .param T)) = true ∧
      ((v.decls.root? 0).any fun root => root.descendants.any fun n =>
        n.kind == .methodCallExpr && n.nameRef?.bind (·.refText?) == some "get" &&
          (n.expr?.any fun e => (v.typeOf? e).any (· == .nominal 0 [.nominal 0 [.param T] []] [])) &&
          (v.typeOf? n).any (· == .param T)) = true ∧
      ((Substitution.ofInstantiation [T] [.nominal 0 [.param T] []]).apply (.param T) ==
        .nominal 0 [.param T] []) = true := by
  decide +kernel

end

end View

end Reshape
