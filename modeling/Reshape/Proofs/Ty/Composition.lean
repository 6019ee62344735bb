import Reshape.Proofs.Resolve.WellFormed
import Reshape.Proofs.Ty.Agreement

/-!
# One substitution after another

What a substitution puts in for a placeholder is not gone through again by it, but by the next
substitution. So two substitutions in a row are one: its targets are those of the first with the
second applied, and those of the second for the placeholders that the first leaves alone.

* `Substitution.andThen` is that substitution; `Substitution.apply_apply` is the law, for every
  substitution with its entries.
* `Substitution.occurs_apply` says where the placeholders of a result come from.
* `View.chainType?` follows a chain of fields, with the arguments put in field by field.
  `View.chainType?_apply` puts them in once, at the end of the chain.
* `Substitution.apply_composes` is the result.
-/

namespace Reshape

open Ty

/-! ## Two substitutions in a row -/

namespace Ty

theorem occurs_bind {f : Placeholder → Ty} {x : Placeholder} {t : Ty} :
    Occurs x (t.bind f) ↔ ∃ p, Occurs p t ∧ Occurs x (f p) := by
  induction t using argInduction with
  | prim p => simp [bind, not_occurs_prim]
  | slice t ih => simp only [bind, occurs_slice, ih]
  | nominal d ts ps ih =>
    simp only [bind, bindAll_eq_map, occurs_nominal]
    constructor
    · rintro ⟨_, hmem, hx⟩
      obtain ⟨t, ht, rfl⟩ := List.mem_map.1 hmem
      obtain ⟨p, hp, hx⟩ := (ih t ht).1 hx
      exact ⟨p, ⟨t, ht, hp⟩, hx⟩
    · rintro ⟨p, ⟨t, ht, hp⟩, hx⟩
      exact ⟨_, List.mem_map_of_mem ht, (ih t ht).2 ⟨p, hp, hx⟩⟩
  | param p => simp [bind, occurs_param]

end Ty

namespace Substitution

variable {s u w : Substitution} {x p : Placeholder} {params : List Placeholder} {args : List Ty}

theorem isSome_get? : (s.get? p).isSome ↔ p ∈ s.entries.map (·.1) := by
  rw [get?, List.lookup_isSome_iff, List.mem_map]
  exact exists_congr fun e => and_congr_right fun _ => beq_iff_eq.trans eq_comm

/-- The substitution that replaces as `s` does and then goes through the result as `u` does. -/
def andThen (s u : Substitution) : Substitution :=
  ofList ((s.entries ++ u.entries).map fun e => (e.1, u.apply (s.target e.1)))

theorem apply_param (p : Placeholder) : s.apply (.param p) = s.target p := by
  rw [apply_eq_bind, Ty.bind]

theorem get?_andThen : (s.andThen u).get? p = ((s.get? p).map u.apply).or (u.get? p) := by
  have hget : (s.andThen u).get? p =
      if (s.get? p).isSome ∨ (u.get? p).isSome then some (u.apply (s.target p)) else none := by
    rw [andThen, get?_ofList (f := fun p => u.apply (s.target p)) fun e he => ?_]
    · refine if_congr ?_ rfl rfl
      rw [isSome_get?, isSome_get?, List.map_map, ← List.mem_append, ← List.map_append]
      rfl
    · obtain ⟨e, -, rfl⟩ := List.mem_map.1 he
      rfl
  rw [hget, target]
  cases s.get? p with
  | some t => simp
  | none => cases hu : u.get? p <;> simp [apply_param, target, hu]

/-- A substitution with the entries of two in a row does what they do in a row. -/
theorem apply_apply (hw : ∀ p, w.get? p = ((s.get? p).map u.apply).or (u.get? p)) (t : Ty) :
    u.apply (s.apply t) = w.apply t := by
  rw [apply_eq_bind s, apply_eq_bind u, apply_eq_bind w, bind_bind]
  refine bind_congr fun x _ => ?_
  rw [← apply_eq_bind, target, target, hw x]
  cases s.get? x with
  | some t => simp
  | none => simp [apply_param, target]

/-- A placeholder of the result is one that stays, or one of a target that is put in. -/
theorem occurs_apply {t : Ty} : (s.apply t).Occurs x ↔
    (t.Occurs x ∧ s.get? x = none) ∨ ∃ p a, t.Occurs p ∧ s.get? p = some a ∧ a.Occurs x := by
  rw [apply_eq_bind, occurs_bind]
  constructor
  · rintro ⟨p, hp, hx⟩
    cases hget : s.get? p with
    | some a =>
      rw [target, hget, Option.getD_some] at hx
      exact .inr ⟨p, a, hp, hget, hx⟩
    | none =>
      rw [target, hget, Option.getD_none, occurs_param] at hx
      subst hx
      exact .inl ⟨hp, hget⟩
  · rintro (⟨hx, hget⟩ | ⟨p, a, hp, hget, hx⟩)
    · exact ⟨x, hx, by rw [target, hget, Option.getD_none, occurs_param]⟩
    · exact ⟨p, hp, by rwa [target, hget, Option.getD_some]⟩

/-- Substitutions one after another do what one substitution does. -/
theorem foldl_apply (us : List Substitution) (s : Substitution) (t : Ty) :
    us.foldl (fun t u => u.apply t) (s.apply t) = (us.foldl andThen s).apply t := by
  induction us generalizing s with
  | nil => rfl
  | cons u us ih =>
    rw [List.foldl_cons, apply_apply (fun _ => get?_andThen), ih, List.foldl_cons]

/-! ## Arguments in which something is put in -/

theorem get?_ofInstantiation_map (f : Ty → Ty) :
    (ofInstantiation params (args.map f)).get? p =
      ((ofInstantiation params args).get? p).map f := by
  rw [ofInstantiation, ofInstantiation, List.zip_map_right]
  induction params.zip args using List.reverseRecOn with
  | nil => rfl
  | append_singleton es e ih =>
    rw [List.map_append, List.map_singleton, ofList_append, ofList_append, get?_insert, get?_insert, ih,
      apply_ite (Option.map f)]
    rfl

/-- In a type without other placeholders than the parameters, something can be put in before or after
the arguments are. -/
theorem apply_ofInstantiation {t : Ty}
    (ht : ∀ x, t.Occurs x → ((ofInstantiation params args).get? x).isSome) :
    (ofInstantiation params (args.map s.apply)).apply t =
      s.apply ((ofInstantiation params args).apply t) := by
  rw [apply_apply (fun _ => get?_andThen), apply_eq_bind, apply_eq_bind]
  refine bind_congr fun x hx => ?_
  obtain ⟨a, ha⟩ := Option.isSome_iff_exists.1 (ht x hx)
  rw [target, target, get?_ofInstantiation_map, get?_andThen, ha, Option.map_some, Option.some_or]

end Substitution

/-! ## Chains of fields -/

namespace View

variable {v : View} {owner t : Ty} {s : Substitution}

/-- The type at the end of a chain of fields. -/
def chainType? (v : View) (owner : Ty) (keys : List FieldKey) : Option Ty :=
  keys.foldlM v.fieldType? owner

/-- The declared types of fields mention no parameters but those of their own declarations. A struct
that is declared inside another item could name the parameters of that item, which no compiler takes. -/
def OwnParameters (v : View) : Prop :=
  ∀ d decl shape, v.decls.decl? d = some decl → Shape.ofTarget? v.decls (.decl d) = some shape →
    ∀ f ∈ shape.fields, ∀ t ∈ f.ty, ∀ x, t.Occurs x → x ∈ decl.params

theorem ownParameters_iff : v.OwnParameters ↔ ∀ e ∈ v.decls.decls.zipIdx,
    ∀ shape ∈ Shape.ofTarget? v.decls (.decl e.2), ∀ f ∈ shape.fields, ∀ t ∈ f.ty, ∀ x ∈ t.vars,
      x ∈ e.1.params := by
  simp only [OwnParameters, mem_vars]
  exact ⟨fun h e he shape => h e.2 e.1 shape (List.mem_zipIdx_iff_getElem?.1 he),
    fun h d decl shape hd => h (decl, d) (List.mem_zipIdx_iff_getElem?.2 hd) shape⟩

instance : Decidable v.OwnParameters := decidable_of_iff _ ownParameters_iff.symm

theorem exists_of_declaredType? {shape : Shape} {key : FieldKey}
    (h : declaredType? shape key = some t) : ∃ f ∈ shape.fields, t ∈ f.ty := by
  cases key with
  | named name =>
    obtain ⟨f, hf, ht⟩ := Option.bind_eq_some_iff.1 h
    exact ⟨f, List.mem_of_find?_eq_some hf, ht⟩
  | index i =>
    obtain ⟨f, hf, ht⟩ := Option.bind_eq_some_iff.1 h
    refine ⟨f, List.mem_of_getElem? hf, ?_⟩
    split at ht
    · cases ht
    · exact ht

/-- A field of a specialised type has the specialised type of the field. -/
theorem fieldType?_apply (hv : v.OwnParameters) (howner : owner.WellFormed v.decls) {key : FieldKey}
    (h : v.fieldType? owner key = some t) :
    v.fieldType? (s.apply owner) key = some (s.apply t) := by
  cases howner with
  | @nominal d decl args hd hlength _ =>
    obtain ⟨declared, hdeclared, rfl⟩ := Option.map_eq_some_iff.1 h
    obtain ⟨shape, hshape, hkey⟩ := Option.bind_eq_some_iff.1 hdeclared
    obtain ⟨f, hf, ht⟩ := exists_of_declaredType? hkey
    have hparams : ∀ x, declared.Occurs x →
        ((Substitution.ofInstantiation decl.params args).get? x).isSome := fun x hx =>
      ((Substitution.matches_ofInstantiation hlength).isSome_get? x).2
        (hv d decl shape hd hshape f hf declared ht x hx)
    rw [Substitution.apply_nominal, fieldType?, hdeclared, Option.map_some,
      Substitution.apply_ofInstantiation hparams]
  | prim p => cases h
  | param p => cases h
  | slice _ => cases h

/-- Along a chain of fields, the arguments of the receiver can be put in once, at the end. -/
theorem chainType?_apply (hknown : v.decls.KnowsOwners) (hv : v.OwnParameters)
    (howner : owner.WellFormed v.decls) (keys : List FieldKey)
    (h : v.chainType? owner keys = some t) :
    v.chainType? (s.apply owner) keys = some (s.apply t) := by
  induction keys generalizing owner with
  | nil =>
    obtain rfl := Option.some.inj h
    rfl
  | cons key keys ih =>
    obtain ⟨field, hfield, hrest⟩ := Option.bind_eq_some_iff.1 h
    have hwf : field.WellFormed v.decls := (typesWellFormed hknown).fieldType? owner key howner field hfield
    rw [chainType?, List.foldlM_cons, fieldType?_apply hv howner hfield]
    exact ih hwf hrest

end View

/-- **Substitutions compose.** Two substitutions in a row do what the one does that has the targets of
the first with the second applied, and the targets of the second for all other placeholders; there is
one. A placeholder of the result is one of the type that is not mapped, or is in the target of one that
is. So any number of substitutions in a row is one, and along a chain of fields the arguments of the
receiver can be put in once, at the end. A substitution without entries goes through the type like any
other. -/
theorem Substitution.apply_composes (s u : Substitution) (t : Ty) :
    (∀ w : Substitution, (∀ p, w.get? p = ((s.get? p).map u.apply).or (u.get? p)) →
      u.apply (s.apply t) = w.apply t) ∧
    (∃ w : Substitution, ∀ p, w.get? p = ((s.get? p).map u.apply).or (u.get? p)) ∧
    (∀ x, (s.apply t).Occurs x ↔ (t.Occurs x ∧ s.get? x = none) ∨
      ∃ p a, t.Occurs p ∧ s.get? p = some a ∧ a.Occurs x) ∧
    (∀ us : List Substitution,
      us.foldl (fun t u => u.apply t) (s.apply t) = (us.foldl andThen s).apply t) ∧
    (∀ (w : Workspace) (file : FileId) (keys : List FieldKey) (field : Ty),
      let v : View := ⟨.ofWorkspace w, file⟩
      v.OwnParameters → t.WellFormed v.decls → v.chainType? t keys = some field →
        v.chainType? (s.apply t) keys = some (s.apply field)) ∧
    s.apply t = t.bind s.target :=
  ⟨fun _ hw => apply_apply hw t, ⟨s.andThen u, fun _ => get?_andThen⟩, fun _ => occurs_apply,
    fun us => foldl_apply us s t,
    fun _ _ keys _ hv ht h =>
      View.chainType?_apply (Decls.knowsOwners_ofRoots _) hv ht keys h,
    s.apply_eq_bind t⟩

/-- A target that mentions a mapped placeholder, and a chain of two fields. -/
theorem Substitution.apply_composes_chain :
    let v : View := ⟨.ofWorkspace (.ofFiles
      [("a.rs", "struct A<T>{b:B<T>}struct B<U>{c:U}")]), 0⟩
    let T : Placeholder := ⟨"T", 0⟩
    let U : Placeholder := ⟨"U", 1⟩
    let s := ofList [(T, .slice (.param U)), (U, .param T)]
    let u := ofList [(U, .prim .bool)]
    let w := ofList [(T, .slice (.prim .bool)), (U, .param T)]
    u.apply (s.apply (.nominal 0 [.param T] [T])) = w.apply (.nominal 0 [.param T] [T]) ∧
      v.chainType? (s.apply (.nominal 0 [.param T] [T])) [.named "b", .named "c"] =
        some (s.apply (.param T)) := by
  intro v T U s u w
  have hw : ∀ p, w.get? p = ((s.get? p).map u.apply).or (u.get? p) := by
    intro p
    simp only [w, s, u, ofList, List.foldl_cons, List.foldl_nil, get?_insert, get?_empty]
    by_cases hU : p = U
    · simp only [hU, if_true]
      rfl
    · by_cases hT : p = T
      · subst hT
        rfl
      · simp [hU, hT]
  have hv : v.OwnParameters := by decide +kernel
  obtain ⟨decl, hd, hparams⟩ : ∃ decl, v.decls.decl? 0 = some decl ∧ decl.params = [T] :=
    Option.map_eq_some_iff.1 (show (v.decls.decl? 0).map (·.params) = some [T] by decide +kernel)
  have ht : (Ty.nominal 0 [.param T] [T]).WellFormed v.decls := by
    rw [← hparams]
    exact .nominal hd (by rw [hparams]; rfl) (by simpa using .param T)
  have hchain : v.chainType? (.nominal 0 [.param T] [T]) [.named "b", .named "c"] =
      some (.param T) := by
    obtain ⟨field, hfield, heq⟩ := (Option.any_eq_true _ _).1 (show (v.chainType?
      (.nominal 0 [.param T] [T]) [.named "b", .named "c"]).any (· == .param T) = true by
        decide +kernel)
    rw [hfield, Ty.eq_param_of_equiv (Ty.beq_iff_equiv.1 heq)]
  have h := apply_composes s u (.nominal 0 [.param T] [T])
  exact ⟨h.1 w hw, h.2.2.2.2.1 _ 0 _ _ hv ht hchain⟩

end Reshape
