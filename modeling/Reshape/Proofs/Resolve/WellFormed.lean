import Mathlib.Data.List.Induction
import Reshape.Proofs.Resolve.Inference

/-!
# Well-formed types

A declared type carries the parameters of its declaration, and instantiations pair these with the
arguments of the type. So it matters that there are as many arguments as parameters.

* `Ty.WellFormed` says so for every declared type inside a type. It is `Ty.Renamed` for the renaming
  that changes nothing (`Ty.wellFormed_iff`), so everything that keeps types related keeps them well
  formed.
* `Substitution.Matches` is what this gives for instantiations: no parameter and no argument is left
  out.
* `View.typesWellFormed_ofWorkspace` is the result, for all ways in which types are worked out.
-/

namespace Reshape

/-! ## Well-formed types -/

namespace Ty

/-- Every declared type in a type carries the parameters of its declaration and has one argument for
each. -/
inductive WellFormed (ds : Decls) : Ty → Prop
  | prim (p : Prim) : WellFormed ds (.prim p)
  | param (p : Placeholder) : WellFormed ds (.param p)
  | slice {t : Ty} : WellFormed ds t → WellFormed ds (.slice t)
  | nominal {d : DeclId} {decl : Decl} {args : List Ty} : ds.decl? d = some decl →
      args.length = decl.params.length → (∀ a ∈ args, WellFormed ds a) →
      WellFormed ds (.nominal d args decl.params)

variable {ds : Decls} {t t' : Ty}

theorem WellFormed.renamed (h : WellFormed ds t) : Renamed .id ds.params? t t := by
  induction h with
  | prim p => exact .prim p
  | param p => exact .param p
  | slice _ ih => exact .slice ih
  | nominal hd hlength _ ih =>
    have hparams : ds.params? _ = some _ := congrArg (Option.map Decl.params) hd
    have hnominal := Renamed.nominal_of_forall₂ hparams hlength (List.forall₂_same.2 ih)
    rwa [Renaming.placeholder_id, List.map_id] at hnominal

theorem Renamed.wellFormed {ρ : Renaming} (h : Renamed ρ ds.params? t t') : WellFormed ds t := by
  induction h with
  | prim p => exact .prim p
  | param p => exact .param p
  | slice _ ih => exact .slice ih
  | nominal hparams hlength hargs _ ih =>
    obtain ⟨decl, hd, rfl⟩ := Option.map_eq_some_iff.1 hparams
    refine .nominal hd hlength fun a ha => ?_
    rw [← List.map_fst_zip hargs.le] at ha
    obtain ⟨⟨a, a'⟩, hmem, rfl⟩ := List.mem_map.1 ha
    exact ih _ _ hmem

/-- A type is well formed if it is its own copy. -/
theorem wellFormed_iff : WellFormed ds t ↔ Renamed .id ds.params? t t :=
  ⟨WellFormed.renamed, Renamed.wellFormed⟩

/-- What is related to something is well formed. -/
theorem wellFormed_of_rel {ρ : Renaming} {x y : Option Ty}
    (h : Option.Rel (Renamed ρ ds.params?) x y) : ∀ t ∈ x, WellFormed ds t := by
  rintro t rfl
  obtain ⟨t', -, ht⟩ := exists_of_rel_some h
  exact ht.wellFormed

/-- Equality takes no notice of parameters, but among well-formed types they are no matter of
choice. -/
theorem WellFormed.eq_of_beq (h : WellFormed ds t) (h' : WellFormed ds t') (heq : (t == t') = true) :
    t = t' := by
  rw [beq_iff_equiv, equiv_def] at heq
  induction h generalizing t' with
  | prim p => cases h' <;> simp_all [erase]
  | param p => cases h' <;> simp_all [erase]
  | slice _ ih =>
    cases h' with
    | slice hs => rw [ih hs (by simpa only [erase, slice.injEq] using heq)]
    | _ => simp only [erase, reduceCtorEq] at heq
  | @nominal d decl args hd hlength _ ih =>
    cases h' with
    | @nominal d' decl' args' hd' hlength' hargs' =>
      simp only [erase, eraseAll_eq_map, nominal.injEq, and_true] at heq
      obtain ⟨rfl, heq⟩ := heq
      obtain rfl : decl = decl' := Option.some.inj (hd.symm.trans hd')
      have hargs : args = args' := by
        refine List.ext_getElem (hlength.trans hlength'.symm) fun i hi hi' => ?_
        have hi'' := List.getElem_of_eq heq (by simpa using hi)
        simp only [List.getElem_map] at hi''
        exact ih _ (List.getElem_mem hi) (hargs' _ (List.getElem_mem hi')) hi''
      rw [hargs]
    | _ => simp only [erase, reduceCtorEq] at heq

end Ty

/-! ## Instantiations -/

namespace Substitution

/-- No parameter and no argument is left out when they are paired, and the substitution maps just the
parameters. A parameter that stands in several places goes to the argument for the last one. -/
structure Matches (s : Substitution) (params : List Placeholder) (args : List Ty) : Prop where
  paired : (params.zip args).unzip = (params, args)
  isSome_get? : ∀ p, (s.get? p).isSome ↔ p ∈ params
  get?_eq : ∀ (i : Nat) (p : Placeholder), params[i]? = some p → (∀ j > i, params[j]? ≠ some p) →
    s.get? p = args[i]?

theorem ofList_append (es : List (Placeholder × Ty)) (e : Placeholder × Ty) :
    ofList (es ++ [e]) = (ofList es).insert e.1 e.2 := by
  rw [ofList, List.foldl_append]
  rfl

theorem isSome_get?_ofList (es : List (Placeholder × Ty)) (p : Placeholder) :
    ((ofList es).get? p).isSome ↔ p ∈ es.map (·.1) := by
  induction es using List.reverseRecOn with
  | nil => simp [ofList, get?_empty]
  | append_singleton es e ih =>
    rw [ofList_append, get?_insert]
    split
    · next h => simp [h]
    · next h => simp [ih, h]

/-- The last entry for a placeholder counts. -/
theorem get?_ofList_of_last {es : List (Placeholder × Ty)} {i : Nat} {p : Placeholder} {t : Ty}
    (h : es[i]? = some (p, t)) (hlast : ∀ j > i, ∀ u, es[j]? ≠ some (p, u)) :
    (ofList es).get? p = some t := by
  induction es using List.reverseRecOn with
  | nil => simp at h
  | append_singleton es e ih =>
    obtain ⟨q, u⟩ := e
    rw [ofList_append, get?_insert]
    obtain hi | hi := Nat.lt_or_ge i es.length
    · have hne : p ≠ q := by
        rintro rfl
        exact hlast es.length hi u List.getElem?_concat_length
      rw [if_neg hne]
      rw [List.getElem?_append_left hi] at h
      refine ih h fun j hj v hv => hlast j hj v ?_
      rw [List.getElem?_append_left (List.getElem?_eq_some_iff.1 hv).1, hv]
    · rw [List.getElem?_append_right hi] at h
      obtain ⟨rfl, rfl⟩ := Prod.mk.inj (List.mem_singleton.1 (List.mem_of_getElem? h))
      rw [if_pos rfl]

/-- With an argument for each parameter, nothing is left out. -/
theorem matches_ofInstantiation {params : List Placeholder} {args : List Ty}
    (h : args.length = params.length) : (ofInstantiation params args).Matches params args where
  paired := List.unzip_zip h.symm
  isSome_get? p := by rw [ofInstantiation, isSome_get?_ofList, List.map_fst_zip h.ge]
  get?_eq i p hp hlast := by
    obtain ⟨hi, -⟩ := List.getElem?_eq_some_iff.1 hp
    rw [List.getElem?_eq_getElem (h ▸ hi)]
    refine get?_ofList_of_last (i := i) ?_ fun j hj u hu => hlast j hj ?_
    · rw [List.getElem?_zip_eq_some]
      exact ⟨hp, List.getElem?_eq_getElem _⟩
    · exact (List.getElem?_zip_eq_some.1 hu).1

end Substitution

/-! ## What is worked out -/

namespace Decls

/-- A table holds its own declarations. -/
theorem KnowsOwners.renamed_id {ds : Decls} (h : ds.KnowsOwners) : ds.Renamed .id ds where
  root? _ := rfl
  decl? _ := rel_of_eq_map (f := id) Option.map_id_apply.symm fun _ _ =>
    ⟨rfl, rfl, rfl, rfl, (List.map_id _).symm, rfl⟩
  resolve? _ _ := Option.map_id_apply.symm
  declAt? _ _ := Option.map_id_apply.symm
  site? _ _ := Option.map_id_apply.symm
  implOwner? _ _ := Option.map_id_apply.symm
  methods _ _ := List.forall₂_same.2 fun _ _ => ⟨rfl, rfl⟩
  freeFn? _ _ := rel_of_eq_map (f := id) Option.map_id_apply.symm fun _ _ => ⟨rfl, rfl⟩
  knowsOwners := h

end Decls

namespace View

variable {v : View}

/-- The types that are worked out in a view are well formed: those of scopes, fields and calls, those
of expressions and names. Instantiations of such types leave nothing out, and equal ones are
instantiated in the same way. -/
structure TypesWellFormed (v : View) : Prop where
  lower? : ∀ s : Scope, s.decls = v.decls → (∀ t ∈ s.self, t.WellFormed v.decls) →
    ∀ n, ∀ t ∈ s.lower? n, t.WellFormed v.decls
  self : ∀ n, ∀ t ∈ (Scope.ofNode v.decls v.file n).self, t.WellFormed v.decls
  lowerAt? : ∀ n ty, ∀ t ∈ v.lowerAt? n ty, t.WellFormed v.decls
  identityType : ∀ d decl, v.decls.decl? d = some decl →
    (v.decls.identityType d).WellFormed v.decls
  fieldType? : ∀ owner key, owner.WellFormed v.decls →
    ∀ t ∈ v.fieldType? owner key, t.WellFormed v.decls
  methodReturn? : ∀ receiver method, receiver.WellFormed v.decls →
    ∀ t ∈ v.methodReturn? receiver method, t.WellFormed v.decls
  typeOf? : ∀ e, ∀ t ∈ v.typeOf? e, t.WellFormed v.decls
  typeOfLocal? : ∀ name n, ∀ t ∈ v.typeOfLocal? name n, t.WellFormed v.decls
  matches_ofInstantiation : ∀ d args params, (Ty.nominal d args params).WellFormed v.decls →
    (Substitution.ofInstantiation params args).Matches params args
  ofInstantiation_eq : ∀ d args params d' args' params',
    (Ty.nominal d args params).WellFormed v.decls →
    (Ty.nominal d' args' params').WellFormed v.decls →
    (Ty.nominal d args params == Ty.nominal d' args' params') = true →
    Substitution.ofInstantiation params args = Substitution.ofInstantiation params' args'

theorem typesWellFormed (hv : v.decls.KnowsOwners) : v.TypesWellFormed := by
  have hdecls := hv.renamed_id
  have h : Renamed .id v v := ⟨hdecls, rfl⟩
  refine ⟨fun s hs hself n => ?_, fun n => ?_, fun n ty => ?_, fun d decl hd => ?_,
    fun owner key howner => ?_, fun receiver method hreceiver => ?_, fun e => ?_,
    fun name n => ?_, fun d args params ht => ?_, fun d args params d' args' params' ht ht' heq => ?_⟩
  · have hscope : Scope.Renamed .id s s := by
      refine ⟨hs ▸ hdecls, rfl, (List.map_id _).symm, ?_⟩
      rw [hs]
      exact rel_of_eq_map (f := id) Option.map_id_apply.symm fun t ht => (hself t ht).renamed
    exact Ty.wellFormed_of_rel (hs ▸ hscope.lower? n)
  · exact Ty.wellFormed_of_rel (h.self n)
  · exact Ty.wellFormed_of_rel (h.lowerAt? n ty)
  · exact (hdecls.identityType hd).wellFormed
  · exact Ty.wellFormed_of_rel (h.fieldType? howner.renamed key)
  · exact Ty.wellFormed_of_rel (h.methodReturn? hreceiver.renamed method)
  · exact Ty.wellFormed_of_rel (h.typeOf? e)
  · exact Ty.wellFormed_of_rel (h.typeOfLocal? name n)
  · cases ht with
    | nominal _ hlength _ => exact Substitution.matches_ofInstantiation hlength
  · cases ht.eq_of_beq ht' heq
    rfl

/-- **Types are well formed.** Whatever the files of a workspace say, every declared type inside a
type that is worked out carries the parameters of its declaration and has one argument for each. -/
theorem typesWellFormed_ofWorkspace (w : Workspace) (file : FileId) :
    TypesWellFormed ⟨.ofWorkspace w, file⟩ :=
  typesWellFormed (Decls.knowsOwners_ofRoots _)

end View

end Reshape
