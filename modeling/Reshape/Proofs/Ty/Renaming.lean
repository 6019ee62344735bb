import Mathlib.Data.List.Zip
import Reshape.Proofs.Related
import Reshape.Proofs.Ty.Equality
import Reshape.Workspace.Edit

/-!
# Types under other numbers

The same declarations may go by other numbers in another table. What is worked out about types does
not depend on the numbers.

* A `Renaming` gives new numbers to files, declarations and parameter lists.
* `Ty.Renamed` relates a type to its copy with new numbers. It holds of well-formed types only:
  every declared type in them carries the parameters of its declaration and has one argument for
  each. So for the renaming that changes nothing it says just that a type is well formed.
* `Ty.Renamed.bind` and its like say that operations on types keep the relation,
  `Substitution.Renamed` is the relation for substitutions.
-/

namespace Reshape

/-! ## Renamings -/

/-- New numbers for files, declarations and parameter lists. -/
structure Renaming where
  file : FileId → FileId
  decl : DeclId → DeclId
  site : Nat → Nat
  file_injective : Function.Injective file
  decl_injective : Function.Injective decl
  site_injective : Function.Injective site

namespace Renaming

/-- The renaming that changes nothing. -/
protected def id : Renaming :=
  ⟨id, id, id, Function.injective_id, Function.injective_id, Function.injective_id⟩

/-- A placeholder in its renamed parameter list. -/
def placeholder (ρ : Renaming) (p : Placeholder) : Placeholder := ⟨p.name, ρ.site p.site⟩

@[simp] theorem placeholder_name (ρ : Renaming) (p : Placeholder) :
    (ρ.placeholder p).name = p.name := rfl

theorem placeholder_injective (ρ : Renaming) : Function.Injective ρ.placeholder := by
  rintro ⟨x, i⟩ ⟨y, j⟩ h
  simp only [placeholder, Placeholder.mk.injEq] at h
  rw [h.1, ρ.site_injective h.2]

theorem placeholder_inj (ρ : Renaming) {p q : Placeholder} :
    ρ.placeholder p = ρ.placeholder q ↔ p = q := ρ.placeholder_injective.eq_iff

theorem map_decl_eq_some_iff (ρ : Renaming) {x : Option DeclId} {d : DeclId} :
    x.map ρ.decl = some (ρ.decl d) ↔ x = some d := by
  rw [← Option.map_some, (Option.map_injective ρ.decl_injective).eq_iff]

@[simp] theorem placeholder_id : Renaming.id.placeholder = id := rfl

end Renaming

/-! ## Renamed types -/

namespace Ty

/-- A type and its copy under new numbers, for well-formed types: `params? d` are the parameters of
the declaration with number `d`, and a declared type carries these and has one argument for each. -/
inductive Renamed (ρ : Renaming) (params? : DeclId → Option (List Placeholder)) : Ty → Ty → Prop
  | prim (p : Prim) : Renamed ρ params? (.prim p) (.prim p)
  | param (p : Placeholder) : Renamed ρ params? (.param p) (.param (ρ.placeholder p))
  | slice {s s' : Ty} : Renamed ρ params? s s' → Renamed ρ params? (.slice s) (.slice s')
  | nominal {d : DeclId} {args args' : List Ty} {params : List Placeholder} :
      params? d = some params → args.length = params.length → args.length = args'.length →
      (∀ a a', (a, a') ∈ args.zip args' → Renamed ρ params? a a') →
      Renamed ρ params? (.nominal d args params)
        (.nominal (ρ.decl d) args' (params.map ρ.placeholder))

namespace Renamed

variable {ρ : Renaming} {params? : DeclId → Option (List Placeholder)} {t t' : Ty}

theorem nominal_of_forall₂ {d : DeclId} {args args' : List Ty} {params : List Placeholder}
    (hparams : params? d = some params) (hlength : args.length = params.length)
    (hargs : List.Forall₂ (Renamed ρ params?) args args') :
    Renamed ρ params? (.nominal d args params)
      (.nominal (ρ.decl d) args' (params.map ρ.placeholder)) :=
  .nominal hparams hlength hargs.length_eq fun _ _ h => (List.forall₂_iff_zip.1 hargs).2 h

theorem forall₂_args {d : DeclId} {args : List Ty} {params : List Placeholder}
    (h : Renamed ρ params? (.nominal d args params) t') :
    ∃ args', t' = .nominal (ρ.decl d) args' (params.map ρ.placeholder) ∧
      params? d = some params ∧ args.length = params.length ∧
      List.Forall₂ (Renamed ρ params?) args args' := by
  cases h with
  | nominal hparams hlength hargs h =>
    exact ⟨_, rfl, hparams, hlength, List.forall₂_iff_zip.2 ⟨hargs, fun hmem => h _ _ hmem⟩⟩

theorem map_eq_map {α : Type} {f f' : Ty → α} {args args' : List Ty}
    (hargs : args.length = args'.length) (h : ∀ a a', (a, a') ∈ args.zip args' → f' a' = f a) :
    args'.map f' = args.map f := by
  have hall : List.Forall₂ (fun a a' => f' a' = f a) args args' :=
    List.forall₂_iff_zip.2 ⟨hargs, fun hmem => h _ _ hmem⟩
  rw [← List.forall₂_eq_eq_eq, List.forall₂_map_left_iff, List.forall₂_map_right_iff]
  exact hall.flip

/-- Placeholders are put in on both sides. -/
theorem bind {f f' : Placeholder → Ty} (h : Renamed ρ params? t t')
    (hf : ∀ p, Renamed ρ params? (f p) (f' (ρ.placeholder p))) :
    Renamed ρ params? (t.bind f) (t'.bind f') := by
  induction h with
  | prim p => exact .prim p
  | param p => exact hf p
  | slice _ ih => exact .slice ih
  | nominal hparams hlength hargs _ ih =>
    simp only [Ty.bind, bindAll_eq_map]
    refine nominal_of_forall₂ hparams (by rwa [List.length_map]) ?_
    rw [List.forall₂_map_left_iff, List.forall₂_map_right_iff, List.forall₂_iff_zip]
    exact ⟨hargs, fun h => ih _ _ h⟩

theorem anyPlaceholder_eq {P P' : Placeholder → Bool} (h : Renamed ρ params? t t')
    (hP : ∀ p, P' (ρ.placeholder p) = P p) : t'.anyPlaceholder P' = t.anyPlaceholder P := by
  induction h with
  | prim p => rfl
  | param p => exact hP p
  | slice _ ih => exact ih
  | nominal _ _ hargs _ ih =>
    have hmap := congrArg (·.any id) (map_eq_map hargs ih)
    simpa only [Ty.anyPlaceholder, anyPlaceholderAmong_eq_any, List.any_map,
      Function.id_comp] using hmap

theorem size_eq (h : Renamed ρ params? t t') : t'.size = t.size := by
  induction h with
  | prim p => rfl
  | param p => rfl
  | slice _ ih => simp only [Ty.size, ih]
  | nominal _ _ hargs _ ih => simp only [Ty.size, sizeAll_eq_sum, map_eq_map hargs ih]

theorem decl?_eq (h : Renamed ρ params? t t') : t'.decl? = t.decl?.map ρ.decl := by
  cases h <;> rfl

theorem beq_param_eq (h : Renamed ρ params? t t') (p : Placeholder) :
    (t' == .param (ρ.placeholder p)) = (t == .param p) := by
  cases h with
  | param q =>
    show (ρ.placeholder q == ρ.placeholder p) = (q == p)
    rw [Bool.eq_iff_iff, beq_iff_eq, beq_iff_eq, ρ.placeholder_inj]
  | _ => rfl

end Renamed

end Ty

/-! ## Renamed substitutions -/

namespace Substitution

variable {ρ : Renaming} {params? : DeclId → Option (List Placeholder)} {s s' : Substitution}

/-- A substitution and its copy under new numbers. -/
def Renamed (ρ : Renaming) (params? : DeclId → Option (List Placeholder)) (s s' : Substitution) :
    Prop :=
  ∀ p, Option.Rel (Ty.Renamed ρ params?) (s.get? p) (s'.get? (ρ.placeholder p))

theorem renamed_empty : Renamed ρ params? empty empty := fun _ => .none

theorem Renamed.insert (h : Renamed ρ params? s s') {t t' : Ty} (ht : Ty.Renamed ρ params? t t')
    (p : Placeholder) : Renamed ρ params? (s.insert p t) (s'.insert (ρ.placeholder p) t') := by
  intro q
  simp only [get?_insert, ρ.placeholder_inj]
  split
  · exact .some ht
  · exact h q

/-- An entry of a substitution and its copy. -/
def EntryRenamed (ρ : Renaming) (params? : DeclId → Option (List Placeholder))
    (e e' : Placeholder × Ty) : Prop :=
  e'.1 = ρ.placeholder e.1 ∧ Ty.Renamed ρ params? e.2 e'.2

theorem renamed_ofList {es es' : List (Placeholder × Ty)}
    (h : List.Forall₂ (EntryRenamed ρ params?) es es') : Renamed ρ params? (ofList es) (ofList es') := by
  suffices hfold : ∀ s s', Renamed ρ params? s s' →
      Renamed ρ params? (es.foldl (fun s e => s.insert e.1 e.2) s)
        (es'.foldl (fun s e => s.insert e.1 e.2) s') from hfold _ _ renamed_empty
  induction h with
  | nil => exact fun _ _ hs => hs
  | cons he _ ih =>
    intro s s' hs
    rw [List.foldl_cons, List.foldl_cons, he.1]
    exact ih _ _ (hs.insert he.2 _)

theorem renamed_ofInstantiation {params : List Placeholder} {args args' : List Ty}
    (h : List.Forall₂ (Ty.Renamed ρ params?) args args') :
    Renamed ρ params? (ofInstantiation params args)
      (ofInstantiation (params.map ρ.placeholder) args') := by
  refine renamed_ofList ?_
  induction h generalizing params with
  | nil => simp
  | cons ha _ ih =>
    cases params with
    | nil => exact .nil
    | cons p params => exact .cons ⟨rfl, ha⟩ ih

theorem Renamed.apply (h : Renamed ρ params? s s') {t t' : Ty} (ht : Ty.Renamed ρ params? t t') :
    Ty.Renamed ρ params? (s.apply t) (s'.apply t') := by
  rw [apply_eq_bind, apply_eq_bind]
  refine ht.bind fun p => ?_
  exact rel_getD (h p) (.param p)

end Substitution

end Reshape
