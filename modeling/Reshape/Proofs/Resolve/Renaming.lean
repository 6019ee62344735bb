import Reshape.Proofs.Decl.Renaming
import Reshape.Proofs.Ty.Equivariance
import Reshape.Resolve.Expr

/-!
# Resolution under other numbers

What paths, fields, calls and patterns mean is worked out in the same way under other numbers.

* `View.Renamed` relates the views of one file in two tables.
* `View.Renamed.target?_eq` is about paths, `View.Renamed.fieldType?`, `View.Renamed.methodReturn?`
  and `View.Renamed.callReturn?` about the types of fields and calls.
* `View.Renamed.patternTypeOf` is about the types of names in patterns. It goes through a pattern by
  induction on its tree.
-/

namespace Reshape

namespace View

/-- The views of a file in two tables that hold the same declarations. -/
structure Renamed (ρ : Renaming) (v v' : View) : Prop where
  decls : v.decls.Renamed ρ v'.decls
  file : v'.file = ρ.file v.file

/-- The types of two views are related. -/
abbrev TyRel (ρ : Renaming) (v : View) : Ty → Ty → Prop := Ty.Renamed ρ v.decls.params?

variable {ρ : Renaming} {v v' : View} {t t' : Ty}

/-! ## Paths -/

/-- A declaration that is found is known. -/
def Knows (v : View) (d : DeclId) : Prop := ∃ decl, v.decls.decl? d = some decl

theorem knows_of_selfDecl? (hv : v.decls.KnowsOwners) {n : Node} {d : DeclId}
    (h : v.selfDecl? n = some d) : v.Knows d := by
  obtain ⟨a, -, ha⟩ := Option.bind_eq_some_iff.1 h
  split at ha
  · exact hv.exists_decl? ha
  · cases ha
  · exact Decls.exists_decl?_of_declAt? ha

theorem knows_of_parent (hv : v.decls.KnowsOwners) {n : Node} {parent : String} {d : DeclId}
    (h : (if parent = "Self" then v.selfDecl? n else v.decls.resolve? parent v.file) = some d) :
    v.Knows d := by
  split at h
  · exact knows_of_selfDecl? hv h
  · obtain ⟨decl, hdecl, -⟩ := Decls.exists_decl?_of_resolve? h
    exact ⟨decl, hdecl⟩

theorem knows_of_lone? (hv : v.decls.KnowsOwners) {n : Node} {name : String} {target : Target}
    (h : v.lone? name n = some target) : v.Knows target.owner := by
  obtain ⟨d, hd, rfl⟩ := Option.map_eq_some_iff.1 h
  exact knows_of_parent hv hd

theorem knows_of_resolve? (hv : v.decls.KnowsOwners) {names : List String} {n : Node}
    {target : Target} (h : v.resolve? names n = some target) : v.Knows target.owner := by
  unfold View.resolve? at h
  split at h
  · cases h
  · exact knows_of_lone? hv h
  · split at h
    · next d hd =>
      obtain ⟨i, -, rfl⟩ := Option.map_eq_some_iff.1 h
      exact knows_of_parent hv hd
    · split at h
      · cases h
      · exact knows_of_lone? hv h

namespace Renamed

theorem selfDecl?_eq (h : Renamed ρ v v') (n : Node) :
    v'.selfDecl? n = (v.selfDecl? n).map ρ.decl := by
  simp only [View.selfDecl?, Option.map_bind, h.file, h.decls.implOwner?, h.decls.declAt?]
  congr 1
  funext a
  simp only [Function.comp_apply]
  split <;> rfl

theorem parent_eq (h : Renamed ρ v v') (n : Node) (parent : String) :
    (if parent = "Self" then v'.selfDecl? n else v'.decls.resolve? parent v'.file) =
      (if parent = "Self" then v.selfDecl? n else v.decls.resolve? parent v.file).map ρ.decl := by
  rw [h.selfDecl?_eq, h.file, h.decls.resolve?]
  split <;> rfl

theorem lone?_eq (h : Renamed ρ v v') (name : String) (n : Node) :
    v'.lone? name n = (v.lone? name n).map (Target.rename ρ) := by
  rw [View.lone?, View.lone?, h.parent_eq, Option.map_map, Option.map_map]
  rfl

theorem resolve?_eq (h : Renamed ρ v v') (names : List String) (n : Node) :
    v'.resolve? names n = (v.resolve? names n).map (Target.rename ρ) := by
  unfold View.resolve?
  split
  · rfl
  · exact h.lone?_eq _ n
  · next name parent _ _ =>
    rw [h.parent_eq]
    cases (if parent = "Self" then v.selfDecl? n else v.decls.resolve? parent v.file) with
    | some d =>
      simp only [Option.map_some, h.decls.variantIndex?_eq, Option.map_map]
      rfl
    | none =>
      dsimp only [Option.map_none]
      split
      · rfl
      · exact h.lone?_eq name n

theorem target?_eq (h : Renamed ρ v v') (path : Node) :
    v'.target? path = (v.target? path).map (Target.rename ρ) :=
  h.resolve?_eq _ path

/-! ## Fields -/

theorem lowerAt? (h : Renamed ρ v v') (n ty : Node) :
    Option.Rel (TyRel ρ v) (v.lowerAt? n ty) (v'.lowerAt? n ty) := by
  rw [View.lowerAt?, View.lowerAt?, h.file]
  exact Scope.rel_lower?_ofNode h.decls v.file n ty

theorem self (h : Renamed ρ v v') (n : Node) :
    Option.Rel (TyRel ρ v) (Scope.ofNode v.decls v.file n).self
      (Scope.ofNode v'.decls v'.file n).self := by
  rw [h.file]
  exact Scope.rel_self_ofNode h.decls v.file n

theorem declaredType? {s s' : Shape} (h : Shape.Renamed ρ v.decls s s') (key : FieldKey) :
    Option.Rel (TyRel ρ v) (View.declaredType? s key) (View.declaredType? s' key) := by
  cases key with
  | named name =>
    exact rel_bind (rel_find? h.fields fun f f' hf => by rw [hf.name]) fun f f' hf => hf.ty
  | index i =>
    refine rel_bind (forall₂_getElem? h.fields i) fun f f' hf => ?_
    rw [hf.name]
    split
    · exact .none
    · exact hf.ty

/-- A declared type, and the arguments that it is used with. -/
theorem ofInstantiation {d : DeclId} {args params}
    (h : TyRel ρ v (.nominal d args params) t') :
    ∃ args', t' = .nominal (ρ.decl d) args' (params.map ρ.placeholder) ∧
      Substitution.Renamed ρ v.decls.params? (.ofInstantiation params args)
        (.ofInstantiation (params.map ρ.placeholder) args') := by
  obtain ⟨args', rfl, -, -, hargs⟩ := h.forall₂_args
  exact ⟨args', rfl, Substitution.renamed_ofInstantiation hargs⟩

theorem fieldType? (h : Renamed ρ v v') (ht : TyRel ρ v t t') (key : FieldKey) :
    Option.Rel (TyRel ρ v) (v.fieldType? t key) (v'.fieldType? t' key) := by
  cases t with
  | nominal d args params =>
    obtain ⟨args', rfl, hsubst⟩ := ofInstantiation ht
    have hshape := Shape.renamed_ofTarget? h.decls (.decl d)
    exact rel_map (rel_bind hshape fun s s' hs => declaredType? hs key) fun _ _ => hsubst.apply
  | prim p => cases ht; exact .none
  | param p => cases ht; exact .none
  | slice s => cases ht; exact .none

/-- A field that a pattern matches: its name and type, and their copies. -/
def PartRenamed (ρ : Renaming) (v : View) (x x' : Option String × Option Ty) : Prop :=
  x'.1 = x.1 ∧ Option.Rel (TyRel ρ v) x.2 x'.2

theorem patternFields? (h : Renamed ρ v v') (target : Target) {value value' : Option Ty}
    (hvalue : Option.Rel (TyRel ρ v) value value') :
    Option.Rel (List.Forall₂ (PartRenamed ρ v)) (v.patternFields? target value)
      (v'.patternFields? (target.rename ρ) value') := by
  have hfields {s s' : Substitution} (hs : Substitution.Renamed ρ v.decls.params? s s') :
      Option.Rel (List.Forall₂ (PartRenamed ρ v))
        ((Shape.ofTarget? v.decls target).map fun shape =>
          shape.fields.map fun f => (f.name, f.ty.map s.apply))
        ((Shape.ofTarget? v'.decls (target.rename ρ)).map fun shape =>
          shape.fields.map fun f => (f.name, f.ty.map s'.apply)) := by
    refine rel_map (Shape.renamed_ofTarget? h.decls target) fun shape shape' hshape => ?_
    rw [List.forall₂_map_left_iff, List.forall₂_map_right_iff]
    exact hshape.fields.imp fun f f' hf => ⟨hf.name, rel_map hf.ty fun _ _ => hs.apply⟩
  cases hvalue with
  | none => exact hfields Substitution.renamed_empty
  | @some t t' ht =>
    cases t with
    | nominal d args params =>
      obtain ⟨args', rfl, hsubst⟩ := ofInstantiation ht
      simp only [View.patternFields?, Target.owner_rename, ρ.decl_injective.eq_iff]
      split
      · exact hfields hsubst
      · exact hfields Substitution.renamed_empty
    | prim p => cases ht; exact hfields Substitution.renamed_empty
    | param p => cases ht; exact hfields Substitution.renamed_empty
    | slice s => cases ht; exact hfields Substitution.renamed_empty

theorem constructed (h : Renamed ρ v v') {target : Target} (ht : v.Knows target.owner) :
    TyRel ρ v (v.constructed target) (v'.constructed (target.rename ρ)) := by
  obtain ⟨decl, hdecl⟩ := ht
  rw [View.constructed, View.constructed, Target.owner_rename]
  exact h.decls.identityType hdecl

/-! ## Calls -/

theorem fnReturn? (h : Renamed ρ v v') {f f' : FnDecl × Nat} (hf : FnDecl.Renamed ρ f f')
    {s s' : Substitution} (hs : Substitution.Renamed ρ v.decls.params? s s') :
    Option.Rel (TyRel ρ v) (v.fnReturn? f.1 s) (v'.fnReturn? f'.1 s') := by
  rw [View.fnReturn?, View.fnReturn?, hf.node, hf.file]
  refine rel_map (rel_bind_same _ fun t => ?_) fun _ _ => hs.apply
  exact Scope.rel_lower?_ofNode h.decls _ _ t

theorem sequenceMethod? (ht : TyRel ρ v t t') (method : String) :
    Option.Rel (TyRel ρ v) (Reshape.sequenceMethod? t method)
      (Reshape.sequenceMethod? t' method) := by
  rw [Reshape.sequenceMethod?, Reshape.sequenceMethod?]
  split
  · exact .some (.slice ht)
  split
  · exact .some ht
  · exact .none

theorem methodReturn? (h : Renamed ρ v v') (ht : TyRel ρ v t t') (method : String) :
    Option.Rel (TyRel ρ v) (v.methodReturn? t method) (v'.methodReturn? t' method) := by
  have hknown : Option.Rel (TyRel ρ v) (if sameTypeMethods.contains method then some t else none)
      (if sameTypeMethods.contains method then some t' else none) := by
    split
    · exact .some ht
    · exact .none
  have hself {f f' : FnDecl × Nat} (hf : FnDecl.Renamed ρ f f') :
      Substitution.Renamed ρ v.decls.params?
        ((((Scope.ofNode v.decls f.1.file f.1.node).self).bind (inferSubstitution · t)).getD .empty)
        ((((Scope.ofNode v'.decls f'.1.file f'.1.node).self).bind
          (inferSubstitution · t')).getD .empty) := by
    rw [hf.node, hf.file]
    exact rel_getD (rel_bind (Scope.rel_self_ofNode h.decls _ _) fun a a' ha =>
      renamed_inferSubstitution ha ht) Substitution.renamed_empty
  cases t with
  | slice s =>
    cases ht with
    | slice hs => exact sequenceMethod? hs method
  | prim p => cases ht; exact hknown
  | param p => cases ht; exact hknown
  | nominal d args params =>
    obtain ⟨args', rfl, -⟩ := ofInstantiation ht
    have hmethods := h.decls.methods d method
    exact rel_ite_isEmpty hmethods hknown <|
      rel_findSome? hmethods fun f f' hf => h.fnReturn? hf (hself hf)

theorem callReturn? (h : Renamed ρ v v') (callee path : Node) :
    Option.Rel (TyRel ρ v) (v.callReturn? callee path) (v'.callReturn? callee path) := by
  have hknows {names : List String} {n : Node} {target : Target}
      (hres : v.resolve? names n = some target) := knows_of_resolve? h.decls.knowsOwners hres
  simp only [View.callReturn?]
  split
  · exact .none
  · next name _ =>
    rw [h.resolve?_eq]
    cases hres : v.resolve? path.segmentNames callee with
    | some target => exact .some (h.constructed (hknows hres))
    | none =>
      rw [h.file]
      exact rel_bind (h.decls.freeFn? name v.file) fun f f' hf =>
        h.fnReturn? hf Substitution.renamed_empty
  · next name parent _ _ =>
    have hmethod : Option.Rel (TyRel ρ v)
        (((if parent = "Self" then v.selfDecl? callee else v.decls.resolve? parent v.file).bind
          fun d => (v.decls.methods d name).head?).bind (v.fnReturn? ·.1 .empty))
        (((if parent = "Self" then v'.selfDecl? callee else v'.decls.resolve? parent v'.file).bind
          fun d => (v'.decls.methods d name).head?).bind (v'.fnReturn? ·.1 .empty)) := by
      rw [h.parent_eq]
      refine rel_bind (R := FnDecl.Renamed ρ) ?_ fun f f' hf =>
        h.fnReturn? hf Substitution.renamed_empty
      cases (if parent = "Self" then v.selfDecl? callee else v.decls.resolve? parent v.file) with
      | none => exact .none
      | some d => exact rel_head? (h.decls.methods d name)
    rw [h.resolve?_eq]
    cases hres : v.resolve? path.segmentNames callee with
    | some target =>
      cases target with
      | variant d i => exact .some (h.constructed (hknows hres))
      | decl d => exact hmethod
    | none => exact hmethod

/-! ## Patterns -/

theorem partTypes (h : Renamed ρ v v') (pattern : Node) {ty ty' : Option Ty}
    (hty : Option.Rel (TyRel ρ v) ty ty') (i : Nat) :
    Option.Rel (Option.Rel (TyRel ρ v)) (v.partTypes pattern ty i) (v'.partTypes pattern ty' i) := by
  simp only [View.partTypes]
  split
  · exact .none
  next path _ =>
  rw [h.target?_eq]
  cases v.target? path with
  | some target =>
    have hfields := h.patternFields? target hty
    simp only [Option.map_some]
    generalize v.patternFields? target ty = fields at hfields
    generalize v'.patternFields? (target.rename ρ) ty' = fields' at hfields
    cases hfields with
    | none => exact .none
    | some hfields =>
      dsimp only
      rw [← hfields.length_eq]
      cases fieldPlace? _ pattern.patterns i with
      | none => exact .none
      | some j => exact .some (rel_bind (forall₂_getElem? hfields j) fun _ _ hx => hx.2)
  | none =>
    dsimp only [Option.map_none]
    split
    · exact .some hty
    · exact .none

theorem typeOfField {fields fields' : List (Option String × Option Ty)}
    (h : List.Forall₂ (PartRenamed ρ v) fields fields') (name : String) :
    Option.Rel (TyRel ρ v) (View.typeOfField fields name) (View.typeOfField fields' name) :=
  rel_bind (rel_find? h fun x x' hx => by rw [hx.1]) fun _ _ hx => hx.2

/-- The fields that a record pattern matches. -/
theorem recordFields (h : Renamed ρ v v') (pattern : Node) {ty ty' : Option Ty}
    (hty : Option.Rel (TyRel ρ v) ty ty') :
    Option.Rel (List.Forall₂ (PartRenamed ρ v))
      ((pattern.path?.bind v.target?).bind (v.patternFields? · ty))
      ((pattern.path?.bind v'.target?).bind (v'.patternFields? · ty')) := by
  refine rel_bind (R := fun target target' => target' = target.rename ρ)
    (rel_bind_same _ fun path => rel_of_eq_map (h.target?_eq path) fun _ _ => rfl) ?_
  rintro target _ rfl
  exact h.patternFields? target hty

mutual

theorem patternTypeOf (h : Renamed ρ v v') (name : String) (above : List Layer) (i : Nat)
    {ty ty' : Option Ty} (hty : Option.Rel (TyRel ρ v) ty ty') : ∀ t : Tree,
    Option.Rel (TyRel ρ v) (v.patternTypeOf name above i ty t) (v'.patternTypeOf name above i ty' t)
  | .leaf _ => .none
  | .node k s es => by
    simp only [View.patternTypeOf]
    split
    · split
      · exact .none
      split
      · exact hty
      · exact h.partType name _ false (fun _ => .some hty) 0 0 es
    · exact h.partType name _ false (fun _ => .some hty) 0 0 es
    · exact h.partType name _ false (fun _ => .some hty) 0 0 es
    · exact h.partType name _ true (fun _ => .some hty) 0 0 es
    · cases hty with
      | none => exact .none
      | some ht =>
        cases ht with
        | slice hs => exact h.partType name _ true (fun _ => .some (.some hs)) 0 0 es
        | _ => exact .none
    · exact h.partType name _ true (fun _ => .some .none) 0 0 es
    · exact h.partType name _ true (h.partTypes _ hty) 0 0 es
    · have hfields := h.recordFields ⟨⟨.recordPat, s, es, i⟩, above⟩ hty
      revert hfields
      generalize Option.bind (Option.bind _ v.target?) _ = fields
      generalize Option.bind (Option.bind _ v'.target?) _ = fields'
      rintro (hfields | _)
      · exact h.fieldListType name _ hfields 0 es
      · exact .none
    · exact .none

theorem partType (h : Renamed ρ v v') (name : String) (above : List Layer) (binding : Bool)
    {types types' : Nat → Option (Option Ty)}
    (htypes : ∀ j, Option.Rel (Option.Rel (TyRel ρ v)) (types j) (types' j)) (i j : Nat) :
    ∀ ts : List Tree, Option.Rel (TyRel ρ v) (v.partType name above binding types i j ts)
      (v'.partType name above binding types' i j ts)
  | [] => .none
  | t :: ts => by
    simp only [View.partType]
    split
    · split
      · have hj := htypes j
        generalize types j = x at hj
        generalize types' j = x' at hj
        cases hj with
        | some hty => exact h.patternTypeOf name above i hty t
        | none => exact .none
      · exact h.partType name above binding htypes _ _ ts
    · exact h.partType name above binding htypes _ _ ts

theorem fieldListType (h : Renamed ρ v v') (name : String) (above : List Layer)
    {fields fields' : List (Option String × Option Ty)}
    (hfields : List.Forall₂ (PartRenamed ρ v) fields fields') (i : Nat) : ∀ ts : List Tree,
    Option.Rel (TyRel ρ v) (v.fieldListType name above fields i ts)
      (v'.fieldListType name above fields' i ts)
  | [] => .none
  | .leaf _ :: ts => h.fieldListType name above hfields _ ts
  | .node _ _ es :: ts => by
    simp only [View.fieldListType]
    split
    · exact h.fieldsType name _ hfields 0 es
    · exact h.fieldListType name above hfields _ ts

theorem fieldsType (h : Renamed ρ v v') (name : String) (above : List Layer)
    {fields fields' : List (Option String × Option Ty)}
    (hfields : List.Forall₂ (PartRenamed ρ v) fields fields') (i : Nat) : ∀ ts : List Tree,
    Option.Rel (TyRel ρ v) (v.fieldsType name above fields i ts)
      (v'.fieldsType name above fields' i ts)
  | [] => .none
  | .leaf _ :: ts => h.fieldsType name above hfields _ ts
  | .node _ _ es :: ts => by
    simp only [View.fieldsType]
    split
    · split
      · exact h.partType name _ false (fun _ => .some (typeOfField hfields _)) 0 0 es
      · exact .none
    · exact h.fieldsType name above hfields _ ts

end

end Renamed

end View

end Reshape
