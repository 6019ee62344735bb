import Reshape.Proofs.Resolve.Renaming

/-!
# Types of expressions under other numbers

* `View.Renamed.bindingIn?` asks one form for a name, `View.Renamed.localType?` all forms around a
  node. Both go from a relation between the two ways of finding the types of expressions to one
  between their answers.
* `View.Renamed.exprType?` is the result, by induction on the number of steps.
-/

namespace Reshape.View.Renamed

variable {ρ : Renaming} {v v' : View} {infer infer' : Node → Option Ty}

/-! ## What patterns bind -/

theorem patternType? (h : Renamed ρ v v') (pattern : Node) (name : String) {ty ty' : Option Ty}
    (hty : Option.Rel (TyRel ρ v) ty ty') :
    Option.Rel (TyRel ρ v) (v.patternType? pattern name ty) (v'.patternType? pattern name ty') :=
  h.patternTypeOf name _ _ hty _

/-- Bindings of one name in two views. -/
abbrev BindingRel (ρ : Renaming) (v : View) : Option (Option Ty) → Option (Option Ty) → Prop :=
  Option.Rel (Option.Rel (TyRel ρ v))

theorem bind? (h : Renamed ρ v v') (pattern : Node) (name : String) {ty ty' : Unit → Option Ty}
    (hty : Option.Rel (TyRel ρ v) (ty ()) (ty' ())) :
    BindingRel ρ v (v.bind? pattern name ty) (v'.bind? pattern name ty') := by
  rw [View.bind?, View.bind?]
  split
  · exact .some (h.patternType? pattern name hty)
  · exact .none

/-! ## What forms bind -/

variable (hinfer : ∀ n, Option.Rel (TyRel ρ v) (infer n) (infer' n))
include hinfer

theorem blockBinding? (h : Renamed ρ v v') (block : Node) (offset : Nat) (name : String) :
    BindingRel ρ v (v.blockBinding? infer block offset name)
      (v'.blockBinding? infer' block offset name) := by
  refine rel_findSome?_same _ fun s => rel_bind_same _ fun p => h.bind? p name ?_
  cases s.type? with
  | some t => exact h.lowerAt? s t
  | none => exact rel_bind_same _ hinfer

theorem armBinding? (h : Renamed ρ v v') (arm child : Node) (name : String) :
    BindingRel ρ v (v.armBinding? infer arm child name) (v'.armBinding? infer' arm child name) := by
  refine rel_bind_same _ fun p => ?_
  split
  · exact .none
  · exact h.bind? p name (rel_bind_same _ hinfer)

theorem conditionBinding? (h : Renamed ρ v v') (condition : Node) (name : String) :
    BindingRel ρ v (v.conditionBinding? infer condition name)
      (v'.conditionBinding? infer' condition name) :=
  rel_findSome?_same _ fun _ => rel_bind_same _ fun p =>
    h.bind? p name (rel_bind_same _ hinfer)

theorem forBinding? (h : Renamed ρ v v') (loop : Node) (name : String) :
    BindingRel ρ v (v.forBinding? infer loop name) (v'.forBinding? infer' loop name) := by
  refine rel_bind_same _ fun p => h.bind? p name ?_
  have hiterable := rel_bind_same loop.iterable? hinfer
  generalize loop.iterable?.bind infer = ty at hiterable
  generalize loop.iterable?.bind infer' = ty' at hiterable
  cases hiterable with
  | none => exact .none
  | some ht =>
    cases ht with
    | slice hs => exact .some hs
    | _ => exact .none

omit hinfer in
theorem closureParam? {t t' : Ty} (ht : TyRel ρ v t t') (method : String) (i : Nat) :
    Option.Rel (TyRel ρ v) (Reshape.closureParam? t method i)
      (Reshape.closureParam? t' method i) := by
  rw [Reshape.closureParam?, Reshape.closureParam?]
  split_ifs <;> first | exact .some ht | exact .none

theorem closureParamType? (h : Renamed ρ v v') (closure : Node) (i : Nat) :
    Option.Rel (TyRel ρ v) (v.closureParamType? infer closure i)
      (v'.closureParamType? infer' closure i) := by
  refine rel_bind_same _ fun call => rel_bind_same _ fun method =>
    rel_bind (rel_bind_same _ hinfer) fun t t' ht => ?_
  have hdeclared : (t'.decl?.any fun d => !(v'.decls.methods d method).isEmpty) =
      t.decl?.any fun d => !(v.decls.methods d method).isEmpty := by
    rw [ht.decl?_eq, Option.any_map]
    congr 1
    funext d
    exact congrArg (!·) (isEmpty_eq_of_forall₂ (h.decls.methods d method))
  have hvalue : Option.Rel (TyRel ρ v)
      (if valueClosureMethods.contains method ∧ i = 0 ∧
        !t.decl?.any fun d => !(v.decls.methods d method).isEmpty then some t else none)
      (if valueClosureMethods.contains method ∧ i = 0 ∧
        !t'.decl?.any fun d => !(v'.decls.methods d method).isEmpty then some t' else none) := by
    rw [hdeclared]
    split
    · exact .some ht
    · exact .none
  cases ht with
  | slice hs => exact closureParam? hs method i
  | _ => exact hvalue

theorem closureBinding? (h : Renamed ρ v v') (closure : Node) (name : String) :
    BindingRel ρ v (v.closureBinding? infer closure name)
      (v'.closureBinding? infer' closure name) := by
  refine rel_bind_same _ fun list => rel_findSome?_same _ fun param => rel_bind_same _ fun p =>
    h.bind? p name ?_
  cases param.1.type? with
  | some t => exact h.lowerAt? param.1 t
  | none => exact h.closureParamType? hinfer closure param.2

omit hinfer in
theorem fnBinding? (h : Renamed ρ v v') (fn : Node) (name : String) :
    BindingRel ρ v (v.fnBinding? fn name) (v'.fnBinding? fn name) := by
  refine rel_bind_same _ fun list => ?_
  split
  · refine rel_map_same _ fun receiver => ?_
    cases receiver.type? with
    | some t => exact h.lowerAt? fn t
    | none => exact h.self fn
  · exact rel_findSome?_same _ fun param => rel_bind_same _ fun p =>
      h.bind? p name (rel_bind_same _ (h.lowerAt? param))

theorem bindingIn? (h : Renamed ρ v v') (form child : Node) (name : String) :
    BindingRel ρ v (v.bindingIn? infer form child name) (v'.bindingIn? infer' form child name) := by
  have hcondition (body : Option Node) : BindingRel ρ v
      (if body.any (·.same child) then form.condition?.bind (v.conditionBinding? infer · name)
        else none)
      (if body.any (·.same child) then form.condition?.bind (v'.conditionBinding? infer' · name)
        else none) := by
    split
    · exact rel_bind_same _ fun condition => h.conditionBinding? hinfer condition name
    · exact .none
  simp only [View.bindingIn?]
  split
  · exact h.blockBinding? hinfer form _ name
  · exact h.armBinding? hinfer form child name
  · exact hcondition _
  · exact hcondition _
  · split
    · exact h.forBinding? hinfer form name
    · exact .none
  · exact h.closureBinding? hinfer form name
  · exact h.fnBinding? form name
  · exact .none

/-! ## Names -/

theorem findBinding? (h : Renamed ρ v v') (name : String) (child : Node) (forms : List Node) :
    BindingRel ρ v (v.findBinding? infer name child forms)
      (v'.findBinding? infer' name child forms) := by
  induction forms generalizing child with
  | nil => exact .none
  | cons form outer ih =>
    rw [View.findBinding?, View.findBinding?]
    have hform := h.bindingIn? hinfer form child name
    generalize v.bindingIn? infer form child name = binding at hform
    generalize v'.bindingIn? infer' form child name = binding' at hform
    cases hform with
    | some ht => exact .some ht
    | none =>
      dsimp only
      split
      · exact .none
      · exact ih form

omit hinfer in
theorem constantType? (h : Renamed ρ v v') (name : String) :
    Option.Rel (TyRel ρ v) (v.constantType? name) (v'.constantType? name) := by
  rw [View.constantType?, View.constantType?, h.file, h.decls.root?]
  exact rel_bind_same _ fun n => rel_bind_same _ (h.lowerAt? n)

/-- The type of a name at a node under other numbers. -/
theorem localType? (h : Renamed ρ v v') (name : String) (n : Node) :
    Option.Rel (TyRel ρ v) (v.localType? infer name n) (v'.localType? infer' name n) := by
  rw [View.localType?, View.localType?]
  have hbinding := h.findBinding? hinfer name n n.ancestors.tail
  generalize v.findBinding? infer name n n.ancestors.tail = binding at hbinding
  generalize v'.findBinding? infer' name n n.ancestors.tail = binding' at hbinding
  cases hbinding with
  | some ht => exact ht
  | none => exact h.constantType? name

omit hinfer

/-! ## Expressions -/

theorem indexed? (e : Node) {t t' : Ty} (ht : TyRel ρ v t t') :
    Option.Rel (TyRel ρ v) (View.indexed? e t) (View.indexed? e t') := by
  cases ht with
  | slice hs =>
    refine .some ?_
    split
    · exact .slice hs
    · exact hs
  | _ => exact .none

theorem suffixType? (text : List Char) :
    Option.Rel (TyRel ρ v) (View.suffixType? text) (View.suffixType? text) := by
  rw [View.suffixType?]
  split
  · exact .none
  · exact rel_map_same _ .prim

/-- The type of a literal is a primitive one. -/
theorem literalType? (e : Node) :
    Option.Rel (TyRel ρ v) (View.literalType? e) (View.literalType? e) := by
  refine rel_bind_same _ fun token => ?_
  split
  · exact .some (.prim .bool)
  · exact .some (.prim .bool)
  · exact .some (.prim .char)
  · exact .some (.prim .str)
  · exact suffixType? _
  · exact suffixType? _
  · exact .none

theorem recordType? (h : Renamed ρ v v') (e : Node) :
    Option.Rel (TyRel ρ v) ((e.path?.bind v.target?).map v.constructed)
      ((e.path?.bind v'.target?).map v'.constructed) := by
  refine rel_map (R := fun target target' => v.Knows target.owner ∧ target' = target.rename ρ)
    (rel_bind_same _ fun path => rel_of_eq_map (h.target?_eq path) fun target htarget =>
      ⟨knows_of_resolve? h.decls.knowsOwners htarget, rfl⟩) ?_
  rintro target _ ⟨hknows, rfl⟩
  exact h.constructed hknows

/-- The type of an expression under other numbers, found within a number of steps. -/
theorem exprType? (h : Renamed ρ v v') (steps : Nat) (e : Node) :
    Option.Rel (TyRel ρ v) (v.exprType? steps e) (v'.exprType? steps e) := by
  induction steps generalizing e with
  | zero => exact .none
  | succ steps ih =>
    simp only [View.exprType?]
    split
    · split
      · split
        · exact .none
        · exact h.localType? ih _ e
      · exact .none
    · exact h.recordType? e
    · exact rel_bind (rel_bind_same _ ih) fun t t' ht =>
        rel_bind_same _ fun key => h.fieldType? ht key
    · exact rel_bind (rel_bind_same _ ih) fun t t' ht =>
        rel_bind_same _ fun method => h.methodReturn? ht method
    · refine rel_bind_same _ fun callee => ?_
      split
      · exact rel_bind_same _ (h.callReturn? callee)
      · exact ih callee
    · exact rel_bind_same _ ih
    · exact rel_bind_same _ ih
    · split
      · exact rel_bind_same _ ih
      · exact .none
    · exact rel_bind (rel_bind_same _ ih) fun _ _ => indexed? e
    · exact rel_bind_same _ ih
    · exact rel_bind_same _ ih
    · exact rel_findSome?_same _ fun arm => rel_bind_same _ ih
    · exact rel_bind_same _ (h.lowerAt? e)
    · exact rel_map (rel_bind_same _ ih) fun _ _ => .slice
    · exact literalType? e
    · exact .none

theorem typeOf? (h : Renamed ρ v v') (e : Node) :
    Option.Rel (TyRel ρ v) (v.typeOf? e) (v'.typeOf? e) :=
  h.exprType? inferenceDepth e

theorem typeOfLocal? (h : Renamed ρ v v') (name : String) (n : Node) :
    Option.Rel (TyRel ρ v) (v.typeOfLocal? name n) (v'.typeOfLocal? name n) :=
  h.localType? (h.exprType? inferenceDepth) name n

end Reshape.View.Renamed
