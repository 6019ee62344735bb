import Reshape.Convert.Basic
import Reshape.Proofs.Outcome
import Reshape.Proofs.Resolve.Inference

/-!
# Conversions under other numbers

What stands in one file is found and read in the same way under other numbers.

* `planAt_renamed` says that the same declaration is found at a place and that the same is planned for
  it, or that there is the same obstacle.
* `View.Renamed.fileReferences_eq` is about the references in a file, and
  `Site.ofReference_renamed` about the sites that they become.
-/

namespace Reshape

variable {ρ : Renaming} {ds ds' : Decls} {target : Target} {plan : Plan}

/-! ## What is converted -/

/-- A field without its meaning. -/
def Field.written (f : Field) : Field := { f with ty := none }

/-- Plans do not depend on what the types of fields mean. -/
theorem Plan.ofShape_congr {s s' : Shape} (hname : s'.name = s.name) (hstyle : s'.style = s.style)
    (hunion : s'.isUnion = s.isUnion) (hfields : s'.fields.map Field.written = s.fields.map Field.written) :
    ofShape s' = ofShape s := by
  have hread (s : Shape) : (s.fields.zipIdx.mapM fun x => field s x.1 x.2) =
      (s.fields.map Field.written).zipIdx.mapM fun x => field s x.1 x.2 := by
    rw [List.zipIdx_map, List.mapM_map]
    rfl
  have hfield (f : Field) (i : Nat) : field s' f i = field s f i := by
    rw [field, field, hname]
  rw [ofShape, ofShape, hunion, hstyle, hname]
  split
  · rfl
  · split
    · rfl
    · rfl
    · rw [hread s', hread s, hfields]
      simp only [hfield]

theorem Shape.Renamed.ofShape_eq {s s' : Shape} (h : Shape.Renamed ρ ds s s') :
    Plan.ofShape s' = Plan.ofShape s := by
  refine Plan.ofShape_congr h.name h.style h.isUnion ?_
  rw [← List.forall₂_eq_eq_eq, List.forall₂_map_left_iff, List.forall₂_map_right_iff]
  refine h.fields.flip.imp fun f' f hf => ?_
  rw [hf.written]
  rfl

theorem targetOfNode?_renamed (h : ds.Renamed ρ ds') (file : FileId) (n : Node) :
    targetOfNode? ds' (ρ.file file) n = (targetOfNode? ds file n).map (Target.rename ρ) := by
  rw [targetOfNode?, targetOfNode?]
  split
  · rw [h.declAt?, Option.map_map, Option.map_map]
    rfl
  · simp only [Option.map_bind, h.declAt?]
    congr 1
    funext parent
    simp only [Function.comp_apply]
    cases ds.declAt? file parent with
    | none => rfl
    | some d =>
      simp only [Option.map_some, Option.bind_some, Option.map_map]
      rfl

theorem targetAt?_renamed (h : ds.Renamed ρ ds') (p : FilePosition) :
    targetAt? ds' ⟨ρ.file p.file, p.offset⟩ = (targetAt? ds p).map (Target.rename ρ) := by
  simp only [targetAt?, h.root?, Option.map_bind, Function.comp_def, targetOfNode?_renamed h]

/-- The same is planned for a place under other numbers. -/
theorem planAt_renamed (h : ds.Renamed ρ ds') (p : FilePosition) :
    planAt ds' ⟨ρ.file p.file, p.offset⟩ = (planAt ds p).map (Prod.map (Target.rename ρ) id) := by
  rw [planAt, planAt, targetAt?_renamed h]
  cases targetAt? ds p with
  | none => rfl
  | some target =>
    have hshape := Shape.renamed_ofTarget? h target
    simp only [Option.map_some]
    generalize Shape.ofTarget? ds target = s at hshape
    generalize Shape.ofTarget? ds' (target.rename ρ) = s' at hshape
    cases hshape with
    | none => rfl
    | some hs =>
      simp only [hs.ofShape_eq]
      cases Plan.ofShape _ <;> rfl

theorem declarationEdit?_renamed (h : ds.Renamed ρ ds') (target : Target) (plan : Plan) :
    declarationEdit? ds' (target.rename ρ) plan = declarationEdit? ds target plan := by
  rw [declarationEdit?, declarationEdit?, Target.node?_rename h]
  cases target <;> rfl

theorem Target.ownName_renamed (h : ds.Renamed ρ ds') (target : Target) :
    (target.rename ρ).ownName ds' = target.ownName ds := by
  cases target with
  | decl d => simp only [rename, ownName, h.name?_eq]
  | variant d i => simp only [rename, ownName, h.variantName?_eq]

/-! ## References -/

/-- A reference under other numbers. -/
def Reference.rename (ρ : Renaming) (r : Reference) : Reference := { r with file := ρ.file r.file }

namespace View

/-- All references in a file. -/
def fileReferences (v : View) (target : Target) (names : List String) (root : Node) :
    List Reference :=
  v.pathReferences target root.descendants ++ v.fieldReferences target names root.descendants ++
    v.macroReferences target names root.descendants

namespace Renamed

variable {v v' : View}

theorem pathReferences_eq (h : Renamed ρ v v') (target : Target) (nodes : List Node) :
    v'.pathReferences (target.rename ρ) nodes =
      (v.pathReferences target nodes).map (Reference.rename ρ) := by
  have hmeant (n : Node) : (v'.target? n == some (target.rename ρ)) = (v.target? n == some target) := by
    rw [h.target?_eq, Bool.eq_iff_iff, beq_iff_eq, beq_iff_eq, ← Option.map_some,
      (Option.map_injective (Target.rename_injective ρ)).eq_iff]
  rw [View.pathReferences, View.pathReferences, List.map_map, Target.ownName_renamed h.decls, h.file]
  simp only [hmeant]
  rfl

theorem fieldReference?_eq (h : Renamed ρ v v') (d : DeclId) (names : List String) (access : Node) :
    v'.fieldReference? (ρ.decl d) names access =
      (v.fieldReference? d names access).map (Reference.rename ρ) := by
  simp only [View.fieldReference?, Option.map_bind]
  congr 1
  funext nameRef
  simp only [Function.comp_apply]
  split
  · rfl
  · rw [Option.map_bind]
    congr 1
    funext receiver
    have hty := h.typeOf? receiver
    simp only [Function.comp_apply]
    generalize v.typeOf? receiver = t at hty
    generalize v'.typeOf? receiver = t' at hty
    cases hty with
    | none => simp only [Option.map_some, Reference.rename, h.file]
    | some ht =>
      simp only [ht.decl?_eq, ρ.map_decl_eq_some_iff]
      split
      · simp only [Option.map_some, Reference.rename, h.file]
      · rfl

theorem fieldReferences_eq (h : Renamed ρ v v') (target : Target) (names : List String)
    (nodes : List Node) : v'.fieldReferences (target.rename ρ) names nodes =
      (v.fieldReferences target names nodes).map (Reference.rename ρ) := by
  cases target with
  | variant d i => rfl
  | decl d =>
    simp only [Target.rename, View.fieldReferences, List.map_filterMap, h.fieldReference?_eq]

theorem isFieldOfLocal_eq (h : Renamed ρ v v') (d : DeclId) (names : List String) (tree : Node)
    (t : Token) (before : List Token) : v'.isFieldOfLocal (ρ.decl d) names tree t before =
      v.isFieldOfLocal d names tree t before := by
  have hlocal (name : String) : ((v'.typeOfLocal? name tree).bind (·.decl?) == some (ρ.decl d)) =
      ((v.typeOfLocal? name tree).bind (·.decl?) == some d) := by
    have hdecl : (v'.typeOfLocal? name tree).bind (·.decl?) =
        ((v.typeOfLocal? name tree).bind (·.decl?)).map ρ.decl := by
      have hty := h.typeOfLocal? name tree
      generalize v.typeOfLocal? name tree = t at hty
      generalize v'.typeOfLocal? name tree = t' at hty
      cases hty with
      | none => rfl
      | some ht => exact ht.decl?_eq
    rw [hdecl, Bool.eq_iff_iff, beq_iff_eq, beq_iff_eq, ρ.map_decl_eq_some_iff]
  unfold View.isFieldOfLocal
  simp only [hlocal]

theorem isBehindEnum_eq (h : Renamed ρ v v') (d : DeclId) (tree : Node) (t : Token)
    (before : List Token) :
    v'.isBehindEnum (ρ.decl d) tree t before = v.isBehindEnum d tree t before := by
  unfold View.isBehindEnum
  split
  · congr 1
    rw [h.resolve?_eq]
    cases v.resolve? _ tree with
    | none => rfl
    | some target =>
      cases target with
      | decl e => rfl
      | variant e i =>
        show (ρ.decl e == ρ.decl d) = (e == d)
        rw [Bool.eq_iff_iff, beq_iff_eq, beq_iff_eq, ρ.decl_injective.eq_iff]
  · rfl

theorem isMention_eq (h : Renamed ρ v v') (target : Target) (names : List String) (tree : Node)
    (t : Token) (before : List Token) : v'.isMention (target.rename ρ) names tree t before =
      v.isMention target names tree t before := by
  have hname := Target.ownName_renamed h.decls target
  cases target with
  | decl d =>
    simp only [Target.rename] at hname ⊢
    simp only [View.isMention, hname, h.isFieldOfLocal_eq]
  | variant d i =>
    simp only [Target.rename] at hname ⊢
    simp only [View.isMention, hname, h.isBehindEnum_eq]

theorem mentions_eq (h : Renamed ρ v v') (target : Target) (names : List String) (tree : Node)
    (before ts : List Token) : v'.mentions (target.rename ρ) names tree before ts =
      (v.mentions target names tree before ts).map (Reference.rename ρ) := by
  induction ts generalizing before with
  | nil => rfl
  | cons t ts ih =>
    rw [View.mentions, View.mentions, h.isMention_eq, ih]
    split
    · simp only [List.map_cons, Reference.rename, h.file]
    · rfl

/-- The references in a file under other numbers. -/
theorem fileReferences_eq (h : Renamed ρ v v') (target : Target) (names : List String)
    (root : Node) : v'.fileReferences (target.rename ρ) names root =
      (v.fileReferences target names root).map (Reference.rename ρ) := by
  rw [View.fileReferences, View.fileReferences, List.map_append, List.map_append,
    h.pathReferences_eq, h.fieldReferences_eq]
  congr 1
  simp only [View.macroReferences, List.map_flatMap, h.mentions_eq]

end Renamed

end View

/-! ## Sites -/

/-- A usage under other numbers. -/
def Usage.rename (ρ : Renaming) (u : Usage) : Usage := { u with file := ρ.file u.file }

namespace Site

/-- A site under other numbers. -/
def rename (ρ : Renaming) (s : Site) : Site := { s with file := ρ.file s.file }

/-- What a reference becomes, under other numbers. -/
def renameOutcome (ρ : Renaming) (x : Except Usage Site) : Except Usage Site :=
  (x.map (rename ρ)).mapError (Usage.rename ρ)

variable {file : FileId}

theorem literalField_renamed (ρ : Renaming) (file : FileId) (plan : Plan) (f : Node) :
    literalField (ρ.file file) plan f = (literalField file plan f).mapError (Usage.rename ρ) := by
  simp only [literalField]
  split
  · rfl
  · split
    · rfl
    · split
      · rfl
      · split <;> rfl

theorem literalBase_renamed (ρ : Renaming) (file : FileId) (list : Node) :
    literalBase (ρ.file file) list = (literalBase file list).mapError (Usage.rename ρ) := by
  rw [literalBase, literalBase]
  split <;> rfl

theorem ofLiteral_renamed (ρ : Renaming) (file : FileId) (plan : Plan) (n : Node) :
    ofLiteral (ρ.file file) plan n = renameOutcome ρ (ofLiteral file plan n) := by
  rw [ofLiteral, ofLiteral]
  split
  · simp only [funext (literalField_renamed ρ file plan), literalBase_renamed ρ file,
      ← mapError_mapM]
    cases List.mapM (literalField file plan) _ with
    | error u => rfl
    | ok fields => cases literalBase file _ <;> rfl
  · rfl

theorem patternField_renamed (ρ : Renaming) (file : FileId) (plan : Plan) (f : Node) :
    patternField (ρ.file file) plan f = (patternField file plan f).mapError (Usage.rename ρ) := by
  simp only [patternField]
  split <;> rfl

theorem ofPattern_renamed (ρ : Renaming) (file : FileId) (plan : Plan) (n : Node) :
    ofPattern (ρ.file file) plan n = renameOutcome ρ (ofPattern file plan n) := by
  rw [ofPattern, ofPattern]
  split
  · split
    · rfl
    · simp only [funext (patternField_renamed ρ file plan), ← mapError_mapM]
      cases List.mapM (patternField file plan) _ <;> rfl
  · rfl

/-- A reference becomes the same site, or has the same fault, under other numbers. -/
theorem ofReference_renamed (ρ : Renaming) (plan : Plan) (r : Reference) :
    ofReference plan (r.rename ρ) = renameOutcome ρ (ofReference plan r) := by
  obtain ⟨file, span, kind⟩ := r
  cases kind with
  | path p =>
    simp only [ofReference, Reference.rename]
    split
    · split
      · exact ofLiteral_renamed ρ file plan _
      split
      · exact ofPattern_renamed ρ file plan _
      · rfl
    · rfl
  | field n =>
    simp only [ofReference, Reference.rename]
    split <;> rfl
  | macroToken t => rfl
  | unknownReceiver n => rfl

end Site

end Reshape
