import Reshape.Decl.Shape
import Reshape.Proofs.Ty.Renaming

/-!
# Tables under other numbers

* `Decls.Renamed` relates two tables that hold the same declarations under different numbers: every
  question to the one has an answer that is the renamed answer of the other.
* `Scope.Renamed.lower?` says that types are lowered to renamed types, by induction on the tree.
* `Scope.renamed_ofNode` and `Shape.renamed_ofTarget?` are about the scopes of nodes and the fields
  of structs and variants.
-/

namespace Reshape

/-! ## Declarations -/

/-- The parameters of a declaration. -/
def Decls.params? (ds : Decls) (d : DeclId) : Option (List Placeholder) :=
  (ds.decl? d).map (·.params)

/-- A declaration and its copy under new numbers. -/
structure Decl.Renamed (ρ : Renaming) (d d' : Decl) : Prop where
  name : d'.name = d.name
  kind : d'.kind = d.kind
  file : d'.file = ρ.file d.file
  node : d'.node = d.node
  params : d'.params = d.params.map ρ.placeholder
  variants : d'.variants = d.variants

/-- A function of a table, and its copy under new numbers. -/
structure FnDecl.Renamed (ρ : Renaming) (f f' : FnDecl × Nat) : Prop where
  file : f'.1.file = ρ.file f.1.file
  node : f'.1.node = f.1.node

namespace Decls

/-- The table knows the declarations that its impl blocks are for. -/
def KnowsOwners (ds : Decls) : Prop := ∀ i ∈ ds.impls, ∀ d ∈ i.owner, ∃ decl, ds.decl? d = some decl

/-- Two tables hold the same declarations under different numbers. -/
structure Renamed (ρ : Renaming) (ds ds' : Decls) : Prop where
  root? : ∀ f, ds'.root? (ρ.file f) = ds.root? f
  decl? : ∀ d, Option.Rel (Decl.Renamed ρ) (ds.decl? d) (ds'.decl? (ρ.decl d))
  resolve? : ∀ name f, ds'.resolve? name (ρ.file f) = (ds.resolve? name f).map ρ.decl
  declAt? : ∀ f n, ds'.declAt? (ρ.file f) n = (ds.declAt? f n).map ρ.decl
  site? : ∀ f n, ds'.site? (ρ.file f) n = (ds.site? f n).map ρ.site
  implOwner? : ∀ f n, ds'.implOwner? (ρ.file f) n = (ds.implOwner? f n).map ρ.decl
  methods : ∀ d name,
    List.Forall₂ (FnDecl.Renamed ρ) (ds.methods d name) (ds'.methods (ρ.decl d) name)
  freeFn? : ∀ name f,
    Option.Rel (FnDecl.Renamed ρ) (ds.freeFn? name f) (ds'.freeFn? name (ρ.file f))
  knowsOwners : ds.KnowsOwners

variable {ρ : Renaming} {ds ds' : Decls} {d : DeclId} {file : FileId} {n : Node} {name : String}

/-! ### Declarations that are found are known -/

theorem exists_decl?_of_lt (h : d < ds.decls.length) : ∃ decl, ds.decl? d = some decl :=
  ⟨_, List.getElem?_eq_getElem h⟩

theorem exists_decl?_of_resolve? (h : ds.resolve? name file = some d) :
    ∃ decl, ds.decl? d = some decl ∧ decl.name = name := by
  have hmem {decl : Decl} (hmem : (decl, d) ∈ ds.decls.zipIdx.filter (·.1.name == name)) :
      ds.decl? d = some decl ∧ decl.name = name := by
    obtain ⟨hdecl, hname⟩ := List.mem_filter.1 hmem
    exact ⟨List.mk_mem_zipIdx_iff_getElem?.1 hdecl, by simpa using hname⟩
  simp only [Decls.resolve?] at h
  split at h
  · next decl d' hfind =>
    cases h
    exact ⟨decl, hmem (List.mem_of_find?_eq_some hfind)⟩
  · split at h
    · next decl d' hall =>
      cases h
      exact ⟨decl, hmem (by rw [hall]; exact List.mem_singleton_self _)⟩
    · cases h

theorem exists_decl?_of_declAt? (h : ds.declAt? file n = some d) :
    ∃ decl, ds.decl? d = some decl := by
  obtain ⟨hlt, -⟩ := List.findIdx?_eq_some_iff_getElem.1 h
  exact exists_decl?_of_lt hlt

theorem KnowsOwners.exists_decl? (hds : ds.KnowsOwners) (h : ds.implOwner? file n = some d) :
    ∃ decl, ds.decl? d = some decl := by
  obtain ⟨i, hi, hd⟩ := Option.bind_eq_some_iff.1 h
  obtain ⟨k, -, hk⟩ := Option.bind_eq_some_iff.1 hi
  exact hds i (List.mem_of_getElem? hk) d hd

theorem KnowsOwners.addIfDecl (h : ds.KnowsOwners) : (addIfDecl file ds n).KnowsOwners := by
  have hadd {kind : DeclKind} {variants : List String} :
      (ds.addDecl file n kind variants).KnowsOwners := by
    rw [addDecl]
    split
    · exact h
    · intro i hi d hd
      obtain ⟨decl, hdecl⟩ := h i hi d hd
      exact ⟨decl, (List.getElem?_append_left (List.getElem?_eq_some_iff.1 hdecl).1).trans hdecl⟩
  rw [Decls.addIfDecl]
  split
  · exact hadd
  · exact hadd
  · exact h

theorem KnowsOwners.addIfImpl (h : ds.KnowsOwners) : (addIfImpl file ds n).KnowsOwners := by
  rw [Decls.addIfImpl]
  split
  · intro i hi d hd
    obtain hi | hi := List.mem_append.1 hi
    · exact h i hi d hd
    · obtain rfl := List.mem_singleton.1 hi
      obtain ⟨name, -, hname⟩ := Option.bind_eq_some_iff.1 hd
      obtain ⟨decl, hdecl, -⟩ := exists_decl?_of_resolve? hname
      exact ⟨decl, hdecl⟩
  · exact h

theorem KnowsOwners.addIfFn (h : ds.KnowsOwners) : (addIfFn file ds n).KnowsOwners := by
  rw [Decls.addIfFn]
  split
  · split
    · exact h
    · split
      · split
        · exact h
        · exact h
      · exact h
    · exact h
  · exact h

/-- Impl blocks are added when the declarations are in the table, and no declaration is taken out. -/
theorem knowsOwners_ofRoots (roots : List (FileId × Node)) : (ofRoots roots).KnowsOwners := by
  refine List.foldlRecOn _ _ (List.foldlRecOn _ _ (by simp [KnowsOwners]) ?_) ?_
  · rintro ds h ⟨file, ns⟩ -
    exact List.foldlRecOn _ _ h fun ds h n _ => h.addIfDecl
  · rintro ds h ⟨file, ns⟩ -
    refine List.foldlRecOn _ _ (List.foldlRecOn _ _ h fun ds h n _ => h.addIfImpl) ?_
    exact fun ds h n _ => h.addIfFn

/-! ### What is known of a declaration -/

namespace Renamed

theorem exists_decl? (h : Renamed ρ ds ds') {decl : Decl} (hd : ds.decl? d = some decl) :
    ∃ decl', ds'.decl? (ρ.decl d) = some decl' ∧ Decl.Renamed ρ decl decl' :=
  exists_of_rel_some (hd ▸ h.decl? d)

theorem name?_eq (h : Renamed ρ ds ds') (d : DeclId) : ds'.name? (ρ.decl d) = ds.name? d :=
  map_eq_map_of_rel (h.decl? d) fun _ _ hdecl => hdecl.name

theorem variantName?_eq (h : Renamed ρ ds ds') (d : DeclId) (i : Nat) :
    Target.variantName? ds' (ρ.decl d) i = Target.variantName? ds d i := by
  have hrel := h.decl? d
  rw [Target.variantName?, Target.variantName?]
  generalize ds.decl? d = x at hrel
  generalize ds'.decl? (ρ.decl d) = x' at hrel
  cases hrel with
  | some hdecl => simp only [Option.bind_some, hdecl.variants]
  | none => rfl

theorem variantIndex?_eq (h : Renamed ρ ds ds') (d : DeclId) (name : String) :
    ds'.variantIndex? (ρ.decl d) name = ds.variantIndex? d name := by
  have hrel := h.decl? d
  rw [variantIndex?, variantIndex?]
  generalize ds.decl? d = x at hrel
  generalize ds'.decl? (ρ.decl d) = x' at hrel
  cases hrel with
  | some hdecl => simp only [hdecl.kind, hdecl.variants]
  | none => rfl

theorem nodeOf?_eq (h : Renamed ρ ds ds') (kind : DeclKind) (d : DeclId) :
    ds'.nodeOf? kind (ρ.decl d) = ds.nodeOf? kind d := by
  have hrel := h.decl? d
  rw [nodeOf?, nodeOf?]
  generalize ds.decl? d = x at hrel
  generalize ds'.decl? (ρ.decl d) = x' at hrel
  cases hrel with
  | some hdecl => simp only [hdecl.kind, hdecl.node]
  | none => rfl

/-- The parameters that a declared type carries. -/
theorem params_eq (h : Renamed ρ ds ds') (d : DeclId) :
    ((ds'.decl? (ρ.decl d)).map (·.params)).getD [] =
      (((ds.decl? d).map (·.params)).getD []).map ρ.placeholder := by
  have hparams : (ds'.decl? (ρ.decl d)).map (·.params) =
      (ds.decl? d).map fun decl => decl.params.map ρ.placeholder :=
    map_eq_map_of_rel (h.decl? d) fun _ _ hdecl => hdecl.params
  rw [hparams]
  cases ds.decl? d <;> rfl

/-- A known declaration, with an argument for each of its parameters. -/
theorem nominal (h : Renamed ρ ds ds') {decl : Decl} (hd : ds.decl? d = some decl)
    {args args' : List Ty} (hlength : args.length = decl.params.length)
    (hargs : List.Forall₂ (Ty.Renamed ρ ds.params?) args args') :
    Ty.Renamed ρ ds.params? (.nominal d args (((ds.decl? d).map (·.params)).getD []))
      (.nominal (ρ.decl d) args' (((ds'.decl? (ρ.decl d)).map (·.params)).getD [])) := by
  rw [h.params_eq, hd]
  exact .nominal_of_forall₂ (by rw [params?, hd]; rfl) hlength hargs

theorem identityType (h : Renamed ρ ds ds') {decl : Decl} (hd : ds.decl? d = some decl) :
    Ty.Renamed ρ ds.params? (ds.identityType d) (ds'.identityType (ρ.decl d)) := by
  refine h.nominal hd (by simp [hd]) ?_
  rw [h.params_eq, List.map_map, List.forall₂_map_left_iff, List.forall₂_map_right_iff,
    List.forall₂_same]
  exact fun p _ => .param p

end Renamed

end Decls

/-! ## Scopes -/

namespace Scope

/-- What names mean at a place, and the copy under new numbers. -/
structure Renamed (ρ : Renaming) (s s' : Scope) : Prop where
  decls : s.decls.Renamed ρ s'.decls
  file : s'.file = ρ.file s.file
  generics : s'.generics = s.generics.map ρ.placeholder
  self : Option.Rel (Ty.Renamed ρ s.decls.params?) s.self s'.self

variable {ρ : Renaming} {ds ds' : Decls} {s s' : Scope}

/-- Arguments, some of which have no meaning, and their copies. -/
abbrev ArgsRenamed (ρ : Renaming) (ds : Decls) : List (Option Ty) → List (Option Ty) → Prop :=
  List.Forall₂ (Option.Rel (Ty.Renamed ρ ds.params?))

theorem length_fillArgs (params : List Placeholder) (args : List (Option Ty)) :
    (fillArgs params args).length = params.length := by
  simp [fillArgs]

theorem renamed_fillArgs (params : List Placeholder) {args args' : List (Option Ty)}
    (h : ArgsRenamed ρ ds args args') :
    List.Forall₂ (Ty.Renamed ρ ds.params?) (fillArgs params args)
      (fillArgs (params.map ρ.placeholder) args') := by
  rw [fillArgs, fillArgs, List.zipIdx_map, List.map_map, List.forall₂_map_left_iff,
    List.forall₂_map_right_iff, List.forall₂_same]
  intro x _
  exact rel_getD (rel_join (forall₂_getElem? h x.2)) (.param x.1)

theorem Renamed.named? (h : Renamed ρ s s') (name : String) {args args' : List (Option Ty)}
    (hargs : ArgsRenamed ρ s.decls args args') :
    Option.Rel (Ty.Renamed ρ s.decls.params?) (s.named? name args) (s'.named? name args') := by
  have hfirst : Option.Rel (Ty.Renamed ρ s.decls.params?) args.head?.join args'.head?.join := by
    cases hargs with
    | nil => exact .none
    | cons ha _ => exact rel_join (.some ha)
  simp only [Scope.named?, h.file, h.decls.resolve?]
  cases hresolve : s.decls.resolve? name s.file with
  | some d =>
    obtain ⟨decl, hdecl, -⟩ := Decls.exists_decl?_of_resolve? hresolve
    refine .some (h.decls.nominal hdecl ?_ ?_)
    · simp [length_fillArgs, hdecl]
    · rw [h.decls.params_eq]
      exact renamed_fillArgs _ hargs
  | none =>
    simp only [Option.map_none]
    split
    · exact hfirst
    split
    · exact rel_map hfirst fun _ _ => .slice
    split
    · exact .some (.prim .str)
    · exact .none

theorem Renamed.path? (h : Renamed ρ s s') (path : Node) {args args' : List (Option Ty)}
    (hargs : ArgsRenamed ρ s.decls args args') :
    Option.Rel (Ty.Renamed ρ s.decls.params?) (s.path? path args) (s'.path? path args') := by
  have hgeneric (name : String) : s'.generics.find? (·.name == name) =
      (s.generics.find? (·.name == name)).map ρ.placeholder := by
    rw [h.generics, List.find?_map]
    rfl
  simp only [Scope.path?, hgeneric]
  split
  · exact .none
  split
  · split
    · exact h.self
    · exact .none
  split
  · exact .none
  next name hname =>
  cases s.generics.find? (·.name == name) with
  | some p =>
    dsimp only [Option.map_some]
    split
    · exact .some (.param p)
    · exact h.named? name hargs
  | none =>
    cases Prim.ofName? name with
    | some p =>
      dsimp only [Option.map_none]
      split
      · exact .some (.prim p)
      · exact h.named? name hargs
    | none => exact h.named? name hargs

mutual

theorem Renamed.lower (h : Renamed ρ s s') : ∀ t : Tree,
    Option.Rel (Ty.Renamed ρ s.decls.params?) (s.lower t) (s'.lower t)
  | .leaf _ => .none
  | .node k _ es => by
    simp only [Scope.lower]
    split
    · exact h.lowerPath es
    · exact h.lowerFirst es
    · exact h.lowerFirst es
    · exact rel_map (h.lowerFirst es) fun _ _ => .slice
    · exact rel_map (h.lowerFirst es) fun _ _ => .slice
    · exact .none

theorem Renamed.lowerFirst (h : Renamed ρ s s') : ∀ ts : List Tree,
    Option.Rel (Ty.Renamed ρ s.decls.params?) (s.lowerFirst ts) (s'.lowerFirst ts)
  | [] => .none
  | t :: ts => by
    simp only [Scope.lowerFirst]
    split
    · exact h.lower t
    · exact h.lowerFirst ts

theorem Renamed.lowerPath (h : Renamed ρ s s') : ∀ ts : List Tree,
    Option.Rel (Ty.Renamed ρ s.decls.params?) (s.lowerPath ts) (s'.lowerPath ts)
  | [] => .none
  | .leaf _ :: ts => h.lowerPath ts
  | .node _ _ es :: ts => by
    simp only [Scope.lowerPath]
    split
    · exact h.path? _ (h.lastArgs es)
    · exact h.lowerPath ts

theorem Renamed.lastArgs (h : Renamed ρ s s') : ∀ ts : List Tree,
    ArgsRenamed ρ s.decls (s.lastArgs ts) (s'.lastArgs ts)
  | [] => .nil
  | .leaf _ :: ts => h.lastArgs ts
  | .node _ _ es :: ts => by
    simp only [Scope.lastArgs]
    split
    · exact h.segmentArgs es
    · exact h.lastArgs ts

theorem Renamed.segmentArgs (h : Renamed ρ s s') : ∀ ts : List Tree,
    ArgsRenamed ρ s.decls (s.segmentArgs ts) (s'.segmentArgs ts)
  | [] => .nil
  | .leaf _ :: ts => h.segmentArgs ts
  | .node _ _ es :: ts => by
    simp only [Scope.segmentArgs]
    split
    · exact h.listArgs es
    · exact h.segmentArgs ts

theorem Renamed.listArgs (h : Renamed ρ s s') : ∀ ts : List Tree,
    ArgsRenamed ρ s.decls (s.listArgs ts) (s'.listArgs ts)
  | [] => .nil
  | .leaf _ :: ts => h.listArgs ts
  | .node _ _ es :: ts => by
    simp only [Scope.listArgs]
    split
    · exact .cons (h.lowerFirst es) (h.listArgs ts)
    · exact h.listArgs ts

end

/-- A type means the same under other numbers. -/
theorem Renamed.lower? (h : Renamed ρ s s') (n : Node) :
    Option.Rel (Ty.Renamed ρ s.decls.params?) (s.lower? n) (s'.lower? n) :=
  h.lower n.tree

theorem genericsOf_eq (h : ds.Renamed ρ ds') (file : FileId) (item : Node) :
    genericsOf ds' (ρ.file file) item = (genericsOf ds file item).map ρ.placeholder := by
  rw [genericsOf, genericsOf, h.site?]
  cases ds.site? file item with
  | some site => simp [Renaming.placeholder]
  | none => rfl

/-- The scope of a node under other numbers. -/
theorem renamed_ofNode (h : ds.Renamed ρ ds') (file : FileId) (n : Node) :
    Renamed ρ (ofNode ds file n) (ofNode ds' (ρ.file file) n) := by
  have hgenerics (items : List Node) : items.flatMap (genericsOf ds' (ρ.file file)) =
      (items.flatMap (genericsOf ds file)).map ρ.placeholder := by
    rw [List.map_flatMap, funext (genericsOf_eq h file)]
  simp only [ofNode]
  generalize n.ancestors.filter (fun a => isGeneric a.kind) = items
  have houter : Renamed ρ ⟨ds, file, items.flatMap (genericsOf ds file), none⟩
      ⟨ds', ρ.file file, items.flatMap (genericsOf ds' (ρ.file file)), none⟩ :=
    ⟨h, rfl, hgenerics items, .none⟩
  split
  · exact houter
  · next item _ =>
    refine ⟨h, rfl, hgenerics items, ?_⟩
    dsimp only
    split
    · exact rel_bind_same _ houter.lower?
    · rw [h.declAt?]
      cases hat : ds.declAt? file item with
      | some d =>
        obtain ⟨decl, hd⟩ := Decls.exists_decl?_of_declAt? hat
        exact .some (h.identityType hd)
      | none => exact .none

@[simp] theorem decls_ofNode (ds : Decls) (file : FileId) (n : Node) :
    (ofNode ds file n).decls = ds := by
  unfold ofNode
  dsimp only
  split <;> rfl

theorem rel_lower?_ofNode (h : ds.Renamed ρ ds') (file : FileId) (n t : Node) :
    Option.Rel (Ty.Renamed ρ ds.params?) ((ofNode ds file n).lower? t)
      ((ofNode ds' (ρ.file file) n).lower? t) := by
  simpa only [decls_ofNode] using (renamed_ofNode h file n).lower? t

theorem rel_self_ofNode (h : ds.Renamed ρ ds') (file : FileId) (n : Node) :
    Option.Rel (Ty.Renamed ρ ds.params?) (ofNode ds file n).self
      (ofNode ds' (ρ.file file) n).self := by
  simpa only [decls_ofNode] using (renamed_ofNode h file n).self

end Scope

/-! ## Shapes -/

/-- A field and its copy under new numbers, which is written in the same way. -/
structure Field.Renamed (ρ : Renaming) (ds : Decls) (f f' : Field) : Prop where
  written : f' = { f with ty := f'.ty }
  ty : Option.Rel (Ty.Renamed ρ ds.params?) f.ty f'.ty

theorem Field.Renamed.name {ρ : Renaming} {ds : Decls} {f f' : Field} (h : Field.Renamed ρ ds f f') :
    f'.name = f.name := by
  rw [h.written]

namespace Target

/-- A target under new numbers. -/
def rename (ρ : Renaming) : Target → Target
  | decl d => .decl (ρ.decl d)
  | variant d i => .variant (ρ.decl d) i

@[simp] theorem owner_rename (ρ : Renaming) (target : Target) :
    (target.rename ρ).owner = ρ.decl target.owner := by
  cases target <;> rfl

theorem rename_injective (ρ : Renaming) : Function.Injective (rename ρ) := by
  intro s t h
  cases s <;> cases t <;> simp only [rename, decl.injEq, variant.injEq, reduceCtorEq] at h ⊢
  · exact ρ.decl_injective h
  · exact ⟨ρ.decl_injective h.1, h.2⟩

variable {ρ : Renaming} {ds ds' : Decls}

theorem node?_rename (h : ds.Renamed ρ ds') (target : Target) :
    (target.rename ρ).node? ds' = target.node? ds := by
  cases target with
  | decl d => exact h.nodeOf?_eq .struct d
  | variant d i => simp only [rename, node?, h.nodeOf?_eq]

end Target

/-- A target with a node belongs to a known declaration. -/
theorem Target.exists_decl?_of_node? {ds : Decls} {target : Target} {n : Node}
    (h : target.node? ds = some n) : ∃ decl, ds.decl? target.owner = some decl := by
  have hnode {kind : DeclKind} {d : DeclId} {m : Node} (hm : ds.nodeOf? kind d = some m) :
      ∃ decl, ds.decl? d = some decl := by
    rw [Decls.nodeOf?] at hm
    split at hm
    · next decl hdecl => exact ⟨decl, hdecl⟩
    · cases hm
  cases target with
  | decl d => exact hnode h
  | variant d i =>
    obtain ⟨m, hm, -⟩ := Option.bind_eq_some_iff.1 h
    exact hnode hm

namespace Shape

variable {ρ : Renaming} {ds ds' : Decls}

/-- The name and the fields of a struct or variant, and their copy under new numbers. -/
structure Renamed (ρ : Renaming) (ds : Decls) (s s' : Shape) : Prop where
  name : s'.name = s.name
  style : s'.style = s.style
  isUnion : s'.isUnion = s.isUnion
  fields : List.Forall₂ (Field.Renamed ρ ds) s.fields s'.fields

theorem renamed_field (h : ds.Renamed ρ ds') (file : FileId) (n : Node) (name : Option String)
    (attributes : List String) :
    Field.Renamed ρ ds (field ds file n name attributes)
      (field ds' (ρ.file file) n name attributes) :=
  ⟨rfl, rel_bind_same _ fun t => Scope.rel_lower?_ofNode h file t t⟩

theorem renamed_ofNode (h : ds.Renamed ρ ds') (file : FileId) (n : Node) (name : String)
    (isUnion : Bool) :
    Renamed ρ ds (ofNode ds file n name isUnion) (ofNode ds' (ρ.file file) n name isUnion) := by
  have hfields (list : List Node) (g : Node → Option String × List String) :
      List.Forall₂ (Field.Renamed ρ ds) (list.map fun f => field ds file f (g f).1 (g f).2)
        (list.map fun f => field ds' (ρ.file file) f (g f).1 (g f).2) := by
    rw [List.forall₂_map_left_iff, List.forall₂_map_right_iff, List.forall₂_same]
    exact fun f _ => renamed_field h file f _ _
  rw [ofNode, ofNode]
  split
  · exact ⟨rfl, rfl, rfl, .nil⟩
  split
  · exact ⟨rfl, rfl, rfl, hfields _ fun f => (f.nameText?, f.attributes.map (·.text))⟩
  · exact ⟨rfl, rfl, rfl, hfields _ fun _ => (none, [])⟩

/-- The fields of a struct or variant under other numbers. -/
theorem renamed_ofTarget? (h : ds.Renamed ρ ds') (target : Target) :
    Option.Rel (Renamed ρ ds) (ofTarget? ds target) (ofTarget? ds' (target.rename ρ)) := by
  rw [ofTarget?, ofTarget?, Target.node?_rename h, Target.owner_rename]
  cases hnode : target.node? ds with
  | none => exact .none
  | some n =>
    obtain ⟨decl, hdecl⟩ := Target.exists_decl?_of_node? hnode
    obtain ⟨decl', hdecl', hrenamed⟩ := h.exists_decl? hdecl
    simp only [hdecl, hdecl', Option.map_some, Option.getD_some, hrenamed.file, Option.bind_some]
    cases n.nameText? with
    | none => exact .none
    | some name => exact .some (renamed_ofNode h _ n name _)

end Shape

end Reshape
