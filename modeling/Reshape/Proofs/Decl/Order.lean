import Reshape.Proofs.Decl.Listing
import Reshape.Proofs.Decl.Renaming

/-!
# Tables of files in another order

The numbers in a table depend on the order of the files, and nothing else does: a name means a
declaration or a free function of its own file, or the only one of all files. Methods are the
exception, as the first one is taken.

* `Decls.SameDecls`, `Decls.SameImpls` and `Decls.SameFns` say that two tables hold the same items of
  each file, and what is looked up in one file is the same then.
* `Decls.exists_renamed_of_perm` is the result: if all methods that a name can mean for a declaration
  stand in one file, a table of the files in another order is a renamed one.
-/

namespace Reshape

/-- What is found as something of the second list for everything of the first one. -/
theorem Rearranges.rel_getElem? {κ κ' α γ δ : Type} {ρ : κ → κ'} {σ : Nat → Nat} {L : List (κ × α)}
    {L' : List (κ' × α)} (h : Rearranges ρ σ L L') {l : List γ} {l' : List δ} {place : γ → κ × α}
    {place' : δ → κ' × α} (hl : l.map place = L) (hl' : l'.map place' = L') (i : Nat) :
    Option.Rel (fun a b => place' b = Prod.map ρ id (place a)) l[i]? l'[σ i]? := by
  have hget := h.getElem?_eq i
  rw [← hl, ← hl', List.getElem?_map, List.getElem?_map, Option.map_map] at hget
  cases hx : l[i]? <;> cases hy : l'[σ i]? <;> rw [hx, hy] at hget
  · exact .none
  · cases hget
  · cases hget
  · exact .some (Option.some.inj hget)

theorem findIdx?_eq_find?_zipIdx {α : Type} (p : α → Bool) (l : List α) :
    l.findIdx? p = (l.zipIdx.find? fun x => p x.1).map (·.2) :=
  List.findIdx?_eq_fst_find?_zipIdx

theorem lookup_eq_find? {κ α : Type} [BEq κ] (k : κ) (l : List (κ × α)) :
    l.lookup k = (l.find? fun x => k == x.1).map (·.2) := by
  induction l with
  | nil => rfl
  | cons x l ih =>
    rw [List.lookup_cons, List.find?_cons]
    cases k == x.1 with
    | true => rfl
    | false => exact ih

namespace Decls

variable {R : Renaming} {ρ : FileId ≃ FileId} {σ : Nat → Nat} {ds ds' : Decls}

/-! ## Declarations -/

/-- A declaration with its number, and its copy. -/
def DeclRel (R : Renaming) (x y : Decl × Nat) : Prop := Decl.Renamed R x.1 y.1 ∧ y.2 = R.decl x.2

/-- Two tables hold the same declarations of each file. -/
def SameDecls (R : Renaming) (ρ : FileId ≃ FileId) (ds ds' : Decls) : Prop :=
  SameByGroup ρ (DeclRel R) (·.1.file) (·.1.file) ds.decls.zipIdx ds'.decls.zipIdx

theorem resolve?_eq_pick? (ds : Decls) (name : String) (file : FileId) : ds.resolve? name file =
    (pick? (·.1.file) file (ds.decls.zipIdx.filter fun x => x.1.name == name)).map (·.2) := by
  unfold resolve? pick?
  dsimp only
  split
  · next hfind => rw [hfind]; rfl
  · next hfind =>
    rw [hfind]
    dsimp only
    split
    · next hall => rw [hall]; rfl
    · next hall =>
      split
      · next x hx => exact absurd hx (hall x.1 x.2)
      · rfl

theorem SameDecls.resolve?_eq (h : SameDecls R ρ ds ds') (name : String) (file : FileId) :
    ds'.resolve? name (ρ file) = (ds.resolve? name file).map R.decl := by
  have hnamed : SameByGroup ρ (DeclRel R) (·.1.file) (·.1.file)
      (ds.decls.zipIdx.filter fun x => x.1.name == name)
      (ds'.decls.zipIdx.filter fun x => x.1.name == name) :=
    h.filter fun x y hxy => by rw [hxy.1.name]
  rw [resolve?_eq_pick?, resolve?_eq_pick?, Option.map_map]
  exact map_eq_map_of_rel (hnamed.rel_pick? file) fun x y hxy => hxy.2

theorem SameDecls.declAt?_eq (h : SameDecls R ρ ds ds') (file : FileId) (n : Node) :
    ds'.declAt? (ρ file) n = (ds.declAt? file n).map R.decl := by
  rw [declAt?, declAt?, findIdx?_eq_find?_zipIdx, findIdx?_eq_find?_zipIdx, Option.map_map]
  simp only [Bool.and_assoc]
  refine map_eq_map_of_rel (h.rel_find? file fun x y hxy => ?_) fun x y hxy => hxy.2
  rw [hxy.1.node]

/-! ## Sites -/

/-- The site of an item, and its copy. -/
def SiteRel (R : Renaming) (x y : (FileId × Span) × Nat) : Prop :=
  y.1.2 = x.1.2 ∧ y.2 = R.site x.2

theorem site?_eq (h : SameByGroup ρ (SiteRel R) (·.1.1) (·.1.1) ds.sites ds'.sites) (file : FileId)
    (n : Node) : ds'.site? (ρ file) n = (ds.site? file n).map R.site := by
  have hkey (f : FileId) (s : Span) (x : (FileId × Span) × Nat) :
      ((f, s) == x.1) = (x.1.1 == f && x.1.2 == s) := by
    rw [Bool.eq_iff_iff, beq_iff_eq, Bool.and_eq_true, beq_iff_eq, beq_iff_eq, Prod.ext_iff]
    exact and_congr eq_comm eq_comm
  rw [site?, site?, lookup_eq_find?, lookup_eq_find?, Option.map_map]
  simp only [hkey]
  refine map_eq_map_of_rel (h.rel_find? file fun x y hxy => ?_) fun x y hxy => hxy.2
  rw [hxy.1]

/-! ## Impl blocks -/

/-- An impl block with its number, and its copy. -/
structure ImplRel (R : Renaming) (σ : Nat → Nat) (x y : ImplBlock × Nat) : Prop where
  node : y.1.node = x.1.node
  owner : y.1.owner = x.1.owner.map R.decl
  index : y.2 = σ x.2

/-- Two tables hold the same impl blocks of each file. -/
structure SameImpls (R : Renaming) (ρ : FileId ≃ FileId) (σ : Nat → Nat) (ds ds' : Decls) : Prop where
  sameByGroup : SameByGroup ρ (ImplRel R σ) (·.1.file) (·.1.file) ds.impls.zipIdx ds'.impls.zipIdx
  owner_eq : ∀ i, (ds'.impls[σ i]?).bind (·.owner) = ((ds.impls[i]?).bind (·.owner)).map R.decl

theorem SameImpls.implIndex?_eq (h : SameImpls R ρ σ ds ds') (file : FileId) (n : Node) :
    ds'.implIndex? (ρ file) n = (ds.implIndex? file n).map σ := by
  rw [implIndex?, implIndex?, findIdx?_eq_find?_zipIdx, findIdx?_eq_find?_zipIdx, Option.map_map]
  refine map_eq_map_of_rel (h.sameByGroup.rel_find? file fun x y hxy => ?_) fun x y hxy => hxy.index
  rw [hxy.node]

theorem SameImpls.implOwner?_eq (h : SameImpls R ρ σ ds ds') (file : FileId) (n : Node) :
    ds'.implOwner? (ρ file) n = (ds.implOwner? file n).map R.decl := by
  rw [implOwner?, implOwner?, h.implIndex?_eq]
  cases ds.implIndex? file n with
  | none => rfl
  | some i => exact h.owner_eq i

/-! ## Functions -/

/-- A function with its number, and its copy. -/
structure FnRel (R : Renaming) (σ : Nat → Nat) (x y : FnDecl × Nat) : Prop extends
    FnDecl.Renamed R x y where
  name : y.1.name = x.1.name
  impl : y.1.impl = x.1.impl.map σ

/-- Two tables hold the same functions of each file. -/
def SameFns (R : Renaming) (ρ : FileId ≃ FileId) (σ : Nat → Nat) (ds ds' : Decls) : Prop :=
  SameByGroup ρ (FnRel R σ) (·.1.file) (·.1.file) ds.fns.zipIdx ds'.fns.zipIdx

theorem SameFns.fnsNamed (h : SameFns R ρ σ ds ds') (name : String) :
    SameByGroup ρ (FnRel R σ) (·.1.file) (·.1.file) (ds.fnsNamed name) (ds'.fnsNamed name) :=
  h.filter fun _ _ hxy => congrArg (· == name) hxy.name.symm

theorem freeFn?_eq_pick? (ds : Decls) (name : String) (file : FileId) : ds.freeFn? name file =
    pick? (·.1.file) file ((ds.fnsNamed name).filter fun x => x.1.impl.isNone) := by
  unfold freeFn? pick?
  dsimp only
  split
  · next hfind => rw [hfind]
  · next hfind =>
    rw [hfind]
    dsimp only
    split
    · next hall => rw [hall]
    · next hall =>
      split
      · next x hx => exact absurd hx (hall x)
      · rfl

theorem SameFns.rel_freeFn? (h : SameFns R ρ σ ds ds') (name : String) (file : FileId) :
    Option.Rel (FnRel R σ) (ds.freeFn? name file) (ds'.freeFn? name (ρ file)) := by
  rw [freeFn?_eq_pick?, freeFn?_eq_pick?]
  have hfree := (h.fnsNamed name).filter (p := fun x => x.1.impl.isNone)
    (q := fun y => y.1.impl.isNone) fun x y hxy => by rw [hxy.impl, Option.isNone_map]
  exact hfree.rel_pick? file

/-- The declaration that a function is a method of. -/
def methodOwner? (ds : Decls) (f : FnDecl) : Option DeclId :=
  (f.impl.bind fun i => ds.impls[i]?).bind (·.owner)

theorem methods_eq_filter (ds : Decls) (d : DeclId) (name : String) :
    ds.methods d name = (ds.fnsNamed name).filter fun x => ds.methodOwner? x.1 == some d := by
  refine List.filter_congr fun x _ => ?_
  show (x.1.impl.bind fun i => ds.impls[i]?).any (·.owner == some d) = _
  rw [methodOwner?]
  cases x.1.impl.bind fun i => ds.impls[i]? with
  | none => rfl
  | some i => rfl

theorem SameImpls.methodOwner?_eq (h : SameImpls R ρ σ ds ds') {x y : FnDecl × Nat}
    (hxy : FnRel R σ x y) : ds'.methodOwner? y.1 = (ds.methodOwner? x.1).map R.decl := by
  rw [methodOwner?, methodOwner?, hxy.impl]
  cases x.1.impl with
  | none => rfl
  | some i => exact h.owner_eq i

theorem SameFns.methods (h : SameFns R ρ σ ds ds') (himpls : SameImpls R ρ σ ds ds') (d : DeclId)
    (name : String) : SameByGroup ρ (FnRel R σ) (·.1.file) (·.1.file) (ds.methods d name)
      (ds'.methods (R.decl d) name) := by
  rw [methods_eq_filter, methods_eq_filter]
  refine (h.fnsNamed name).filter fun x y hxy => ?_
  rw [himpls.methodOwner?_eq hxy, Bool.eq_iff_iff, beq_iff_eq, beq_iff_eq, R.map_decl_eq_some_iff]

/-- All functions that a method name can mean for a declaration stand in one file. -/
def MethodsInOneFile (ds : Decls) : Prop :=
  ∀ d name, ∀ x ∈ ds.methods d name, ∀ y ∈ ds.methods d name, x.1.file = y.1.file

theorem methodsInOneFile_iff (ds : Decls) : ds.MethodsInOneFile ↔
    ∀ x ∈ ds.fns.zipIdx, ∀ y ∈ ds.fns.zipIdx, x.1.name = y.1.name →
      (ds.methodOwner? x.1).isSome → ds.methodOwner? x.1 = ds.methodOwner? y.1 →
        x.1.file = y.1.file := by
  have hmem {d : DeclId} {name : String} {x : FnDecl × Nat} : x ∈ ds.methods d name ↔
      x ∈ ds.fns.zipIdx ∧ ds.methodOwner? x.1 = some d ∧ x.1.name = name := by
    simp [methods_eq_filter, fnsNamed]
  constructor
  · intro h x hx y hy hname hsome heq
    obtain ⟨d, hd⟩ := Option.isSome_iff_exists.1 hsome
    exact h d y.1.name x (hmem.2 ⟨hx, hd, hname⟩) y (hmem.2 ⟨hy, heq ▸ hd, rfl⟩)
  · intro h d name x hx y hy
    obtain ⟨hx, hxowner, hxname⟩ := hmem.1 hx
    obtain ⟨hy, hyowner, hyname⟩ := hmem.1 hy
    exact h x hx y hy (hxname.trans hyname.symm) (by rw [hxowner]; rfl) (hxowner.trans hyowner.symm)

instance (ds : Decls) : Decidable ds.MethodsInOneFile :=
  decidable_of_iff _ (methodsInOneFile_iff ds).symm

/-! ## Tables -/

/-- The items of a file that have a site besides its structs and enums. -/
def otherKeys (root : Node) : List Span := (implNodes root ++ fnNodes root).map (·.span)

/-- The items of all files that have a site, in order. -/
def keysOf (roots : List (FileId × Node)) : List (FileId × Span) :=
  (placed declNodes roots).map (Prod.map id (·.span)) ++ placed otherKeys roots

/-- The items of the files in two orders. A declaration has the same number as the site of its
parameters. -/
structure Reorders (R : Renaming) (ρ : FileId ≃ FileId) (σ τ : Nat → Nat)
    (roots roots' : List (FileId × Node)) : Prop where
  file_eq : R.file = ρ
  decls : Rearranges ρ R.decl (placed declNodes roots) (placed declNodes roots')
  impls : Rearranges ρ σ (placed implNodes roots) (placed implNodes roots')
  fns : Rearranges ρ τ (placed fnNodes roots) (placed fnNodes roots')
  keys : Rearranges ρ R.site (keysOf roots) (keysOf roots')
  site_eq : ∀ d < (placed declNodes roots).length, R.site d = R.decl d
  perm : (roots.map (Prod.map ρ id)).Perm roots'
  nodup : (roots'.map (·.1)).Nodup

variable {roots roots' : List (FileId × Node)} {τ : Nat → Nat}

theorem exists_reorders (hperm : (roots.map (Prod.map ρ id)).Perm roots')
    (hnodup : (roots'.map (·.1)).Nodup) : ∃ R σ τ, Reorders R ρ σ τ roots roots' := by
  obtain ⟨δ, hdecls⟩ := exists_rearranges hperm hnodup declNodes
  obtain ⟨σ, himpls⟩ := exists_rearranges hperm hnodup implNodes
  obtain ⟨τ, hfns⟩ := exists_rearranges hperm hnodup fnNodes
  obtain ⟨κ, hothers⟩ := exists_rearranges hperm hnodup otherKeys
  have hkeys := (hdecls.map (·.span)).append hothers
  refine ⟨⟨ρ, δ, _, ρ.injective, hdecls.bijective.1, hkeys.bijective.1⟩, σ, τ,
    ⟨rfl, hdecls, himpls, hfns, hkeys, fun d hd => ?_, hperm, hnodup⟩⟩
  exact if_pos (by rw [List.length_map]; exact hd)

namespace Listed

variable {decls impls fns : List (FileId × Node)} {keys : List (FileId × Span)}

theorem getElem?_decls (h : Listed decls impls fns keys ds) (d : DeclId) :
    ds.decls[d]? = decls[d]?.map (declOf · d) := by
  rw [h.decls_eq, List.getElem?_map, List.getElem?_zipIdx, Option.map_map, Nat.zero_add]
  rfl

theorem map_place (h : Listed decls impls fns keys ds) :
    ds.decls.map (fun d => (d.file, d.node)) = decls := by
  rw [h.decls_eq, List.map_map]
  exact List.zipIdx_map_fst 0 decls

end Listed

namespace Reorders

theorem nodup_left (h : Reorders R ρ σ τ roots roots') : (roots.map (·.1)).Nodup := by
  have hnodup := (h.perm.map (·.1)).nodup_iff.2 h.nodup
  rw [List.map_map] at hnodup
  refine List.Nodup.of_map ρ ?_
  rwa [List.map_map]

theorem listed (h : Reorders R ρ σ τ roots roots') :
    Listed (placed declNodes roots) (placed implNodes roots) (placed fnNodes roots) (keysOf roots)
      (ofRoots roots) :=
  listed_ofRoots h.nodup_left

theorem listed' (h : Reorders R ρ σ τ roots roots') :
    Listed (placed declNodes roots') (placed implNodes roots') (placed fnNodes roots')
      (keysOf roots') (ofRoots roots') :=
  listed_ofRoots h.nodup

theorem renamed_declOf (h : Reorders R ρ σ τ roots roots') {d : DeclId}
    (hd : d < (placed declNodes roots).length) (x : FileId × Node) :
    Decl.Renamed R (declOf x d) (declOf (Prod.map ρ id x) (R.decl d)) := by
  refine ⟨rfl, rfl, by rw [h.file_eq]; rfl, rfl, ?_, rfl⟩
  simp only [declOf, List.map_map, Prod.map_snd, id_eq, Function.comp_def, Renaming.placeholder,
    h.site_eq d hd]

theorem rel_decl? (h : Reorders R ρ σ τ roots roots') (d : DeclId) :
    Option.Rel (Decl.Renamed R) ((ofRoots roots).decl? d) ((ofRoots roots').decl? (R.decl d)) := by
  rw [decl?, decl?, h.listed.getElem?_decls, h.listed'.getElem?_decls, h.decls.getElem?_eq]
  cases hx : (placed declNodes roots)[d]? with
  | none => exact .none
  | some x => exact .some (h.renamed_declOf (List.getElem?_eq_some_iff.1 hx).1 x)

theorem sameDecls (h : Reorders R ρ σ τ roots roots') :
    SameDecls R ρ (ofRoots roots) (ofRoots roots') := by
  refine h.decls.sameByGroup h.listed.map_place h.listed'.map_place fun d a b ha hb _ => ⟨?_, rfl⟩
  have hrel := h.rel_decl? d
  rw [decl?, decl?, ha, hb] at hrel
  cases hrel with
  | some hab => exact hab

theorem sameSites (h : Reorders R ρ σ τ roots roots') :
    SameByGroup ρ (SiteRel R) (·.1.1) (·.1.1) (ofRoots roots).sites (ofRoots roots').sites := by
  rw [h.listed.sites_eq, h.listed'.sites_eq]
  refine SameByGroup.reverse ?_
  refine h.keys.sameByGroup (List.map_id _) (List.map_id _) fun i a b _ _ hab => ?_
  have hkey : b = Prod.map ρ id a := hab
  exact ⟨by rw [hkey]; rfl, rfl⟩

theorem ownerOf?_eq (h : Reorders R ρ σ τ roots roots') (file : FileId) (n : Node) :
    (ofRoots roots').ownerOf? (ρ file) n = ((ofRoots roots).ownerOf? file n).map R.decl := by
  rw [ownerOf?, ownerOf?, Option.map_bind]
  congr 1
  funext name
  exact h.sameDecls.resolve?_eq name file

theorem sameImpls (h : Reorders R ρ σ τ roots roots') :
    SameImpls R ρ σ (ofRoots roots) (ofRoots roots') := by
  have howner {i j : ImplBlock} (hi : i ∈ (ofRoots roots).impls) (hj : j ∈ (ofRoots roots').impls)
      (hij : (j.file, j.node) = Prod.map ρ id (i.file, i.node)) : j.owner = i.owner.map R.decl := by
    rw [h.listed.owner_eq i hi, h.listed'.owner_eq j hj, ← h.ownerOf?_eq]
    rw [show j.file = ρ i.file from congrArg Prod.fst hij,
      show j.node = i.node from congrArg Prod.snd hij]
  constructor
  · refine h.impls.sameByGroup h.listed.impls_eq h.listed'.impls_eq fun i a b ha hb hab => ?_
    exact ⟨congrArg Prod.snd hab, howner (List.mem_of_getElem? ha) (List.mem_of_getElem? hb) hab, rfl⟩
  · intro i
    have hrel := h.impls.rel_getElem? h.listed.impls_eq h.listed'.impls_eq i
    cases ha : (ofRoots roots).impls[i]? <;> cases hb : (ofRoots roots').impls[σ i]? <;>
      rw [ha, hb] at hrel <;> cases hrel
    · rfl
    · next hab => exact howner (List.mem_of_getElem? ha) (List.mem_of_getElem? hb) hab

theorem sameFns (h : Reorders R ρ σ τ roots roots') :
    SameFns R ρ σ (ofRoots roots) (ofRoots roots') := by
  refine h.fns.sameByGroup h.listed.fns_eq h.listed'.fns_eq fun i f g hf hg hfg => ?_
  have hfile : g.file = ρ f.file := congrArg Prod.fst hfg
  have hnode : g.node = f.node := congrArg Prod.snd hfg
  have hf := List.mem_of_getElem? hf
  have hg := List.mem_of_getElem? hg
  have hname := h.listed'.name_eq g hg
  rw [hnode, h.listed.name_eq f hf, Option.some.injEq] at hname
  refine ⟨⟨hfile.trans (congrFun h.file_eq.symm f.file), hnode⟩, hname.symm, ?_⟩
  show g.impl = f.impl.map σ
  obtain ⟨hitem, himpl⟩ | ⟨item, j, hitem, hj, himpl⟩ := h.listed.hasImpl f hf <;>
    obtain ⟨hitem', himpl'⟩ | ⟨item', k, hitem', hk, himpl'⟩ := h.listed'.hasImpl g hg <;>
    rw [hnode, hitem] at hitem'
  · rw [himpl, himpl', Option.map_none]
  · cases hitem'
  · cases hitem'
  · cases hitem'
    rw [hfile, h.sameImpls.implIndex?_eq, hj] at hk
    rw [himpl, himpl', ← hk]

theorem root?_eq (h : Reorders R ρ σ τ roots roots') (file : FileId) :
    (ofRoots roots').root? (ρ file) = (ofRoots roots).root? file := by
  rw [root?, root?, (foundIn_ofRoots roots).roots_eq, (foundIn_ofRoots roots').roots_eq]
  refine Option.ext fun root => ⟨fun hroot => ?_, fun hroot => ?_⟩
  · obtain ⟨⟨g, r⟩, hmem, heq⟩ := List.mem_map.1 (h.perm.mem_iff.2 (mem_of_lookup hroot))
    obtain ⟨hfile, rfl⟩ := Prod.mk.inj heq
    exact lookup_eq_some_of_mem h.nodup_left (ρ.injective hfile ▸ hmem)
  · exact lookup_eq_some_of_mem h.nodup
      (h.perm.mem_iff.1 (List.mem_map.2 ⟨_, mem_of_lookup hroot, rfl⟩))

end Reorders

/-- A table of the files in another order is a renamed one, as long as all methods that a name can
mean for a declaration stand in one file. -/
theorem exists_renamed_of_perm (hperm : (roots.map (Prod.map ρ id)).Perm roots')
    (hnodup : (roots'.map (·.1)).Nodup) (hmethods : (ofRoots roots).MethodsInOneFile) :
    ∃ R : Renaming, R.file = ρ ∧ (ofRoots roots).Renamed R (ofRoots roots') := by
  obtain ⟨R, σ, τ, h⟩ := exists_reorders hperm hnodup
  refine ⟨R, h.file_eq, ?_⟩
  have hfile := h.file_eq
  constructor
  all_goals try rw [hfile]
  · exact h.root?_eq
  · exact h.rel_decl?
  · exact h.sameDecls.resolve?_eq
  · exact h.sameDecls.declAt?_eq
  · exact site?_eq h.sameSites
  · exact h.sameImpls.implOwner?_eq
  · exact fun d name => ((h.sameFns.methods h.sameImpls d name).forall₂ (hmethods d name)).imp
      fun _ _ hxy => hxy.toRenamed
  · exact fun name file => rel_imp (h.sameFns.rel_freeFn? name file) fun _ _ hxy => hxy.toRenamed
  · exact knowsOwners_ofRoots roots

end Decls

end Reshape
