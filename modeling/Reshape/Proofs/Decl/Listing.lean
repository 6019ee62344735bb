import Reshape.Proofs.Decl.Roots
import Reshape.Proofs.Reordering

/-!
# What stands in a table

A table lists the structs and enums of all files, then the impl blocks and functions file by file.

* `declNodes`, `implNodes` and `fnNodes` are the nodes of a file that are listed, `placed` puts those
  of all files together.
* `Decls.Listed` says what a table holds: the nodes in that order, each declaration with parameters
  that go by its own number, each impl block with its owner, each function with its impl block.
* `Decls.listed_ofRoots` follows the passes that build the table.
-/

namespace Reshape

/-! ## Nodes -/

/-- Whether a node is listed as a struct or enum. -/
def isDecl (n : Node) : Bool := (n.kind == .structDef || n.kind == .enumDef) && n.nameText?.isSome

/-- Whether a node is listed as a function, given the impl blocks of its file. -/
def isFn (impls : List Node) (n : Node) : Bool :=
  n.kind == .fnDef && n.nameText?.isSome &&
    match n.owningItem? with
    | none => true
    | some item => item.kind == .implDef && impls.any (·.span == item.span)

/-- The structs and enums of a file. -/
def declNodes (root : Node) : List Node := root.descendants.filter isDecl

/-- The impl blocks of a file. -/
def implNodes (root : Node) : List Node := root.descendants.filter (·.kind = .implDef)

/-- The functions of a file. -/
def fnNodes (root : Node) : List Node := root.descendants.filter (isFn (implNodes root))

/-- What is found in all files, with the files that it is found in. -/
def placed {α β : Type} (f : β → List α) (xs : List (FileId × β)) : List (FileId × α) :=
  xs.flatMap fun x => (f x.2).map (x.1, ·)

/-- The declaration at a node, with its number. -/
def declOf (x : FileId × Node) (k : Nat) : Decl where
  name := x.2.nameText?.getD ""
  kind := if x.2.kind = .structDef then .struct else .enum
  file := x.1
  node := x.2
  params := x.2.typeParamNames.map fun p => ⟨p, k⟩
  site := k
  variants := if x.2.kind = .structDef then [] else Decls.variantNames x.2

namespace Decls

/-- The declaration that an impl block is for. -/
def ownerOf? (ds : Decls) (file : FileId) (n : Node) : Option DeclId :=
  ((n.implSelf?.bind (·.strippedType?)).bind typeName?).bind fun name => ds.resolve? name file

/-- A function belongs to the impl block around it, if there is one. -/
def HasImpl (ds : Decls) (f : FnDecl) : Prop :=
  (f.node.owningItem? = none ∧ f.impl = none) ∨
    ∃ item i, f.node.owningItem? = some item ∧ ds.implIndex? f.file item = some i ∧ f.impl = some i

/-- A table that lists nodes: the structs and enums `decls`, the impl blocks `impls` and the functions
`fns`. The items at `keys` have sites, in this order. -/
structure Listed (decls impls fns : List (FileId × Node)) (keys : List (FileId × Span)) (ds : Decls) :
    Prop where
  decls_eq : ds.decls = decls.zipIdx.map fun x => declOf x.1 x.2
  impls_eq : ds.impls.map (fun i => (i.file, i.node)) = impls
  owner_eq : ∀ i ∈ ds.impls, i.owner = ds.ownerOf? i.file i.node
  fns_eq : ds.fns.map (fun f => (f.file, f.node)) = fns
  name_eq : ∀ f ∈ ds.fns, f.node.nameText? = some f.name
  hasImpl : ∀ f ∈ ds.fns, ds.HasImpl f
  sites_eq : ds.sites = keys.zipIdx.reverse

namespace Listed

variable {decls impls fns : List (FileId × Node)} {keys : List (FileId × Span)} {ds : Decls}
  {file : FileId} {n : Node} {ns blocks : List Node}

theorem length_sites (h : Listed decls impls fns keys ds) : ds.sites.length = keys.length := by
  rw [h.sites_eq, List.length_reverse, List.length_zipIdx]

/-- The next item is the last one in order. -/
theorem sites_cons (h : Listed decls impls fns keys ds) (file : FileId) (n : Node) :
    ((file, n.span), ds.sites.length) :: ds.sites = (keys ++ [(file, n.span)]).zipIdx.reverse := by
  rw [List.zipIdx_append, List.reverse_append, h.sites_eq, List.length_reverse, List.length_zipIdx]
  simp

/-! ### The pass for structs and enums -/

theorem addDecl (h : Listed decls [] [] (decls.map (Prod.map id (·.span))) ds) {name : String}
    (hname : n.nameText? = some name) {kind : DeclKind} {variants : List String}
    (hkind : kind = if n.kind = .structDef then .struct else .enum)
    (hvariants : variants = if n.kind = .structDef then [] else variantNames n) :
    Listed (decls ++ [(file, n)]) [] [] ((decls ++ [(file, n)]).map (Prod.map id (·.span)))
      (ds.addDecl file n kind variants) := by
  have hnil : ds.impls = [] ∧ ds.fns = [] :=
    ⟨List.map_eq_nil_iff.1 h.impls_eq, List.map_eq_nil_iff.1 h.fns_eq⟩
  simp only [Decls.addDecl, hname, addSite]
  refine ⟨?_, h.impls_eq, by simp [hnil.1], h.fns_eq, by simp [hnil.2], by simp [hnil.2], ?_⟩
  · rw [List.zipIdx_append, List.map_append, h.decls_eq, h.length_sites, List.length_map]
    simp [declOf, hname, hkind, hvariants]
  · rw [List.map_append]
    exact h.sites_cons file n

theorem addIfDecl (h : Listed decls [] [] (decls.map (Prod.map id (·.span))) ds) (file : FileId)
    (n : Node) :
    Listed (decls ++ ([n].filter isDecl).map (file, ·)) [] []
      ((decls ++ ([n].filter isDecl).map (file, ·)).map (Prod.map id (·.span)))
      (addIfDecl file ds n) := by
  have hskip (hn : isDecl n = false) :
      Listed (decls ++ ([n].filter isDecl).map (file, ·)) [] []
        ((decls ++ ([n].filter isDecl).map (file, ·)).map (Prod.map id (·.span))) ds := by
    simpa [hn] using h
  have hadd {kind : DeclKind} {variants : List String}
      (hdecl : (n.kind == .structDef || n.kind == .enumDef) = true)
      (hkind : kind = if n.kind = .structDef then .struct else .enum)
      (hvariants : variants = if n.kind = .structDef then [] else variantNames n) :
      Listed (decls ++ ([n].filter isDecl).map (file, ·)) [] []
        ((decls ++ ([n].filter isDecl).map (file, ·)).map (Prod.map id (·.span)))
        (ds.addDecl file n kind variants) := by
    cases hname : n.nameText? with
    | none =>
      rw [Decls.addDecl, hname]
      exact hskip (by simp [isDecl, hname])
    | some name =>
      have hn : isDecl n = true := by simp [isDecl, hname, hdecl]
      rw [List.filter_cons_of_pos hn]
      exact h.addDecl hname hkind hvariants
  rw [Decls.addIfDecl]
  split
  · next hkind => exact hadd (by simp [hkind]) (by simp [hkind]) (by simp [hkind])
  · next hkind => exact hadd (by simp [hkind]) (by simp [hkind]) (by simp [hkind, variantNames])
  · next hstruct henum =>
    rw [isDecl, beq_eq_false_iff_ne.2 hstruct, beq_eq_false_iff_ne.2 henum] at hskip
    exact hskip rfl

theorem foldl_addIfDecl (h : Listed decls [] [] (decls.map (Prod.map id (·.span))) ds)
    (file : FileId) (ns : List Node) :
    Listed (decls ++ (ns.filter isDecl).map (file, ·)) [] []
      ((decls ++ (ns.filter isDecl).map (file, ·)).map (Prod.map id (·.span)))
      (ns.foldl (Decls.addIfDecl file) ds) := by
  induction ns generalizing decls ds with
  | nil => simpa using h
  | cons n ns ih =>
    have hrest := ih (h.addIfDecl file n)
    rwa [List.append_assoc, ← List.map_append, ← List.filter_append, List.singleton_append] at hrest

/-! ### The passes for impl blocks and functions -/

theorem addIfImpl (h : Listed decls impls fns keys ds) (file : FileId) (n : Node) :
    Listed decls (impls ++ ([n].filter (·.kind = .implDef)).map (file, ·)) fns
      (keys ++ ([n].filter (·.kind = .implDef)).map fun n => (file, n.span))
      (addIfImpl file ds n) := by
  rw [Decls.addIfImpl]
  split
  · next hkind =>
    rw [List.filter_cons_of_pos (by simpa using hkind)]
    refine ⟨h.decls_eq, ?_, fun i hi => ?_, h.fns_eq, h.name_eq, fun f hf => ?_, h.sites_cons file n⟩
    · rw [← h.impls_eq]
      exact List.map_append
    · obtain hi | hi := List.mem_append.1 hi
      · exact h.owner_eq i hi
      · obtain rfl := List.mem_singleton.1 hi
        rfl
    · obtain hfree | ⟨item, i, hitem, hi, himpl⟩ := h.hasImpl f hf
      · exact .inl hfree
      · refine .inr ⟨item, i, hitem, ?_, himpl⟩
        refine List.findIdx?_append.trans ?_
        rw [show List.findIdx? _ (ds.addSite file n).2.impls = some i from hi]
        rfl
  · next hkind =>
    rw [List.filter_cons_of_neg (by simpa using hkind)]
    simpa using h

theorem foldl_addIfImpl (h : Listed decls impls fns keys ds) (file : FileId) (ns : List Node) :
    Listed decls (impls ++ (ns.filter (·.kind = .implDef)).map (file, ·)) fns
      (keys ++ (ns.filter (·.kind = .implDef)).map fun n => (file, n.span))
      (ns.foldl (Decls.addIfImpl file) ds) := by
  induction ns generalizing impls keys ds with
  | nil => simpa using h
  | cons n ns ih =>
    have hrest := ih (h.addIfImpl file n)
    rwa [List.append_assoc, List.append_assoc, ← List.map_append, ← List.map_append,
      ← List.filter_append, List.singleton_append] at hrest

theorem addFn (h : Listed decls impls fns keys ds) {name : String} {impl : Option Nat}
    (hname : n.nameText? = some name)
    (himpl : ∀ site, ds.HasImpl ⟨name, file, n, impl, site⟩) :
    Listed decls impls (fns ++ [(file, n)]) (keys ++ [(file, n.span)])
      (ds.addFn file n name impl) := by
  refine ⟨h.decls_eq, h.impls_eq, h.owner_eq, ?_, fun f hf => ?_, fun f hf => ?_,
    h.sites_cons file n⟩
  · rw [← h.fns_eq]
    exact List.map_append
  · obtain hf | hf := List.mem_append.1 hf
    · exact h.name_eq f hf
    · obtain rfl := List.mem_singleton.1 hf
      exact hname
  · obtain hf | hf := List.mem_append.1 hf
    · exact h.hasImpl f hf
    · obtain rfl := List.mem_singleton.1 hf
      exact himpl _

/-- The table knows the impl blocks of a file. -/
def KnowsImpls (ds : Decls) (file : FileId) (blocks : List Node) : Prop :=
  ∀ item, (ds.implIndex? file item).isSome = blocks.any (·.span == item.span)

theorem addIfFn (h : Listed decls impls fns keys ds) (hknows : KnowsImpls ds file blocks) :
    Listed decls impls (fns ++ ([n].filter (isFn blocks)).map (file, ·))
      (keys ++ ([n].filter (isFn blocks)).map fun n => (file, n.span)) (addIfFn file ds n) ∧
      KnowsImpls (Decls.addIfFn file ds n) file blocks := by
  have hskip (hn : isFn blocks n = false) :
      Listed decls impls (fns ++ ([n].filter (isFn blocks)).map (file, ·))
        (keys ++ ([n].filter (isFn blocks)).map fun n => (file, n.span)) ds ∧
        KnowsImpls ds file blocks := by
    simpa [hn] using ⟨h, hknows⟩
  have hadd {name : String} {impl : Option Nat} (hn : isFn blocks n = true)
      (hname : n.nameText? = some name) (himpl : ∀ site, ds.HasImpl ⟨name, file, n, impl, site⟩) :
      Listed decls impls (fns ++ ([n].filter (isFn blocks)).map (file, ·))
        (keys ++ ([n].filter (isFn blocks)).map fun n => (file, n.span)) (ds.addFn file n name impl) ∧
        KnowsImpls (ds.addFn file n name impl) file blocks := by
    rw [List.filter_cons_of_pos hn]
    exact ⟨h.addFn hname himpl, hknows⟩
  rw [Decls.addIfFn]
  split
  · next hkind =>
    cases hname : n.nameText? with
    | none => exact hskip (by simp [isFn, hname])
    | some name =>
      cases hitem : n.owningItem? with
      | none =>
        exact hadd (by simp [isFn, hkind, hname, hitem]) hname fun _ => .inl ⟨hitem, rfl⟩
      | some item =>
        dsimp only
        split
        · next himpl =>
          have hitemKnown := hknows item
          split
          · next i hi =>
            rw [hi] at hitemKnown
            refine hadd ?_ hname fun _ => .inr ⟨item, i, hitem, hi, rfl⟩
            simp [isFn, hkind, hname, hitem, himpl, ← hitemKnown]
          · next hi =>
            rw [hi] at hitemKnown
            exact hskip (by simp [isFn, hitem, ← hitemKnown])
        · next himpl => exact hskip (by simp [isFn, hitem, himpl])
  · next hkind => exact hskip (by simp [isFn, hkind])

theorem foldl_addIfFn (h : Listed decls impls fns keys ds) (hknows : KnowsImpls ds file blocks)
    (ns : List Node) :
    Listed decls impls (fns ++ (ns.filter (isFn blocks)).map (file, ·))
      (keys ++ (ns.filter (isFn blocks)).map fun n => (file, n.span))
      (ns.foldl (Decls.addIfFn file) ds) := by
  induction ns generalizing fns keys ds with
  | nil => simpa using h
  | cons n ns ih =>
    obtain ⟨hfirst, hknows'⟩ := h.addIfFn (n := n) hknows
    have hrest := ih hfirst hknows'
    rwa [List.append_assoc, List.append_assoc, ← List.map_append, ← List.map_append,
      ← List.filter_append, List.singleton_append] at hrest

/-- Impl blocks of other files do not matter. -/
theorem knowsImpls (h : Listed decls (impls ++ blocks.map (file, ·)) fns keys ds)
    (hother : ∀ x ∈ impls, x.1 ≠ file) : KnowsImpls ds file blocks := by
  intro item
  have hany : ds.impls.any (fun i => i.file == file && i.node.span == item.span) =
      (ds.impls.map fun i => (i.file, i.node)).any fun x => x.1 == file && x.2.span == item.span := by
    rw [List.any_map]
    rfl
  have hnone : impls.any (fun x => x.1 == file && x.2.span == item.span) = false := by
    simpa using fun a b hab heq => absurd heq (hother (a, b) hab)
  rw [implIndex?, List.findIdx?_isSome, hany, h.impls_eq, List.any_append, hnone, Bool.false_or,
    List.any_map]
  congr 1
  funext n
  simp

/-- Both passes over a file. -/
theorem addFile (h : Listed decls impls fns keys ds) (file : FileId) (root : Node)
    (hother : ∀ x ∈ impls, x.1 ≠ file) :
    Listed decls (impls ++ (implNodes root).map (file, ·)) (fns ++ (fnNodes root).map (file, ·))
      (keys ++ (implNodes root ++ fnNodes root).map fun n => (file, n.span))
      (root.descendants.foldl (Decls.addIfFn file)
        (root.descendants.foldl (Decls.addIfImpl file) ds)) := by
  have himpls := h.foldl_addIfImpl file root.descendants
  have hfns := himpls.foldl_addIfFn (himpls.knowsImpls hother) root.descendants
  rwa [List.append_assoc, ← List.map_append] at hfns

/-! ### All files -/

theorem foldl_decls (h : Listed decls [] [] (decls.map (Prod.map id (·.span))) ds)
    (roots : List (FileId × Node)) :
    Listed (decls ++ placed declNodes roots) [] []
      ((decls ++ placed declNodes roots).map (Prod.map id (·.span)))
      (roots.foldl (fun ds x => x.2.descendants.foldl (Decls.addIfDecl x.1) ds) ds) := by
  induction roots generalizing decls ds with
  | nil => simpa [placed] using h
  | cons x roots ih =>
    have hrest := ih (h.foldl_addIfDecl x.1 x.2.descendants)
    rwa [List.append_assoc] at hrest

theorem foldl_addFile (h : Listed decls impls fns keys ds) {roots : List (FileId × Node)}
    (hnodup : (roots.map (·.1)).Nodup) (hother : ∀ x ∈ impls, x.1 ∉ roots.map (·.1)) :
    Listed decls (impls ++ placed implNodes roots) (fns ++ placed fnNodes roots)
      (keys ++ placed (fun root => (implNodes root ++ fnNodes root).map (·.span)) roots)
      (roots.foldl (fun ds x => x.2.descendants.foldl (Decls.addIfFn x.1)
        (x.2.descendants.foldl (Decls.addIfImpl x.1) ds)) ds) := by
  induction roots generalizing impls fns keys ds with
  | nil => simpa [placed] using h
  | cons x roots ih =>
    rw [List.map_cons, List.nodup_cons] at hnodup
    have hfile := h.addFile x.1 x.2 fun y hy heq =>
      hother y hy (heq ▸ List.mem_cons_self)
    have hrest := ih hfile hnodup.2 fun y hy hmem => by
      obtain hy | hy := List.mem_append.1 hy
      · exact hother y hy (List.mem_cons_of_mem _ hmem)
      · obtain ⟨n, -, rfl⟩ := List.mem_map.1 hy
        exact hnodup.1 hmem
    rw [List.append_assoc, List.append_assoc, List.append_assoc] at hrest
    simpa only [placed, List.flatMap_cons, List.map_map, Function.comp_def, List.foldl_cons] using
      hrest

end Listed

/-- What stands in the table of files. -/
theorem listed_ofRoots {roots : List (FileId × Node)} (hnodup : (roots.map (·.1)).Nodup) :
    Listed (placed declNodes roots) (placed implNodes roots) (placed fnNodes roots)
      ((placed declNodes roots).map (Prod.map id (·.span)) ++
        placed (fun root => (implNodes root ++ fnNodes root).map (·.span)) roots)
      (ofRoots roots) := by
  have hempty : Listed [] [] [] [] ⟨roots, [], [], [], []⟩ :=
    ⟨rfl, rfl, by simp, rfl, by simp, by simp, rfl⟩
  have hdecls := (hempty.foldl_decls roots).foldl_addFile hnodup (by simp)
  simpa only [ofRoots, List.foldl_map, List.nil_append] using hdecls

end Decls

end Reshape
