import Reshape.Proofs.Decl.Listing
import Reshape.Proofs.Parse.Anchors
import Reshape.Proofs.Workspace.Table

/-!
# The table as an index

Everything in the table is looked up by where it stands in a file. The place of an item tells it from
all others, so the table finds what it has stored, whatever the texts are.

* `Decls.items` are the items that have sites. `Decls.Numbered` says that the sites are stored for the
  places of these items and nothing else, each step of the passes over the nodes keeps that, and
  `numbered_ofRoots` is the result for all files.
* `Node.Finder` is a way to get from the kind and the place of a node back to the node.
* `Decls.Faithful` says what an index of a workspace has to do. `Workspace.faithful_ofWorkspace` is the
  result.
-/

namespace Reshape

/-! ## Finding a node again -/

/-- A way to find a node of a tree again by its kind and its place. What is found has both, and there is
no failure if a node that is not empty has both. -/
structure Node.Finder where
  find : Node → NodeKind → Span → Option Node
  below : ∀ {r n k s}, find r k s = some n → Node.Below r n ∧ n.kind = k ∧ n.span = s
  isSome : ∀ {text n}, Node.Below (.ofTree (parseFile text).tree) n → n.span.start < n.span.stop →
    (find (.ofTree (parseFile text).tree) n.kind n.span).isSome

namespace Node

/-- Finds the first node on the way down. -/
def Finder.first : Finder where
  find r k s := r.descendants.find? fun n => n.kind == k && n.span == s
  below h := by
    have hkind := List.find?_some h
    rw [Bool.and_eq_true, beq_iff_eq, beq_iff_eq] at hkind
    exact ⟨below_of_mem_descendants (List.mem_of_find?_eq_some h), hkind⟩
  isSome h _ := List.find?_isSome.2 ⟨_, mem_descendants_of_below h, by simp⟩

/-- Items that can have generic parameters are found again. -/
theorem Finder.find_eq (finder : Finder) {text : String} {n : Node}
    (hn : Below (ofTree (parseFile text).tree) n) (hkind : Scope.isGeneric n.kind = true) :
    finder.find (ofTree (parseFile text).tree) n.kind n.span = some n := by
  obtain ⟨m, hm⟩ := Option.isSome_iff_exists.1
    (finder.isSome hn (start_lt_stop_of_isGeneric hn hkind))
  obtain ⟨hbelow, hmkind, hspan⟩ := finder.below hm
  rw [hm, eq_of_span_eq hbelow hn (hmkind ▸ hkind) hkind hspan]

end Node

namespace Decls

/-! ## Items with sites -/

/-- An item with the site that it was given. -/
structure Item where
  file : FileId
  node : Node
  site : Nat

/-- Where an item stands. -/
def Item.key (x : Item) : FileId × Span := (x.file, x.node.span)

/-- The items of a table: declarations, impl blocks and functions. -/
def items (ds : Decls) : List Item :=
  ds.decls.map (fun d => ⟨d.file, d.node, d.site⟩) ++
    (ds.impls.map (fun i => ⟨i.file, i.node, i.site⟩) ++
      ds.fns.map (fun f => ⟨f.file, f.node, f.site⟩))

/-- Sites are stored for the places of the items and nothing else. -/
def Numbered (ds : Decls) : Prop := ds.sites.Perm (ds.items.map fun x => (x.key, x.site))

namespace Numbered

variable {ds : Decls} {file : FileId} {n : Node}

/-- One more site, for one more item. -/
theorem add {ds' : Decls} (h : ds.Numbered) (hsites : ds'.sites = (ds.addSite file n).2.sites)
    (hitems : ds'.items.Perm (⟨file, n, (ds.addSite file n).1⟩ :: ds.items)) : ds'.Numbered := by
  have hkeys := hitems.map fun x : Item => (x.key, x.site)
  rw [Numbered, hsites]
  exact (List.Perm.cons _ h).trans hkeys.symm

theorem addDecl (h : ds.Numbered) (kind : DeclKind) (variants : List String) :
    (ds.addDecl file n kind variants).Numbered := by
  rw [Decls.addDecl]
  split
  · exact h
  · refine h.add rfl ?_
    simp only [items, addSite, List.map_append, List.map_cons, List.map_nil, List.append_assoc]
    exact List.perm_middle

theorem addIfDecl (h : ds.Numbered) (file : FileId) (n : Node) :
    (Decls.addIfDecl file ds n).Numbered := by
  rw [Decls.addIfDecl]
  split
  · exact h.addDecl _ _
  · exact h.addDecl _ _
  · exact h

theorem addIfImpl (h : ds.Numbered) (file : FileId) (n : Node) :
    (Decls.addIfImpl file ds n).Numbered := by
  rw [Decls.addIfImpl]
  split
  · refine h.add rfl ?_
    simp only [items, addSite, List.map_append, List.map_cons, List.map_nil, ← List.append_assoc]
    rw [List.append_assoc]
    exact List.perm_middle
  · exact h

theorem addFn (h : ds.Numbered) (name : String) (impl : Option Nat) :
    (ds.addFn file n name impl).Numbered := by
  refine h.add rfl ?_
  simp only [items, Decls.addFn, addSite, List.map_append, List.map_cons, List.map_nil,
    ← List.append_assoc]
  exact List.perm_append_singleton ..

theorem addIfFn (h : ds.Numbered) (file : FileId) (n : Node) :
    (Decls.addIfFn file ds n).Numbered := by
  rw [Decls.addIfFn]
  split
  · split
    · exact h.addFn _ _
    · split
      · split
        · exact h.addFn _ _
        · exact h
      · exact h
    · exact h
  · exact h

end Numbered

theorem numbered_ofRoots (roots : List (FileId × Node)) : (ofRoots roots).Numbered := by
  refine List.foldlRecOn _ _ (List.foldlRecOn _ _ .nil ?_) ?_
  · exact fun ds h x _ => List.foldlRecOn _ _ h fun ds h n _ => h.addIfDecl x.1 n
  · intro ds h x _
    refine List.foldlRecOn _ _ (List.foldlRecOn _ _ h ?_) ?_
    · exact fun ds h n _ => h.addIfImpl x.1 n
    · exact fun ds h n _ => h.addIfFn x.1 n

/-! ## What is found in all files -/

section Placed

variable {roots : List (FileId × Node)} {g : Node → List Node} {file : FileId} {n : Node}

theorem mem_placed : (file, n) ∈ placed g roots ↔ ∃ root, (file, root) ∈ roots ∧ n ∈ g root := by
  simp only [placed, List.mem_flatMap, List.mem_map, Prod.mk.injEq]
  constructor
  · rintro ⟨⟨_, root⟩, hroot, n, hn, rfl, rfl⟩
    exact ⟨root, hroot, hn⟩
  · rintro ⟨root, hroot, hn⟩
    exact ⟨(file, root), hroot, n, hn, rfl, rfl⟩

theorem nodup_placed (hroots : (roots.map (·.1)).Nodup) (hg : ∀ root, (g root).Nodup) :
    (placed g roots).Nodup := by
  refine List.nodup_flatMap.2
    ⟨fun x _ => (hg x.2).map fun _ _ heq => (Prod.mk.injEq .. ▸ heq).2, ?_⟩
  refine (List.pairwise_map.1 hroots).imp fun {x y} hne z hx hy => ?_
  obtain ⟨n, -, rfl⟩ := List.mem_map.1 hx
  obtain ⟨m, -, heq⟩ := List.mem_map.1 hy
  exact hne (Prod.mk.injEq .. ▸ heq).1.symm

end Placed

theorem kind_of_isDecl {n : Node} (h : isDecl n = true) : n.kind = .structDef ∨ n.kind = .enumDef := by
  rw [isDecl, Bool.and_eq_true, Bool.or_eq_true, beq_iff_eq, beq_iff_eq] at h
  exact h.1

theorem kind_of_isFn {blocks : List Node} {n : Node} (h : isFn blocks n = true) :
    n.kind = .fnDef := by
  rw [isFn, Bool.and_eq_true, Bool.and_eq_true, beq_iff_eq] at h
  exact h.1.1

namespace Listed

variable {decls impls fns : List (FileId × Node)} {keys : List (FileId × Span)} {ds : Decls}

theorem map_decls_eq (h : Listed decls impls fns keys ds) :
    ds.decls.map (fun decl => (decl.file, decl.node)) = decls := by
  rw [h.decls_eq, List.map_map]
  exact List.zipIdx_map_fst ..

theorem map_items_eq (h : Listed decls impls fns keys ds) :
    ds.items.map (fun x => (x.file, x.node)) = decls ++ (impls ++ fns) := by
  rw [items, List.map_append, List.map_append, List.map_map, List.map_map, List.map_map]
  exact congrArg₂ _ h.map_decls_eq (congrArg₂ _ h.impls_eq h.fns_eq)

end Listed

/-! ## The roots of files -/

/-- The roots of files, each with a number of its own. -/
structure OfFiles (roots : List (FileId × Node)) : Prop where
  nodup : (roots.map (·.1)).Nodup
  parsed : ∀ {file root}, (file, root) ∈ roots → ∃ text, root = .ofTree (parseFile text).tree

/-- A node is one of the tree of a file. -/
def Stands (roots : List (FileId × Node)) (file : FileId) (n : Node) : Prop :=
  ∃ root, (file, root) ∈ roots ∧ Node.Below root n

theorem stands_of_mem_placed {roots : List (FileId × Node)} {p : Node → Node → Bool}
    {x : FileId × Node} (h : x ∈ placed (fun root => root.descendants.filter (p root)) roots) :
    Stands roots x.1 x.2 ∧ ∃ root, p root x.2 = true := by
  obtain ⟨root, hroot, hn⟩ := mem_placed.1 h
  obtain ⟨hn, hp⟩ := List.mem_filter.1 hn
  exact ⟨⟨root, hroot, Node.below_of_mem_descendants hn⟩, root, hp⟩

namespace OfFiles

variable {roots : List (FileId × Node)} {file : FileId} {n m : Node} {x y : Item} {k : Nat}
  {d : DeclId} {decl : Decl}

theorem eq_of_span_eq (h : OfFiles roots) (hn : Stands roots file n) (hm : Stands roots file m)
    (hnkind : Scope.isGeneric n.kind = true) (hmkind : Scope.isGeneric m.kind = true)
    (hspan : n.span = m.span) : n = m := by
  obtain ⟨root, hroot, hn⟩ := hn
  obtain ⟨root', hroot', hm⟩ := hm
  obtain rfl : root = root' :=
    (Prod.mk.injEq .. ▸ List.inj_on_of_nodup_map h.nodup hroot hroot' rfl).2
  obtain ⟨text, htext⟩ := h.parsed hroot
  rw [htext] at hn hm
  exact Node.eq_of_span_eq hn hm hnkind hmkind hspan

theorem stands_of_mem_items (h : OfFiles roots) (hx : x ∈ (ofRoots roots).items) :
    Stands roots x.file x.node ∧ Scope.isGeneric x.node.kind = true := by
  have hmem := List.mem_map_of_mem (f := fun x : Item => (x.file, x.node)) hx
  rw [(listed_ofRoots h.nodup).map_items_eq, List.mem_append, List.mem_append] at hmem
  obtain hmem | hmem | hmem := hmem <;> obtain ⟨hn, root, hp⟩ := stands_of_mem_placed hmem <;>
    refine ⟨hn, ?_⟩
  · obtain hkind | hkind := kind_of_isDecl hp <;> rw [hkind] <;> rfl
  · rw [of_decide_eq_true hp]
    rfl
  · rw [kind_of_isFn hp]
    rfl

/-- No node has two items. -/
theorem nodup_nodes (h : OfFiles roots) :
    ((ofRoots roots).items.map fun x => (x.file, x.node)).Nodup := by
  have hplaced (p : Node → Node → Bool) :
      (placed (fun root => root.descendants.filter (p root)) roots).Nodup :=
    nodup_placed h.nodup fun root => (Node.nodup_descendants root).filter _
  rw [(listed_ofRoots h.nodup).map_items_eq]
  refine List.nodup_append.2 ⟨hplaced fun _ => isDecl, List.nodup_append.2
    ⟨hplaced fun _ n => n.kind = .implDef, hplaced fun root => isFn (implNodes root), ?_⟩, ?_⟩
  · rintro x hx _ hy rfl
    obtain ⟨-, _, himpl⟩ := stands_of_mem_placed hx
    obtain ⟨-, _, hfn⟩ := stands_of_mem_placed hy
    cases (of_decide_eq_true himpl).symm.trans (kind_of_isFn hfn)
  · rintro x hx _ hy rfl
    obtain ⟨-, _, hdecl⟩ := stands_of_mem_placed hx
    have hother : x.2.kind = .implDef ∨ x.2.kind = .fnDef := by
      obtain hy | hy := List.mem_append.1 hy <;> obtain ⟨-, _, hp⟩ := stands_of_mem_placed hy
      · exact .inl (of_decide_eq_true hp)
      · exact .inr (kind_of_isFn hp)
    obtain hkind | hkind := kind_of_isDecl hdecl <;> simp [hkind] at hother

/-- Items in one place are the same. -/
theorem eq_of_key_eq (h : OfFiles roots) (hx : x ∈ (ofRoots roots).items)
    (hy : y ∈ (ofRoots roots).items) (hkey : x.key = y.key) : x = y := by
  obtain ⟨hfile, hspan⟩ : x.file = y.file ∧ x.node.span = y.node.span := Prod.ext_iff.1 hkey
  obtain ⟨hxn, hxkind⟩ := h.stands_of_mem_items hx
  obtain ⟨hyn, hykind⟩ := h.stands_of_mem_items hy
  have hnode := h.eq_of_span_eq hxn (hfile ▸ hyn) hxkind hykind hspan
  exact List.inj_on_of_nodup_map h.nodup_nodes hx hy (Prod.ext hfile hnode)

theorem nodup_keys (h : OfFiles roots) : ((ofRoots roots).sites.map (·.1)).Nodup := by
  have hperm := (numbered_ofRoots roots).map (·.1)
  rw [List.map_map] at hperm
  exact hperm.nodup_iff.2 (h.nodup_nodes.of_map.map_on fun x hx y hy => h.eq_of_key_eq hx hy)

theorem nodup_sites (h : OfFiles roots) : ((ofRoots roots).items.map (·.site)).Nodup := by
  have hperm := (numbered_ofRoots roots).map (·.2)
  rw [List.map_map, (listed_ofRoots h.nodup).sites_eq, List.map_reverse, List.zipIdx_map_snd] at hperm
  exact hperm.nodup_iff.1 (List.nodup_reverse.2 List.nodup_range')

/-- The site that is stored for the place of an item is its own. -/
theorem site?_eq (h : OfFiles roots) (hx : x ∈ (ofRoots roots).items) :
    (ofRoots roots).site? x.file x.node = some x.site :=
  lookup_eq_some_of_mem h.nodup_keys
    ((numbered_ofRoots roots).mem_iff.2 (List.mem_map_of_mem hx))

/-- A site that is found for a node was given to that node. -/
theorem mem_items_of_site? (h : OfFiles roots) (hn : Stands roots file n)
    (hkind : Scope.isGeneric n.kind = true) (hsite : (ofRoots roots).site? file n = some k) :
    ⟨file, n, k⟩ ∈ (ofRoots roots).items := by
  obtain ⟨x, hx, heq⟩ := List.mem_map.1
    ((numbered_ofRoots roots).mem_iff.1 (mem_of_lookup hsite))
  obtain ⟨hkey, rfl⟩ := Prod.ext_iff.1 heq
  obtain ⟨rfl, hspan⟩ := Prod.ext_iff.1 hkey
  obtain ⟨hxn, hxkind⟩ := h.stands_of_mem_items hx
  rwa [← h.eq_of_span_eq hxn hn hxkind hkind hspan]

theorem stands_of_mem_decls (h : OfFiles roots) (hdecl : decl ∈ (ofRoots roots).decls) :
    Stands roots decl.file decl.node ∧ Scope.isGeneric decl.node.kind = true :=
  h.stands_of_mem_items (x := ⟨decl.file, decl.node, decl.site⟩)
    (List.mem_append_left _ (List.mem_map.2 ⟨decl, hdecl, rfl⟩))

theorem nodup_decls (h : OfFiles roots) :
    ((ofRoots roots).decls.map fun decl => (decl.file, decl.node)).Nodup := by
  have hnodes := h.nodup_nodes
  rw [items, List.map_append, List.map_map] at hnodes
  exact (List.nodup_append.1 hnodes).1

/-- A declaration is found by its node. -/
theorem declAt?_eq (h : OfFiles roots) (hdecl : (ofRoots roots).decl? d = some decl) :
    (ofRoots roots).declAt? decl.file decl.node = some d := by
  obtain ⟨hd, rfl⟩ := List.getElem?_eq_some_iff.1 hdecl
  refine List.findIdx?_eq_some_iff_getElem.2 ⟨hd, by simp, fun i hi hfound => ?_⟩
  -- An earlier declaration in that place would be this one.
  rw [Bool.and_eq_true, Bool.and_eq_true, beq_iff_eq, beq_iff_eq] at hfound
  obtain ⟨⟨hfile, hspan⟩, -⟩ := hfound
  obtain ⟨hn, hkind⟩ := h.stands_of_mem_decls (List.getElem_mem (Nat.lt_trans hi hd))
  obtain ⟨hn', hkind'⟩ := h.stands_of_mem_decls (List.getElem_mem hd)
  rw [hfile] at hn
  have hnode := h.eq_of_span_eq hn hn' hkind hkind' hspan
  have hij : i = d := by
    refine (List.getElem?_inj (by simpa using Nat.lt_trans hi hd) h.nodup_decls).1 ?_
    simp [Nat.lt_trans hi hd, hd, hfile, hnode]
  exact Nat.ne_of_lt hi hij

/-- Each struct or enum with a name has one number. -/
theorem existsUnique_decl? (h : OfFiles roots) (hn : Stands roots file n) (hdecl : isDecl n = true) :
    ∃! d, ((ofRoots roots).decl? d).map (fun decl => (decl.file, decl.node)) = some (file, n) := by
  obtain ⟨root, hroot, hbelow⟩ := hn
  have hmem : (file, n) ∈ (ofRoots roots).decls.map fun decl => (decl.file, decl.node) := by
    rw [(listed_ofRoots h.nodup).map_decls_eq]
    exact mem_placed.2
      ⟨root, hroot, List.mem_filter.2 ⟨Node.mem_descendants_of_below hbelow, hdecl⟩⟩
  obtain ⟨d, hd, hget⟩ := List.mem_iff_getElem.1 hmem
  simp only [decl?, ← List.getElem?_map]
  refine ⟨d, List.getElem?_eq_some_iff.2 ⟨hd, hget⟩, fun e he => ?_⟩
  obtain ⟨hlt, heq⟩ := List.getElem?_eq_some_iff.1 he
  exact h.nodup_decls.getElem_inj_iff.1 (heq.trans hget.symm)

/-- The node of a declaration is found again. -/
theorem find_eq (h : OfFiles roots) (finder : Node.Finder)
    (hdecl : (ofRoots roots).decl? d = some decl) :
    ((ofRoots roots).root? decl.file).bind (finder.find · decl.node.kind decl.node.span) =
      some decl.node := by
  obtain ⟨⟨root, hroot, hn⟩, hkind⟩ := h.stands_of_mem_decls (List.mem_of_getElem? hdecl)
  obtain ⟨text, htext⟩ := h.parsed hroot
  rw [root?, (foundIn_ofRoots roots).roots_eq, lookup_eq_some_of_mem h.nodup hroot, Option.bind_some,
    htext]
  rw [htext] at hn
  exact finder.find_eq hn hkind

end OfFiles

end Decls

/-! ## The result -/

/-- The table is an index of the files of a workspace. -/
structure Decls.Faithful (w : Workspace) (ds : Decls) : Prop where
  /-- Files are in the order of their numbers. -/
  sorted : (w.files.map (·.1)).Pairwise (· < ·)
  /-- Declarations are the structs and enums with names, by file and then on the way down. -/
  decls_eq : ds.decls.map (fun decl => (decl.file, decl.node)) =
    w.roots.flatMap fun x => (x.2.descendants.filter isDecl).map (x.1, ·)
  /-- Each of them has one number. -/
  existsUnique : ∀ {f n}, w.Holds f n → isDecl n = true →
    ∃! d, (ds.decl? d).map (fun decl => (decl.file, decl.node)) = some (f, n)
  /-- The node of a declaration is found again by its kind and its place. -/
  find_eq : ∀ {d decl} (finder : Node.Finder), ds.decl? d = some decl →
    (ds.root? decl.file).bind (finder.find · decl.node.kind decl.node.span) = some decl.node
  /-- A declaration is found by its node. -/
  declAt?_eq : ∀ {d decl}, ds.decl? d = some decl → ds.declAt? decl.file decl.node = some d
  /-- No two items share a site. -/
  nodup_sites : (ds.items.map (·.site)).Nodup
  /-- No two sites are stored for the same place. -/
  nodup_keys : (ds.sites.map (·.1)).Nodup
  /-- The site that is found for an item is its own. -/
  site?_eq : ∀ x ∈ ds.items, ds.site? x.file x.node = some x.site
  /-- Only the site of a node is found for it. -/
  mem_items : ∀ {f n k}, w.Holds f n → Scope.isGeneric n.kind = true → ds.site? f n = some k →
    ⟨f, n, k⟩ ∈ ds.items

namespace Workspace

variable {w : Workspace} {f : FileId} {n : Node}

theorem ofFiles_roots (hw : w.Reachable) : Decls.OfFiles w.roots := by
  refine ⟨?_, fun {f root} hroot => ?_⟩
  · rw [roots, List.map_map]
    exact hw.sorted.imp Nat.ne_of_lt
  · obtain ⟨source, -, hroot⟩ := hw.coherent.exists_source_of_mem_roots
      (by rwa [(foundIn_ofWorkspace w).roots_eq] : (f, root) ∈ (Decls.ofWorkspace w).roots)
    exact ⟨source.text, hroot⟩

theorem Coherent.stands (hw : w.Coherent) (hn : w.Holds f n) : Decls.Stands w.roots f n := by
  obtain ⟨source, hfile, hbelow⟩ := hn
  have hmem := mem_of_lookup hfile
  rw [← (hw.fresh f source hmem).parse_eq] at hbelow
  exact ⟨_, List.mem_map.2 ⟨_, hmem, rfl⟩, hbelow⟩

/-- The table of a workspace is an index of its files, whatever the texts are. -/
theorem faithful_ofWorkspace (hw : w.Reachable) : (Decls.ofWorkspace w).Faithful w := by
  have hroots := ofFiles_roots hw
  have hstands {f n} := hw.coherent.stands (f := f) (n := n)
  show (Decls.ofRoots w.roots).Faithful w
  exact {
    sorted := hw.sorted
    decls_eq := (Decls.listed_ofRoots hroots.nodup).map_decls_eq
    existsUnique := fun hn => hroots.existsUnique_decl? (hstands hn)
    find_eq := hroots.find_eq
    declAt?_eq := hroots.declAt?_eq
    nodup_sites := hroots.nodup_sites
    nodup_keys := hroots.nodup_keys
    site?_eq := fun x => hroots.site?_eq
    mem_items := fun hn => hroots.mem_items_of_site? (hstands hn) }

/-- Two files, the first of which breaks off. The nodes are found again on the way down. -/
theorem faithful_ofWorkspace_despite_errors :
    ∃ w : Workspace, w.Reachable ∧ w.files.any (fun x => !x.2.parse.ok) = true ∧
      (Decls.ofWorkspace w).items.map (fun x => (x.file, x.node.kind, x.site)) =
        [(0, .structDef, 0), (0, .enumDef, 1), (1, .implDef, 3), (0, .fnDef, 2), (1, .fnDef, 4)] ∧
      (Decls.ofWorkspace w).Faithful w ∧
      ∀ d decl, (Decls.ofWorkspace w).decl? d = some decl →
        ((Decls.ofWorkspace w).root? decl.file).bind
          (Node.Finder.first.find · decl.node.kind decl.node.span) = some decl.node := by
  have hw := reachable_ofFiles [("a.rs", "struct S<T>;fn f<T>()\x7benum E<T>\x7b\x7d"),
    ("b.rs", "impl<T> S<T>\x7bfn g<T>()\x7b\x7d\x7d")]
  exact ⟨_, hw, by decide +kernel, by decide +kernel, faithful_ofWorkspace hw,
    fun _ _ => (faithful_ofWorkspace hw).find_eq .first⟩

end Workspace

end Reshape
