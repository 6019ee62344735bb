import Reshape.Decl.Shape
import Reshape.Proofs.Syntax.Names
import Reshape.Proofs.Workspace.States

/-!
# Where declarations come from

* `Decls.FoundIn` says that a table was built from the given roots: every declaration in it is a node
  below one of them. `foundIn_ofRoots` follows the passes over the nodes that build the table.
* `Workspace.Holds` says that a node is one of the tree of a file. For coherent workspaces the roots of
  the table are the roots of the files (`exists_source_of_mem_roots`), so the declarations are such
  nodes.
-/

namespace Reshape

namespace Decls

variable {roots : List (FileId × Node)} {ds : Decls} {file : FileId} {root n : Node}

/-- The names of the variants of an enum. -/
def variantNames (n : Node) : List String := n.variants.map fun v => v.nameText?.getD ""

/-- The table has the given roots, and its declarations are nodes below them that declare their names
and those of their variants. The nodes of structs are structs or unions. -/
structure FoundIn (roots : List (FileId × Node)) (ds : Decls) : Prop where
  roots_eq : ds.roots = roots
  exists_root : ∀ d ∈ ds.decls, ∃ root, (d.file, root) ∈ roots ∧ d.node ∈ root.descendants
  nameText?_eq : ∀ d ∈ ds.decls, d.node.nameText? = some d.name
  variants_eq : ∀ d ∈ ds.decls, d.kind = .enum → d.variants = variantNames d.node
  structDef : ∀ d ∈ ds.decls, d.kind = .struct → d.node.kind = .structDef

namespace FoundIn

/-- Only roots and declarations matter. -/
theorem congr {ds' : Decls} (h : FoundIn roots ds) (hroots : ds'.roots = ds.roots)
    (hdecls : ds'.decls = ds.decls) : FoundIn roots ds' :=
  ⟨hroots.trans h.roots_eq, hdecls ▸ h.exists_root, hdecls ▸ h.nameText?_eq,
    hdecls ▸ h.variants_eq, hdecls ▸ h.structDef⟩

theorem addDecl (h : FoundIn roots ds) (hroot : (file, root) ∈ roots) (hn : n ∈ root.descendants)
    {kind : DeclKind} {variants : List String} (hvariants : kind = .enum → variants = variantNames n)
    (hstruct : kind = .struct → n.kind = .structDef) :
    FoundIn roots (ds.addDecl file n kind variants) := by
  rw [Decls.addDecl]
  split
  · exact h
  · next name hname =>
    refine ⟨h.roots_eq, fun d hd => ?_, fun d hd => ?_, fun d hd => ?_, fun d hd => ?_⟩
    · obtain hd | hd := List.mem_append.1 hd
      · exact h.exists_root d hd
      · obtain rfl := List.mem_singleton.1 hd
        exact ⟨root, hroot, hn⟩
    · obtain hd | hd := List.mem_append.1 hd
      · exact h.nameText?_eq d hd
      · obtain rfl := List.mem_singleton.1 hd
        exact hname
    · obtain hd | hd := List.mem_append.1 hd
      · exact h.variants_eq d hd
      · obtain rfl := List.mem_singleton.1 hd
        exact hvariants
    · obtain hd | hd := List.mem_append.1 hd
      · exact h.structDef d hd
      · obtain rfl := List.mem_singleton.1 hd
        exact hstruct

theorem addIfDecl (h : FoundIn roots ds) (hroot : (file, root) ∈ roots)
    (hn : n ∈ root.descendants) : FoundIn roots (addIfDecl file ds n) := by
  rw [Decls.addIfDecl]
  split
  · next hstruct => exact h.addDecl hroot hn (fun hkind => by cases hkind) fun _ => hstruct
  · exact h.addDecl hroot hn (fun _ => rfl) fun hkind => by cases hkind
  · exact h

theorem addIfImpl (h : FoundIn roots ds) (n : Node) : FoundIn roots (addIfImpl file ds n) := by
  rw [Decls.addIfImpl]
  split
  · exact h.congr rfl rfl
  · exact h

theorem addIfFn (h : FoundIn roots ds) (n : Node) : FoundIn roots (addIfFn file ds n) := by
  rw [Decls.addIfFn]
  split
  · split
    · exact h.congr rfl rfl
    · split
      · split
        · exact h.congr rfl rfl
        · exact h
      · exact h
    · exact h
  · exact h

end FoundIn

theorem foundIn_ofRoots (roots : List (FileId × Node)) : FoundIn roots (ofRoots roots) := by
  refine List.foldlRecOn _ _ (List.foldlRecOn _ _ ⟨rfl, by simp, by simp, by simp, by simp⟩ ?_) ?_
  · intro ds h x hx
    obtain ⟨⟨file, root⟩, hroot, rfl⟩ := List.mem_map.1 hx
    exact List.foldlRecOn _ _ h fun ds h n hn => h.addIfDecl hroot hn
  · intro ds h x _
    refine List.foldlRecOn _ _ (List.foldlRecOn _ _ h ?_) ?_
    · exact fun ds h n _ => h.addIfImpl n
    · exact fun ds h n _ => h.addIfFn n

end Decls

/-! ## Files -/

namespace Workspace

variable {w : Workspace} {f : FileId} {source : SourceFile} {root n m : Node}

/-- A node is one of the tree of a file. -/
def Holds (w : Workspace) (f : FileId) (n : Node) : Prop :=
  ∃ source, w.file? f = some source ∧ Node.Below (.ofTree (parseFile source.text).tree) n

namespace Holds

theorem below (h : w.Holds f n) (hm : Node.Below n m) : w.Holds f m := by
  obtain ⟨source, hfile, hn⟩ := h
  exact ⟨source, hfile, hn.trans hm⟩

/-- The node around a node of a tree is one of the tree too. -/
theorem parent? (h : w.Holds f n) (hm : n.parent? = some m) : w.Holds f m := by
  obtain ⟨source, hfile, hn⟩ := h
  refine ⟨source, hfile, hn.parent? ?_ hm⟩
  generalize (parseFile source.text).tree = t
  cases t <;> rfl

theorem placedIn (h : w.Holds f n) (hfile : w.file? f = some source) : n.PlacedIn source.text := by
  obtain ⟨source', hfile', hn⟩ := h
  rw [hfile, Option.some.injEq] at hfile'
  subst hfile'
  exact Node.placedIn_of_below hn

/-- The place of a node contains those of the nodes below it. -/
theorem contains (h : w.Holds f n) (hm : Node.Below n m) : n.span.contains m.span = true := by
  obtain ⟨source, -, hn⟩ := h
  exact ((Node.placedIn_of_below hn).below hm).2

end Holds

/-- The roots of the trees of all files. -/
def roots (w : Workspace) : List (FileId × Node) :=
  w.files.map (Prod.map id fun source => Node.ofTree source.parse.tree)

theorem foundIn_ofWorkspace (w : Workspace) :
    Decls.FoundIn (w.files.map fun (file, source) => (file, Node.ofTree source.parse.tree))
      (Decls.ofWorkspace w) :=
  Decls.foundIn_ofRoots _

theorem Coherent.exists_source_of_mem_roots (hw : w.Coherent)
    (h : (f, root) ∈ (Decls.ofWorkspace w).roots) :
    ∃ source, w.file? f = some source ∧ root = .ofTree (parseFile source.text).tree := by
  rw [(foundIn_ofWorkspace w).roots_eq] at h
  obtain ⟨⟨g, source⟩, hmem, heq⟩ := List.mem_map.1 h
  cases heq
  exact ⟨source, hw.file?_eq_some hmem, by rw [(hw.fresh _ _ hmem).parse_eq]⟩

theorem Coherent.holds_of_mem_roots (hw : w.Coherent) (h : (f, root) ∈ (Decls.ofWorkspace w).roots)
    (hn : Node.Below root n) : w.Holds f n := by
  obtain ⟨source, hfile, hroot⟩ := hw.exists_source_of_mem_roots h
  rw [hroot] at hn
  exact ⟨source, hfile, hn⟩

/-- The node of a declaration is one of the tree of its file. -/
theorem Coherent.holds_node (hw : w.Coherent) {d : DeclId} {decl : Decl}
    (h : (Decls.ofWorkspace w).decl? d = some decl) : w.Holds decl.file decl.node := by
  have hfound := foundIn_ofWorkspace w
  obtain ⟨root, hroot, hn⟩ := hfound.exists_root decl (List.mem_of_getElem? h)
  rw [← hfound.roots_eq] at hroot
  exact hw.holds_of_mem_roots hroot (Node.below_of_mem_descendants hn)

/-- A name that a node of a file declares is not empty. -/
theorem Holds.nameText?_ne_empty (h : w.Holds f n) {name : String} (hname : n.nameText? = some name) :
    name ≠ "" := by
  obtain ⟨source, -, hn⟩ := h
  exact Node.nameText?_ne_empty hn hname

/-- Two names that are used in one place of a file are the same. -/
theorem Holds.eq_of_nameRef (hn : w.Holds f n) (hm : w.Holds f m) (hnkind : n.kind = .nameRef)
    (hmkind : m.kind = .nameRef) (hin : n.span.contains m.span = true) {name : String}
    (htext : m.refText? = some name) (hne : name ≠ "") : m = n := by
  obtain ⟨source, hfile, hbelow⟩ := hn
  obtain ⟨source', hfile', hbelow'⟩ := hm
  rw [hfile, Option.some.injEq] at hfile'
  subst hfile'
  have hpos := (Node.placedIn_of_below hbelow').start_lt_stop htext hne
  exact Node.eq_of_nameRef hbelow hbelow' hnkind hmkind hin hpos

/-- The name of a declaration is not empty. -/
theorem Coherent.name_ne_empty (hw : w.Coherent) {d : DeclId} {decl : Decl}
    (h : (Decls.ofWorkspace w).decl? d = some decl) : decl.name ≠ "" :=
  (hw.holds_node h).nameText?_ne_empty
    ((foundIn_ofWorkspace w).nameText?_eq decl (List.mem_of_getElem? h))

/-- The node of a target is one of the file that the target is declared in. -/
theorem Coherent.holds_of_node? (hw : w.Coherent) {target : Target} {n : Node}
    (h : target.node? (.ofWorkspace w) = some n) :
    ∃ decl, (Decls.ofWorkspace w).decl? target.owner = some decl ∧ w.Holds decl.file n := by
  have hnode {kind : DeclKind} {d : DeclId} {m : Node}
      (hm : (Decls.ofWorkspace w).nodeOf? kind d = some m) :
      ∃ decl, (Decls.ofWorkspace w).decl? d = some decl ∧ w.Holds decl.file m := by
    rw [Decls.nodeOf?] at hm
    split at hm
    · next decl hdecl =>
      split at hm
      · cases hm
        exact ⟨decl, hdecl, hw.holds_node hdecl⟩
      · cases hm
    · cases hm
  cases target with
  | decl d => exact hnode h
  | variant d i =>
    obtain ⟨m, hm, hn⟩ := Option.bind_eq_some_iff.1 h
    obtain ⟨decl, hdecl, hholds⟩ := hnode hm
    obtain ⟨list, hlist, hn⟩ := List.mem_flatMap.1 (List.mem_of_getElem? hn)
    exact ⟨decl, hdecl, hholds.below ((Node.Below.refl.childrenOfKind hlist).childrenOfKind hn)⟩

/-- The node of a struct that is a target is one. -/
theorem kind_of_node? {d : DeclId} {n : Node}
    (h : (Target.decl d).node? (.ofWorkspace w) = some n) : n.kind = .structDef := by
  rw [Target.node?, Decls.nodeOf?] at h
  split at h
  · next decl hdecl =>
    split at h
    · next hkind =>
      cases h
      exact (foundIn_ofWorkspace w).structDef decl (List.mem_of_getElem? hdecl) hkind
    · cases h
  · cases h

end Workspace

end Reshape
