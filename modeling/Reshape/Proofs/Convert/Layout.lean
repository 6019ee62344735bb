import Reshape.Proofs.Convert.Conflicts
import Reshape.Proofs.Convert.Gathering

/-!
# Where the parts of a site stand

* `Site.settled_of_children` is about any site that is a node with a name and a list in it: the parts that
  are copied are in the list, so that they are less than the site.
* `settled_ofLiteral` and `settled_ofPattern` are about literals and patterns, and `settled_of_classify`
  says that all sites of a planned conversion stand in their texts like that.
-/

namespace Reshape

variable {w : Workspace} {file : FileId} {source : SourceFile} {plan : Plan} {n m list path : Node}
  {s : Site}

/-- Two children of different kinds have no character in common. -/
theorem Node.PlacedIn.apart_of_kind_ne {text : String} (h : n.PlacedIn text) (hm : m ∈ n.children)
    (hlist : list ∈ n.children) (hkind : m.kind ≠ list.kind) :
    m.span.stop ≤ list.span.start ∨ list.span.stop ≤ m.span.start :=
  rel_of_mem_children h.pairwise_children hm hlist fun heq => hkind (heq ▸ rfl)

/-- What is in nodes that have no character in common has none either. -/
theorem Span.Apart.of_contains {s t u v : Span} (h : s.Apart t) (hu : s.contains u = true)
    (hv : t.contains v = true) : u.Apart v := by
  rw [Span.contains_iff] at hu hv
  rw [Span.Apart] at *
  omega

/-- What is in different children of one kind has no character in common. -/
theorem Workspace.Holds.pairwise_apart (h : w.Holds file n) (k : NodeKind) :
    (n.childrenOfKind k).Pairwise fun f g =>
      ∀ m m', Node.Below f m → Node.Below g m' → m.span.Apart m'.span := by
  obtain ⟨source, hfile, -⟩ := id h
  refine ((h.placedIn hfile).pairwise_children.filter _).imp_of_mem ?_
  intro f g hf hg hfg m m' hm hm'
  refine Span.Apart.of_contains ?_ ((h.below (Node.Below.refl.childrenOfKind hf)).contains hm)
    ((h.below (Node.Below.refl.childrenOfKind hg)).contains hm')
  rw [Span.Apart]
  omega

/-- The place of a path that ends in a name is not empty. -/
theorem Workspace.Holds.start_lt_stop_of_lastName? (h : w.Holds file path) {name : String}
    (hname : path.lastName? = some name) (hne : name ≠ "") :
    path.span.start < path.span.stop := by
  obtain ⟨source, hfile, -⟩ := id h
  obtain ⟨segment, hsegment, -, m, hm, htext⟩ := Node.exists_of_lastName?_eq_some hname
  have hbelow : Node.Below path m :=
    (Node.Below.child .refl hsegment).child (Node.mem_children_of_nameRef? hm)
  have hin := Span.contains_iff.1 (h.contains hbelow)
  have hpos := ((h.below hbelow).placedIn hfile).start_lt_stop htext hne
  omega

namespace Site

/-- A node with a name in it, the copied parts of which are in another child. -/
theorem settled_of_children (hn : w.Holds file n) (hfile : w.file? file = some source)
    (hspan : s.span = n.span) (hpath : path ∈ n.children) (hlist : list ∈ n.children)
    (hkind : path.kind ≠ list.kind) (hpos : path.span.start < path.span.stop)
    (hname : ∀ name ∈ s.kind.path?, ∃ m, Node.Below n m ∧ name = m.span)
    (hparts : ∀ part ∈ s.kind.parts, ∃ m, Node.Below list m ∧ part = m.span)
    (hapart : s.kind.parts.Pairwise Span.Apart) : s.Settled source.text := by
  have hbelow : Node.Below n list := .child .refl hlist
  have hpathIn := Span.contains_iff.1 (hn.contains (.child .refl hpath))
  have hlistIn := Span.contains_iff.1 (hn.contains hbelow)
  have hsides := (hn.placedIn hfile).apart_of_kind_ne hpath hlist hkind
  have hlistLe := ((hn.below hbelow).placedIn hfile).le
  refine ⟨⟨?_, ?_, hapart⟩, ?_, by rw [hspan]; omega, ?_, ?_⟩
  · intro name hmem
    obtain ⟨m, hm, rfl⟩ := hname name hmem
    exact (hn.below hm).fitsIn hfile
  · intro part hpart
    obtain ⟨m, hm, rfl⟩ := hparts part hpart
    exact (hn.below (hbelow.trans hm)).fitsIn hfile
  · exact hspan ▸ hn.fitsIn hfile
  · intro part hpart
    obtain ⟨m, hm, rfl⟩ := hparts part hpart
    exact hspan ▸ hn.contains (hbelow.trans hm)
  · intro part hpart
    obtain ⟨m, hm, rfl⟩ := hparts part hpart
    have hin := Span.contains_iff.1 ((hn.below hbelow).contains hm)
    rw [hspan, Span.size, Span.size]
    omega

/-- The parts of a literal are in its list, and no two of them have a character in common. -/
theorem exists_of_ofLiteral (hn : w.Holds file n) (h : ofLiteral file plan n = .ok s) :
    ∃ name list, n.path? = some name ∧ n.exprFieldList? = some list ∧ s.file = file ∧
      s.span = n.span ∧ s.kind.path? = some name.span ∧
      (∀ part ∈ s.kind.parts, ∃ m, Node.Below list m ∧ part = m.span) ∧
      s.kind.parts.Pairwise Span.Apart := by
  rw [ofLiteral] at h
  split at h
  · next name list hname hlist =>
    have hheld : w.Holds file list := hn.below (Node.Below.refl.childOfKind? hlist)
    obtain ⟨fields, hfields, h₁⟩ := bind_eq_ok.1 h
    obtain ⟨base, hbase, h₂⟩ := bind_eq_ok.1 h₁
    cases h₂
    refine ⟨name, list, hname, hlist, rfl, rfl, rfl, ?_, ?_⟩
    · intro part hpart
      obtain hpart | hpart := List.mem_append.1 hpart
      · obtain ⟨value, hvalue, hpart⟩ := List.mem_filterMap.1 hpart
        obtain ⟨f, hf, hok⟩ := exists_of_mapM_eq_ok hfields hvalue
        obtain ⟨m, hm, rfl⟩ := literalField_part hok hpart
        exact ⟨m, (Node.Below.refl.childrenOfKind hf).trans hm, rfl⟩
      · exact literalBase_part hbase (Option.mem_toList.1 hpart)
    · refine List.pairwise_append.2 ⟨?_, ?_, ?_⟩
      · refine List.pairwise_filterMap.2 (pairwise_of_mapM_eq_ok hfields
          (hheld.pairwise_apart .recordExprField) ?_)
        intro f g value value' hfg hok hok' part hpart part' hpart'
        obtain ⟨m, hm, rfl⟩ := literalField_part hok hpart
        obtain ⟨m', hm', rfl⟩ := literalField_part hok' hpart'
        exact hfg m m' hm hm'
      · cases base <;> simp
      · intro part hpart part' hpart'
        obtain ⟨value, hvalue, hpart⟩ := List.mem_filterMap.1 hpart
        obtain ⟨f, hf, hok⟩ := exists_of_mapM_eq_ok hfields hvalue
        obtain ⟨m, hm, rfl⟩ := literalField_part hok hpart
        obtain rfl := Option.mem_toList.1 hpart'
        rw [literalBase] at hbase
        split at hbase
        · cases hbase
        · next e _ he =>
          cases hbase
          obtain ⟨hf, hfkind⟩ := List.mem_filter.1 hf
          have hekind : e.kind.isExpr = true :=
            List.find?_some (p := fun c : Node => c.kind.isExpr) he
          obtain ⟨source, hfile, -⟩ := id hheld
          have hsides := (hheld.placedIn hfile).apart_of_kind_ne hf (List.mem_of_find?_eq_some he)
            fun heq => by rw [← heq, beq_iff_eq.1 hfkind] at hekind; cases hekind
          refine Span.Apart.of_contains ?_ ((hheld.below (.child .refl hf)).contains hm)
            (Span.contains_refl _)
          rw [Span.Apart]
          omega
        · cases hbase
  · cases h

theorem fits_ofLiteral (hn : w.Holds file n) (hfile : w.file? file = some source)
    (h : ofLiteral file plan n = .ok s) : s.Fits source.text := by
  obtain ⟨name, list, hname, hlist, -, -, hpath, hparts, hapart⟩ := exists_of_ofLiteral hn h
  refine ⟨fun path hmem => ?_, fun part hpart => ?_, hapart⟩
  · rw [hpath] at hmem
    cases hmem
    exact (hn.below (Node.Below.refl.childOfKind? hname)).fitsIn hfile
  · obtain ⟨m, hm, rfl⟩ := hparts part hpart
    exact (hn.below ((Node.Below.refl.childOfKind? hlist).trans hm)).fitsIn hfile

theorem settled_ofLiteral (hn : w.Holds file n) (hpath : path ∈ n.children) (hkind : path.kind = .path)
    (hpos : path.span.start < path.span.stop) (h : ofLiteral file plan n = .ok s)
    (hfile : w.file? s.file = some source) : s.Settled source.text := by
  obtain ⟨name, list, hname, hlist, hfileEq, hspan, hnamePath, hparts, hapart⟩ :=
    exists_of_ofLiteral hn h
  have hlistKind : list.kind = .recordExprFieldList := by simpa using List.find?_some hlist
  refine settled_of_children hn (hfileEq ▸ hfile) hspan hpath (List.mem_of_find?_eq_some hlist)
    (by rw [hkind, hlistKind]; decide) hpos ?_ hparts hapart
  rintro _ hmem
  rw [hnamePath] at hmem
  cases hmem
  exact ⟨name, Node.Below.refl.childOfKind? hname, rfl⟩

theorem settled_ofPattern (hn : w.Holds file n) (hpath : path ∈ n.children) (hkind : path.kind = .path)
    (hpos : path.span.start < path.span.stop) (h : ofPattern file plan n = .ok s)
    (hfile : w.file? s.file = some source) : s.Settled source.text := by
  rw [ofPattern] at h
  split at h
  · next name list hname hlist =>
    have hmem : list ∈ n.children := List.mem_of_find?_eq_some hlist
    have hlistKind : list.kind = .recordPatFieldList := by simpa using List.find?_some hlist
    have hheld : w.Holds file list := hn.below (.child .refl hmem)
    split at h
    · cases h
    · obtain ⟨parts, hparts, h₁⟩ := bind_eq_ok.1 h
      cases h₁
      refine settled_of_children hn hfile rfl hpath hmem (by rw [hkind, hlistKind]; decide) hpos ?_ ?_ ?_
      · rintro _ ⟨⟩
        exact ⟨name, Node.Below.refl.childOfKind? hname, rfl⟩
      · intro part hpart
        obtain ⟨bound, hbound, rfl⟩ := List.mem_map.1 hpart
        obtain ⟨f, hf, hok⟩ := exists_of_mapM_eq_ok hparts hbound
        obtain ⟨-, m, hm, hspan⟩ := patternField_part hok
        exact ⟨m, (Node.Below.refl.childrenOfKind hf).trans hm, hspan⟩
      · refine List.pairwise_map.2 (pairwise_of_mapM_eq_ok hparts
          (hheld.pairwise_apart .recordPatField) ?_)
        intro f g bound bound' hfg hok hok'
        obtain ⟨-, m, hm, hspan⟩ := patternField_part hok
        obtain ⟨-, m', hm', hspan'⟩ := patternField_part hok'
        rw [hspan, hspan']
        exact hfg m m' hm hm'
  · cases h

end Site

/-! ## The sites of a conversion -/

variable {ds : Decls} {target : Target} {r : Reference} {p : FilePosition} {config : Config}

/-- A path that is a reference ends in the name of the target, or in `Self`. -/
theorem lastName?_of_mem_references {names : List String} (h : r ∈ references ds target names)
    (hkind : r.kind = .path path) : path.kind = .path ∧
      ∃ last, path.lastName? = some last ∧ (last = target.ownName ds ∨ last = "Self") := by
  obtain ⟨file, root, -, hmem | hmem | hmem⟩ := exists_of_mem_references h
  · obtain ⟨n, -, rfl, hlast⟩ := View.exists_of_mem_pathReferences hmem
    cases hkind
    obtain ⟨m, hm, heq⟩ := List.mem_map.1 hmem
    have hpath : m = path := ReferenceKind.path.inj (congrArg Reference.kind heq)
    have hfilter := (List.mem_filter.1 hm).2
    simp only [Bool.and_eq_true, beq_iff_eq] at hfilter
    exact ⟨hpath ▸ hfilter.1.1, hlast⟩
  · obtain ⟨d, -, access, -, -, hfield⟩ := View.exists_of_mem_fieldReferences hmem
    obtain ⟨m, -, -, -, hm | hm⟩ := View.exists_of_fieldReference?_eq_some hfield <;>
      rw [hkind] at hm <;> cases hm
  · obtain ⟨t, rfl⟩ := View.exists_of_mem_macroReferences hmem
    cases hkind

theorem Plan.mem_fieldNames_of_indexOf? {name : String} {i : Nat} (h : plan.indexOf? name = some i) :
    name ∈ plan.fieldNames := by
  obtain ⟨f, hf, -⟩ := Option.map_eq_some_iff.1 h
  exact List.mem_map.2 ⟨f, List.mem_of_find?_eq_some hf, by simpa using List.find?_some hf⟩

/-- A reference that can be rewritten becomes a site that is settled, or a mention. -/
theorem settled_of_ofReference (hw : w.Coherent)
    (hplan : planAt (.ofWorkspace w) p = .ok (target, plan))
    (hr : r ∈ references (.ofWorkspace w) target plan.fieldNames)
    (h : Site.ofReference plan r = .ok s) (hkind : s.kind ≠ .mention)
    (hfile : w.file? s.file = some source) : s.Settled source.text := by
  have hstands := standing_of_mem_references hw hr
  rw [Site.ofReference] at h
  split at h
  · cases h
  · cases h
  · next n hfield =>
    obtain ⟨hn, -⟩ := hstands n (by rw [hfield]; rfl)
    dsimp only at h
    split at h
    · next i hi =>
      cases h
      have hne := ne_empty_of_mem_fieldNames hw hplan (Plan.mem_fieldNames_of_indexOf? hi)
      obtain ⟨name, hname⟩ : ∃ name, n.refText? = some name :=
        Option.ne_none_iff_exists'.1 fun hnone => hne (by rw [hnone]; rfl)
      rw [hname] at hne
      have hnone : ∀ part ∈ (SiteKind.access i).parts, False := by simp [SiteKind.parts]
      exact ⟨⟨by simp [SiteKind.path?], fun part hpart => (hnone part hpart).elim, .nil⟩,
        hn.fitsIn hfile, (hn.placedIn hfile).start_lt_stop hname hne,
        fun part hpart => (hnone part hpart).elim, fun part hpart => (hnone part hpart).elim⟩
    · cases h
  · next path hpath =>
    obtain ⟨hheld, -⟩ := hstands path (by rw [hpath]; rfl)
    obtain ⟨hpathKind, last, hlast, hname⟩ := lastName?_of_mem_references hr hpath
    have hne : last ≠ "" := by
      obtain rfl | rfl := hname
      · exact ownName_ne_empty hw hplan
      · decide
    have hpos := hheld.start_lt_stop_of_lastName? hlast hne
    split at h
    · next n hparent =>
      have hn := hheld.parent? hparent
      have hmem : path ∈ n.children := by
        obtain ⟨source', -, hbelow⟩ := hheld
        refine hbelow.mem_children_of_parent? ?_ hparent
        generalize (parseFile source'.text).tree = t
        cases t <;> rfl
      split at h
      · exact Site.settled_ofLiteral hn hmem hpathKind hpos h hfile
      · split at h
        · exact Site.settled_ofPattern hn hmem hpathKind hpos h hfile
        · cases h
          exact absurd rfl hkind
    · cases h
      exact absurd rfl hkind

end Reshape
