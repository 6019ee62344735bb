import Reshape.Convert.Basic
import Reshape.Proofs.Convert.Sites

/-!
# What a conversion gathers

* `SourceChange.Fits` says that a change is meant for the revision of a workspace, names each file
  once, and puts texts in the places of ranges between characters. Rewriting the sites of files keeps
  it (`Fits.foldlM_rewriteFile`), and so does the edit of the declaration
  (`fitsIn_of_declarationEdit?`).
* `convert_eq_ok` says what a conversion that came to a change went through, step by step.
-/

namespace Reshape

variable {w : Workspace} {c c' : SourceChange} {f g : FileId} {e d : TextEdit} {es : List TextEdit}
  {source : SourceFile} {sites : List Site} {plan : Plan} {config : Config}

/-! ## Changes that fit a workspace -/

theorem SourceChange.hasEdit_foldl_push :
    HasEdit (es.foldl (fun c e => c.push f e) c).edits g d ↔
      (g = f ∧ d ∈ es) ∨ HasEdit c.edits g d := by
  induction es generalizing c with
  | nil => simp
  | cons e es ih =>
    rw [List.foldl_cons, ih, push, hasEdit_addEdit, List.mem_cons]
    grind

/-- The change is meant for the revision of the workspace, its files are in order, and each edit
stands in the place of a range between characters of its file. -/
structure SourceChange.Fits (w : Workspace) (c : SourceChange) : Prop where
  base_eq : c.base = w.revision
  pairwise_keys : (c.edits.map (·.1)).Pairwise (· < ·)
  fitsIn : ∀ f e, HasEdit c.edits f e → ∀ source, w.file? f = some source →
    e.span.FitsIn source.text

namespace SourceChange.Fits

theorem empty (w : Workspace) : (SourceChange.empty w.revision).Fits w :=
  ⟨rfl, .nil, fun f e ⟨es, hes, _⟩ => by cases hes⟩

theorem push (hc : c.Fits w) (he : ∀ source, w.file? f = some source → e.span.FitsIn source.text) :
    (c.push f e).Fits w := by
  refine ⟨hc.base_eq, pairwise_keys_addEdit hc.pairwise_keys, fun g d hd => ?_⟩
  obtain ⟨rfl, rfl⟩ | hd := hasEdit_addEdit.1 hd
  · exact he
  · exact hc.fitsIn g d hd

end SourceChange.Fits

/-- The place of a node of a file is a range between characters of the file. -/
theorem Workspace.Holds.fitsIn {n : Node} (hn : w.Holds f n) (hfile : w.file? f = some source) :
    n.span.FitsIn source.text :=
  have hplaced := hn.placedIn hfile
  ⟨hplaced.le, hplaced.isBoundary.1, hplaced.isBoundary.2⟩

theorem rewriteFile_eq_ok (h : rewriteFile w plan config sites c f = .ok c') :
    ∃ source es, w.file? f = some source ∧
      rewriteSites source.text (sites.filter (·.file == f)) plan config = .ok es ∧
      c' = es.foldl (fun c e => c.push f e) c := by
  rw [rewriteFile] at h
  split at h
  · cases h
  · next source hfile =>
    obtain ⟨es, hes, hpure⟩ := bind_eq_ok.1 h
    exact ⟨source, es, hfile, hes, (pure_eq_ok.1 hpure).symm⟩

namespace SourceChange.Fits

theorem rewriteFile (hc : c.Fits w) (hsites : ∀ s ∈ sites, s.Standing w plan.size)
    (h : rewriteFile w plan config sites c f = .ok c') : c'.Fits w := by
  obtain ⟨source, es, hfile, hes, rfl⟩ := rewriteFile_eq_ok h
  have hsound : ∀ s ∈ sites.filter (·.file == f), s.Sound plan.size :=
    fun s hs => (hsites s (List.mem_filter.1 hs).1).sound
  refine List.foldlRecOn es _ hc fun c hc e he => hc.push fun source' hfile' => ?_
  obtain ⟨s, hs, hspan⟩ := (rewriteSites_settles hsound hes).1 e he
  obtain ⟨hs, hsame⟩ := List.mem_filter.1 hs
  obtain ⟨n, hn, hspan'⟩ := (hsites s hs).exists_node
  rw [beq_iff_eq.1 hsame] at hn
  rw [hspan, hspan']
  exact hn.fitsIn hfile'

theorem foldlM_rewriteFile (hc : c.Fits w) (hsites : ∀ s ∈ sites, s.Standing w plan.size)
    {files : List FileId} (h : files.foldlM (Reshape.rewriteFile w plan config sites) c = .ok c') :
    c'.Fits w := by
  induction files generalizing c with
  | nil => exact pure_eq_ok.1 h ▸ hc
  | cons f files ih =>
    obtain ⟨c₁, hfirst, hrest⟩ := bind_eq_ok.1 h
    exact ih (hc.rewriteFile hsites hfirst) hrest

end SourceChange.Fits

/-- The edits of the files that are rewritten end up in the change, and none is lost. -/
theorem hasEdit_foldlM_rewriteFile {files : List FileId}
    (h : files.foldlM (rewriteFile w plan config sites) c = .ok c') :
    (∀ g d, HasEdit c.edits g d → HasEdit c'.edits g d) ∧
      ∀ f ∈ files, ∃ source es, w.file? f = some source ∧
        rewriteSites source.text (sites.filter (·.file == f)) plan config = .ok es ∧
        ∀ e ∈ es, HasEdit c'.edits f e := by
  induction files generalizing c with
  | nil =>
    obtain rfl := pure_eq_ok.1 h
    exact ⟨fun _ _ hd => hd, by simp⟩
  | cons f files ih =>
    obtain ⟨c₁, hfirst, hrest⟩ := bind_eq_ok.1 h
    obtain ⟨hkept, hfiles⟩ := ih hrest
    obtain ⟨source, es, hfile, hes, rfl⟩ := rewriteFile_eq_ok hfirst
    refine ⟨fun g d hd => hkept g d (SourceChange.hasEdit_foldl_push.2 (.inr hd)), fun g hg => ?_⟩
    obtain rfl | hg := List.mem_cons.1 hg
    · exact ⟨source, es, hfile, hes, fun e he =>
        hkept g e (SourceChange.hasEdit_foldl_push.2 (.inl ⟨rfl, he⟩))⟩
    · exact hfiles g hg

/-- The checks of a change put its edits in order, and keep them all. -/
theorem SourceChange.hasEdit_of_validate {size : FileId → Option Nat}
    (h : c.validate size = (.ok (), c')) (he : HasEdit c.edits f e) : HasEdit c'.edits f e := by
  rw [validate] at h
  generalize hchecked : checkFiles _ c.edits = answer at h
  obtain ⟨outcome, edits⟩ := answer
  cases h
  obtain ⟨rfl, -⟩ := checkFiles_ok hchecked
  obtain ⟨es, hes, he⟩ := he
  exact ⟨sortEdits es, List.mem_map.2 ⟨(f, es), hes, rfl⟩, (List.mergeSort_perm _ _).mem_iff.2 he⟩

/-! ## The declaration -/

/-- In the node of a file, a name ends before a field list starts. -/
theorem Workspace.Holds.stop_le {n name list : Node} (hn : w.Holds f n)
    (hname : n.name? = some name) (hlist : n.fieldList? = some list) :
    name.span.stop ≤ list.span.start := by
  obtain ⟨source, -, hbelow⟩ := hn
  exact Node.stop_le_of_fieldList? hbelow hname hlist

/-- The range from the end of a child to the end of a node lies between characters. -/
theorem fitsIn_behind {n m : Node} (hn : w.Holds f n) (hm : Node.Below n m)
    (hfile : w.file? f = some source) :
    (⟨m.span.stop, n.span.stop⟩ : Span).FitsIn source.text := by
  have hin := Span.contains_iff.1 (hn.contains hm)
  exact ⟨hin.2, ((hn.below hm).fitsIn hfile).2.2, (hn.fitsIn hfile).2.2⟩

/-- The fields of a struct come behind its name or its generic parameters. -/
theorem exists_of_fieldAnchor? {n : Node} {anchor : Nat} (h : fieldAnchor? n = some anchor) :
    ∃ m ∈ n.children, (m.kind = .name ∨ m.kind = .genericParamList) ∧ m.span.stop = anchor := by
  rw [fieldAnchor?] at h
  split at h
  · next list hlist =>
    cases h
    exact ⟨list, List.mem_of_find?_eq_some hlist, .inr (by simpa using List.find?_some hlist), rfl⟩
  · obtain ⟨name, hname, rfl⟩ := Option.map_eq_some_iff.1 h
    exact ⟨name, List.mem_of_find?_eq_some hname, .inl (by simpa using List.find?_some hname), rfl⟩

/-- In every file, the where clause of a struct stands behind the place of its fields. -/
theorem Workspace.Holds.exists_clauseBehind? {n : Node} {anchor : Nat} (hn : w.Holds f n)
    (hkind : n.kind = .structDef) (hanchor : fieldAnchor? n = some anchor) :
    ∃ clause, clauseBehind? n anchor = some clause := by
  obtain ⟨m, hm, hfirst, rfl⟩ := exists_of_fieldAnchor? hanchor
  obtain ⟨source, -, hbelow⟩ := hn
  have hplaced := Node.placedIn_of_below hbelow
  rw [clauseBehind?]
  cases hclause : n.whereClause? with
  | none => exact ⟨[], rfl⟩
  | some clause =>
    have hle := Node.stop_le_of_whereClause? hbelow hkind hm hfirst hclause
    obtain ⟨hmPlaced, hmIn⟩ := hplaced.child hm
    obtain ⟨hclausePlaced, hclauseIn⟩ := hplaced.child (List.mem_of_find?_eq_some hclause)
    have hmIn := Span.contains_iff.1 hmIn
    have hclauseIn := Span.contains_iff.1 hclauseIn
    have hmLe := hmPlaced.le
    have hclauseLe := hclausePlaced.le
    have hanchor := hplaced.isBoundary_sub hmPlaced.isBoundary.2 (by omega) (by omega)
    have hstart := hplaced.isBoundary_sub hclausePlaced.isBoundary.1 (by omega) (by omega)
    have hstop := hplaced.isBoundary_sub hclausePlaced.isBoundary.2 (by omega) (by omega)
    simp only [sliceChars?]
    rw [if_pos ⟨by omega, hanchor, hstart⟩, if_pos ⟨by omega, hstart, hstop⟩]
    exact ⟨_, rfl⟩

theorem fitsIn_of_structEdit? {n : Node} {fields : String} (hn : w.Holds f n)
    (h : structEdit? n fields = some e) (hfile : w.file? f = some source) :
    e.span.FitsIn source.text := by
  obtain ⟨anchor, hanchor, h⟩ := Option.bind_eq_some_iff.1 h
  obtain ⟨clause, -, h⟩ := Option.bind_eq_some_iff.1 h
  cases h
  obtain ⟨m, hm, -, rfl⟩ := exists_of_fieldAnchor? hanchor
  exact fitsIn_behind hn (Node.Below.refl.child hm) hfile

theorem fitsIn_of_variantEdit? {n : Node} {fields : String} (hn : w.Holds f n)
    (h : variantEdit? n fields = some e) (hfile : w.file? f = some source) :
    e.span.FitsIn source.text := by
  rw [variantEdit?] at h
  split at h
  · next list name hlist hname =>
    split at h
    · cases h
      have hnameIn := (hn.below (Node.Below.refl.childOfKind? hname)).fitsIn hfile
      have hlistIn := (hn.below (Node.Below.refl.child? hlist)).fitsIn hfile
      exact ⟨Nat.le_trans (hn.stop_le hname hlist) hlistIn.1, hnameIn.2.2, hlistIn.2.2⟩
    · cases h
  · cases h

theorem fitsIn_of_declarationEdit? (hw : w.Coherent) {target : Target}
    (h : declarationEdit? (.ofWorkspace w) target plan = some e)
    (hfile : w.file? ((((Decls.ofWorkspace w).decl? target.owner).map (·.file)).getD 0) =
      some source) :
    e.span.FitsIn source.text := by
  obtain ⟨n, hn, h⟩ := Option.bind_eq_some_iff.1 h
  obtain ⟨decl, hdecl, hholds⟩ := hw.holds_of_node? hn
  rw [hdecl] at hfile
  cases target with
  | decl d => exact fitsIn_of_structEdit? hholds h hfile
  | variant d i => exact fitsIn_of_variantEdit? hholds h hfile

/-! ## The steps of a conversion -/

/-- A site is what became of a reference. -/
theorem exists_reference_of_classify {refs : List Reference} {usages : List Usage}
    (h : classify plan refs = (sites, usages)) {s : Site} (hs : s ∈ sites) :
    ∃ r ∈ refs, Site.ofReference plan r = .ok s := by
  cases h
  obtain ⟨outcome, houtcome, hsome⟩ := List.mem_filterMap.1 hs
  obtain ⟨r, hr, rfl⟩ := List.mem_map.1 houtcome
  split at hsome
  · next s' hok =>
    cases hsome
    exact ⟨r, hr, hok⟩
  · cases hsome

theorem standing_of_classify {refs : List Reference} {usages : List Usage}
    (hrefs : ∀ r ∈ refs, r.Standing w) {shape : Shape} (hplan : Plan.ofShape shape = .ok plan)
    (h : classify plan refs = (sites, usages)) {s : Site} (hs : s ∈ sites) :
    s.Standing w plan.size := by
  obtain ⟨r, hr, hok⟩ := exists_reference_of_classify h hs
  exact (hrefs r hr).site hplan hok

/-- A conversion that came to a change can rewrite all references. -/
theorem exists_site_of_classify {refs : List Reference} (h : classify plan refs = (sites, []))
    {r : Reference} (hr : r ∈ refs) : ∃ s ∈ sites, Site.ofReference plan r = .ok s := by
  rw [classify, Prod.mk.injEq] at h
  obtain ⟨hsites, husages⟩ := h
  have hread : Site.ofReference plan r ∈ refs.map (Site.ofReference plan) :=
    List.mem_map.2 ⟨r, hr, rfl⟩
  cases hanswer : Site.ofReference plan r with
  | ok s => exact ⟨s, hsites ▸ List.mem_filterMap.2 ⟨_, hread, by rw [hanswer]⟩, rfl⟩
  | error u =>
    have hnone := List.filterMap_eq_nil_iff.1 husages _ hread
    rw [hanswer] at hnone
    cases hnone

/-- What a conversion that came to a change went through. -/
theorem convert_eq_ok {p : FilePosition} {cancelled : Bool}
    (h : convert w p config cancelled = .ok c) :
    cancelled = false ∧ ∃ target plan sites c₀ e,
      planAt (.ofWorkspace w) p = .ok (target, plan) ∧
      classify plan (references (.ofWorkspace w) target plan.fieldNames) = (sites, []) ∧
      ((Decls.ofWorkspace w).files.filter fun f => sites.any (·.file == f)).foldlM
        (rewriteFile w plan config sites) (.empty w.revision) = .ok c₀ ∧
      declarationEdit? (.ofWorkspace w) target plan = some e ∧
      (c₀.push ((((Decls.ofWorkspace w).decl? target.owner).map (·.file)).getD 0) e).validate
        (fun f => (w.file? f).map (·.size)) = (.ok (), c) := by
  obtain ⟨⟨target, plan⟩, hplan, h₁⟩ := bind_eq_ok.1 h
  dsimp only at h₁
  split at h₁
  · cases h₁
  · next hcancelled =>
    generalize hclassify : classify plan _ = classes at h₁
    obtain ⟨sites, usages⟩ := classes
    dsimp only at h₁
    split at h₁
    · cases h₁
    · next husages =>
      obtain ⟨c₀, hc₀, h₂⟩ := bind_eq_ok.1 h₁
      split at h₂
      · cases h₂
      · next e he =>
        obtain ⟨u, hchecked, hpure⟩ := bind_eq_ok.1 h₂
        refine ⟨Bool.eq_false_iff.2 hcancelled, target, plan, sites, c₀, e, ?_, ?_, hc₀, he,
          Prod.ext hchecked (pure_eq_ok.1 hpure)⟩
        · cases hanswer : planAt (.ofWorkspace w) p with
          | error err =>
            rw [hanswer] at hplan
            cases hplan
          | ok found =>
            rw [hanswer] at hplan
            cases hplan
            rfl
        · have hnone : usages = [] := by simpa using husages
          rw [hclassify, hnone]

end Reshape
