import Reshape.Proofs.Convert.Layout

/-!
# When the edits of a conversion are consistent

Once every reference can be rewritten, the only thing that keeps a conversion from a change is that two
edits overlap.

* `Consistent` says that the sites of each file are compatible, and that those in the file of the
  declaration are beside the part of it that is replaced.
* `checkFiles_outcome` is about the checks of a change, `foldlM_rewriteFile_outcome` about the sites of
  all files.
* `convert_outcome` says that the conversion comes to a change if all this is consistent, and that edits
  overlap if not. `convert_overlaps_iff` is what follows for every conversion.
* `canConvert_iff` says that a conversion is offered where it applies: once something is planned there is
  a declaration to be edited (`exists_declarationEdit?`), whatever is wrong with the text.
-/

namespace Reshape

variable {w : Workspace} {c c' : SourceChange} {f g : FileId} {e : TextEdit} {es : List TextEdit}
  {plan : Plan} {config : Config} {sites : List Site} {place : Span} {p : FilePosition}
  {target : Target}

/-! ## Edits by file -/

/-- The edits of a file. -/
def editsOf (edits : List (FileId × List TextEdit)) (f : FileId) : List TextEdit :=
  (edits.lookup f).getD []

theorem editsOf_cons (edits : List (FileId × List TextEdit)) :
    editsOf ((g, es) :: edits) f = if f = g then es else editsOf edits f := by
  rw [editsOf, List.lookup_cons]
  by_cases h : f = g
  · simp [h]
  · rw [if_neg h, beq_eq_false_iff_ne.2 h]
    rfl

theorem editsOf_eq_nil {edits : List (FileId × List TextEdit)} (h : f ∉ edits.map (·.1)) :
    editsOf edits f = [] := by
  induction edits with
  | nil => rfl
  | cons x edits ih =>
    rw [List.map_cons, List.mem_cons, not_or] at h
    rw [editsOf_cons, if_neg h.1, ih h.2]

/-- An edit comes behind the others of its file. -/
theorem editsOf_addEdit {edits : List (FileId × List TextEdit)}
    (h : (edits.map (·.1)).Pairwise (· < ·)) :
    editsOf (addEdit f e edits) g = if g = f then editsOf edits g ++ [e] else editsOf edits g := by
  induction edits with
  | nil => exact editsOf_cons []
  | cons x edits ih =>
    obtain ⟨k, ds⟩ := x
    obtain ⟨hfirst, hrest⟩ := List.pairwise_cons.1 h
    rw [addEdit]
    split
    · next heq =>
      subst heq
      simp only [editsOf_cons]
      split <;> rfl
    · next hne =>
      split
      · next hlt =>
        have hnew : f ∉ ((k, ds) :: edits).map (·.1) := by
          intro hmem
          obtain rfl | hmem := List.mem_cons.1 hmem
          · exact hne rfl
          · exact Nat.lt_asymm hlt (hfirst f hmem)
        rw [editsOf_cons]
        split
        · next heq => rw [heq, editsOf_eq_nil hnew, List.nil_append]
        · rfl
      · simp only [editsOf_cons, ih hrest]
        split
        · next heq => rw [if_neg fun h => hne (heq.symm.trans h)]
        · rfl

/-- Edits of a file that are added to a change stand behind those that the file has. -/
theorem editsOf_foldl_push (f : FileId) (es : List TextEdit) {c : SourceChange}
    (hc : (c.edits.map (·.1)).Pairwise (· < ·)) :
    ((es.foldl (fun c e => c.push f e) c).edits.map (·.1)).Pairwise (· < ·) ∧
      ∀ g, editsOf (es.foldl (fun c e => c.push f e) c).edits g =
        if g = f then editsOf c.edits g ++ es else editsOf c.edits g := by
  induction es generalizing c with
  | nil => exact ⟨hc, by simp⟩
  | cons e es ih =>
    obtain ⟨hkeys, hedits⟩ := ih (c := c.push f e) (pairwise_keys_addEdit hc)
    refine ⟨hkeys, fun g => ?_⟩
    rw [List.foldl_cons, hedits, SourceChange.push]
    simp only [editsOf_addEdit hc]
    split <;> simp

namespace SourceChange

/-- A change that fits a workspace names files of it only. -/
structure Meant (w : Workspace) (c : SourceChange) : Prop extends c.Fits w where
  exists_file : ∀ f ∈ c.edits.map (·.1), ∃ source, w.file? f = some source

theorem Meant.empty (w : Workspace) : (SourceChange.empty w.revision).Meant w :=
  ⟨.empty w, fun _ h => absurd h List.not_mem_nil⟩

theorem Meant.push {source : SourceFile} (hc : c.Meant w) (hfile : w.file? f = some source)
    (he : e.span.FitsIn source.text) : (c.push f e).Meant w := by
  refine ⟨hc.toFits.push fun source' hfile' => ?_, fun g hg => ?_⟩
  · rw [hfile, Option.some.injEq] at hfile'
    exact hfile' ▸ he
  · obtain rfl | hg := mem_keys_addEdit.1 hg
    · exact ⟨source, hfile⟩
    · exact hc.exists_file g hg

theorem Meant.foldl_push {source : SourceFile} (hc : c.Meant w) (hfile : w.file? f = some source)
    (hes : Placed source.text es) : (es.foldl (fun c e => c.push f e) c).Meant w := by
  induction es generalizing c with
  | nil => exact hc
  | cons e es ih =>
    exact ih (hc.push hfile (hes.fitsIn e List.mem_cons_self))
      (hes.of_subset fun d => List.mem_cons_of_mem _)

/-- Edits of files pass if those of each file can all be made. -/
theorem checkFiles_outcome (length : FileId → Option Nat) (edits : List (FileId × List TextEdit))
    (h : ∀ x ∈ edits, ∃ n, length x.1 = some n ∧
      ∀ e ∈ x.2, e.span.start ≤ e.span.stop ∧ e.span.stop ≤ n) :
    (checkFiles length edits).1 =
      if ∀ x ∈ edits, AllBeside x.2 then .ok () else .error .overlappingEdits := by
  induction edits with
  | nil => simp [checkFiles]
  | cons x edits ih =>
    obtain ⟨f, es⟩ := x
    obtain ⟨⟨n, hn, hes⟩, hrest⟩ := List.forall_mem_cons.1 h
    dsimp only at hn hes
    simp only [checkFiles, hn, checkEdits_sortEdits (fun e he => (hes e he).1) fun e he => (hes e he).2]
    by_cases hbeside : AllBeside es
    · have hall : (∀ x ∈ (f, es) :: edits, AllBeside x.2) ↔ ∀ x ∈ edits, AllBeside x.2 := by
        simp [hbeside]
      rw [if_pos hbeside]
      simp only [hall]
      exact ih hrest
    · rw [if_neg hbeside, if_neg fun h => hbeside (h (f, es) List.mem_cons_self)]

/-- A change that fits a workspace passes its checks if the edits of each file can all be made. -/
theorem Meant.validate_outcome (hc : c.Meant w) :
    ((∀ f, AllBeside (editsOf c.edits f)) ∧
      ∃ c', c.validate (fun f => (w.file? f).map (·.size)) = (.ok (), c')) ∨
    (¬ (∀ f, AllBeside (editsOf c.edits f)) ∧
      ∃ c', c.validate (fun f => (w.file? f).map (·.size)) = (.error .overlappingEdits, c')) := by
  have hlookup : (∀ x ∈ c.edits, AllBeside x.2) ↔ ∀ f, AllBeside (editsOf c.edits f) := by
    constructor
    · intro h f
      cases hf : c.edits.lookup f with
      | none => simp [editsOf, hf, AllBeside]
      | some es => simpa [editsOf, hf] using h _ (mem_of_lookup hf)
    · rintro h ⟨f, es⟩ hes
      have hf := lookup_eq_some_of_mem (hc.pairwise_keys.imp Nat.ne_of_lt) hes
      simpa [editsOf, hf] using h f
  have houtcome := checkFiles_outcome (fun f => (w.file? f).map (·.size)) c.edits ?_
  · rw [validate]
    generalize checkFiles _ c.edits = answer at houtcome
    obtain ⟨outcome, edits⟩ := answer
    dsimp only at houtcome ⊢
    by_cases h : ∀ f, AllBeside (editsOf c.edits f)
    · exact .inl ⟨h, _, by rw [houtcome, if_pos (hlookup.2 h)]⟩
    · exact .inr ⟨h, _, by rw [houtcome, if_neg fun hall => h (hlookup.1 hall)]⟩
  · rintro ⟨f, es⟩ hes
    obtain ⟨source, hfile⟩ := hc.exists_file f (List.mem_map.2 ⟨_, hes, rfl⟩)
    refine ⟨source.size, by simp [hfile], fun e he => ?_⟩
    have hfits := hc.fitsIn f e ⟨es, hes, he⟩ source hfile
    refine ⟨hfits.1, ?_⟩
    obtain ⟨before, behind, htext, hbefore⟩ := isBoundary_iff.1 hfits.2.2
    rw [SourceFile.size, utf8ByteSize_eq_byteLength, htext, byteLength_append, hbefore]
    exact Nat.le_add_right _ _

end SourceChange

/-! ## The sites of all files -/

/-- The sites of a file that are rewritten. -/
def sitesIn (sites : List Site) (f : FileId) : List Site := changing (sites.filter (·.file == f))

/-- The sites of each file are compatible, and those in a file are beside a place in it. -/
structure Consistent (file : FileId) (place : Span) (sites : List Site) : Prop where
  compatible : sites.Pairwise fun s t => s.file = t.file → s.Compatible t
  beside : ∀ s ∈ sites, s.file = file → s.span.Beside place

theorem mem_sitesIn {s : Site} : s ∈ sitesIn sites f ↔ s ∈ changing sites ∧ s.file = f := by
  simp only [sitesIn, changing, List.mem_filter, beq_iff_eq]
  exact and_right_comm

theorem consistent_iff : Consistent f place (changing sites) ↔
    (∀ g, (sitesIn sites g).Pairwise Site.Compatible) ∧
      ∀ s ∈ sitesIn sites f, s.span.Beside place := by
  have hfilter (g : FileId) : sitesIn sites g = (changing sites).filter (·.file == g) := by
    rw [sitesIn, changing, changing, List.filter_filter, List.filter_filter]
    exact List.filter_congr fun s _ => Bool.and_comm _ _
  have hpairs : (∀ g, (sitesIn sites g).Pairwise Site.Compatible) ↔
      (changing sites).Pairwise fun s t => s.file = t.file → s.Compatible t := by
    simp only [hfilter, List.pairwise_filter, beq_iff_eq]
    rw [List.pairwise_iff_forall_sublist]
    constructor
    · exact fun h s t hst hfile => List.pairwise_iff_forall_sublist.1 (h t.file) hst hfile rfl
    · exact fun h g => List.pairwise_iff_forall_sublist.2 fun hst hs ht => h hst (hs.trans ht.symm)
  rw [hpairs]
  constructor
  · exact fun h => ⟨h.compatible, fun s hs => h.beside s (mem_sitesIn.1 hs).1 (mem_sitesIn.1 hs).2⟩
  · exact fun h => ⟨h.1, fun s hs hfile => h.2 s (mem_sitesIn.2 ⟨hs, hfile⟩)⟩

/-- The sites of a file are rewritten if they are compatible. If not, two edits overlap, at the latest
when all edits are there. -/
theorem rewriteFile_outcome {source : SourceFile} (plan : Plan) (config : Config)
    (hfile : w.file? f = some source) (hc : c.Meant w)
    (hs : ∀ s ∈ sitesIn sites f, s.Settled source.text) :
    (∃ c' es, rewriteFile w plan config sites c f = .ok c' ∧ c'.Meant w ∧ Rewrites (sitesIn sites f) es ∧
      ∀ g, editsOf c'.edits g = if g = f then editsOf c.edits g ++ es else editsOf c.edits g) ∨
    (rewriteFile w plan config sites c f = .error .overlappingEdits ∧
      ¬ (sitesIn sites f).Pairwise Site.Compatible) := by
  rw [rewriteFile, hfile]
  dsimp only
  obtain ⟨es, hes, hplaced, hrewrites⟩ | ⟨hfails, hclash⟩ :=
    rewriteSites_outcome plan config hs
  · exact .inl ⟨_, es, by rw [hes]; rfl, hc.foldl_push hfile hplaced, hrewrites,
      (editsOf_foldl_push f es hc.pairwise_keys).2⟩
  · exact .inr ⟨by rw [hfails]; rfl, hclash⟩

theorem foldlM_rewriteFile_outcome {files : List FileId} (plan : Plan) (config : Config)
    (hnodup : files.Nodup) (hc : c.Meant w)
    (hfiles : ∀ f ∈ files, ∃ source, w.file? f = some source ∧
      ∀ s ∈ sitesIn sites f, s.Settled source.text) :
    (∃ c', files.foldlM (rewriteFile w plan config sites) c = .ok c' ∧ c'.Meant w ∧
      (∀ f ∉ files, editsOf c'.edits f = editsOf c.edits f) ∧
      ∀ f ∈ files, ∃ es, editsOf c'.edits f = editsOf c.edits f ++ es ∧
        Rewrites (sitesIn sites f) es) ∨
    (files.foldlM (rewriteFile w plan config sites) c = .error .overlappingEdits ∧
      ∃ f, ¬ (sitesIn sites f).Pairwise Site.Compatible) := by
  induction files generalizing c with
  | nil => exact .inl ⟨c, rfl, hc, fun _ _ => rfl, by simp⟩
  | cons f files ih =>
    obtain ⟨hnew, hnodup⟩ := List.nodup_cons.1 hnodup
    obtain ⟨⟨source, hfile, hs⟩, hrest⟩ := List.forall_mem_cons.1 hfiles
    rw [List.foldlM_cons]
    obtain ⟨c₁, es, hfirst, hmeant, hrewrites, hedits⟩ | ⟨hfails, hclash⟩ :=
      rewriteFile_outcome plan config hfile hc hs
    · rw [hfirst]
      obtain ⟨c', hrun, hmeant', hothers, hall⟩ | ⟨hrun, hclash⟩ := ih hnodup hmeant hrest
      · refine .inl ⟨c', hrun, hmeant', fun g hg => ?_, List.forall_mem_cons.2 ⟨⟨es, ?_, hrewrites⟩,
          fun g hg => ?_⟩⟩
        · rw [List.mem_cons, not_or] at hg
          rw [hothers g hg.2, hedits, if_neg hg.1]
        · rw [hothers f hnew, hedits, if_pos rfl]
        · obtain ⟨ds, hds, hrewrites'⟩ := hall g hg
          have hne : g ≠ f := ne_of_mem_of_not_mem hg hnew
          exact ⟨ds, by rw [hds, hedits, if_neg hne], hrewrites'⟩
      · exact .inr ⟨hrun, hclash⟩
    · exact .inr ⟨by rw [hfails]; rfl, f, hclash⟩

/-! ## Conversions -/

/-- Where something is to be converted, there is a declaration to be edited. -/
theorem exists_declarationEdit? (hw : w.Coherent) (h : planAt (.ofWorkspace w) p = .ok (target, plan)) :
    ∃ e, declarationEdit? (.ofWorkspace w) target plan = some e := by
  obtain ⟨shape, hshape, hplan⟩ := planAt_eq_ok h
  obtain ⟨n, own, hn, hown, rfl⟩ := Shape.ofTarget?_eq_some hshape
  obtain ⟨name, hname, -⟩ := Option.bind_eq_some_iff.1 hown
  -- Only fields with names are planned for.
  obtain ⟨list, hlist, hkind⟩ : ∃ list, n.fieldList? = some list ∧ list.kind = .recordFieldList := by
    rw [Shape.ofNode] at hplan
    split at hplan
    · rw [Plan.ofShape] at hplan
      split at hplan <;> cases hplan
    · next list hlist =>
      split at hplan
      · next hkind => exact ⟨list, hlist, hkind⟩
      · rw [Plan.ofShape] at hplan
        split at hplan <;> cases hplan
  rw [declarationEdit?, hn, Option.bind_some]
  cases target with
  | decl d =>
    obtain ⟨anchor, hanchor⟩ : ∃ anchor, fieldAnchor? n = some anchor := by
      rw [fieldAnchor?]
      split
      · exact ⟨_, rfl⟩
      · exact ⟨_, by rw [hname]; rfl⟩
    obtain ⟨decl, -, hholds⟩ := hw.holds_of_node? hn
    obtain ⟨clause, hclause⟩ := hholds.exists_clauseBehind? (Workspace.kind_of_node? hn) hanchor
    exact ⟨_, structEdit?_eq hanchor hclause _⟩
  | variant d i => simp [variantEdit?, hlist, hname, hkind]

/-- The file that a target is declared in. -/
def Target.file (ds : Decls) (target : Target) : FileId :=
  ((ds.decl? target.owner).map (·.file)).getD 0

/-- What keeps the edits of a conversion from overlapping: of its sites, those in one file are compatible,
and those in the file of the declaration are beside the part of it that is replaced. -/
def ConsistentAt (w : Workspace) (target : Target) (plan : Plan) (sites : List Site) : Prop :=
  ∀ e ∈ declarationEdit? (.ofWorkspace w) target plan,
    Consistent (target.file (.ofWorkspace w)) e.span (changing sites)

/-- An edit can be made together with those of all files if it is beside those of its own file. -/
theorem allBeside_push (hc : (c.edits.map (·.1)).Pairwise (· < ·)) :
    (∀ g, AllBeside (editsOf (c.push f e).edits g)) ↔
      (∀ g, AllBeside (editsOf c.edits g)) ∧ ∀ d ∈ editsOf c.edits f, d.span.Beside e.span := by
  have hconcat (es : List TextEdit) :
      AllBeside (es ++ [e]) ↔ AllBeside es ∧ ∀ d ∈ es, d.span.Beside e.span := by
    simp [AllBeside, List.pairwise_append]
  have hedits (g : FileId) : editsOf (c.push f e).edits g =
      if g = f then editsOf c.edits g ++ [e] else editsOf c.edits g := editsOf_addEdit hc
  constructor
  · intro h
    have hown := h f
    rw [hedits, if_pos rfl, hconcat] at hown
    refine ⟨fun g => ?_, hown.2⟩
    by_cases hg : g = f
    · exact hg ▸ hown.1
    · have hother := h g
      rwa [hedits, if_neg hg] at hother
  · rintro ⟨hall, hown⟩ g
    rw [hedits]
    split
    · next hg => exact (hconcat _).2 ⟨hall g, hg ▸ hown⟩
    · exact hall g

theorem nodup_files (hw : w.Coherent) : (Decls.ofWorkspace w).files.Nodup := by
  rw [Decls.files, (Workspace.foundIn_ofWorkspace w).roots_eq, List.map_map]
  exact hw.keys_nodup

/-- There are no sites elsewhere than in the files that are rewritten. -/
theorem sitesIn_eq_nil (hw : w.Coherent) (hplan : planAt (.ofWorkspace w) p = .ok (target, plan))
    (hclassify : classify plan (references (.ofWorkspace w) target plan.fieldNames) = (sites, []))
    (hf : f ∉ (Decls.ofWorkspace w).files.filter fun f => sites.any (·.file == f)) :
    sitesIn sites f = [] := by
  rw [List.eq_nil_iff_forall_not_mem]
  intro s hs
  obtain ⟨hmem, rfl⟩ := mem_sitesIn.1 hs
  obtain ⟨hmem, -⟩ := List.mem_filter.1 hmem
  obtain ⟨shape, -, hshape⟩ := planAt_eq_ok hplan
  have hstands := standing_of_classify (fun r => standing_of_mem_references hw) hshape hclassify hmem
  obtain ⟨n, ⟨source, hfile, -⟩, -⟩ := hstands.exists_node
  refine hf (List.mem_filter.2 ⟨?_, List.any_eq_true.2 ⟨s, hmem, beq_self_eq_true _⟩⟩)
  rw [Decls.files, (Workspace.foundIn_ofWorkspace w).roots_eq, List.map_map]
  exact List.mem_map.2 ⟨_, mem_of_lookup hfile, rfl⟩

/-- Once all references can be rewritten, a conversion comes to a change if the sites are consistent, and
overlapping edits are all that it fails by. -/
theorem convert_outcome (hw : w.Coherent) (hplan : planAt (.ofWorkspace w) p = .ok (target, plan))
    (hclassify : classify plan (references (.ofWorkspace w) target plan.fieldNames) = (sites, [])) :
    (ConsistentAt w target plan sites ∧ ∃ c, convert w p config false = .ok c) ∨
      (¬ ConsistentAt w target plan sites ∧
        convert w p config false = .error .overlappingEdits) := by
  obtain ⟨e, he⟩ := exists_declarationEdit? hw hplan
  have hconsistent : ConsistentAt w target plan sites ↔
      Consistent (target.file (.ofWorkspace w)) e.span (changing sites) := by
    simp [ConsistentAt, he]
  have hrun : convert w p config false =
      ((Decls.ofWorkspace w).files.filter fun f => sites.any (·.file == f)).foldlM
        (rewriteFile w plan config sites) (.empty w.revision) >>= fun change =>
          ((change.push (target.file (.ofWorkspace w)) e).validate
            fun f => (w.file? f).map (·.size)).1 >>= fun _ =>
              pure ((change.push (target.file (.ofWorkspace w)) e).validate
                fun f => (w.file? f).map (·.size)).2 := by
    simp only [convert, hplan, Except.mapError, bind, Except.bind, Bool.false_eq_true, if_false,
      hclassify, List.isEmpty_nil, Bool.not_true, he, Target.file]
  have hsettled {g : FileId} {source : SourceFile} (hfile : w.file? g = some source) :
      ∀ s ∈ sitesIn sites g, s.Settled source.text := by
    intro s hs
    obtain ⟨hmem, hin⟩ := mem_sitesIn.1 hs
    obtain ⟨hmem, hkind⟩ := List.mem_filter.1 hmem
    obtain ⟨r, hr, hsite⟩ := exists_reference_of_classify hclassify hmem
    exact settled_of_ofReference hw hplan hr hsite (by simpa using hkind) (hin ▸ hfile)
  have hfiles : ∀ g ∈ (Decls.ofWorkspace w).files.filter fun f => sites.any (·.file == f),
      ∃ source, w.file? g = some source ∧ ∀ s ∈ sitesIn sites g, s.Settled source.text := by
    intro g hg
    obtain ⟨⟨g, root⟩, hroot, rfl⟩ := List.mem_map.1 (List.mem_filter.1 hg).1
    obtain ⟨source, hfile, -⟩ := hw.exists_source_of_mem_roots hroot
    exact ⟨source, hfile, hsettled hfile⟩
  obtain ⟨n, hn, -⟩ := Option.bind_eq_some_iff.1 he
  obtain ⟨decl, hdecl, source, hfile, -⟩ := hw.holds_of_node? hn
  have hown : target.file (.ofWorkspace w) = decl.file := by
    rw [Target.file, show (Decls.ofWorkspace w).decl? target.owner = some decl from hdecl]
    rfl
  rw [← hown] at hfile
  rw [hconsistent, consistent_iff, hrun]
  obtain ⟨c, hfold, hmeant, hothers, hall⟩ | ⟨hfold, g, hclash⟩ :=
    foldlM_rewriteFile_outcome plan config ((nodup_files hw).filter _) (.empty w) hfiles
  · have hrewrites (g : FileId) : Rewrites (sitesIn sites g) (editsOf c.edits g) := by
      by_cases hg : g ∈ (Decls.ofWorkspace w).files.filter fun f => sites.any (·.file == f)
      · obtain ⟨es, hes, hrewrites⟩ := hall g hg
        rw [hes]
        exact hrewrites
      · rw [hothers g hg, sitesIn_eq_nil hw hplan hclassify hg]
        exact ⟨by simp [editsOf, SourceChange.empty, AllBeside], by simp [editsOf, SourceChange.empty]⟩
    have hpushed : (∀ g, AllBeside (editsOf (c.push (target.file (.ofWorkspace w)) e).edits g)) ↔
        (∀ g, (sitesIn sites g).Pairwise Site.Compatible) ∧
          ∀ s ∈ sitesIn sites (target.file (.ofWorkspace w)), s.span.Beside e.span := by
      simp only [← (hrewrites _).allBeside_iff, ← (hrewrites _).beside_iff]
      exact allBeside_push hmeant.pairwise_keys
    have hmeant' := hmeant.push hfile (fitsIn_of_declarationEdit? hw he hfile)
    rw [hfold, ← hpushed]
    obtain ⟨hbeside, c', hc'⟩ | ⟨hclash, c', hc'⟩ := hmeant'.validate_outcome
    · exact .inl ⟨hbeside, c', by simp only [bind, Except.bind, hc']; rfl⟩
    · exact .inr ⟨hclash, by simp only [bind, Except.bind, hc']⟩
  · rw [hfold]
    exact .inr ⟨fun h => hclash (h.1 g), rfl⟩

/-- A conversion ends before anything is rewritten, or all references can be rewritten. -/
theorem convert_ends_early_or (w : Workspace) (p : FilePosition) (config : Config) (cancelled : Bool) :
    (∃ err, convert w p config cancelled = .error err ∧ (err = .cancelled ∨
      (∃ o, planAt (.ofWorkspace w) p = .error o ∧ err = .notApplicable o) ∨
        ∃ usages, err = .unsupportedUsage usages)) ∨
    cancelled = false ∧ ∃ target plan sites, planAt (.ofWorkspace w) p = .ok (target, plan) ∧
      classify plan (references (.ofWorkspace w) target plan.fieldNames) = (sites, []) := by
  cases hplan : planAt (.ofWorkspace w) p with
  | error o =>
    refine .inl ⟨.notApplicable o, ?_, .inr (.inl ⟨o, rfl, rfl⟩)⟩
    simp only [convert, hplan, Except.mapError, bind, Except.bind]
  | ok found =>
    obtain ⟨target, plan⟩ := found
    cases cancelled with
    | true =>
      refine .inl ⟨.cancelled, ?_, .inl rfl⟩
      simp only [convert, hplan, Except.mapError, bind, Except.bind, if_true, throw, throwThe,
        MonadExceptOf.throw]
    | false =>
      generalize hclassify :
        classify plan (references (.ofWorkspace w) target plan.fieldNames) = classes
      obtain ⟨sites, usages⟩ := classes
      cases usages with
      | nil => exact .inr ⟨rfl, target, plan, sites, rfl, hclassify⟩
      | cons u us =>
        refine .inl ⟨.unsupportedUsage (u :: us), ?_, .inr (.inr ⟨_, rfl⟩)⟩
        simp only [convert, hplan, Except.mapError, bind, Except.bind, Bool.false_eq_true, if_false,
          hclassify, List.isEmpty_cons, Bool.not_false, if_true, throw, throwThe, MonadExceptOf.throw]

/-- **What a conversion can fail by once all references can be rewritten.** No edit is out of bounds and no
file is unknown. Edits overlap if two sites of a file are not compatible, as one of them is in a part of
the other that is not copied, or if a site is in the way of the declaration; otherwise they do not. -/
theorem convert_overlaps_iff (hw : w.Reachable) (p : FilePosition) (config : Config) (cancelled : Bool) :
    (∀ err, convert w p config cancelled = .error err → err ≠ .editOutOfBounds ∧ err ≠ .unknownFile) ∧
    (convert w p config cancelled = .error .overlappingEdits ↔
      cancelled = false ∧ ∃ target plan sites, planAt (.ofWorkspace w) p = .ok (target, plan) ∧
        classify plan (references (.ofWorkspace w) target plan.fieldNames) = (sites, []) ∧
        ¬ ConsistentAt w target plan sites) := by
  obtain ⟨err, herr, hearly⟩ | ⟨rfl, target, plan, sites, hplan, hclassify⟩ :=
    convert_ends_early_or w p config cancelled
  · refine ⟨fun err' herr' => ?_, ⟨fun hoverlap => ?_, ?_⟩⟩
    · rw [herr] at herr'
      cases herr'
      obtain rfl | ⟨o, -, rfl⟩ | ⟨usages, rfl⟩ := hearly <;> simp
    · rw [herr] at hoverlap
      cases hoverlap
      simp at hearly
    · rintro ⟨rfl, target, plan, sites, hplan, hclassify, hclash⟩
      obtain ⟨hfits, -⟩ | ⟨-, hfails⟩ := convert_outcome hw.coherent hplan hclassify
      · exact absurd hfits hclash
      · exact hfails
  · obtain ⟨hfits, c, hc⟩ | ⟨hclash, hfails⟩ := convert_outcome hw.coherent hplan hclassify
    · refine ⟨fun err herr => (by rw [hc] at herr; cases herr), ⟨fun hoverlap => ?_, ?_⟩⟩
      · rw [hc] at hoverlap
        cases hoverlap
      · rintro ⟨-, target', plan', sites', hplan', hclassify', hclash⟩
        rw [hplan] at hplan'
        cases hplan'
        rw [hclassify] at hclassify'
        cases hclassify'
        exact absurd hfits hclash
    · refine ⟨fun err herr => ?_, fun _ => ⟨rfl, target, plan, sites, hplan, hclassify, hclash⟩,
        fun _ => hfails⟩
      rw [hfails] at herr
      cases herr
      simp

set_option maxRecDepth 100000 in
/-- A literal in the declaration of its struct is in the way of the fields. -/
theorem convert_overlaps_iff_in_declaration :
    ∃ w : Workspace, w = .ofFiles [("a.rs", "struct S{a:[u8;S{a:1}]}")] ∧ w.Reachable ∧
      ∃ target plan sites, planAt (.ofWorkspace w) ⟨0, 7⟩ = .ok (target, plan) ∧
        classify plan (references (.ofWorkspace w) target plan.fieldNames) = (sites, []) ∧
        ¬ ConsistentAt w target plan sites ∧
        convert w ⟨0, 7⟩ {} false = .error .overlappingEdits := by
  refine ⟨_, rfl, Workspace.reachable_ofFiles _, ?_⟩
  have hread : (planAt (.ofWorkspace (.ofFiles [("a.rs", "struct S{a:[u8;S{a:1}]}")])) ⟨0, 7⟩).toOption.map
      (fun x => (classify x.2 (references (.ofWorkspace (.ofFiles
          [("a.rs", "struct S{a:[u8;S{a:1}]}")])) x.1 x.2.fieldNames),
        (declarationEdit? (.ofWorkspace (.ofFiles [("a.rs", "struct S{a:[u8;S{a:1}]}")])) x.1 x.2).map
          (·.span), x.1.file (.ofWorkspace (.ofFiles [("a.rs", "struct S{a:[u8;S{a:1}]}")])))) =
      some (([⟨0, ⟨15, 21⟩, .construction ⟨15, 16⟩ [(0, .expr ⟨19, 20⟩)] none⟩], []),
        some ⟨8, 23⟩, 0) := by
    decide +kernel
  obtain ⟨⟨target, plan⟩, hplan, hread⟩ := toOption_map_eq_some.1 hread
  simp only [Prod.mk.injEq] at hread
  obtain ⟨hclassify, hedit, hfile⟩ := hread
  obtain ⟨e, he, hspan⟩ := Option.map_eq_some_iff.1 hedit
  have hclash : ¬ ConsistentAt (.ofFiles [("a.rs", "struct S{a:[u8;S{a:1}]}")]) target plan
      [⟨0, ⟨15, 21⟩, .construction ⟨15, 16⟩ [(0, .expr ⟨19, 20⟩)] none⟩] := by
    intro h
    have hbeside := (h e he).beside _ List.mem_cons_self hfile.symm
    rw [hspan] at hbeside
    exact absurd hbeside (by decide)
  refine ⟨target, plan, _, hplan, hclassify, hclash, ?_⟩
  exact (convert_overlaps_iff (Workspace.reachable_ofFiles _) ⟨0, 7⟩ {} false).2.2
    ⟨rfl, target, plan, _, hplan, hclassify, hclash⟩

/-- The references as they are found, those of each kind in the order of the text. -/
def referencesFound (ds : Decls) (target : Target) (fieldNames : List String) : List Reference :=
  ds.roots.flatMap fun (file, root) =>
    let v : View := ⟨ds, file⟩
    let nodes := root.descendants
    v.pathReferences target nodes ++ v.fieldReferences target fieldNames nodes
      ++ v.macroReferences target fieldNames nodes

/-- References that are found in order are not sorted any more. -/
theorem references_of_sorted {ds : Decls} {names : List String}
    (h : (referencesFound ds target names).Pairwise fun r s => r.le s = true) :
    references ds target names = Reference.dedup (referencesFound ds target names) :=
  congrArg Reference.dedup (List.mergeSort_of_pairwise h)

set_option maxRecDepth 100000 in
/-- A text without faults in which a field access stands in the generic arguments of a literal. That part
of the literal is copied as it is, so that the edits of the two overlap. -/
theorem convert_overlaps_in_path :
    (parseFile "struct S{a:u8} const C:S=S{a:1}; fn f(){S::<{ C.a }>{a:1};}").problems = [] ∧
    convert (.ofFiles [("a.rs", "struct S{a:u8} const C:S=S{a:1}; fn f(){S::<{ C.a }>{a:1};}")]) ⟨0, 7⟩
      {} false = .error .overlappingEdits := by
  refine ⟨by decide +kernel, ?_⟩
  have hsorted : (referencesFound (.ofWorkspace (.ofFiles [("a.rs",
      "struct S{a:u8} const C:S=S{a:1}; fn f(){S::<{ C.a }>{a:1};}")])) (.decl 0) ["a"]).Pairwise
        fun r s => r.le s = true := by
    decide +kernel
  have hread : (planAt (.ofWorkspace (.ofFiles [("a.rs",
      "struct S{a:u8} const C:S=S{a:1}; fn f(){S::<{ C.a }>{a:1};}")])) ⟨0, 7⟩).toOption.map
        (fun x => (x.1, x.2.fieldNames, classify x.2 (Reference.dedup (referencesFound (.ofWorkspace
          (.ofFiles [("a.rs", "struct S{a:u8} const C:S=S{a:1}; fn f(){S::<{ C.a }>{a:1};}")]))
            (.decl 0) ["a"])))) =
      some (.decl 0, ["a"], [⟨0, ⟨23, 24⟩, .mention⟩,
        ⟨0, ⟨25, 31⟩, .construction ⟨25, 26⟩ [(0, .expr ⟨29, 30⟩)] none⟩,
        ⟨0, ⟨40, 57⟩, .construction ⟨40, 52⟩ [(0, .expr ⟨55, 56⟩)] none⟩,
        ⟨0, ⟨48, 49⟩, .access 0⟩], []) := by
    decide +kernel
  obtain ⟨⟨target, plan⟩, hplan, hread⟩ := toOption_map_eq_some.1 hread
  obtain ⟨rfl, hread⟩ := Prod.mk.inj hread
  obtain ⟨hnames, hclassify⟩ := Prod.mk.inj hread
  rw [← references_of_sorted hsorted, ← hnames] at hclassify
  obtain ⟨e, he⟩ := exists_declarationEdit? (Workspace.reachable_ofFiles _).coherent hplan
  obtain ⟨hfits, -⟩ | ⟨-, hfails⟩ :=
    convert_outcome (Workspace.reachable_ofFiles _).coherent hplan hclassify
  · exact absurd (hfits e he).compatible (by decide)
  · exact hfails

/-! ## What is offered -/

/-- **A conversion is offered exactly where it applies.** It may be given up or fail in other ways, but what
is offered is never refused as something that cannot be converted. In particular the edit of the
declaration is never missing, in files with syntax errors neither. -/
theorem canConvert_iff (hw : w.Reachable) (p : FilePosition) (config : Config) (cancelled : Bool) :
    (canConvert w p = true ↔ ∀ o, convert w p config cancelled ≠ .error (.notApplicable o)) ∧
      ∀ target plan, planAt (.ofWorkspace w) p = .ok (target, plan) →
        ∃ e, declarationEdit? (.ofWorkspace w) target plan = some e := by
  refine ⟨?_, fun target plan hplan => exists_declarationEdit? hw.coherent hplan⟩
  cases hplan : planAt (.ofWorkspace w) p with
  | error o =>
    have hrefused : convert w p config cancelled = .error (.notApplicable o) := by
      simp only [convert, hplan, Except.mapError, bind, Except.bind]
    simp [canConvert, hplan, hrefused]
  | ok found =>
    simp only [canConvert, hplan, true_iff]
    intro o hrefused
    obtain ⟨err, herr, hearly⟩ | ⟨rfl, target, plan, sites, hplan', hclassify⟩ :=
      convert_ends_early_or w p config cancelled
    · rw [hrefused] at herr
      cases herr
      obtain heq | ⟨o', hplan', -⟩ | ⟨usages, heq⟩ := hearly
      · cases heq
      · rw [hplan] at hplan'
        cases hplan'
      · cases heq
    · obtain ⟨-, c, hc⟩ | ⟨-, hfails⟩ := convert_outcome hw.coherent hplan' hclassify
      · rw [hrefused] at hc
        cases hc
      · rw [hrefused] at hfails
        cases hfails

set_option maxRecDepth 100000 in
/-- A struct with a where clause and without the end of its fields. -/
theorem canConvert_iff_unclosed :
    (parseFile "struct S<T> where T: A, \x7b a: T, ").problems ≠ [] ∧
      canConvert (.ofFiles [("a.rs", "struct S<T> where T: A, \x7b a: T, ")]) ⟨0, 7⟩ = true ∧
      ∀ o, convert (.ofFiles [("a.rs", "struct S<T> where T: A, \x7b a: T, ")]) ⟨0, 7⟩ {} false ≠
        .error (.notApplicable o) := by
  have hoffered :
      canConvert (.ofFiles [("a.rs", "struct S<T> where T: A, \x7b a: T, ")]) ⟨0, 7⟩ = true := by
    decide +kernel
  exact ⟨by decide +kernel, hoffered,
    (canConvert_iff (Workspace.reachable_ofFiles _) ⟨0, 7⟩ {} false).1.1 hoffered⟩

end Reshape
