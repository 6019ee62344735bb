import Reshape.Proofs.Convert.Atomic
import Reshape.Proofs.Convert.Consistency

/-!
# What the files hold after a conversion

A file depends on its own sites only, and on the declaration if that stands in it.

* `editsOf_foldlM_rewriteFile` says which edits the sites of a file become, and
  `editsOf_of_convert` which ones a conversion ends up with.
* `Workspace.Committed.file?_eq` is about what is carried out, and `file?_of_convert` puts both
  together.
-/

namespace Reshape

variable {w w' : Workspace} {c c' : SourceChange} {f g : FileId} {e : TextEdit} {es : List TextEdit}
  {plan : Plan} {config : Config} {sites : List Site} {p : FilePosition} {target : Target}
  {source : SourceFile}

/-! ## Edits -/

/-- The edits that files end up with: those that their sites become. -/
theorem editsOf_foldlM_rewriteFile {files : List FileId} (hnodup : files.Nodup)
    (hc : (c.edits.map (·.1)).Pairwise (· < ·))
    (h : files.foldlM (rewriteFile w plan config sites) c = .ok c') :
    (c'.edits.map (·.1)).Pairwise (· < ·) ∧
      (∀ f ∉ files, editsOf c'.edits f = editsOf c.edits f) ∧
      ∀ f ∈ files, ∃ source es, w.file? f = some source ∧
        rewriteSites source.text (sites.filter (·.file == f)) plan config = .ok es ∧
        editsOf c'.edits f = editsOf c.edits f ++ es := by
  induction files generalizing c with
  | nil =>
    obtain rfl := pure_eq_ok.1 h
    exact ⟨hc, fun _ _ => rfl, by simp⟩
  | cons f files ih =>
    obtain ⟨hnew, hnodup⟩ := List.nodup_cons.1 hnodup
    obtain ⟨c₁, hfirst, hrest⟩ := bind_eq_ok.1 h
    obtain ⟨source, es, hfile, hes, rfl⟩ := rewriteFile_eq_ok hfirst
    obtain ⟨hkeys, hpushed⟩ := editsOf_foldl_push f es hc
    obtain ⟨hkeys', hothers, hfiles⟩ := ih hnodup hkeys hrest
    refine ⟨hkeys', fun g hg => ?_, List.forall_mem_cons.2 ⟨⟨source, es, hfile, hes, ?_⟩,
      fun g hg => ?_⟩⟩
    · rw [List.mem_cons, not_or] at hg
      rw [hothers g hg.2, hpushed, if_neg hg.1]
    · rw [hothers f hnew, hpushed, if_pos rfl]
    · obtain ⟨source', es', hfile', hes', hedits⟩ := hfiles g hg
      refine ⟨source', es', hfile', hes', ?_⟩
      rw [hedits, hpushed, if_neg (ne_of_mem_of_not_mem hg hnew)]

theorem editsOf_map_sortEdits (edits : List (FileId × List TextEdit)) (f : FileId) :
    editsOf (edits.map fun (f, es) => (f, sortEdits es)) f = sortEdits (editsOf edits f) := by
  induction edits with
  | nil => exact (List.mergeSort_nil ..).symm
  | cons x edits ih =>
    rw [List.map_cons, editsOf_cons, editsOf_cons, ih]
    split <;> rfl

/-- The edits of a file once the declaration has been edited too. -/
def withDeclaration (place : FileId) (e : TextEdit) (f : FileId) (es : List TextEdit) :
    List TextEdit := if f = place then es ++ [e] else es

theorem editsOf_push_sorted (hc : (c.edits.map (·.1)).Pairwise (· < ·)) (place : FileId)
    (e : TextEdit) (f : FileId) :
    editsOf ((c.push place e).edits.map fun (f, es) => (f, sortEdits es)) f =
      sortEdits (withDeclaration place e f (editsOf c.edits f)) := by
  rw [editsOf_map_sortEdits, SourceChange.push, editsOf_addEdit hc]
  rfl

/-- A file that is not rewritten has no sites. -/
theorem filter_sites_eq_nil (hfile : w.file? f = some source)
    (h : f ∉ (Decls.ofWorkspace w).files.filter fun f => sites.any (·.file == f)) :
    sites.filter (·.file == f) = [] := by
  rw [List.filter_eq_nil_iff]
  intro s hs hin
  refine h (List.mem_filter.2 ⟨?_, List.any_eq_true.2 ⟨s, hs, hin⟩⟩)
  rw [Decls.files, (Workspace.foundIn_ofWorkspace w).roots_eq, List.map_map]
  exact List.mem_map.2 ⟨_, mem_of_lookup hfile, rfl⟩

/-- The edits that a conversion ends up with. -/
theorem editsOf_of_convert (hw : w.Coherent)
    (hplan : planAt (.ofWorkspace w) p = .ok (target, plan))
    (hclassify : classify plan (references (.ofWorkspace w) target plan.fieldNames) = (sites, []))
    (he : declarationEdit? (.ofWorkspace w) target plan = some e)
    (h : convert w p config false = .ok c) :
    (c.edits.map (·.1)).Pairwise (· < ·) ∧ ∀ f source, w.file? f = some source →
      ∃ es, rewriteSites source.text (sites.filter (·.file == f)) plan config = .ok es ∧
        editsOf c.edits f =
          sortEdits (withDeclaration (target.file (.ofWorkspace w)) e f es) := by
  obtain ⟨-, target', plan', sites', c₀, e', hplan', hclassify', hfold, he', hvalidate⟩ :=
    convert_eq_ok h
  rw [hplan] at hplan'
  cases hplan'
  rw [hclassify] at hclassify'
  cases hclassify'
  rw [he] at he'
  cases he'
  obtain ⟨hkeys, hothers, hfiles⟩ :=
    editsOf_foldlM_rewriteFile ((nodup_files hw).filter _) (by simp [SourceChange.empty]) hfold
  rw [SourceChange.validate] at hvalidate
  generalize hchecked : SourceChange.checkFiles _ _ = answer at hvalidate
  obtain ⟨outcome, edits⟩ := answer
  cases hvalidate
  obtain ⟨rfl, -⟩ := SourceChange.checkFiles_ok hchecked
  refine ⟨?_, fun f source hfile => ?_⟩
  · simp only [List.map_map, Function.comp_def]
    exact pairwise_keys_addEdit hkeys
  · rw [editsOf_push_sorted hkeys]
    by_cases hf : f ∈ (Decls.ofWorkspace w).files.filter fun f => sites.any (·.file == f)
    · obtain ⟨source', es, hfile', hes, hedits⟩ := hfiles f hf
      rw [hfile, Option.some.injEq] at hfile'
      subst hfile'
      exact ⟨es, hes, by rw [hedits]; rfl⟩
    · refine ⟨[], ?_, by rw [hothers f hf]; rfl⟩
      rw [filter_sites_eq_nil hfile hf, rewriteSites, List.mergeSort_nil]
      rfl

/-! ## Texts -/

theorem splicedText_nil (text : String) : splicedText text [] = text := by
  rw [splicedText, sortEdits, List.mergeSort_nil, List.foldr_nil, String.ofList_toList]

theorem splicedText_sortEdits (text : String) (es : List TextEdit) :
    splicedText text (sortEdits es) = splicedText text es := by
  rw [splicedText, sortEdits_idem, splicedText]

theorem splicedText_of_sorted (text : String) (h : es.Pairwise fun d e => d.le e = true) :
    splicedText text es = String.ofList (es.foldr TextEdit.splice text.toList) := by
  rw [splicedText, sortEdits, List.mergeSort_of_pairwise h]

/-- A file holds its old text with its edits made. -/
theorem Workspace.Committed.file?_eq (h : w.Committed c w') (hw : w.Coherent)
    (hc : (c.edits.map (·.1)).Nodup) (hfile : w.file? f = some source) :
    w'.file? f = some (.ofText source.path (splicedText source.text (editsOf c.edits f))) := by
  by_cases hf : f ∈ c.edits.map (·.1)
  · obtain ⟨⟨f, es⟩, hes, rfl⟩ := List.mem_map.1 hf
    obtain ⟨source', hfile', hnew⟩ := h.edited f es hes
    rw [hfile, Option.some.injEq] at hfile'
    subst hfile'
    rw [hnew, editsOf, lookup_eq_some_of_mem hc hes, Option.getD_some]
  · rw [h.untouched f hf, editsOf_eq_nil hf, splicedText_nil, hfile]
    exact congrArg some (hw.fresh f source (mem_of_lookup hfile))

/-- There are no files that were not there before. -/
theorem Workspace.Committed.file?_eq_none (h : w.Committed c w') (hfile : w.file? f = none) :
    w'.file? f = none := by
  rw [h.untouched f fun hf => ?_, hfile]
  obtain ⟨⟨f, es⟩, hes, rfl⟩ := List.mem_map.1 hf
  obtain ⟨source, hfile', -⟩ := h.edited f es hes
  rw [hfile] at hfile'
  cases hfile'

/-- What a file holds after a conversion. -/
theorem file?_of_convert (hw : w.Coherent)
    (hplan : planAt (.ofWorkspace w) p = .ok (target, plan))
    (hclassify : classify plan (references (.ofWorkspace w) target plan.fieldNames) = (sites, []))
    (he : declarationEdit? (.ofWorkspace w) target plan = some e)
    (h : convert w p config false = .ok c) (hcommitted : w.Committed c w')
    (hfile : w.file? f = some source) :
    ∃ es, rewriteSites source.text (sites.filter (·.file == f)) plan config = .ok es ∧
      w'.file? f = some (.ofText source.path (splicedText source.text
        (withDeclaration (target.file (.ofWorkspace w)) e f es))) := by
  obtain ⟨hkeys, hedits⟩ := editsOf_of_convert hw hplan hclassify he h
  obtain ⟨es, hes, hown⟩ := hedits f source hfile
  refine ⟨es, hes, ?_⟩
  rw [hcommitted.file?_eq hw (hkeys.imp Nat.ne_of_lt) hfile, hown, splicedText_sortEdits]

/-- The text of the file with a path. -/
def Workspace.textOf? (w : Workspace) (path : String) : Option String :=
  ((w.fileId? path).bind w.file?).map (·.text)

/-- The text that a path has after a conversion. -/
theorem textOf?_runConvert (hw : w.Coherent)
    (hplan : planAt (.ofWorkspace w) p = .ok (target, plan))
    (hclassify : classify plan (references (.ofWorkspace w) target plan.fieldNames) = (sites, []))
    (he : declarationEdit? (.ofWorkspace w) target plan = some e)
    (hconsistent : Consistent (target.file (.ofWorkspace w)) e.span (changing sites))
    {path text : String} (hpath : w.fileId? path = some f) (htext : w.textOf? path = some text)
    (hes : rewriteSites text (sites.filter (·.file == f)) plan config = .ok es) :
    (runConvert w p config false).2.textOf? path =
      some (splicedText text (withDeclaration (target.file (.ofWorkspace w)) e f es)) := by
  obtain ⟨source, hfile, rfl⟩ := Option.map_eq_some_iff.1 htext
  rw [hpath, Option.bind_some] at hfile
  obtain ⟨-, c, hc⟩ | ⟨hclash, -⟩ := convert_outcome hw hplan hclassify
  · obtain ⟨next, happly, hnext⟩ := apply_of_convert hw hc
    obtain ⟨es', hes', hnew⟩ := file?_of_convert hw hplan hclassify he hc hnext hfile
    rw [hes, Except.ok.injEq] at hes'
    have hpath' : next.fileId? path = some f := by rw [Workspace.fileId?, hnext.ids_eq, ← hpath]; rfl
    simp only [runConvert, hc, happly, Workspace.textOf?, hpath', Option.bind_some, hnew,
      Option.map_some, ← hes']
    rfl
  · refine absurd (fun e' he' => ?_) hclash
    rw [he, Option.mem_some] at he'
    exact he' ▸ hconsistent

/-- What a conversion that finds its references in order comes to for a path: its sites, the edit of the
declaration in the file `place`, and the edits of the sites in the file `f` of the path. -/
def FindsInOrder (w : Workspace) (p : FilePosition) (config : Config) (path text : String)
    (names : List String) (target : Target) (sites : List Site) (place f : FileId) (e : TextEdit)
    (es : List TextEdit) : Prop :=
  ((referencesFound (.ofWorkspace w) target names).Pairwise fun r s => r.le s = true) ∧
  w.fileId? path = some f ∧ w.textOf? path = some text ∧
  (planAt (.ofWorkspace w) p).toOption.map (fun x => (x.1, x.2.fieldNames,
    classify x.2 (Reference.dedup (referencesFound (.ofWorkspace w) target names)))) =
      some (target, names, sites, []) ∧
  (planAt (.ofWorkspace w) p).toOption.map (fun x => (x.1.file (.ofWorkspace w),
    declarationEdit? (.ofWorkspace w) x.1 x.2,
    (rewriteSites text (sites.filter (·.file == f)) x.2 config).toOption)) =
      some (place, some e, some es)

instance (w : Workspace) (p : FilePosition) (config : Config) (path text : String)
    (names : List String) (target : Target) (sites : List Site) (place f : FileId) (e : TextEdit)
    (es : List TextEdit) :
    Decidable (FindsInOrder w p config path text names target sites place f e es) :=
  inferInstanceAs (Decidable (_ ∧ _ ∧ _ ∧ _ ∧ _))

theorem FindsInOrder.textOf?_runConvert {names : List String} {path text : String}
    {place : FileId} (h : FindsInOrder w p config path text names target sites place f e es)
    (hw : w.Coherent) (hconsistent : Consistent place e.span (changing sites)) :
    (runConvert w p config false).2.textOf? path =
      some (splicedText text (withDeclaration place e f es)) := by
  obtain ⟨hsorted, hpath, htext, hread, hedits⟩ := h
  obtain ⟨⟨target', plan⟩, hplan, hread⟩ := toOption_map_eq_some.1 hread
  rw [hplan] at hedits
  simp only [Prod.mk.injEq, Except.toOption, Option.map_some, Option.some.injEq] at hread hedits
  obtain ⟨rfl, hnames, hclassify⟩ := hread
  obtain ⟨rfl, he, hes⟩ := hedits
  rw [← references_of_sorted hsorted, ← hnames] at hclassify
  exact Reshape.textOf?_runConvert hw hplan hclassify he hconsistent hpath htext
    (toOption_eq_some.1 hes)

end Reshape
