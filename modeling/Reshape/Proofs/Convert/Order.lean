import Reshape.Proofs.Convert.Listing
import Reshape.Proofs.Convert.Results
import Reshape.Proofs.Decl.Order
import Reshape.Proofs.Workspace.Order

/-!
# Conversions and the order of files

The order in which files are added decides the numbers that they go by. Declarations, references and
sites are the same under other numbers, and so are the new texts.

* `Reordering` is what two workspaces with the same files have in common, with the renaming between
  their tables, and `Reordering.agrees` follows a conversion through both.
* `runConvert_ofFiles_perm` is the result for files that are added in two orders. It asks for all
  methods that a name can mean for a type to stand in one file; `runConvert_ofFiles_order_matters` is
  what happens if they do not.
-/

namespace Reshape

variable {w w' : Workspace} {R : Renaming} {ρ : FileId ≃ FileId} {f : FileId} {e : TextEdit}
  {plan : Plan} {config : Config} {sites sites' : List Site} {usages usages' : List Usage}
  {p : FilePosition} {target : Target}

/-! ## Where a conversion ends -/

theorem convert_of_obstacle {o : Obstacle} (h : planAt (.ofWorkspace w) p = .error o)
    (config : Config) (cancelled : Bool) :
    convert w p config cancelled = .error (.notApplicable o) := by
  simp only [convert, h, Except.mapError, bind, Except.bind]

theorem convert_of_cancelled (h : planAt (.ofWorkspace w) p = .ok (target, plan))
    (config : Config) : convert w p config true = .error .cancelled := by
  simp only [convert, h, Except.mapError, bind, Except.bind, if_true, throw, throwThe,
    MonadExceptOf.throw]

theorem convert_of_usages (h : planAt (.ofWorkspace w) p = .ok (target, plan))
    (hclassify : classify plan (references (.ofWorkspace w) target plan.fieldNames) =
      (sites, usages)) (hne : usages ≠ []) (config : Config) :
    convert w p config false = .error (.unsupportedUsage usages) := by
  simp only [convert, h, Except.mapError, bind, Except.bind, Bool.false_eq_true, if_false, hclassify,
    List.isEmpty_eq_false_iff.2 hne, Bool.not_false, if_true, throw, throwThe, MonadExceptOf.throw]

theorem runConvert_of_error {err : ConversionError} {cancelled : Bool}
    (h : convert w p config cancelled = .error err) :
    runConvert w p config cancelled = (.error err, w) := by
  rw [runConvert, h]

/-! ## Sites -/

theorem rewriteSites_map_rename (text : String) (sites : List Site) (plan : Plan)
    (config : Config) : rewriteSites text (sites.map (Site.rename R)) plan config =
      rewriteSites text sites plan config := by
  have hsorted : (sites.mergeSort Site.le).map (Site.rename R) =
      (sites.map (Site.rename R)).mergeSort Site.le :=
    List.map_mergeSort fun _ _ _ _ => rfl
  have hrun (ss : List Site) : (ss.map (Site.rename R)).forM (rewriteSite text plan config) =
      ss.forM (rewriteSite text plan config) := by
    induction ss with
    | nil => rfl
    | cons s ss ih => exact congrArg (rewriteSite text plan config s >>= fun _ => ·) ih
  rw [rewriteSites, ← hsorted, hrun, ← rewriteSites]

theorem sitesIn_rename
    (h : SameByGroup ρ (fun s s' => Site.rename R s = s') (·.file) (·.file) sites sites')
    (f : FileId) : sitesIn sites' (ρ f) = (sitesIn sites f).map (Site.rename R) := by
  rw [sitesIn, sitesIn, h.filter_eq, changing, changing, List.filter_map]
  rfl

theorem compatible_rename {s t : Site} : (s.rename R).Compatible (t.rename R) ↔ s.Compatible t :=
  .rfl

/-- Sites under other numbers are consistent if they were before. -/
theorem consistent_rename {place : Span}
    (h : SameByGroup ρ (fun s s' => Site.rename R s = s') (·.file) (·.file) sites sites') :
    Consistent (ρ f) place (changing sites') ↔ Consistent f place (changing sites) := by
  rw [consistent_iff, consistent_iff, ← ρ.forall_congr_right]
  simp only [sitesIn_rename h, List.pairwise_map, compatible_rename, List.forall_mem_map]
  rfl

/-! ## Results -/

/-- A usage with the path of its file. -/
def Usage.located (w : Workspace) (u : Usage) : Option String × Span × UsageFault :=
  ((w.file? u.file).map (·.path), u.span, u.fault)

/-- Results of the same kind. Usages that cannot be rewritten are the same, but may be listed in
another order. -/
inductive SameResult (w w' : Workspace) :
    Except ConversionError Nat → Except ConversionError Nat → Prop
  | converted (n n' : Nat) : SameResult w w' (.ok n) (.ok n')
  | refused {usages usages' : List Usage} :
    (usages.map (Usage.located w)).Perm (usages'.map (Usage.located w')) →
    SameResult w w' (.error (.unsupportedUsage usages)) (.error (.unsupportedUsage usages'))
  | failed {err : ConversionError} : err.usages = [] → SameResult w w' (.error err) (.error err)

theorem Workspace.Reordered.textOf?_eq (h : Reordered ρ w w') (hw : w.Tabled) (hw' : w'.Tabled)
    (path : String) : w'.textOf? path = w.textOf? path := by
  rw [textOf?, textOf?, h.fileId?_eq hw hw']
  cases w.fileId? path with
  | none => rfl
  | some f => exact congrArg (Option.map (·.text)) (h f)

/-! ## Conversions -/

/-- Two workspaces hold the same files under other numbers, and the tables of their declarations are
renamed in the same way. -/
structure Reordering (R : Renaming) (ρ : FileId ≃ FileId) (w w' : Workspace) : Prop where
  reachable : w.Reachable
  reachable' : w'.Reachable
  file_eq : R.file = ρ
  reordered : w.Reordered ρ w'
  renamed : (Decls.ofWorkspace w).Renamed R (.ofWorkspace w')

theorem exists_reordering (hw : w.Reachable) (hw' : w'.Reachable) (h : w.Reordered ρ w')
    (hmethods : (Decls.ofWorkspace w).MethodsInOneFile) : ∃ R, Reordering R ρ w w' := by
  have hperm : (w.roots.map (Prod.map ρ id)).Perm w'.roots := by
    have hfiles := (h.perm hw.coherent hw'.coherent).map
      (Prod.map id fun source => Node.ofTree source.parse.tree)
    rw [List.map_map] at hfiles
    rw [Workspace.roots, List.map_map]
    exact hfiles
  have hnodup : (w'.roots.map (·.1)).Nodup := by
    rw [Workspace.roots, List.map_map]
    exact hw'.coherent.keys_nodup
  obtain ⟨R, hfile, hrenamed⟩ := Decls.exists_renamed_of_perm hperm hnodup hmethods
  exact ⟨R, hw, hw', hfile, h, hrenamed⟩

namespace Reordering

theorem located_rename (h : Reordering R ρ w w') (u : Usage) :
    (u.rename R).located w' = u.located w := by
  show ((w'.file? (R.file u.file)).map (·.path), u.span, u.fault) = _
  rw [h.file_eq, h.reordered]
  rfl

/-- What a conversion has to rewrite, under other numbers. -/
theorem classify_eq (h : Reordering R ρ w w') (target : Target) (plan : Plan)
    (hclassify : classify plan (references (.ofWorkspace w) target plan.fieldNames) =
      (sites, usages)) : ∃ sites' usages',
      classify plan (references (.ofWorkspace w') (target.rename R) plan.fieldNames) =
        (sites', usages') ∧
      SameByGroup ρ (fun s s' => Site.rename R s = s') (·.file) (·.file) sites sites' ∧
      (usages.map (Usage.rename R)).Perm usages' := by
  have hrefs := sameByGroup_references h.renamed h.file_eq (nodup_files h.reachable.coherent)
    (nodup_files h.reachable'.coherent) target plan.fieldNames
  have hsites := sameByGroup_sites hrefs plan
  have husages := perm_usages hrefs h.file_eq plan
  rw [hclassify] at hsites husages
  exact ⟨_, _, rfl, hsites, husages⟩

theorem targetFile_eq (h : Reordering R ρ w w')
    (he : declarationEdit? (.ofWorkspace w) target plan = some e) :
    (target.rename R).file (.ofWorkspace w') = ρ (target.file (.ofWorkspace w)) := by
  obtain ⟨n, hn, -⟩ := Option.bind_eq_some_iff.1 he
  obtain ⟨decl, hdecl, -⟩ := h.reachable.coherent.holds_of_node? hn
  have hrel := h.renamed.decl? target.owner
  rw [hdecl] at hrel
  obtain ⟨decl', hdecl', hcopy⟩ := exists_of_rel_some hrel
  rw [Target.file, Target.file, Target.owner_rename, hdecl, hdecl', Option.map_some,
    Option.map_some, Option.getD_some, Option.getD_some, hcopy.file, h.file_eq]

/-- Once all usages can be rewritten, both conversions come to a change or both to overlapping
edits. -/
theorem convert_outcome (h : Reordering R ρ w w') (config : Config)
    (hplan : planAt (.ofWorkspace w) p = .ok (target, plan))
    (hclassify : classify plan (references (.ofWorkspace w) target plan.fieldNames) = (sites, []))
    (hplan' : planAt (.ofWorkspace w') ⟨ρ p.file, p.offset⟩ = .ok (target.rename R, plan))
    (hclassify' : classify plan (references (.ofWorkspace w') (target.rename R) plan.fieldNames) =
      (sites', []))
    (hsites : SameByGroup ρ (fun s s' => Site.rename R s = s') (·.file) (·.file) sites sites') :
    ((∃ c, convert w p config false = .ok c) ∧
      ∃ c', convert w' ⟨ρ p.file, p.offset⟩ config false = .ok c') ∨
    (convert w p config false = .error .overlappingEdits ∧
      convert w' ⟨ρ p.file, p.offset⟩ config false = .error .overlappingEdits) := by
  have hconsistent : ConsistentAt w' (target.rename R) plan sites' ↔
      ConsistentAt w target plan sites := by
    rw [ConsistentAt, ConsistentAt, declarationEdit?_renamed h.renamed]
    refine forall₂_congr fun e he => ?_
    rw [h.targetFile_eq he, consistent_rename hsites]
  obtain ⟨hfits, hok⟩ | ⟨hclash, hfails⟩ :
      (_ ∧ ∃ c, convert w p config false = .ok c) ∨ _ :=
    Reshape.convert_outcome h.reachable.coherent hplan hclassify <;>
  obtain ⟨hfits', hok'⟩ | ⟨hclash', hfails'⟩ :
      (_ ∧ ∃ c, convert w' ⟨ρ p.file, p.offset⟩ config false = .ok c) ∨ _ :=
    Reshape.convert_outcome h.reachable'.coherent hplan' hclassify'
  · exact .inl ⟨hok, hok'⟩
  · exact absurd (hconsistent.2 hfits) hclash'
  · exact absurd (hconsistent.1 hfits') hclash
  · exact .inr ⟨hfails, hfails'⟩

/-- Conversions that come to changes give all files the same new texts. -/
theorem committed (h : Reordering R ρ w w') {c c' : SourceChange} {next next' : Workspace}
    (hplan : planAt (.ofWorkspace w) p = .ok (target, plan))
    (hclassify : classify plan (references (.ofWorkspace w) target plan.fieldNames) = (sites, []))
    (hplan' : planAt (.ofWorkspace w') ⟨ρ p.file, p.offset⟩ = .ok (target.rename R, plan))
    (hclassify' : classify plan (references (.ofWorkspace w') (target.rename R) plan.fieldNames) =
      (sites', []))
    (hsites : SameByGroup ρ (fun s s' => Site.rename R s = s') (·.file) (·.file) sites sites')
    (hc : convert w p config false = .ok c)
    (hc' : convert w' ⟨ρ p.file, p.offset⟩ config false = .ok c') (hnext : w.Committed c next)
    (hnext' : w'.Committed c' next') : next.Reordered ρ next' := by
  obtain ⟨e, he⟩ := exists_declarationEdit? h.reachable.coherent hplan
  have he' : declarationEdit? (.ofWorkspace w') (target.rename R) plan = some e :=
    (declarationEdit?_renamed h.renamed target plan).trans he
  intro f
  cases hfile : w.file? f with
  | none =>
    rw [hnext.file?_eq_none hfile, hnext'.file?_eq_none ((h.reordered f).trans hfile)]
  | some source =>
    obtain ⟨es, hes, hnew⟩ :=
      file?_of_convert h.reachable.coherent hplan hclassify he hc hnext hfile
    obtain ⟨es', hes', hnew'⟩ := file?_of_convert h.reachable'.coherent hplan' hclassify' he' hc'
      hnext' ((h.reordered f).trans hfile)
    rw [hsites.filter_eq, rewriteSites_map_rename, hes, Except.ok.injEq] at hes'
    rw [hnew, hnew', ← hes', h.targetFile_eq he, withDeclaration, withDeclaration]
    simp only [ρ.injective.eq_iff]

/-- What two conversions have come to: the same kind of result, and the same files under other
numbers. -/
def Agrees (ρ : FileId ≃ FileId) (w w' : Workspace)
    (x x' : Except ConversionError Nat × Workspace) : Prop :=
  SameResult w w' x.1 x'.1 ∧ x.2.Reordered ρ x'.2

/-- Both conversions fail in the same way. -/
theorem agrees_of_error (h : Reordering R ρ w w') {p' : FilePosition} {err : ConversionError}
    {cancelled : Bool} (hw : convert w p config cancelled = .error err)
    (hw' : convert w' p' config cancelled = .error err) (hnone : err.usages = []) :
    Agrees ρ w w' (runConvert w p config cancelled) (runConvert w' p' config cancelled) := by
  rw [runConvert_of_error hw, runConvert_of_error hw']
  exact ⟨.failed hnone, h.reordered⟩

/-- Both conversions list the usages that cannot be rewritten. -/
theorem agrees_of_usages (h : Reordering R ρ w w') {p' : FilePosition}
    (hw : convert w p config false = .error (.unsupportedUsage usages))
    (hw' : convert w' p' config false = .error (.unsupportedUsage usages'))
    (husages : (usages.map (Usage.rename R)).Perm usages') :
    Agrees ρ w w' (runConvert w p config false) (runConvert w' p' config false) := by
  rw [runConvert_of_error hw, runConvert_of_error hw']
  refine ⟨.refused ?_, h.reordered⟩
  have hlocated := husages.map (Usage.located w')
  rw [List.map_map] at hlocated
  refine List.Perm.trans (.of_eq (List.map_congr_left fun u _ => ?_)) hlocated
  exact (h.located_rename u).symm

/-- All usages can be rewritten in both workspaces. -/
theorem agrees_of_sites (h : Reordering R ρ w w') (config : Config)
    (hplan : planAt (.ofWorkspace w) p = .ok (target, plan))
    (hclassify : classify plan (references (.ofWorkspace w) target plan.fieldNames) = (sites, []))
    (hplan' : planAt (.ofWorkspace w') ⟨ρ p.file, p.offset⟩ = .ok (target.rename R, plan))
    (hclassify' : classify plan (references (.ofWorkspace w') (target.rename R) plan.fieldNames) =
      (sites', []))
    (hsites : SameByGroup ρ (fun s s' => Site.rename R s = s') (·.file) (·.file) sites sites') :
    Agrees ρ w w' (runConvert w p config false)
      (runConvert w' ⟨ρ p.file, p.offset⟩ config false) := by
  obtain ⟨⟨c, hc⟩, c', hc'⟩ | ⟨hfails, hfails'⟩ :=
    h.convert_outcome config hplan hclassify hplan' hclassify' hsites
  · obtain ⟨next, happly, hnext⟩ := apply_of_convert h.reachable.coherent hc
    obtain ⟨next', happly', hnext'⟩ := apply_of_convert h.reachable'.coherent hc'
    have hsame := h.committed hplan hclassify hplan' hclassify' hsites hc hc' hnext hnext'
    simp only [Reshape.runConvert, hc, happly, hc', happly']
    exact ⟨.converted _ _, hsame⟩
  · exact h.agrees_of_error hfails hfails' rfl

/-- A conversion comes to the same kind of result under other numbers, and the workspaces still hold
the same files afterwards. -/
theorem agrees (h : Reordering R ρ w w') (p : FilePosition) (config : Config) (cancelled : Bool) :
    Agrees ρ w w' (runConvert w p config cancelled)
      (runConvert w' ⟨ρ p.file, p.offset⟩ config cancelled) := by
  have hplans := planAt_renamed h.renamed p
  rw [h.file_eq] at hplans
  cases hplan : planAt (.ofWorkspace w) p with
  | error o =>
    rw [hplan] at hplans
    exact h.agrees_of_error (convert_of_obstacle hplan config cancelled)
      (convert_of_obstacle hplans config cancelled) rfl
  | ok found =>
    obtain ⟨target, plan⟩ := found
    rw [hplan] at hplans
    cases cancelled with
    | true =>
      exact h.agrees_of_error (convert_of_cancelled hplan config)
        (convert_of_cancelled hplans config) rfl
    | false =>
      generalize hclassify :
        classify plan (references (.ofWorkspace w) target plan.fieldNames) = classes
      obtain ⟨sites, usages⟩ := classes
      obtain ⟨sites', usages', hclassify', hsites, husages⟩ := h.classify_eq target plan hclassify
      cases usages with
      | cons u us =>
        have hne : usages' ≠ [] := by
          rintro rfl
          exact absurd husages.eq_nil (by simp)
        exact h.agrees_of_usages (convert_of_usages hplan hclassify (by simp) config)
          (convert_of_usages hplans hclassify' hne config) husages
      | nil =>
        obtain rfl := husages.symm.eq_nil
        exact h.agrees_of_sites config hplan hclassify hplans hclassify' hsites

end Reordering

theorem Workspace.Reachable.runConvert (hw : w.Reachable) (p : FilePosition) (config : Config)
    (cancelled : Bool) : (runConvert w p config cancelled).2.Reachable := by
  rw [Reshape.runConvert]
  split
  · exact hw
  · split
    · exact hw
    · next happly => exact hw.apply happly

/-- **The order in which files are added makes no difference to a conversion**, as long as all methods
that a name can mean for a type stand in one file. The result is of the same kind, with the same usages
if some cannot be rewritten, and every path has the same text afterwards. -/
theorem runConvert_ofFiles_perm {files files' : List (String × String)} (hperm : files.Perm files')
    (hnodup : (files.map fun x => pathParts x.1).Nodup)
    (hmethods : (Decls.ofWorkspace (.ofFiles files)).MethodsInOneFile) {path : String}
    {f f' : FileId} (hf : (Workspace.ofFiles files).fileId? path = some f)
    (hf' : (Workspace.ofFiles files').fileId? path = some f') (offset : Nat) (config : Config)
    (cancelled : Bool) :
    SameResult (.ofFiles files) (.ofFiles files')
        (runConvert (.ofFiles files) ⟨f, offset⟩ config cancelled).1
        (runConvert (.ofFiles files') ⟨f', offset⟩ config cancelled).1 ∧
      ∀ q, (runConvert (.ofFiles files') ⟨f', offset⟩ config cancelled).2.textOf? q =
        (runConvert (.ofFiles files) ⟨f, offset⟩ config cancelled).2.textOf? q := by
  have hw := Workspace.reachable_ofFiles files
  have hw' := Workspace.reachable_ofFiles files'
  obtain ⟨ρ, hreordered⟩ := Workspace.exists_reordered_of_perm hperm hnodup
  obtain ⟨R, h⟩ := exists_reordering hw hw' hreordered hmethods
  have hfile : f' = ρ f := by
    rw [hreordered.fileId?_eq hw.tabled hw'.tabled, hf] at hf'
    exact (Option.some.inj hf').symm
  subst hfile
  obtain ⟨hresult, hsame⟩ := h.agrees ⟨f, offset⟩ config cancelled
  exact ⟨hresult, hsame.textOf?_eq (hw.runConvert _ _ _).tabled (hw'.runConvert _ _ _).tabled⟩

set_option maxRecDepth 100000 in
/-- An access to what a method in another file returns is rewritten in both orders of the files. -/
theorem runConvert_ofFiles_perm_method :
    let files := [("a.rs", "fn g(a:A){a.m().f;}struct A;struct T{f:u8}"),
      ("b.rs", "impl A{fn m(&self)->T{}}")]
    let files' := [("b.rs", "impl A{fn m(&self)->T{}}"),
      ("a.rs", "fn g(a:A){a.m().f;}struct A;struct T{f:u8}")]
    files.Perm files' ∧ (files.map fun x => pathParts x.1).Nodup ∧
      (Decls.ofWorkspace (.ofFiles files)).MethodsInOneFile ∧
      (Workspace.ofFiles files).fileId? "a.rs" = some 0 ∧
      (Workspace.ofFiles files').fileId? "a.rs" = some 1 ∧
      SameResult (.ofFiles files) (.ofFiles files') (runConvert (.ofFiles files) ⟨0, 35⟩ {} false).1
        (runConvert (.ofFiles files') ⟨1, 35⟩ {} false).1 ∧
      (runConvert (.ofFiles files') ⟨1, 35⟩ {} false).2.textOf? "a.rs" =
        some "fn g(a:A){a.m().0;}struct A;struct T(u8);" := by
  intro files files'
  have hperm : files.Perm files' := .swap _ _ _
  have hnodup : (files.map fun x => pathParts x.1).Nodup := by decide +kernel
  have hmethods : (Decls.ofWorkspace (.ofFiles files)).MethodsInOneFile := by decide +kernel
  have hpath' : (Workspace.ofFiles files').fileId? "a.rs" = some 1 := by decide +kernel
  have hrun : FindsInOrder (.ofFiles files) ⟨0, 35⟩ {} "a.rs"
      "fn g(a:A){a.m().f;}struct A;struct T{f:u8}" ["f"] (.decl 1)
      [⟨0, ⟨16, 17⟩, .access 0⟩, ⟨1, ⟨20, 21⟩, .mention⟩] 0 0 ⟨⟨36, 42⟩, "(u8);"⟩
      [⟨⟨16, 17⟩, "0"⟩] := by
    decide +kernel
  obtain ⟨hresult, htexts⟩ :=
    runConvert_ofFiles_perm hperm hnodup hmethods hrun.2.1 hpath' 35 {} false
  refine ⟨hperm, hnodup, hmethods, hrun.2.1, hpath', hresult, ?_⟩
  rw [htexts, hrun.textOf?_runConvert (Workspace.reachable_ofFiles files).coherent
    ⟨by decide, by decide⟩, splicedText_of_sorted _ (by decide)]
  decide +kernel

set_option maxRecDepth 100000 in
/-- Two impl blocks in different files have a method of the same name, and the first one is taken: the
access to what it returns is rewritten or not, depending on the order of the files. -/
theorem runConvert_ofFiles_order_matters :
    let file := ("a.rs", "fn g(a:A){a.m().f;}struct A;struct T{f:u8}")
    let files := [file, ("b.rs", "impl A{fn m(&self)->T{}}"), ("c.rs", "impl A{fn m(&self)->A{}}")]
    let files' := [file, ("c.rs", "impl A{fn m(&self)->A{}}"), ("b.rs", "impl A{fn m(&self)->T{}}")]
    files.Perm files' ∧ (files.map fun x => pathParts x.1).Nodup ∧
      (Workspace.ofFiles files).fileId? "a.rs" = some 0 ∧
      (Workspace.ofFiles files').fileId? "a.rs" = some 0 ∧
      (runConvert (.ofFiles files) ⟨0, 35⟩ {} false).2.textOf? "a.rs" =
        some "fn g(a:A){a.m().0;}struct A;struct T(u8);" ∧
      (runConvert (.ofFiles files') ⟨0, 35⟩ {} false).2.textOf? "a.rs" =
        some "fn g(a:A){a.m().f;}struct A;struct T(u8);" := by
  intro file files files'
  have hrun : FindsInOrder (.ofFiles files) ⟨0, 35⟩ {} "a.rs" file.2 ["f"] (.decl 1)
      [⟨0, ⟨16, 17⟩, .access 0⟩, ⟨1, ⟨20, 21⟩, .mention⟩] 0 0 ⟨⟨36, 42⟩, "(u8);"⟩
      [⟨⟨16, 17⟩, "0"⟩] := by
    decide +kernel
  have hrun' : FindsInOrder (.ofFiles files') ⟨0, 35⟩ {} "a.rs" file.2 ["f"] (.decl 1)
      [⟨2, ⟨20, 21⟩, .mention⟩] 0 0 ⟨⟨36, 42⟩, "(u8);"⟩ [] := by
    decide +kernel
  refine ⟨.cons _ (.swap _ _ _), by decide +kernel, hrun.2.1, hrun'.2.1, ?_, ?_⟩
  · rw [hrun.textOf?_runConvert (Workspace.reachable_ofFiles files).coherent
      ⟨by decide, by decide⟩, splicedText_of_sorted _ (by decide)]
    decide +kernel
  · rw [hrun'.textOf?_runConvert (Workspace.reachable_ofFiles files').coherent
      ⟨by decide, by decide⟩, splicedText_of_sorted _ (by decide)]
    decide +kernel
end Reshape
