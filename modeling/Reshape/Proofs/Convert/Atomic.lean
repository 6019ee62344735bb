import Reshape.Proofs.Convert.Gathering

/-!
# Conversions are carried out in full or not at all

`convert_atomic` is the result: a conversion that fails leaves the workspace as it was, a change that
comes out of one can be carried out, and then the files hold their old texts with the edits made.
Nothing comes out of a conversion that is cancelled from the start.
-/

namespace Reshape

variable {w : Workspace} {c : SourceChange} {plan : Plan} {p : FilePosition} {config : Config}

/-- The edits of a change that comes out of a conversion fit the workspace. They were sorted, file by file,
and passed the checks. -/
theorem fits_of_convert (hw : w.Coherent) {cancelled : Bool}
    (h : convert w p config cancelled = .ok c) :
    ∃ edits, (⟨c.base, edits⟩ : SourceChange).Fits w ∧
      c.edits = edits.map (fun (f, es) => (f, sortEdits es)) ∧
      ∀ f es, (f, es) ∈ edits →
        ∃ n, (w.file? f).map (·.size) = some n ∧ checkEdits n (sortEdits es) = .ok () := by
  obtain ⟨-, target, plan, sites, c₀, e, hplanAt, hclassify, hfold, hdecl, hvalidate⟩ :=
    convert_eq_ok h
  obtain ⟨shape, -, hplan⟩ := planAt_eq_ok hplanAt
  have hsites : ∀ s ∈ sites, s.Standing w plan.size :=
    fun s => standing_of_classify (fun r => standing_of_mem_references hw) hplan hclassify
  have hfits := ((SourceChange.Fits.empty w).foldlM_rewriteFile hsites hfold).push
    fun source hfile => fitsIn_of_declarationEdit? hw hdecl hfile
  rw [SourceChange.validate] at hvalidate
  generalize hchecked : SourceChange.checkFiles _ (c₀.push _ e).edits = answer at hvalidate
  obtain ⟨outcome, edits⟩ := answer
  cases hvalidate
  obtain ⟨hsorted, hall⟩ := SourceChange.checkFiles_ok hchecked
  exact ⟨_, hfits, hsorted, hall⟩

/-- The edits of a change that comes out of a conversion stand between characters. -/
theorem fitsIn_of_convert (hw : w.Coherent) {cancelled : Bool}
    (h : convert w p config cancelled = .ok c) {f : FileId} {e : TextEdit} (he : HasEdit c.edits f e)
    {source : SourceFile} (hfile : w.file? f = some source) : e.span.FitsIn source.text := by
  obtain ⟨edits, hfits, hsorted, -⟩ := fits_of_convert hw h
  obtain ⟨es, hes, he⟩ := he
  rw [hsorted] at hes
  obtain ⟨⟨g, ds⟩, hds, heq⟩ := List.mem_map.1 hes
  cases heq
  exact hfits.fitsIn f e ⟨ds, hds, (List.mergeSort_perm _ _).mem_iff.1 he⟩ source hfile

/-- A change that comes out of a conversion can be carried out. -/
theorem apply_of_convert (hw : w.Coherent) {cancelled : Bool}
    (h : convert w p config cancelled = .ok c) : ∃ w', w.apply c = .ok w' ∧ w.Committed c w' := by
  obtain ⟨edits, hfits, hsorted, hall⟩ := fits_of_convert hw h
  refine Workspace.apply_eq_ok hfits.base_eq ?_ ?_
  · rw [hsorted]
    simp only [List.map_map, Function.comp_def]
    exact hfits.pairwise_keys.imp Nat.ne_of_lt
  · intro x hx
    rw [hsorted] at hx
    obtain ⟨⟨f, es⟩, hes, rfl⟩ := List.mem_map.1 hx
    obtain ⟨n, hn, hcheck⟩ := hall f es hes
    obtain ⟨source, hfile, rfl⟩ := Option.map_eq_some_iff.1 hn
    refine ⟨source, hfile, applyEdits_eq_ok (by rw [sortEdits_idem]; exact hcheck) ?_⟩
    intro e he
    exact hfits.fitsIn f e ⟨es, hes, (List.mergeSort_perm _ _).mem_iff.1 he⟩ source hfile

/-- A conversion is carried out in full or not at all. -/
theorem convert_atomic (hw : w.Reachable) (p : FilePosition) (config : Config) (cancelled : Bool) :
    (∀ e, (runConvert w p config cancelled).1 = .error e →
      (runConvert w p config cancelled).2 = w) ∧
    (∀ c, convert w p config cancelled = .ok c → ∃ w', w.apply c = .ok w' ∧
      runConvert w p config cancelled = (.ok (w.revision + 1), w') ∧ w.Committed c w') ∧
    (∀ c, convert w p config true ≠ .ok c) ∧
    ∀ n, (runConvert w p config true).1 ≠ .ok n := by
  have hcancelled (c : SourceChange) : convert w p config true ≠ .ok c :=
    fun h => by cases (convert_eq_ok h).1
  refine ⟨fun e he => ?_, fun c hc => ?_, hcancelled, fun n hn => ?_⟩
  · rw [runConvert] at he ⊢
    split at he
    · rfl
    · split at he
      · rfl
      · cases he
  · obtain ⟨w', happly, hcommitted⟩ := apply_of_convert hw.coherent hc
    refine ⟨w', happly, ?_, hcommitted⟩
    simp only [runConvert, hc, happly, hcommitted.revision_eq]
  · rw [runConvert] at hn
    split at hn
    · cases hn
    · next c hc => exact hcancelled c hc

set_option maxRecDepth 100000 in
/-- The conversion of a struct with one field is carried out. -/
theorem convert_atomic_struct :
    (Workspace.ofFiles [("a.rs", "struct S{a:u8}")]).Reachable ∧
      ∃ (c : SourceChange) (w' : Workspace), c.edits = [(0, [⟨⟨8, 14⟩, "(u8);"⟩])] ∧
        runConvert (Workspace.ofFiles [("a.rs", "struct S{a:u8}")]) ⟨0, 7⟩ {} false =
          (.ok 2, w') ∧
        (Workspace.ofFiles [("a.rs", "struct S{a:u8}")]).Committed c w' := by
  have hw := Workspace.reachable_ofFiles [("a.rs", "struct S{a:u8}")]
  obtain ⟨-, hcarried, -⟩ := convert_atomic hw ⟨0, 7⟩ {} false
  have hedits : ((convert (.ofFiles [("a.rs", "struct S{a:u8}")]) ⟨0, 7⟩ {} false).toOption.map
      (·.edits)) = some [(0, [⟨⟨8, 14⟩, "(u8);"⟩])] := by
    decide +kernel
  obtain ⟨c, hc, hcedits⟩ := toOption_map_eq_some.1 hedits
  obtain ⟨w', -, hrun, hcommitted⟩ := hcarried c hc
  exact ⟨hw, c, w', hcedits, hrun, hcommitted⟩

end Reshape
