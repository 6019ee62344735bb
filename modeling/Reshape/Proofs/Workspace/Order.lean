import Mathlib.Data.List.Induction
import Reshape.Proofs.Reordering
import Reshape.Proofs.Workspace.Table

/-!
# Workspaces whose files were added in another order

The order in which files are added decides the numbers that they go by, and nothing else.

* `file?_ofFiles` says which file goes by which number.
* `Workspace.Reordered` says that two workspaces hold the same files under other numbers, and
  `exists_reordered_of_perm` that this is so for files that were added in any two orders.
-/

namespace Reshape.Workspace

variable {w w' : Workspace} {ρ : FileId ≃ FileId} {files files' : List (String × String)}

/-! ## Numbers -/

theorem ofFiles_concat (files : List (String × String)) (x : String × String) :
    ofFiles (files ++ [x]) = ((ofFiles files).setFile x.1 x.2).2 := by
  rw [ofFiles, List.foldl_append]
  rfl

/-- A file with a new path goes by the next number. -/
theorem setFile_of_fileId?_eq_none {path : String} (h : w.fileId? path = none) (text : String) :
    (w.setFile path text).2.nextId = w.nextId + 1 ∧
      ∀ f, (w.setFile path text).2.file? f =
        if f = w.nextId then some (.ofText path text) else w.file? f := by
  rw [setFile, h]
  exact ⟨rfl, fun f => file?_store _ _ _ _⟩

/-- Files with different paths go by their places. -/
theorem file?_ofFiles (hnodup : (files.map fun x => pathParts x.1).Nodup) :
    (ofFiles files).nextId = files.length ∧
      ∀ f : FileId, (ofFiles files).file? f = files[f]?.map fun x => .ofText x.1 x.2 := by
  induction files using List.reverseRecOn with
  | nil => exact ⟨rfl, fun f => by simp [ofFiles, empty, file?]⟩
  | append_singleton files x ih =>
    rw [List.map_append, List.nodup_append] at hnodup
    obtain ⟨hnodup, -, hnew⟩ := hnodup
    obtain ⟨hnext, hfiles⟩ := ih hnodup
    have hnone : (ofFiles files).fileId? x.1 = none := by
      rw [Option.eq_none_iff_forall_ne_some]
      intro f hf
      obtain ⟨source, hfile, hparts⟩ :=
        partsOf?_eq_some_iff.1 (((reachable_ofFiles files).tabled.lookup_iff _ f).1 hf)
      rw [hfiles] at hfile
      obtain ⟨y, hy, rfl⟩ := Option.map_eq_some_iff.1 hfile
      exact hnew _ (List.mem_map.2 ⟨y, List.mem_of_getElem? hy, rfl⟩) _ List.mem_cons_self hparts
    obtain ⟨hnext', hfiles'⟩ := setFile_of_fileId?_eq_none hnone x.2
    rw [ofFiles_concat]
    refine ⟨by rw [hnext', hnext, List.length_append, List.length_singleton], fun f => ?_⟩
    rw [hfiles', hnext, hfiles]
    split
    · next hf => rw [hf, List.getElem?_concat_length, Option.map_some]
    · next hf =>
      obtain hlt | hgt := Nat.lt_or_gt_of_ne hf
      · rw [List.getElem?_append_left hlt]
      · rw [List.getElem?_eq_none (Nat.le_of_lt hgt),
          List.getElem?_eq_none (by rw [List.length_append]; exact hgt)]

/-! ## Orders -/

/-- The second workspace holds the same files as the first one, under other numbers. -/
def Reordered (ρ : FileId ≃ FileId) (w w' : Workspace) : Prop := ∀ f, w'.file? (ρ f) = w.file? f

namespace Reordered

theorem perm (h : Reordered ρ w w') (hw : w.Coherent) (hw' : w'.Coherent) :
    (w.files.map (Prod.map ρ id)).Perm w'.files := by
  refine (List.perm_ext_iff_of_nodup ?_ hw'.keys_nodup.of_map).2 fun ⟨g, source⟩ => ?_
  · exact hw.keys_nodup.of_map.map (ρ.injective.prodMap Function.injective_id)
  · constructor
    · intro hmem
      obtain ⟨⟨f, source'⟩, hfile, heq⟩ := List.mem_map.1 hmem
      cases heq
      exact mem_of_lookup ((h f).trans (hw.file?_eq_some hfile))
    · intro hmem
      have hfile := h (ρ.symm g)
      rw [ρ.apply_symm_apply, hw'.file?_eq_some hmem] at hfile
      exact List.mem_map.2 ⟨_, mem_of_lookup hfile.symm, by simp⟩

/-- A path leads to the same file. -/
theorem fileId?_eq (h : Reordered ρ w w') (hw : w.Tabled) (hw' : w'.Tabled) (path : String) :
    w'.fileId? path = (w.fileId? path).map ρ := by
  refine Option.ext fun g => ?_
  obtain ⟨f, rfl⟩ := ρ.surjective g
  rw [fileId?, hw'.lookup_iff, partsOf?, h, ← partsOf?, ← hw.lookup_iff, ← fileId?,
    Option.map_eq_some_iff]
  simp

end Reordered

/-- Files that are added in two orders are the same files under other numbers. -/
theorem exists_reordered_of_perm (hperm : files.Perm files')
    (hnodup : (files.map fun x => pathParts x.1).Nodup) :
    ∃ ρ, Reordered ρ (ofFiles files) (ofFiles files') := by
  have hnodup' := (hperm.map fun x => pathParts x.1).nodup_iff.1 hnodup
  obtain ⟨σ, h⟩ := exists_rearranges_of_perm (hperm.map fun x => (pathParts x.1, x))
    (by rwa [List.map_map]) fun x => [x]
  refine ⟨.ofBijective σ h.bijective, fun f => ?_⟩
  have hget := congrArg (Option.map Prod.snd) (h.getElem?_eq f)
  simp only [List.flatMap_map, List.map_cons, List.map_nil,
    ← List.map_eq_flatMap, List.getElem?_map, Option.map_map, Function.comp_def, Prod.map_id,
    id_eq, Option.map_id'] at hget
  rw [(file?_ofFiles hnodup').2, (file?_ofFiles hnodup).2, Equiv.ofBijective_apply, hget]

end Reshape.Workspace
