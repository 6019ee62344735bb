import Reshape.Proofs.Convert.Consistency
import Reshape.Proofs.Convert.Renaming
import Reshape.Proofs.Reordering

/-!
# References and sites file by file

References are gathered from all files, put in order and freed of doublings. Seen from one file, the
other files make no difference to this.

* `filter_references` says what the references in a file are, with nothing of other files in it.
* `sameByGroup_references` is about two tables that differ in the numbers, and `sameByGroup_sites` and
  `perm_usages` about what becomes of the references.
-/

namespace Reshape

variable {ds ds' : Decls} {target : Target} {names : List String} {r s : Reference}
  {rs : List Reference} {f : FileId} {plan : Plan}

/-! ## Order -/

namespace Reference

theorem le_iff : r.le s = true ↔ r.file < s.file ∨ r.file = s.file ∧
    (r.span.start < s.span.start ∨ r.span.start = s.span.start ∧ r.span.stop ≤ s.span.stop) := by
  simp [le]

theorem le_trans (r s t : Reference) (hrs : r.le s = true) (hst : s.le t = true) :
    r.le t = true := by
  rw [le_iff] at *
  grind

theorem le_total (r s : Reference) : (r.le s || s.le r) = true := by
  rw [Bool.or_eq_true, le_iff, le_iff]
  grind

theorem file_le_of_le (h : r.le s = true) : r.file ≤ s.file := by
  rw [le_iff] at h
  exact h.elim Nat.le_of_lt fun h => Nat.le_of_eq h.1

theorem filter_dedupBehind {last : Reference} (f : FileId)
    (h : (last :: rs).Pairwise fun r s => r.file ≤ s.file) :
    (dedup.dedupBehind last rs).filter (·.file == f) =
      if last.file = f then dedup.dedupBehind last (rs.filter (·.file == f))
      else dedup (rs.filter (·.file == f)) := by
  induction rs generalizing last with
  | nil => simp [dedup.dedupBehind, dedup]
  | cons r rs ih =>
    obtain ⟨hlast, hrs⟩ := List.pairwise_cons.1 h
    rw [dedup.dedupBehind, List.filter_cons]
    by_cases hsame : last.samePlace r = true
    · have hfile := (samePlace_iff.1 hsame).1
      rw [if_pos hsame, ih (h.sublist ((List.sublist_cons_self r rs).cons_cons last))]
      by_cases hlf : last.file = f
      · simp [hlf, ← hfile, dedup.dedupBehind, hsame]
      · simp [hlf, ← hfile]
    · rw [if_neg hsame, List.filter_cons, ih hrs]
      by_cases hrf : r.file = f
      · by_cases hlf : last.file = f <;> simp [hrf, hlf, dedup.dedupBehind, hsame, dedup]
      · by_cases hlf : last.file = f
        · -- All that follows is in files behind.
          have hnone : rs.filter (·.file == f) = [] := by
            rw [List.filter_eq_nil_iff]
            intro s hs
            have hbehind := (List.pairwise_cons.1 hrs).1 s hs
            rw [beq_iff_eq]
            rintro rfl
            exact hrf (Nat.le_antisymm hbehind (hlf ▸ hlast r List.mem_cons_self))
          simp [hrf, hlf, hnone, dedup.dedupBehind, dedup]
        · simp [hrf, hlf]

/-- In references that stand file by file, those of a file lose the same doublings as by themselves. -/
theorem filter_dedup (f : FileId) (h : rs.Pairwise fun r s => r.file ≤ s.file) :
    (dedup rs).filter (·.file == f) = dedup (rs.filter (·.file == f)) := by
  cases rs with
  | nil => rfl
  | cons r rs =>
    rw [dedup, List.filter_cons, List.filter_cons, filter_dedupBehind f h]
    by_cases hrf : r.file = f <;> simp [hrf, dedup]

variable {ρ : Renaming}

theorem samePlace_rename : (r.rename ρ).samePlace (s.rename ρ) = r.samePlace s := by
  rw [Bool.eq_iff_iff, samePlace_iff, samePlace_iff]
  exact and_congr_left' ρ.file_injective.eq_iff

theorem dedupBehind_map_rename (last : Reference) :
    dedup.dedupBehind (last.rename ρ) (rs.map (rename ρ)) =
      (dedup.dedupBehind last rs).map (rename ρ) := by
  induction rs generalizing last with
  | nil => rfl
  | cons r rs ih =>
    rw [List.map_cons, dedup.dedupBehind, dedup.dedupBehind, samePlace_rename, ih, ih]
    split <;> rfl

theorem dedup_map_rename : dedup (rs.map (rename ρ)) = (dedup rs).map (rename ρ) := by
  cases rs with
  | nil => rfl
  | cons r rs => exact congrArg (r.rename ρ :: ·) (dedupBehind_map_rename r)

/-- References in one file are put in the same order under other numbers. -/
theorem mergeSort_map_rename (h : ∀ r ∈ rs, r.file = f) :
    (rs.map (rename ρ)).mergeSort le = (rs.mergeSort le).map (rename ρ) := by
  refine (List.map_mergeSort fun r hr s hs => ?_).symm
  rw [Bool.eq_iff_iff, le_iff, le_iff]
  simp [rename, h r hr, h s hs]

end Reference

/-! ## References -/

theorem View.file_of_mem_fileReferences {v : View} {root : Node}
    (h : r ∈ v.fileReferences target names root) : r.file = v.file := by
  simp only [View.fileReferences, List.mem_append, or_assoc] at h
  obtain h | h | h := h
  · obtain ⟨n, -, rfl, -⟩ := View.exists_of_mem_pathReferences h
    rfl
  · obtain ⟨d, -, access, -, -, hfield⟩ := View.exists_of_mem_fieldReferences h
    obtain ⟨n, -, hfile, -⟩ := View.exists_of_fieldReference?_eq_some hfield
    exact hfile
  · obtain ⟨t, rfl⟩ := View.exists_of_mem_macroReferences h
    rfl

/-- The references in a file as they are found. -/
def referencesIn (ds : Decls) (target : Target) (names : List String) (f : FileId) :
    List Reference :=
  ((ds.root? f).map ((View.mk ds f).fileReferences target names)).getD []

theorem file_of_mem_referencesIn (h : r ∈ referencesIn ds target names f) : r.file = f := by
  rw [referencesIn] at h
  cases hroot : ds.root? f with
  | none =>
    rw [hroot] at h
    cases h
  | some root =>
    rw [hroot] at h
    exact View.file_of_mem_fileReferences h

/-- What stands in one place of many, each of which has a name of its own. -/
theorem filter_flatMap_of_lookup {κ α β : Type} [BEq κ] [LawfulBEq κ] {entries : List (κ × α)}
    (hnodup : (entries.map (·.1)).Nodup) {g : κ → α → List β} {group : β → κ}
    (hg : ∀ k a, ∀ b ∈ g k a, group b = k) (k : κ) :
    (entries.flatMap fun x => g x.1 x.2).filter (group · == k) =
      ((entries.lookup k).map (g k)).getD [] := by
  induction entries with
  | nil => rfl
  | cons x entries ih =>
    obtain ⟨i, a⟩ := x
    obtain ⟨hnew, hnodup⟩ := List.nodup_cons.1 hnodup
    rw [List.flatMap_cons, List.filter_append, ih hnodup, List.lookup_cons]
    by_cases hk : k = i
    · have hnone : entries.lookup k = none := by
        rw [List.lookup_eq_none_iff]
        rintro y hy
        rw [bne_iff_ne]
        rintro rfl
        exact hnew (List.mem_map.2 ⟨y, hy, hk⟩)
      rw [hnone, hk, List.filter_eq_self.2 fun b hb => by simp [hg i a b hb]]
      simp
    · have hother : (g i a).filter (group · == k) = [] := by
        rw [List.filter_eq_nil_iff]
        intro b hb
        rw [hg i a b hb, beq_iff_eq]
        exact Ne.symm hk
      rw [hother, beq_eq_false_iff_ne.2 hk, List.nil_append]

/-- The references in a file, with nothing of other files in it. -/
theorem filter_references (hnodup : ds.files.Nodup) (target : Target) (names : List String)
    (f : FileId) : (references ds target names).filter (·.file == f) =
      Reference.dedup ((referencesIn ds target names f).mergeSort Reference.le) := by
  have hsorted := List.pairwise_mergeSort Reference.le_trans Reference.le_total
    (referencesFound ds target names)
  have hfound : (referencesFound ds target names).filter (·.file == f) =
      referencesIn ds target names f :=
    filter_flatMap_of_lookup hnodup (g := fun f => (View.mk ds f).fileReferences target names)
      (fun _ _ _ => View.file_of_mem_fileReferences) f
  rw [← hfound, ← filter_mergeSort Reference.le_trans Reference.le_total]
  exact Reference.filter_dedup f (hsorted.imp Reference.file_le_of_le)

variable {R : Renaming} {ρ : FileId ≃ FileId}

theorem referencesIn_renamed (h : ds.Renamed R ds') (target : Target) (names : List String)
    (f : FileId) : referencesIn ds' (target.rename R) names (R.file f) =
      (referencesIn ds target names f).map (Reference.rename R) := by
  have hview : (View.mk ds f).Renamed R ⟨ds', R.file f⟩ := ⟨h, rfl⟩
  rw [referencesIn, referencesIn, h.root?]
  cases ds.root? f with
  | none => rfl
  | some root => exact hview.fileReferences_eq target names root

/-- Tables that differ in the numbers have the same references in each file. -/
theorem sameByGroup_references (h : ds.Renamed R ds') (hfile : R.file = ρ)
    (hnodup : ds.files.Nodup) (hnodup' : ds'.files.Nodup) (target : Target) (names : List String) :
    SameByGroup ρ (fun r r' => r.rename R = r') (·.file) (·.file) (references ds target names)
      (references ds' (target.rename R) names) := by
  refine .of_filter_eq fun f => ?_
  rw [filter_references hnodup, ← hfile, filter_references hnodup', referencesIn_renamed h,
    Reference.mergeSort_map_rename fun r => file_of_mem_referencesIn, Reference.dedup_map_rename]

/-! ## Sites -/

/-- The usage that a reference is if it cannot be rewritten. -/
def Site.fault? (plan : Plan) (r : Reference) : Option Usage :=
  match Site.ofReference plan r with
  | .ok _ => none
  | .error u => some u

theorem classify_eq (plan : Plan) (rs : List Reference) : classify plan rs =
    (rs.filterMap fun r => (Site.ofReference plan r).toOption, rs.filterMap (Site.fault? plan)) := by
  rw [classify, List.filterMap_map, List.filterMap_map]
  refine Prod.ext (List.filterMap_congr fun r _ => ?_) (List.filterMap_congr fun r _ => ?_)
  · cases h : Site.ofReference plan r <;> simp [Except.toOption, h]
  · cases h : Site.ofReference plan r <;> simp [Site.fault?, h]

/-- A site stands in the file of the reference. -/
theorem Site.file_of_ofReference {site : Site} (h : Site.ofReference plan r = .ok site) :
    site.file = r.file := by
  rw [ofReference] at h
  split at h
  · cases h
  · cases h
  · dsimp only at h
    split at h <;> cases h
    rfl
  · split at h
    · split at h
      · rw [ofLiteral] at h
        split at h
        · obtain ⟨fields, -, h⟩ := bind_eq_ok.1 h
          obtain ⟨base, -, h⟩ := bind_eq_ok.1 h
          cases h
          rfl
        · cases h
      · split at h
        · rw [ofPattern] at h
          split at h
          · split at h
            · cases h
            · obtain ⟨parts, -, h⟩ := bind_eq_ok.1 h
              cases h
              rfl
          · cases h
        · cases h
          rfl
    · cases h
      rfl

theorem sameByGroup_sites
    (h : SameByGroup ρ (fun r r' => Reference.rename R r = r') (·.file) (·.file) rs rs') (plan : Plan) :
    SameByGroup ρ (fun s s' => Site.rename R s = s') (·.file) (·.file) (classify plan rs).1
      (classify plan rs').1 := by
  rw [classify_eq, classify_eq]
  have hgroup (r : Reference) : ∀ s ∈ (Site.ofReference plan r).toOption, s.file = r.file :=
    fun s hs => Site.file_of_ofReference (toOption_eq_some.1 hs)
  refine h.filterMap (fun r r' hr => ?_) hgroup hgroup
  rw [← hr, Site.ofReference_renamed]
  cases Site.ofReference plan r with
  | ok s => exact .some rfl
  | error u => exact .none

/-- The same usages cannot be rewritten, in some order. -/
theorem perm_usages
    (h : SameByGroup ρ (fun r r' => Reference.rename R r = r') (·.file) (·.file) rs rs')
    (hfile : R.file = ρ) (plan : Plan) :
    ((classify plan rs).2.map (Usage.rename R)).Perm (classify plan rs').2 := by
  have hperm : (rs.map (Reference.rename R)).Perm rs' :=
    h.perm fun r => congrFun hfile r.file
  have hfault (r : Reference) : Site.fault? plan (r.rename R) =
      (Site.fault? plan r).map (Usage.rename R) := by
    rw [Site.fault?, Site.fault?, Site.ofReference_renamed]
    cases Site.ofReference plan r <;> rfl
  rw [classify_eq, classify_eq, List.map_filterMap]
  refine List.Perm.trans (.of_eq ?_) (hperm.filterMap _)
  rw [List.filterMap_map]
  exact List.filterMap_congr fun r _ => (hfault r).symm

end Reshape
