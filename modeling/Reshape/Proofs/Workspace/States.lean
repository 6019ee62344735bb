import Reshape.Proofs.Outcome
import Reshape.Proofs.Workspace.Splice
import Reshape.Workspace.Basic

/-!
# The states of a workspace

A workspace changes by its operations only.

* `Workspace.Reachable` are the workspaces that operations lead to from the empty one.
* `Workspace.Coherent` is what all of them keep: each number stands for one file, and what is stored
  with a text was read from that text.
* `Workspace.Committed` relates a workspace to the one after a change, file by file, and
  `apply_eq_ok` says when a change comes to that.
-/

namespace Reshape

/-! ## Entries -/

section Entries

variable {κ α : Type} {k l : κ} {a b : α} {es : List (κ × α)}

theorem lookup_eq_some_of_mem [BEq κ] [LawfulBEq κ] (hes : (es.map (·.1)).Nodup) (h : (k, a) ∈ es) :
    es.lookup k = some a := by
  induction es with
  | nil => cases h
  | cons e es ih =>
    rw [List.map_cons, List.nodup_cons] at hes
    obtain rfl | h := List.mem_cons.1 h
    · simp
    · have hne : k ≠ e.1 := by
        rintro rfl
        exact hes.1 (List.mem_map.2 ⟨_, h, rfl⟩)
      rw [List.lookup_cons, beq_eq_false_iff_ne.2 hne]
      exact ih hes.2 h

theorem mem_of_lookup [BEq κ] [LawfulBEq κ] (h : es.lookup k = some a) : (k, a) ∈ es := by
  obtain ⟨l₁, l₂, rfl, -⟩ := List.lookup_eq_some_iff.1 h
  simp

variable [DecidableEq κ]

theorem mem_setEntry (h : (l, b) ∈ setEntry k a es) : (l, b) = (k, a) ∨ (l, b) ∈ es := by
  induction es with
  | nil => exact .inl (List.mem_singleton.1 h)
  | cons e es ih =>
    rw [setEntry] at h
    split at h
    · obtain h | h := List.mem_cons.1 h
      · exact .inl h
      · exact .inr (List.mem_cons_of_mem _ h)
    · obtain h | h := List.mem_cons.1 h
      · exact .inr (h ▸ List.mem_cons_self)
      · exact (ih h).imp_right (List.mem_cons_of_mem _)

theorem keys_setEntry_of_mem (h : k ∈ es.map (·.1)) :
    (setEntry k a es).map (·.1) = es.map (·.1) := by
  induction es with
  | nil => cases h
  | cons e es ih =>
    rw [setEntry]
    split
    · next he => simp [he]
    · next he =>
      obtain h | h := List.mem_cons.1 h
      · exact absurd h.symm he
      · rw [List.map_cons, List.map_cons, ih h]

end Entries

/-- A file together with what was read from its text. -/
def SourceFile.Fresh (source : SourceFile) : Prop := source = .ofText source.path source.text

theorem SourceFile.parse_ofText (path text : String) :
    (SourceFile.ofText path text).parse = parseFile text := rfl

namespace SourceFile.Fresh

theorem ofText (path text : String) : (SourceFile.ofText path text).Fresh := rfl

theorem parse_eq {source : SourceFile} (h : source.Fresh) : source.parse = parseFile source.text := by
  rw [h, parse_ofText, ← h]

end SourceFile.Fresh

namespace Workspace

variable {w w' : Workspace} {f : FileId} {source : SourceFile}

/-- The workspaces that operations lead to. -/
inductive Reachable : Workspace → Prop
  | empty : Reachable empty
  | setFile {w : Workspace} (path text : String) : Reachable w → Reachable (w.setFile path text).2
  | setText {w w' : Workspace} {f : FileId} {text : String} :
      Reachable w → w.setText f text = .ok w' → Reachable w'
  | removeFile {w w' : Workspace} {f : FileId} {source : SourceFile} :
      Reachable w → w.removeFile f = some (source, w') → Reachable w'
  | apply {w w' : Workspace} {c : SourceChange} : Reachable w → w.apply c = .ok w' → Reachable w'

theorem reachable_ofFiles (files : List (String × String)) : Reachable (ofFiles files) :=
  List.foldlRecOn files _ .empty fun _ h file _ => h.setFile file.1 file.2

/-- Each number stands for one file, and the files hold what was read from their texts. -/
structure Coherent (w : Workspace) : Prop where
  keys_nodup : (w.files.map (·.1)).Nodup
  fresh : ∀ f source, (f, source) ∈ w.files → source.Fresh

namespace Coherent

theorem file?_eq_some (hw : w.Coherent) (h : (f, source) ∈ w.files) : w.file? f = some source :=
  lookup_eq_some_of_mem hw.keys_nodup h

theorem store (hw : w.Coherent) (f : FileId) (hs : source.Fresh) :
    (w.store f source).Coherent where
  keys_nodup := nodup_setEntry hw.keys_nodup
  fresh := by
    intro g s h
    obtain h | h := mem_setEntry h
    · cases h
      exact hs
    · exact hw.fresh g s h

/-- Only the files matter. -/
theorem congr (hw : w.Coherent) (h : w'.files = w.files) : w'.Coherent :=
  ⟨h ▸ hw.keys_nodup, h ▸ hw.fresh⟩

theorem foldl_store {staged : List (FileId × SourceFile)}
    (hs : ∀ f source, (f, source) ∈ staged → source.Fresh) (hw : w.Coherent) :
    (staged.foldl (fun w (f, source) => w.store f source) w).Coherent :=
  List.foldlRecOn staged _ hw fun _ h x hx => h.store x.1 (hs x.1 x.2 hx)

end Coherent

theorem file?_store (w : Workspace) (f g : FileId) (source : SourceFile) :
    (w.store f source).file? g = if g = f then some source else w.file? g :=
  lookup_setEntry f g source w.files

/-- A stage has a new text for each file of the change. -/
theorem exists_file_of_mem_stage {edits : List (FileId × List TextEdit)}
    {staged : List (FileId × SourceFile)} (h : w.stage edits = .ok staged)
    (hmem : (f, source) ∈ staged) :
    ∃ old text, w.file? f = some old ∧ source = .ofText old.path text := by
  obtain ⟨⟨g, es⟩, -, hok⟩ := exists_of_mapM_eq_ok h hmem
  cases hfile : w.file? g with
  | none =>
    simp only [hfile] at hok
    cases hok
  | some old =>
    simp only [hfile] at hok
    obtain ⟨text, -, heq⟩ := map_eq_ok.1 hok
    cases heq
    exact ⟨old, text, hfile, rfl⟩

theorem fresh_of_mem_stage {edits : List (FileId × List TextEdit)}
    {staged : List (FileId × SourceFile)} (h : w.stage edits = .ok staged)
    (hmem : (f, source) ∈ staged) : source.Fresh := by
  obtain ⟨old, text, -, rfl⟩ := exists_file_of_mem_stage h hmem
  exact .ofText old.path text

theorem Reachable.coherent (h : w.Reachable) : w.Coherent := by
  induction h with
  | empty => exact ⟨.nil, by simp [Workspace.empty]⟩
  | @setFile w path text _ ih =>
    rw [Workspace.setFile]
    split
    · next f _ => exact (ih.store f (.ofText path text)).congr rfl
    · exact ((ih.congr rfl).store w.nextId (.ofText path text)).congr rfl
  | setText _ hok ih =>
    rw [Workspace.setText] at hok
    split at hok
    · next source _ =>
      cases hok
      exact (ih.store _ (.ofText source.path _)).congr rfl
    · cases hok
  | removeFile _ hok ih =>
    obtain ⟨source, -, heq⟩ := Option.map_eq_some_iff.1 hok
    cases heq
    exact ⟨ih.keys_nodup.sublist (List.filter_sublist.map _), fun g s hg =>
      ih.fresh g s (List.mem_filter.1 hg).1⟩
  | @apply w w' c _ hok ih =>
    rw [Workspace.apply] at hok
    split at hok
    · cases hok
    · split at hok
      · next staged hstage =>
        cases hok
        exact (ih.foldl_store fun g s hg => fresh_of_mem_stage hstage hg).congr rfl
      · cases hok

/-! ## Changes -/

/-- The second workspace is the first one after a change: the files that the change names hold their
old texts with the edits made, and what was read from the new ones. All else is as before. -/
structure Committed (w : Workspace) (c : SourceChange) (w' : Workspace) : Prop where
  revision_eq : w'.revision = w.revision + 1
  ids_eq : w'.ids = w.ids
  nextId_eq : w'.nextId = w.nextId
  keys_eq : w'.files.map (·.1) = w.files.map (·.1)
  edited : ∀ f es, (f, es) ∈ c.edits → ∃ source, w.file? f = some source ∧
    w'.file? f = some (.ofText source.path (splicedText source.text es))
  untouched : ∀ f, f ∉ c.edits.map (·.1) → w'.file? f = w.file? f

/-- A change keeps the paths of files. -/
theorem Committed.exists_file? {c : SourceChange} (h : w.Committed c w') (hfile : w.file? f = some source) :
    ∃ next, w'.file? f = some next ∧ next.path = source.path := by
  by_cases hf : f ∈ c.edits.map (·.1)
  · obtain ⟨⟨g, es⟩, hmem, rfl⟩ := List.mem_map.1 hf
    obtain ⟨old, hold, hnew⟩ := h.edited g es hmem
    obtain rfl : old = source := Option.some.inj (hold.symm.trans hfile)
    exact ⟨_, hnew, rfl⟩
  · exact ⟨source, (h.untouched f hf).trans hfile, rfl⟩

/-- A file with edits made one by one. -/
def nextFile (w : Workspace) (x : FileId × List TextEdit) : SourceFile :=
  let source := (w.file? x.1).getD (SourceFile.ofText "" "")
  .ofText source.path (splicedText source.text x.2)

theorem stage_eq_ok {edits : List (FileId × List TextEdit)}
    (h : ∀ x ∈ edits, ∃ source, w.file? x.1 = some source ∧
      applyEdits source.text x.2 = .ok (splicedText source.text x.2)) :
    w.stage edits = .ok (edits.map fun x => (x.1, w.nextFile x)) := by
  refine mapM_eq_ok fun x hx => ?_
  obtain ⟨source, hfile, happly⟩ := h x hx
  simp only [hfile, happly, nextFile, Option.getD_some]
  rfl

/-- What storing files does to a workspace: the numbers of files that are there already stay, and a
number stands for the file that was stored under it. -/
theorem foldl_store {staged : List (FileId × SourceFile)} (hnodup : (staged.map (·.1)).Nodup)
    (hknown : ∀ f ∈ staged.map (·.1), f ∈ w.files.map (·.1)) :
    let w' := staged.foldl (fun w (f, source) => w.store f source) w
    (w'.revision = w.revision ∧ w'.ids = w.ids ∧ w'.nextId = w.nextId) ∧
      w'.files.map (·.1) = w.files.map (·.1) ∧
      (∀ f source, (f, source) ∈ staged → w'.file? f = some source) ∧
      ∀ f, f ∉ staged.map (·.1) → w'.file? f = w.file? f := by
  induction staged generalizing w with
  | nil => simp
  | cons x staged ih =>
    rw [List.map_cons, List.nodup_cons] at hnodup
    have hkeys : (w.store x.1 x.2).files.map (·.1) = w.files.map (·.1) :=
      keys_setEntry_of_mem (hknown x.1 List.mem_cons_self)
    obtain ⟨hrest, hkeys', hstored, hother⟩ := ih (w := w.store x.1 x.2) hnodup.2 fun f hf => by
      rw [hkeys]
      exact hknown f (List.mem_cons_of_mem _ hf)
    refine ⟨hrest, hkeys'.trans hkeys, ?_, ?_⟩
    · intro f source hmem
      obtain rfl | hmem := List.mem_cons.1 hmem
      · refine (hother f hnodup.1).trans ?_
        rw [file?_store, if_pos rfl]
      · exact hstored f source hmem
    · intro f hf
      rw [List.map_cons, List.mem_cons, not_or] at hf
      refine (hother f hf.2).trans ?_
      rw [file?_store, if_neg hf.1]

/-- A change can be made if it is meant for the revision and names each file once, and if the edits
of each file can be made. -/
theorem apply_eq_ok {c : SourceChange} (hbase : c.base = w.revision)
    (hnodup : (c.edits.map (·.1)).Nodup)
    (h : ∀ x ∈ c.edits, ∃ source, w.file? x.1 = some source ∧
      applyEdits source.text x.2 = .ok (splicedText source.text x.2)) :
    ∃ w', w.apply c = .ok w' ∧ w.Committed c w' := by
  have hmap : (c.edits.map fun x => (x.1, w.nextFile x)).map (·.1) = c.edits.map (·.1) := by
    simp [Function.comp_def]
  obtain ⟨⟨hrevision, hids, hnext⟩, hkeys, hstored, hother⟩ :=
    foldl_store (w := w) (by rw [hmap]; exact hnodup) (by
        rw [hmap]
        intro f hf
        obtain ⟨x, hx, rfl⟩ := List.mem_map.1 hf
        obtain ⟨source, hfile, -⟩ := h x hx
        exact List.mem_map.2 ⟨_, mem_of_lookup hfile, rfl⟩)
  refine ⟨_, by rw [apply, if_neg (not_not_intro hbase), stage_eq_ok h], ?_⟩
  refine ⟨congrArg (· + 1) hrevision, hids, hnext, hkeys, ?_, ?_⟩
  · intro f es hmem
    obtain ⟨source, hfile, -⟩ := h _ hmem
    refine ⟨source, hfile, ?_⟩
    have hfile' := hstored f _ (List.mem_map.2 ⟨_, hmem, rfl⟩)
    rw [nextFile, hfile, Option.getD_some] at hfile'
    exact hfile'
  · intro f hf
    exact hother f (by rw [hmap]; exact hf)

end Workspace

end Reshape
