import Mathlib.Data.List.Induction
import Mathlib.Logic.Function.Basic
import Reshape.Proofs.Workspace.Table

/-!
# Clients that share a workspace

Any number of clients look at a workspace, make changes of what they saw, and carry them out later,
while others do the same or set and remove files.

* `Shared` is the workspace with what the clients saw and propose, `Action` an action of one of them, and
  `Shared.run` a run of actions in the order in which they take place.
* `Shared.revision_step` and `workspace_step` are the step lemmas: an action that changes the workspace
  makes the next revision, and any other leaves the workspace as it is. `revision_run` counts the changes
  of a run.
* `run_revisions` is the result: a revision stands for one state, and a change that is carried out was
  made of the texts that it changes.
-/

namespace Reshape

/-! ## Actions -/

/-- The edits of several files: each file has its edits once, in the order of the files, and no span
stops before it starts. -/
structure FileEdits where
  edits : List (FileId × List TextEdit)
  pairwise_keys : (edits.map (·.1)).Pairwise (· < ·)
  start_le_stop : ∀ x ∈ edits, ∀ e ∈ x.2, e.span.start ≤ e.span.stop

/-- What a client proposes: the state that it saw, and the edits that it made of that. -/
structure Proposal where
  seen : Workspace
  edits : FileEdits

/-- The change that a client proposes, for the revision that it saw. -/
def Proposal.change (p : Proposal) : SourceChange := ⟨p.seen.revision, p.edits.edits⟩

/-- A workspace, what each client saw of it last, and what each client proposes. -/
structure Shared where
  workspace : Workspace
  seen : Nat → Option Workspace
  proposed : Nat → Option Proposal

/-- An action on a shared workspace. Clients go by numbers. -/
inductive Action
  | setFile (path text : String)
  | setText (f : FileId) (text : String)
  | removeFile (f : FileId)
  | look (client : Nat)
  | propose (client : Nat) (edits : FileEdits)
  | apply (client : Nat)

namespace Shared

/-- Nobody has done anything yet. -/
def empty : Shared := ⟨.empty, fun _ => none, fun _ => none⟩

/-- The workspace that an action leads to, if it changes the workspace. -/
def result (s : Shared) : Action → Option Workspace
  | .setFile path text => some (s.workspace.setFile path text).2
  | .setText f text => (s.workspace.setText f text).toOption
  | .removeFile f => (s.workspace.removeFile f).map (·.2)
  | .look _ | .propose _ _ => none
  | .apply client => (s.proposed client).bind fun p => (s.workspace.apply p.change).toOption

/-- What is there after an action. An action that fails leaves all as it was. -/
def step (s : Shared) (a : Action) : Shared where
  workspace := (s.result a).getD s.workspace
  seen :=
    match a with
    | .look client => Function.update s.seen client (some s.workspace)
    | _ => s.seen
  proposed :=
    match a with
    | .propose client edits => Function.update s.proposed client ((s.seen client).map (⟨·, edits⟩))
    | _ => s.proposed

/-- What is there after a run of actions. -/
def run (s : Shared) (actions : List Action) : Shared := actions.foldl step s

/-- How many of the actions of a run change the workspace. -/
def changes (s : Shared) : List Action → Nat
  | [] => 0
  | a :: actions => (if (s.result a).isSome then 1 else 0) + (s.step a).changes actions

variable {s : Shared} {a : Action} {actions : List Action} {w : Workspace}

theorem run_append (s : Shared) (actions more : List Action) :
    s.run (actions ++ more) = (s.run actions).run more := List.foldl_append

/-! ## Revisions -/

theorem step_of_result (h : s.result a = some w) : Workspace.Step s.workspace w := by
  cases a with
  | setFile path text => exact Option.some.inj h ▸ .setFile _ path text
  | setText f text =>
    rw [result, toOption_eq_some] at h
    exact .setText h
  | removeFile f =>
    obtain ⟨⟨source, w'⟩, hremove, rfl⟩ := Option.map_eq_some_iff.1 h
    exact .removeFile hremove
  | look client => cases h
  | propose client edits => cases h
  | apply client =>
    obtain ⟨p, -, happly⟩ := Option.bind_eq_some_iff.1 h
    rw [toOption_eq_some] at happly
    exact .apply happly

theorem workspace_step (h : s.result a = none) : (s.step a).workspace = s.workspace := by
  simp [step, h]

theorem revision_step (s : Shared) (a : Action) :
    (s.step a).workspace.revision =
      s.workspace.revision + if (s.result a).isSome then 1 else 0 := by
  cases h : s.result a with
  | none => simp [workspace_step h]
  | some w =>
    have hrevision := (step_of_result h).revision_eq
    simpa [step, h] using hrevision

/-- The revision counts the changes of a run. -/
theorem revision_run (s : Shared) (actions : List Action) :
    (s.run actions).workspace.revision = s.workspace.revision + s.changes actions := by
  induction actions generalizing s with
  | nil => rfl
  | cons a actions ih =>
    rw [changes, ← Nat.add_assoc, ← revision_step]
    exact ih (s.step a)

/-- A run without changes leaves the workspace as it was. -/
theorem workspace_run (h : s.changes actions = 0) : (s.run actions).workspace = s.workspace := by
  induction actions generalizing s with
  | nil => rfl
  | cons a actions ih =>
    obtain ⟨hfirst, hrest⟩ := Nat.add_eq_zero_iff.1 h
    have hnone : s.result a = none := by
      cases hresult : s.result a with
      | none => rfl
      | some w => simp [hresult] at hfirst
    exact (ih hrest).trans (workspace_step hnone)

theorem changes_of_revision_eq (h : (s.run actions).workspace.revision = s.workspace.revision) :
    s.changes actions = 0 := by
  rw [revision_run] at h
  omega

/-! ## What clients saw -/

/-- At some point of a run a client looked at a workspace in this state. -/
def SawIn (actions : List Action) (client : Nat) (w : Workspace) : Prop :=
  ∃ before later, actions = before ++ .look client :: later ∧ (empty.run before).workspace = w

theorem SawIn.append {client : Nat} (h : SawIn actions client w) (more : List Action) :
    SawIn (actions ++ more) client w := by
  obtain ⟨before, later, rfl, hw⟩ := h
  exact ⟨before, later ++ more, by simp, hw⟩

/-- What a client saw last, or made its proposal of, is a state that it looked at in the run. -/
theorem sawIn_run (actions : List Action) :
    (∀ client w, (empty.run actions).seen client = some w → SawIn actions client w) ∧
      ∀ client p, (empty.run actions).proposed client = some p → SawIn actions client p.seen := by
  induction actions using List.reverseRecOn with
  | nil => constructor <;> (intro _ _ h; cases h)
  | append_singleton actions a ih =>
    obtain ⟨hseen, hproposed⟩ := ih
    have hrun : empty.run (actions ++ [a]) = (empty.run actions).step a := run_append ..
    rw [hrun]
    generalize hs : empty.run actions = s at hseen hproposed
    refine ⟨fun client w h => ?_, fun client p h => ?_⟩
    · cases a with
      | look client' =>
        by_cases hc : client = client'
        · subst hc
          have hw : s.workspace = w := by simpa [step] using h
          exact ⟨actions, [], rfl, by rw [hs, hw]⟩
        · exact (hseen client w (by simpa [step, hc] using h)).append _
      | _ => exact (hseen client w h).append _
    · cases a with
      | propose client' edits =>
        by_cases hc : client = client'
        · subst hc
          obtain ⟨w, hw, rfl⟩ : ∃ w, s.seen client = some w ∧ ⟨w, edits⟩ = p := by
            simpa [step] using h
          exact (hseen client w hw).append _
        · exact (hproposed client p (by simpa [step, hc] using h)).append _
      | _ => exact (hproposed client p h).append _

end Shared

/-! ## Changes that are carried out -/

/-- A change that is carried out puts in the edits, and leaves all else as it was. -/
theorem Workspace.committed_of_apply {w w' : Workspace} {c : SourceChange} {edits : FileEdits}
    (hedits : c.edits = edits.edits) (h : w.apply c = .ok w') : w.Committed c w' := by
  obtain ⟨hbase, staged, hstage, -⟩ := apply_eq_ok_iff.1 h
  have hnodup : (c.edits.map (·.1)).Nodup := hedits ▸ edits.pairwise_keys.imp Nat.ne_of_lt
  obtain ⟨w₁, happly, hcommitted⟩ := apply_eq_ok hbase hnodup fun x hx => by
    obtain ⟨y, hy⟩ := exists_ok_of_mapM_eq_ok hstage hx
    cases hfile : w.file? x.1 with
    | none =>
      simp only [hfile] at hy
      cases hy
    | some source =>
      simp only [hfile] at hy
      obtain ⟨text, htext, -⟩ := map_eq_ok.1 hy
      refine ⟨source, rfl, ?_⟩
      rw [htext, eq_splicedText_of_applyEdits (edits.start_le_stop x (hedits ▸ hx)) htext]
  obtain rfl : w₁ = w' := Except.ok.inj (happly.symm.trans h)
  exact hcommitted

namespace Shared

/-- In every run of actions of clients, the revision rises by one with each change of the workspace and
stands for one state. A proposal can be carried out only if nothing has changed since the client
looked, and what it edits are the texts that the client saw. -/
theorem run_revisions (actions : List Action) :
    (∀ before between, actions = before ++ between →
      (empty.run actions).workspace.revision =
        (empty.run before).workspace.revision + (empty.run before).changes between ∧
      ((empty.run actions).workspace.revision = (empty.run before).workspace.revision →
        (empty.run actions).workspace = (empty.run before).workspace)) ∧
    ∀ client p w', (empty.run actions).proposed client = some p →
      (empty.run actions).workspace.apply p.change = .ok w' →
      ∃ before later, actions = before ++ .look client :: later ∧
        (empty.run before).workspace = p.seen ∧
        (empty.run before).changes (.look client :: later) = 0 ∧
        (empty.run actions).workspace = p.seen ∧ p.seen.Committed p.change w' := by
  refine ⟨?_, fun client p w' hp happly => ?_⟩
  · rintro before between rfl
    rw [run_append]
    exact ⟨revision_run _ between, fun h => workspace_run (changes_of_revision_eq h)⟩
  · obtain ⟨before, later, rfl, hseen⟩ := (sawIn_run actions).2 client p hp
    rw [run_append] at happly ⊢
    have hbase : p.seen.revision = ((empty.run before).run (.look client :: later)).workspace.revision :=
      (Workspace.apply_eq_ok_iff.1 happly).1
    have hnone : (empty.run before).changes (.look client :: later) = 0 :=
      changes_of_revision_eq (by rw [hseen, hbase])
    have hsame := (workspace_run hnone).trans hseen
    refine ⟨before, later, rfl, hseen, hnone, hsame, ?_⟩
    rw [hsame] at happly
    exact Workspace.committed_of_apply rfl happly

/-- The client `0` replaces the first letter of the text that both clients see. Its proposal can be carried
out, and that of the client `1` no more after that. -/
theorem run_revisions_two_clients :
    let first : FileEdits := ⟨[(0, [⟨⟨0, 1⟩, "x"⟩])], by decide, by decide⟩
    let second : FileEdits := ⟨[(0, [⟨⟨1, 2⟩, "y"⟩])], by decide, by decide⟩
    let actions := [.setFile "a.rs" "ab", .look 0, .look 1, .propose 0 first, .propose 1 second]
    ∃ p q w', (empty.run actions).proposed 0 = some p ∧ (empty.run actions).proposed 1 = some q ∧
      (empty.run actions).workspace.apply p.change = .ok w' ∧
      (empty.run actions).workspace = p.seen ∧ p.seen.Committed p.change w' ∧
      (empty.run (actions ++ [.apply 0])).workspace = w' ∧
      w'.apply q.change = .error (.staleSnapshot 1 2) := by
  intro first second actions
  have happly : ((empty.run actions).workspace.apply ⟨1, first.edits⟩).toOption.isSome = true := by
    decide +kernel
  obtain ⟨w', hw'⟩ := Option.isSome_iff_exists.1 happly
  rw [toOption_eq_some] at hw'
  obtain ⟨-, -, -, -, -, hseen, hcommitted⟩ :=
    (run_revisions actions).2 0 ⟨(empty.run actions).workspace, first⟩ w' rfl hw'
  refine ⟨_, ⟨(empty.run actions).workspace, second⟩, w', rfl, rfl, hw', hseen, hcommitted, ?_, ?_⟩
  · have hresult : (empty.run actions).result (.apply 0) = some w' := by
      show ((empty.run actions).workspace.apply ⟨1, first.edits⟩).toOption = some w'
      rw [hw', Except.toOption]
    rw [run_append]
    exact congrArg (Option.getD · _) hresult
  · have hrevision : w'.revision = 2 := hcommitted.revision_eq
    rw [Workspace.apply, hrevision]
    rfl

end Shared

end Reshape
