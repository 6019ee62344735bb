import Mathlib.Logic.Relation
import Reshape.Editor.Server
import Reshape.Proofs.Workspace.Table

/-!
# Servers over time

A server takes messages of the editor and replies to its own requests, in the order in which they arrive.

* `Server.take` is a server after one arrival, `Server.run` after several ones.
* `Quiet` is what nearly all messages do: the workspace changes by its operations, and the editor is not
  asked for anything. `receive_cases` says that a message is quiet, or starts a conversion.
* `Sound` is what all servers keep that have been run from the start (`Sound.run`).
-/

namespace Reshape.Editor

open Relation

/-- What reaches a server: a message, with access to the files as they are at that time, or the reply to a
request of the server. -/
inductive Arrival
  | message (files : Files Id) (msg : Message)
  | reply (id : Nat) (data : Data)

namespace Server

/-- The server after an arrival, and what it sends. -/
def take (s : Server) : Arrival → Server × List Outgoing
  | .message files msg => s.receive files msg
  | .reply id data => s.replied id data

/-- The server after several arrivals. -/
def run (s : Server) (arrivals : List Arrival) : Server := arrivals.foldl (fun s a => (s.take a).1) s

variable {s s' : Server} {a : Arrival} {arrivals : List Arrival} {files : Files Id} {msg : Message}
  {outs : List Outgoing}

theorem run_append (s : Server) (arrivals more : List Arrival) :
    s.run (arrivals ++ more) = (s.run arrivals).run more := List.foldl_append

/-! ## What a message does -/

/-- The server has changed at most its workspace, by operations, and its phase and settings; no edits are
sent to the editor. -/
structure Quiet (s : Server) (r : Server × List Outgoing) : Prop where
  pending_eq : r.1.pending = s.pending
  nextId_eq : r.1.nextId = s.nextId
  steps : ReflTransGen Workspace.Step s.workspace r.1.workspace
  noEdits : ∀ id edits, .applyEdit id edits ∉ r.2

/-- A conversion is started. -/
def Starts (s : Server) (r : Server × List Outgoing) : Prop :=
  s.phase = .started ∧ ∃ asker p change, s.conversionAt p = .ok change ∧ r = s.startConversion asker p

/-- Nothing is done, and nothing is sent but an answer. -/
theorem quiet_of_responses (h : ∀ o ∈ outs, o.isResponse = true) : Quiet s (s, outs) :=
  ⟨rfl, rfl, .refl, fun _ _ hmem => by cases h _ hmem⟩

theorem quiet_response (s : Server) (id : Data) (result : Except Failure Data) :
    Quiet s (s, [.response id result]) :=
  quiet_of_responses (List.forall_mem_singleton.2 rfl)

theorem quiet_nothing (s : Server) : Quiet s (s, []) := quiet_of_responses (by simp)

theorem quiet_update (s : Server) (u : Url) (text : String) : Quiet s (s.update u text) :=
  ⟨rfl, rfl, .single (.setFile _ _ _), by simp [update]⟩

theorem quiet_close (files : Files Id) (s : Server) (u : Url) : Quiet s (s.close files u) := by
  have hquiet (w : Workspace) (hw : ReflTransGen Workspace.Step s.workspace w) :
      Quiet s ({ s with workspace := w }, [.diagnostics u.text []]) := ⟨rfl, rfl, hw, by simp⟩
  simp only [close, bind, pure]
  split
  · exact hquiet _ (.single (.setFile _ _ _))
  · refine hquiet _ ?_
    cases hremove : (s.workspace.fileId? (documentPath u)).bind fun f =>
        (s.workspace.removeFile f).map (·.2) with
    | none => exact .refl
    | some w =>
      obtain ⟨f, -, hmap⟩ := Option.bind_eq_some_iff.1 hremove
      obtain ⟨⟨source, w'⟩, hfile, rfl⟩ := Option.map_eq_some_iff.1 hmap
      exact .single (.removeFile hfile)

theorem steps_loadFiles (files : Files Id) (paths : List String) (w : Workspace) :
    ReflTransGen Workspace.Step w (loadFiles files paths w).2 := by
  induction paths generalizing w with
  | nil => exact .refl
  | cons path paths ih =>
    simp only [loadFiles, bind, pure]
    cases files.read path with
    | error e => exact .refl
    | ok text => exact .head (.setFile w path text) (ih _)

theorem steps_loadSources (files : Files Id) (root : String) (w : Workspace) :
    ReflTransGen Workspace.Step w (loadSources files root w).2 := by
  simp only [loadSources, bind, pure]
  cases sourcesBelow files root with
  | error e => exact .refl
  | ok paths => exact steps_loadFiles files paths w

theorem quiet_start (files : Files Id) (s : Server) (id : Data) (params : Start) :
    Quiet s (s.start files id params) := by
  simp only [start, bind, pure]
  split
  · exact ⟨rfl, rfl, steps_loadSources files _ s.workspace, by simp⟩
  · exact ⟨rfl, rfl, .refl, by simp⟩

theorem startConversion_cases (s : Server) (asker : Data) (p : DocumentPosition) :
    Quiet s (s.startConversion asker p) ∨ ∃ change, s.conversionAt p = .ok change := by
  rw [startConversion]
  split
  · next change hchange => exact .inr ⟨change, hchange⟩
  · exact .inl (quiet_response _ _ _)
  · exact .inl ⟨rfl, rfl, .refl, by simp⟩

theorem runCommand_cases (hphase : s.phase = .started) (id : Data) (command : String)
    (arguments : List Data) :
    Quiet s (s.runCommand id command arguments) ∨ Starts s (s.runCommand id command arguments) := by
  unfold runCommand
  split
  · exact .inl (quiet_response _ _ _)
  · split
    · exact .inl (quiet_response _ _ _)
    · split
      · exact .inl (quiet_response _ _ _)
      · next p _ =>
        exact (startConversion_cases s id p).imp_right fun ⟨change, hchange⟩ =>
          ⟨hphase, id, p, change, hchange, rfl⟩

/-- What holds whatever the parameters are read as holds of a request that is refused for them too. -/
theorem answer_cases {α : Type} {P : Server × List Outgoing → Prop} (id : Data) (params : Except String α)
    (act : α → Id (Server × List Outgoing)) (hrefused : ∀ result, P (s, [.response id result]))
    (hact : ∀ x, P (act x)) : P (s.answer (m := Id) id params act) := by
  cases params with
  | ok x => exact hact x
  | error message => exact hrefused _

theorem note_cases {α : Type} {P : Server × List Outgoing → Prop} (params : Except String α)
    (act : α → Id (Server × List Outgoing)) (hleft : P (s, [])) (hact : ∀ x, P (act x)) :
    P (s.note (m := Id) params act) := by
  cases params with
  | ok x => exact hact x
  | error message => exact hleft

theorem request_cases (files : Files Id) (id : Data) (method : Method) (params : Option Data)
    (h : method = .command → s.phase = .started) :
    Quiet s (s.request files id method params) ∨ Starts s (s.request files id method params) := by
  have hrefused (result : Except Failure Data) : Quiet s (s, [.response id result]) :=
    quiet_response s id result
  cases method with
  | command =>
    exact answer_cases (P := fun r => Quiet s r ∨ Starts s r) id _ _ (fun _ => .inl (hrefused _))
      fun x => runCommand_cases (h rfl) id x.1 x.2
  | start => exact .inl (answer_cases id _ _ hrefused fun x => quiet_start files s id x)
  | shutdown | actions | symbols | otherRequest =>
    exact .inl (answer_cases id _ _ hrefused fun _ => hrefused _)
  | _ => exact .inl (quiet_nothing s)

theorem quiet_notice (files : Files Id) (method : Method) (params : Option Data) :
    Quiet s (s.notice files method params) := by
  have hleft : Quiet s (s, []) := quiet_nothing s
  cases method with
  | started => exact note_cases _ _ hleft fun _ => ⟨rfl, rfl, .refl, by simp [pure]⟩
  | opened => exact note_cases _ _ hleft fun x => quiet_update s x.1 x.2
  | changed =>
    refine note_cases _ _ hleft fun x => ?_
    obtain ⟨u, text | text⟩ := x
    · exact hleft
    · exact quiet_update s u text
  | closed => exact note_cases _ _ hleft (quiet_close files s)
  | _ => exact hleft

theorem serve_cases (files : Files Id) (msg : Message) (method : Method)
    (h : method = .command → s.phase = .started) :
    Quiet s (s.serve files msg method) ∨ Starts s (s.serve files msg method) := by
  rw [serve]
  split
  · split
    · exact request_cases files _ method _ h
    · exact .inl (quiet_nothing s)
  · split
    · exact .inl (quiet_nothing s)
    · exact .inl (quiet_notice files method _)

theorem quiet_refuse (s : Server) (msg : Message) (f : Failure) : Quiet s (s.refuse msg f) := by
  refine quiet_of_responses fun o ho => ?_
  cases hid : msg.id with
  | none => simp [hid] at ho
  | some id =>
    rw [hid] at ho
    obtain rfl : o = .response id (.error f) := by simpa using ho
    rfl

/-- A message is quiet, or starts a conversion. -/
theorem receive_cases (files : Files Id) (s : Server) (msg : Message) :
    Quiet s (s.receive files msg) ∨ Starts s (s.receive files msg) := by
  simp only [receive]
  generalize Method.ofName msg.method = method
  split
  · exact .inl (quiet_nothing s)
  · split
    · split
      · exact .inl (quiet_nothing s)
      · exact .inl (quiet_refuse s msg _)
    · exact .inl ⟨rfl, rfl, .refl, by simp [pure]⟩
    · split
      · exact serve_cases files msg .start nofun
      · exact .inl (quiet_refuse s msg _)
    · split
      · obtain h | ⟨hphase, -⟩ := serve_cases (s := { s with phase := .shutDown }) files msg .shutdown nofun
        · exact .inl ⟨h.pending_eq, h.nextId_eq, h.steps, h.noEdits⟩
        · cases hphase
      · exact .inl (quiet_refuse s msg _)
    · split
      · next hphase => exact serve_cases files msg _ fun _ => hphase
      · exact .inl (quiet_refuse s msg _)

/-! ## Servers that are sound -/

/-- The workspace is one that operations lead to, and the number of the next request of the server is not
in use. -/
structure Sound (s : Server) : Prop where
  reachable : s.workspace.Reachable
  lt_nextId : ∀ p ∈ s.pending, p.id < s.nextId

theorem sound_initial : Sound initial := ⟨.empty, by simp [initial]⟩

theorem Sound.of_quiet {r : Server × List Outgoing} (hs : s.Sound) (h : Quiet s r) : r.1.Sound where
  reachable := hs.reachable.steps h.steps
  lt_nextId := by
    rw [h.pending_eq, h.nextId_eq]
    exact hs.lt_nextId

/-- The number of the next request leads to the conversion that is added under it. -/
theorem Sound.find?_pending (hs : s.Sound) {q : Pending} (hq : q.id = s.nextId) :
    (s.pending ++ [q]).find? (·.id == s.nextId) = some q := by
  have hother : s.pending.find? (·.id == s.nextId) = none :=
    List.find?_eq_none.2 fun r hr h => Nat.ne_of_lt (hs.lt_nextId r hr) (beq_iff_eq.1 h)
  rw [List.find?_append, hother, Option.none_or, List.find?_singleton, if_pos (beq_iff_eq.2 hq)]

/-- A conversion that is started is added to those that wait for the editor. -/
theorem startConversion_eq {asker : Data} {p : DocumentPosition} {change : SourceChange}
    (h : s.conversionAt p = .ok change) :
    s.startConversion asker p =
      ({ s with nextId := s.nextId + 1, pending := s.pending ++ [⟨s.nextId, change, asker⟩] },
        [.applyEdit s.nextId (documentEdits s.workspace change)]) := by
  rw [startConversion, h]

theorem Sound.of_starts {r : Server × List Outgoing} (hs : s.Sound) (h : Starts s r) : r.1.Sound := by
  obtain ⟨-, asker, p, change, hchange, rfl⟩ := h
  rw [startConversion_eq hchange]
  refine ⟨hs.reachable, List.forall_mem_append.2 ⟨fun q hq => ?_, ?_⟩⟩
  · exact Nat.lt_succ_of_lt (hs.lt_nextId q hq)
  · exact List.forall_mem_singleton.2 (Nat.lt_succ_self _)

theorem Sound.replied (hs : s.Sound) (id : Nat) (reply : Data) : (s.replied id reply).1.Sound := by
  have hrest : { s with pending := s.pending.filter (·.id != id) }.Sound :=
    ⟨hs.reachable, fun p hp => hs.lt_nextId p (List.mem_filter.1 hp).1⟩
  rw [Server.replied]
  split
  · exact hs
  · simp only [finishConversion]
    split
    · split
      · next happly => exact ⟨hs.reachable.apply happly, hrest.lt_nextId⟩
      · exact hrest
    · exact hrest
    · exact hrest

theorem Sound.take (hs : s.Sound) (a : Arrival) : (s.take a).1.Sound := by
  cases a with
  | message files msg => exact (receive_cases files s msg).elim hs.of_quiet hs.of_starts
  | reply id data => exact hs.replied id data

theorem Sound.run (hs : s.Sound) (arrivals : List Arrival) : (s.run arrivals).Sound :=
  List.foldlRecOn arrivals _ hs fun _ h a _ => h.take a

end Server

end Reshape.Editor
