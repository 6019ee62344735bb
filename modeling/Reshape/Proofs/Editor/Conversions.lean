import Reshape.Proofs.Convert.Atomic
import Reshape.Proofs.Editor.Serving

/-!
# Conversions that an editor applies

A conversion is sent to the editor as edits. The editor applies them, tells so, and tells the new texts of
the documents that are open there. Files that are not open change in the server only if it carries out the
conversion once it has the reply.

* `Notice` is a message with the new text of a document. `Notice.run_notices` says what a server does with
  several ones, `Notice.textAt?_tellAll` which text a file has after them.
* `run_pending` is about a conversion that waits for the editor: notices that come before the reply keep it
  from being carried out.
* `texts_of_conversion` is the result, for any order of the notices and the reply. Files that are not open
  may keep their old texts (`closed_file_keeps_old_text`).
-/

namespace Reshape

/-- The text of the file with a number. -/
def Workspace.textAt? (w : Workspace) (f : FileId) : Option String := (w.file? f).map (·.text)

namespace Editor

/-- A message that tells the new text of a document, as it reaches a server. The text is the one that the
server takes from it, that of the first change. -/
structure Notice where
  files : Files Id
  message : Message
  document : Url
  text : String
  id_eq : message.id = none
  method_eq : Method.ofName message.method = .changed
  params_eq : Server.readParams readChanged message.params = .ok (document, some text)

variable {s : Server} {w : Workspace} {f : FileId} {source : SourceFile}

namespace Notice

def arrival (n : Notice) : Arrival := .message n.files n.message

/-- The path of the document. -/
def path (n : Notice) : String := documentPath n.document

/-- The workspace after a notice. -/
def tell (w : Workspace) (n : Notice) : Workspace := (w.setFile n.path n.text).2

/-- The workspace after several notices. -/
def tellAll (w : Workspace) (ns : List Notice) : Workspace := ns.foldl tell w

/-- The text in the last one of the notices about a path. -/
def lastText? (parts : List String) (ns : List Notice) : Option String :=
  (ns.filter fun n => pathParts n.path == parts).getLast?.map (·.text)

/-! ## Notices -/

theorem take_arrival (hphase : s.phase = .started) (n : Notice) :
    s.take n.arrival = s.update n.document n.text := by
  obtain ⟨files, msg, document, text, hid, hmethod, hparams⟩ := n
  simp only [arrival, Server.take, Server.receive, hmethod, hphase, Server.serve, hid, Method.isRequest,
    Server.notice, hparams, Server.note, reduceCtorEq, if_false, if_true, Bool.false_eq_true]
  rfl

/-- Notices change the workspace only. -/
theorem run_notices (hphase : s.phase = .started) (ns : List Notice) :
    s.run (ns.map arrival) = { s with workspace := tellAll s.workspace ns } := by
  induction ns generalizing s with
  | nil => rfl
  | cons n ns ih =>
    have hstep : (s.take n.arrival).1 = { s with workspace := tell s.workspace n } := by
      rw [take_arrival hphase]
      rfl
    rw [List.map_cons, Server.run, List.foldl_cons, hstep]
    exact ih hphase

theorem revision_tellAll (w : Workspace) (ns : List Notice) :
    (tellAll w ns).revision = w.revision + ns.length := by
  induction ns generalizing w with
  | nil => rfl
  | cons n ns ih =>
    have hstep : (tell w n).revision = w.revision + 1 :=
      (Workspace.Step.setFile w n.path n.text).revision_eq
    rw [tellAll, List.foldl_cons, List.length_cons]
    refine (ih (tell w n)).trans ?_
    omega

theorem lastText?_cons (parts : List String) (n : Notice) (ns : List Notice) :
    lastText? parts (n :: ns) =
      (lastText? parts ns).or (if pathParts n.path = parts then some n.text else none) := by
  simp only [lastText?, List.filter_cons, beq_iff_eq]
  split
  · rw [List.getLast?_cons]
    cases (ns.filter fun n => pathParts n.path == parts).getLast? <;> rfl
  · rw [Option.or_none]

/-- A file that is there has the text of the last notice about it, if there is one. -/
theorem textAt?_tellAll (hw : w.Reachable) (hfile : w.file? f = some source) (ns : List Notice) :
    (tellAll w ns).textAt? f = (lastText? (pathParts source.path) ns).or (w.textAt? f) := by
  induction ns generalizing w source with
  | nil => rfl
  | cons n ns ih =>
    have htold : (tell w n).file? f = some (if pathParts n.path = pathParts source.path then
        .ofText n.path n.text else source) := Workspace.file?_setFile hw.tabled hfile n.path n.text
    have htext : (tell w n).textAt? f =
        (if pathParts n.path = pathParts source.path then some n.text else none).or (w.textAt? f) := by
      rw [Workspace.textAt?, htold, Workspace.textAt?, hfile]
      split <;> rfl
    have hparts : pathParts (if pathParts n.path = pathParts source.path then
        SourceFile.ofText n.path n.text else source).path = pathParts source.path := by
      split
      · assumption
      · rfl
    refine (ih (hw.setFile n.path n.text) htold).trans ?_
    rw [hparts, lastText?_cons, Option.or_assoc]
    exact congrArg _ htext

end Notice

/-! ## Conversions -/

/-- The text that the last one of the notices about a file tells. -/
def told? (w : Workspace) (ns : List Notice) (f : FileId) : Option String :=
  (w.file? f).bind fun source => Notice.lastText? (pathParts source.path) ns

variable {id : Nat} {q : Pending} {reply : Data} {reason : Option String} {done : Workspace}

/-- The reply that edits have been applied, when their change can still be carried out. -/
theorem replied_of_apply_eq_ok (hfind : s.pending.find? (·.id == id) = some q)
    (hreply : readApplied reply = .ok (true, reason)) (hdone : s.workspace.apply q.change = .ok done) :
    (s.replied id reply).1 =
      { s with pending := s.pending.filter (·.id != id), workspace := done } := by
  simp only [Server.replied, hfind, Server.finishConversion, hreply, hdone]

/-- A reply when the workspace has changed meanwhile. -/
theorem replied_of_stale (hfind : s.pending.find? (·.id == id) = some q) (reply : Data)
    (hstale : q.change.base ≠ s.workspace.revision) :
    (s.replied id reply).1 = { s with pending := s.pending.filter (·.id != id) } := by
  simp only [Server.replied, hfind, Server.finishConversion, Workspace.apply, if_pos hstale]
  split <;> rfl

/-- A server with a conversion that waits for the editor, once the editor has replied that it has applied the
edits. Notices that come first make revisions that the change was not made for. -/
theorem run_pending (hphase : s.phase = .started) (hfind : s.pending.find? (·.id == id) = some q)
    (hdone : s.workspace.apply q.change = .ok done) (hreply : readApplied reply = .ok (true, reason))
    (before after : List Notice) :
    (s.run (before.map Notice.arrival ++ .reply id reply :: after.map Notice.arrival)).workspace =
      Notice.tellAll (if before = [] then done else s.workspace) (before ++ after) := by
  cases before with
  | nil =>
    rw [if_pos rfl, List.map_nil, List.nil_append, List.nil_append, Server.run, List.foldl_cons,
      Server.take, replied_of_apply_eq_ok hfind hreply hdone]
    exact congrArg Server.workspace (Notice.run_notices (by exact hphase) after)
  | cons n ns =>
    -- The notices have made the workspace newer than the change.
    have hstale : q.change.base ≠ (Notice.tellAll s.workspace (n :: ns)).revision := by
      rw [(Workspace.apply_eq_ok_iff.1 hdone).1, Notice.revision_tellAll, List.length_cons]
      omega
    rw [if_neg (List.cons_ne_nil n ns), Server.run_append, Notice.run_notices hphase, Server.run,
      List.foldl_cons, Server.take, replied_of_stale (by exact hfind) reply hstale]
    refine (congrArg Server.workspace (Notice.run_notices (by exact hphase) after)).trans ?_
    exact List.foldl_append.symm

/-- Edits that the editor is asked to apply are those of a change that can be carried out at that time, and
that waits for the editor from then on. -/
theorem exists_pending_of_applyEdit (hs : s.Sound) {files : Files Id} {msg : Message}
    {edits : List (String × List RangeEdit)} (hsent : .applyEdit id edits ∈ (s.receive files msg).2) :
    s.phase = .started ∧ ∃ q done, (s.receive files msg).1 =
        { s with nextId := s.nextId + 1, pending := s.pending ++ [q] } ∧
      q.id = id ∧ id = s.nextId ∧ edits = documentEdits s.workspace q.change ∧
      s.workspace.apply q.change = .ok done ∧ s.workspace.Committed q.change done := by
  obtain hquiet | ⟨hphase, asker, p, change, hchange, hstarts⟩ := Server.receive_cases files s msg
  · exact absurd hsent (hquiet.noEdits id edits)
  · rw [hstarts, Server.startConversion_eq hchange, List.mem_singleton,
      Outgoing.applyEdit.injEq] at hsent
    obtain ⟨done, hdone, hcommitted⟩ : ∃ done, s.workspace.apply change = .ok done ∧
        s.workspace.Committed change done := by
      rw [Server.conversionAt] at hchange
      split at hchange
      · cases hchange
      · exact apply_of_convert hs.reachable.coherent hchange
    refine ⟨hphase, ⟨s.nextId, change, asker⟩, done, ?_, hsent.1.symm, hsent.1, hsent.2, hdone,
      hcommitted⟩
    rw [hstarts, Server.startConversion_eq hchange]

/-- The texts of files after notices that come before or after a change is carried out, by the notices about
them. -/
theorem textAt?_told (hw : w.Reachable) {change : SourceChange} (hdone : w.apply change = .ok done)
    (hcommitted : w.Committed change done) {carried : Prop} [Decidable carried] (ns : List Notice)
    (hf : (w.file? f).isSome) :
    (Notice.tellAll (if carried then done else w) ns).textAt? f =
      (told? w ns f).or ((if carried then done else w).textAt? f) := by
  obtain ⟨source, hfile⟩ := Option.isSome_iff_exists.1 hf
  rw [told?, hfile, Option.bind_some]
  split
  · obtain ⟨next, hnext, hpath⟩ := hcommitted.exists_file? hfile
    rw [← hpath]
    exact Notice.textAt?_tellAll (hw.apply hdone) hnext ns
  · exact Notice.textAt?_tellAll hw hfile ns

/-- A text is the new one if it was told or carried out, or if there is nothing new in it. -/
theorem or_ite_eq_iff {told old new : Option String} (hagree : told = none ∨ told = new) (hnew : new.isSome)
    {carried : Prop} [Decidable carried] :
    told.or (if carried then new else old) = new ↔ carried ∨ told ≠ none ∨ new = old := by
  obtain ⟨text, rfl⟩ := Option.isSome_iff_exists.1 hnew
  obtain rfl | rfl := hagree
  · rw [Option.none_or]
    split <;> simp [*, eq_comm]
  · simp

/-- A conversion that the editor applies, with the notices about its documents before and behind its reply.
Each file then has the text of the last notice about it, or else its text after the conversion, if there
were no notices before the reply, or its text before the conversion. So if what the notices tell are the new
texts, the server has the new texts of all files of the change exactly if the reply comes first or if each
of these files is told about or is left as it is. -/
theorem texts_of_conversion (arrivals : List Arrival) (files : Files Id) (msg : Message) (id : Nat)
    (edits : List (String × List RangeEdit))
    (hsent : .applyEdit id edits ∈ ((Server.initial.run arrivals).take (.message files msg)).2) :
    let s := Server.initial.run arrivals
    ∃ q done, (s.take (.message files msg)).1.pending = s.pending ++ [q] ∧ q.id = id ∧
      edits = documentEdits s.workspace q.change ∧ s.workspace.apply q.change = .ok done ∧
      s.workspace.Committed q.change done ∧
      ∀ reply reason before after, readApplied reply = .ok (true, reason) →
        let told := told? s.workspace (before ++ after)
        let t := s.run (.message files msg ::
          (before.map Notice.arrival ++ .reply id reply :: after.map Notice.arrival))
        (∀ f, (s.workspace.file? f).isSome → t.workspace.textAt? f =
          (told f).or ((if before = [] then done else s.workspace).textAt? f)) ∧
        ((∀ f ∈ q.change.edits.map (·.1), told f = none ∨ told f = done.textAt? f) →
          ((∀ f ∈ q.change.edits.map (·.1), t.workspace.textAt? f = done.textAt? f) ↔
            before = [] ∨ ∀ f ∈ q.change.edits.map (·.1),
              told f ≠ none ∨ done.textAt? f = s.workspace.textAt? f)) := by
  intro s
  have hs : s.Sound := Server.sound_initial.run arrivals
  obtain ⟨hphase, q, done, htake, hid, rfl, rfl, hdone, hcommitted⟩ :=
    exists_pending_of_applyEdit hs hsent
  refine ⟨q, done, congrArg Server.pending htake, hid, rfl, hdone, hcommitted, ?_⟩
  intro reply reason before after hreply told t
  have ht : t.workspace =
      Notice.tellAll (if before = [] then done else s.workspace) (before ++ after) := by
    have hrun : t = (s.receive files msg).1.run
        (before.map Notice.arrival ++ .reply s.nextId reply :: after.map Notice.arrival) := rfl
    rw [hrun, htake]
    exact run_pending (s := { s with nextId := s.nextId + 1, pending := s.pending ++ [q] }) hphase
      (hs.find?_pending hid) hdone hreply before after
  have htexts (f : FileId) (hf : (s.workspace.file? f).isSome) : t.workspace.textAt? f =
      (told f).or ((if before = [] then done else s.workspace).textAt? f) := by
    rw [ht]
    exact textAt?_told hs.reachable hdone hcommitted (before ++ after) hf
  refine ⟨htexts, fun hagree => ?_⟩
  have hpoint : ∀ f ∈ q.change.edits.map (·.1), t.workspace.textAt? f = done.textAt? f ↔
      before = [] ∨ told f ≠ none ∨ done.textAt? f = s.workspace.textAt? f := by
    intro f hf
    obtain ⟨⟨g, es⟩, hmem, rfl⟩ := List.mem_map.1 hf
    obtain ⟨source, hold, hnew⟩ := hcommitted.edited g es hmem
    have hsome : (done.textAt? g).isSome := by rw [Workspace.textAt?, hnew]; rfl
    rw [htexts g (by rw [hold]; rfl), apply_ite (Workspace.textAt? · g)]
    exact or_ite_eq_iff (hagree g hf) hsome
  rw [forall₂_congr hpoint]
  simp only [forall_or_left]

/-! ## A file that is not open -/

/-- The edits that the editor is asked to apply. -/
def Outgoing.edits? : Outgoing → Option (Nat × List (String × List RangeEdit))
  | .applyEdit id edits => some (id, edits)
  | _ => none

theorem Outgoing.mem_of_findSome?_edits? {outs : List Outgoing} {edits : List (String × List RangeEdit)}
    (h : outs.findSome? Outgoing.edits? = some (id, edits)) : .applyEdit id edits ∈ outs := by
  obtain ⟨o, ho, hedits⟩ := List.exists_of_findSome?_eq_some h
  cases o <;> cases hedits
  exact ho

/-- A disk with one file. -/
def oneFile : Files Id where
  resolve path := .ok path
  read path := if path = "/b.rs" then .ok "fn g(){S{f:1};}" else .error .missing
  isFile path := decide (path = "/b.rs")
  below _ _ := .ok [["b.rs"]]

/-- The address of a document in a record. -/
def documentAt (uri : String) (fields : List (String × Data)) : String × Data :=
  ("textDocument", .record (("uri", .text uri) :: fields))

/-- An editor has the struct open that the file on the disk uses; that file has been opened and closed. -/
def beforehand : List Arrival :=
  [.message oneFile ⟨some (.int 0), "initialize", some (.record [("capabilities", .record [])])⟩,
    .message oneFile ⟨none, "textDocument/didOpen", some (.record [documentAt "file:///a.rs"
      [("languageId", .text "rust"), ("version", .int 1), ("text", .text "struct S{f:u8}")]])⟩,
    .message oneFile ⟨none, "textDocument/didOpen", some (.record [documentAt "file:///b.rs"
      [("languageId", .text "rust"), ("version", .int 1), ("text", .text "fn g(){S{f:1};}")]])⟩,
    .message oneFile ⟨none, "textDocument/didClose", some (.record [documentAt "file:///b.rs" []])⟩]

/-- The user asks for the struct to be converted. -/
def asked : Message :=
  ⟨some (.int 1), "workspace/executeCommand", some (.record [("command", .text Server.convertCommand),
    ("arguments", .list [.record [documentAt "file:///a.rs" [],
      ("position", .record [("line", .int 0), ("character", .int 7)])]])])⟩

/-- The edits for both files. -/
def askedEdits : List (String × List RangeEdit) :=
  [("file:///a.rs", [⟨⟨⟨0, 8⟩, ⟨0, 14⟩⟩, "(u8);"⟩]), ("file:///b.rs", [⟨⟨⟨0, 7⟩, ⟨0, 13⟩⟩, "S(1)"⟩])]

/-- The editor has applied the edits to the document that is open. -/
def openedNotice : Notice where
  files := oneFile
  message := ⟨none, "textDocument/didChange", some (.record [documentAt "file:///a.rs" [("version", .int 2)],
    ("contentChanges", .list [.record [("text", .text "struct S(u8);")]])])⟩
  document := ⟨"file", some ⟨"", "", none⟩, .segments ["a.rs"], none, none⟩
  text := "struct S(u8);"
  id_eq := rfl
  method_eq := by decide +kernel
  params_eq := by decide +kernel

set_option maxRecDepth 100000 in
theorem sent_askedEdits : .applyEdit 0 askedEdits ∈
    ((Server.initial.run beforehand).take (.message oneFile asked)).2 :=
  Outgoing.mem_of_findSome?_edits? (by decide +kernel)

/-- The reply that the edits have been applied. -/
def applied : Data := .record [("applied", .bool true)]

/-- The change that the server waits for. -/
def askedChange : SourceChange := ⟨3, [(0, [⟨⟨8, 14⟩, "(u8);"⟩]), (1, [⟨⟨7, 13⟩, "S(1)"⟩])]⟩

set_option maxRecDepth 100000 in
theorem pending_askedChange :
    ((Server.initial.run beforehand).take (.message oneFile asked)).1.pending.map (·.change) =
      [askedChange] := by
  decide +kernel

set_option maxRecDepth 100000 in
theorem exists_apply_askedChange : ∃ done,
    (Server.initial.run beforehand).workspace.apply askedChange = .ok done ∧
      (done.textAt? 0, done.textAt? 1) = (some "struct S(u8);", some "fn g(){S(1);}") :=
  toOption_map_eq_some.1 (by decide +kernel)

/-- A notice keeps the file that is not open from being converted in the server. -/
theorem closed_file_keeps_old_text :
    let s := Server.initial.run beforehand
    let t := s.run [.message oneFile asked, openedNotice.arrival, .reply 0 applied]
    .applyEdit 0 askedEdits ∈ (s.take (.message oneFile asked)).2 ∧
      (s.take (.message oneFile asked)).1.pending.map (·.change) = [askedChange] ∧
      ∃ done, s.workspace.apply askedChange = .ok done ∧
        done.textAt? 0 = some "struct S(u8);" ∧ t.workspace.textAt? 0 = some "struct S(u8);" ∧
        done.textAt? 1 = some "fn g(){S(1);}" ∧ t.workspace.textAt? 1 = some "fn g(){S{f:1};}" := by
  obtain ⟨done, hdone, htexts⟩ := exists_apply_askedChange
  obtain ⟨h₀, h₁⟩ := Prod.mk.inj htexts
  exact ⟨sent_askedEdits, pending_askedChange, done, hdone, h₀, by decide +kernel, h₁,
    by decide +kernel⟩

/-- The two files have their new texts if the reply comes first, and not if the notice does. -/
theorem texts_of_conversion_two_orders :
    let s := Server.initial.run beforehand
    let t := s.run [.message oneFile asked, .reply 0 applied, openedNotice.arrival]
    let t' := s.run [.message oneFile asked, openedNotice.arrival, .reply 0 applied]
    .applyEdit 0 askedEdits ∈ (s.take (.message oneFile asked)).2 ∧
      ∃ done, s.workspace.apply askedChange = .ok done ∧
        (∀ f ∈ [0, 1], t.workspace.textAt? f = done.textAt? f) ∧
        ¬ ∀ f ∈ [0, 1], t'.workspace.textAt? f = done.textAt? f := by
  obtain ⟨q, done, hpending, -, -, hdone, -, hrun⟩ :=
    texts_of_conversion beforehand oneFile asked 0 askedEdits sent_askedEdits
  have hchange : q.change = askedChange := by
    have hlast := congrArg List.getLast? pending_askedChange
    rw [hpending, List.map_append, List.map_singleton, List.getLast?_concat] at hlast
    exact Option.some.inj hlast
  have hfiles : q.change.edits.map (·.1) = [0, 1] := by rw [hchange]; rfl
  have htold : told? (Server.initial.run beforehand).workspace [openedNotice] 0 = some "struct S(u8);" ∧
      told? (Server.initial.run beforehand).workspace [openedNotice] 1 = none := by
    decide +kernel
  obtain ⟨done', hdone', htexts⟩ := exists_apply_askedChange
  obtain ⟨h₀, h₁⟩ := Prod.mk.inj htexts
  rw [hchange, hdone'] at hdone
  obtain rfl := Except.ok.inj hdone
  have hagree : ∀ f ∈ q.change.edits.map (·.1),
      told? (Server.initial.run beforehand).workspace [openedNotice] f = none ∨
        told? (Server.initial.run beforehand).workspace [openedNotice] f = done'.textAt? f := by
    rw [hfiles, List.forall_mem_cons, List.forall_mem_singleton, htold.1, htold.2, h₀]
    exact ⟨.inr rfl, .inl rfl⟩
  have happlied : readApplied applied = .ok (true, none) := by decide +kernel
  have hfirst := (hrun applied none [] [openedNotice] happlied).2 hagree
  have hlast := (hrun applied none [openedNotice] [] happlied).2 hagree
  rw [hfiles] at hfirst hlast
  refine ⟨sent_askedEdits, done', hdone', hfirst.2 (.inl rfl), fun h => ?_⟩
  obtain hnil | hall := hlast.1 h
  · cases hnil
  · obtain hsome | hsame := hall 1 (by decide)
    · exact hsome htold.2
    · rw [h₁] at hsame
      exact absurd hsame (by decide +kernel)

end Editor

end Reshape
