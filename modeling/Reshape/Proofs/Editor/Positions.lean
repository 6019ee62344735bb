import Mathlib.Data.List.Induction
import Reshape.Editor.View
import Reshape.Proofs.Convert.Atomic
import Reshape.Proofs.Text.Lines

/-!
# Places and offsets

A place in the view of an editor counts line feeds and units of sixteen bits, an offset counts
bytes. Both stand for a cut between two characters of a text, and a text that is cut is made of
whole lines, of the start of a line, and of the rest.

* `Position.after_append` and `Position.offset?_append` are the two ways, each for a text cut like
  that.
* `Position.ofOffset_mono` follows from what lies before an offset: it grows with the offset.
* `DocumentsDenote` says that edits of documents lead back to edits of files.
  `DocumentsDenote.withDocument` is the step for one file of a change.
* `positions_denote` is the result: the two ways undo each other, later offsets have no earlier
  places, and the ranges of a change lead back to the spans of its edits.
-/

namespace Reshape.Editor

variable {text : String} {cs ds us ls rest : List Char} {offset m n k : Nat}

/-- One place does not lie behind another. -/
instance : LE Position where
  le p q := p.line < q.line ∨ p.line = q.line ∧ p.character ≤ q.character

/-! ## Whole lines and the start of a line -/

/-- Characters that are whole lines: none, or the last one is a line feed. -/
def WholeLines (cs : List Char) : Prop := ∀ c ∈ cs.getLast?, c = '\n'

theorem exists_wholeLines (cs : List Char) :
    ∃ us ls, cs = us ++ ls ∧ WholeLines us ∧ '\n' ∉ ls := by
  obtain ⟨hcs, hrun, hlast⟩ := trimmed_append (· ≠ '\n') cs
  exact ⟨_, _, hcs, fun c hc => by simpa using hlast c hc, fun h => by simpa using hrun _ h⟩

theorem wholeLines_cons {c : Char} :
    WholeLines (c :: us) ↔ WholeLines us ∧ (us = [] → c = '\n') := by
  cases us with
  | nil => simp [WholeLines]
  | cons d us => simp [WholeLines, List.getLast?_cons_cons]

theorem WholeLines.mem (hus : WholeLines us) (hne : us ≠ []) : '\n' ∈ us := by
  have hlast := List.getLast?_eq_some_getLast hne
  have heq := hus _ hlast
  exact heq ▸ List.getLast_mem hne

theorem unitsOf_pos (c : Char) : 0 < unitsOf c := by
  rw [unitsOf]
  split <;> omega

theorem unitLength_append (cs ds : List Char) :
    unitLength (cs ++ ds) = unitLength cs + unitLength ds := by
  induction cs with
  | nil => exact (Nat.zero_add _).symm
  | cons c cs ih => exact (congrArg (unitsOf c + ·) ih).trans (Nat.add_assoc ..).symm

/-- The place behind whole lines and the start of a line. -/
theorem Position.after_append (hus : WholeLines us) (hls : '\n' ∉ ls) :
    Position.after (us ++ ls) = ⟨us.count '\n', unitLength ls⟩ := by
  have hrest : us.reverse.takeWhile (· ≠ '\n') = [] := by
    cases h : us.reverse with
    | nil => rfl
    | cons c cs =>
      have hc : c = '\n' := hus c (by rw [← List.head?_reverse, h]; rfl)
      exact List.takeWhile_cons_of_neg (by simp [hc])
  have hlast : lastLine (us ++ ls) = ls := by
    rw [lastLine, List.reverse_append, List.takeWhile_append_of_pos, hrest, List.append_nil,
      List.reverse_reverse]
    intro c hc
    have hne : c ≠ '\n' := fun h => hls (h ▸ List.mem_reverse.1 hc)
    simpa using hne
  rw [Position.after, hlast, List.count_append, List.count_eq_zero.2 hls, Nat.add_zero]

/-- Whole lines are passed line feed by line feed. -/
theorem lineStart?_append (hus : WholeLines us) (offset : Nat) :
    lineStart? (us.count '\n') offset (us ++ rest) = some (offset + byteLength us, rest) := by
  induction us generalizing offset with
  | nil => cases rest <;> rfl
  | cons c us ih =>
    obtain ⟨hus, hlast⟩ := wholeLines_cons.1 hus
    rw [byteLength_cons, ← Nat.add_assoc, ← ih hus, List.cons_append]
    by_cases hc : c = '\n'
    · rw [hc, List.count_cons_self, lineStart?, if_pos rfl]
    · -- The line goes on, so there is a line feed behind the character.
      have hpos : us.count '\n' ≠ 0 :=
        Nat.ne_of_gt (List.count_pos_iff.2 (hus.mem fun h => hc (hlast h)))
      rw [List.count_cons_of_ne hc]
      obtain ⟨n, hn⟩ := Nat.exists_eq_succ_of_ne_zero hpos
      rw [hn, lineStart?, if_neg hc]

/-- The start of a line is passed unit by unit. -/
theorem columnOffset_append (hls : '\n' ∉ ls) (offset : Nat) :
    columnOffset (unitLength ls) offset (ls ++ rest) = offset + byteLength ls := by
  induction ls generalizing offset with
  | nil => cases rest <;> rfl
  | cons c ls ih =>
    rw [List.mem_cons, not_or] at hls
    have hpos := unitsOf_pos c
    obtain ⟨n, hn⟩ : ∃ n, unitLength (c :: ls) = n + 1 :=
      Nat.exists_eq_succ_of_ne_zero (Nat.ne_of_gt (Nat.lt_of_lt_of_le hpos (Nat.le_add_right ..)))
    have hrest : n + 1 - unitsOf c = unitLength ls := by
      rw [← hn]
      exact Nat.add_sub_cancel_left ..
    rw [hn, List.cons_append, columnOffset, if_neg (Ne.symm hls.1), hrest, ih hls.2,
      byteLength_cons, Nat.add_assoc]

/-- A place in a text that is cut behind whole lines and the start of a line. -/
theorem Position.offset?_append (hus : WholeLines us) (hls : '\n' ∉ ls)
    (htext : text.toList = us ++ ls ++ rest) :
    Position.offset? text ⟨us.count '\n', unitLength ls⟩ = some (byteLength (us ++ ls)) := by
  rw [offset?, htext, List.append_assoc, lineStart?_append hus, Option.map_some]
  show some (columnOffset (unitLength ls) _ _) = _
  rw [columnOffset_append hls, byteLength_append, Nat.zero_add]

/-! ## What lies before an offset -/

theorem wholeBefore_append (before behind : List Char) :
    wholeBefore (byteLength before) (before ++ behind) = before := by
  induction before with
  | nil =>
    cases behind with
    | nil => rfl
    | cons c cs => exact if_neg (Nat.not_le_of_lt c.utf8Size_pos)
  | cons c cs ih =>
    rw [byteLength_cons, List.cons_append, wholeBefore, if_pos (Nat.le_add_right ..),
      Nat.add_sub_cancel_left, ih]

theorem wholeBefore_mono (h : m ≤ n) (cs : List Char) : wholeBefore m cs <+: wholeBefore n cs := by
  induction cs generalizing m n with
  | nil => exact List.prefix_rfl
  | cons c cs ih =>
    rw [wholeBefore, wholeBefore]
    split
    · next hm =>
      rw [if_pos (Nat.le_trans hm h)]
      exact List.cons_prefix_cons.2 ⟨rfl, ih (Nat.sub_le_sub_right h _)⟩
    · exact List.nil_prefix

theorem Position.after_mono (h : cs <+: ds) : Position.after cs ≤ Position.after ds := by
  obtain ⟨es, rfl⟩ := h
  obtain ⟨us, ls, rfl, hus, hls⟩ := exists_wholeLines cs
  by_cases hes : '\n' ∈ es
  · left
    have hpos := List.count_pos_iff.2 hes
    simp only [Position.after, List.count_append]
    omega
  · right
    have hmore : '\n' ∉ ls ++ es := fun h => (List.mem_append.1 h).elim hls hes
    rw [after_append hus hls, List.append_assoc, after_append hus hmore, unitLength_append]
    exact ⟨rfl, Nat.le_add_right ..⟩

theorem Position.ofOffset_mono (text : String) (h : m ≤ n) :
    Position.ofOffset text m ≤ Position.ofOffset text n :=
  after_mono (wholeBefore_mono h text.toList)

/-! ## There and back -/

/-- A cut between characters has a place that leads back to it. -/
theorem Position.offset?_ofOffset (h : isBoundary offset text.toList = true) :
    (Position.ofOffset text offset).offset? text = some offset := by
  obtain ⟨before, behind, htext, rfl⟩ := isBoundary_iff.1 h
  obtain ⟨us, ls, rfl, hus, hls⟩ := exists_wholeLines before
  rw [ofOffset, htext, wholeBefore_append, after_append hus hls, offset?_append hus hls htext]

/-- A line of a text stands behind whole lines, as many as there are line feeds before it. -/
theorem exists_of_getElem?_splitOn {line : List Char} (h : (cs.splitOn '\n')[k]? = some line) :
    ∃ us rest, cs = us ++ line ++ rest ∧ WholeLines us ∧ us.count '\n' = k ∧ '\n' ∉ line := by
  induction cs generalizing k line with
  | nil =>
    rw [List.splitOn_nil] at h
    obtain ⟨hk, rfl⟩ := List.getElem?_eq_some_iff.1 h
    obtain rfl := Nat.lt_one_iff.1 hk
    exact ⟨[], [], rfl, nofun, rfl, List.not_mem_nil⟩
  | cons c cs ih =>
    rw [List.splitOn, List.splitOnP_cons_eq_if_modifyHead] at h
    split at h
    · next hc =>
      obtain rfl := beq_iff_eq.1 hc
      cases k with
      | zero =>
        cases h
        exact ⟨[], _, rfl, nofun, rfl, List.not_mem_nil⟩
      | succ k =>
        obtain ⟨us, rest, rfl, hus, rfl, hline⟩ := ih h
        exact ⟨'\n' :: us, rest, rfl, wholeLines_cons.2 ⟨hus, fun _ => rfl⟩, List.count_cons_self,
          hline⟩
    · next hc =>
      have hc : c ≠ '\n' := fun h => hc (beq_iff_eq.2 h)
      rw [List.getElem?_modifyHead] at h
      split at h
      · next hk =>
        obtain ⟨ls, hls, rfl⟩ := Option.map_eq_some_iff.1 h
        obtain ⟨us, rest, rfl, hus, hcount, hline⟩ := ih (hk ▸ hls)
        -- The first line has no whole line before it.
        obtain rfl : us = [] := by_contra fun hne =>
          List.count_eq_zero.1 hcount (hus.mem hne)
        refine ⟨[], rest, rfl, nofun, hk.symm, fun h => ?_⟩
        exact (List.mem_cons.1 h).elim (fun h => hc h.symm) hline
      · next hk =>
        obtain ⟨us, rest, rfl, hus, rfl, hline⟩ := ih h
        refine ⟨c :: us, rest, rfl, wholeLines_cons.2 ⟨hus, fun h => ?_⟩, ?_, hline⟩
        · exact absurd (h ▸ rfl) hk
        · exact List.count_cons_of_ne hc

/-- A place at a cut in a line of a text leads to an offset that has that place. -/
theorem Position.ofOffset_offset? {p : Position} {line pre : List Char}
    (hline : (text.toList.splitOn '\n')[p.line]? = some line) (hpre : pre <+: line)
    (hp : p.character = unitLength pre) :
    ∃ offset, p.offset? text = some offset ∧ Position.ofOffset text offset = p := by
  obtain ⟨us, rest, htext, hus, hcount, hls⟩ := exists_of_getElem?_splitOn hline
  obtain ⟨post, rfl⟩ := hpre
  obtain ⟨line, character⟩ := p
  obtain rfl := hp
  obtain rfl := hcount
  have hls : '\n' ∉ pre := fun h => hls (List.mem_append_left _ h)
  have hcut : text.toList = us ++ pre ++ (post ++ rest) := by
    rw [htext]
    simp only [List.append_assoc]
  refine ⟨_, offset?_append hus hls hcut, ?_⟩
  rw [ofOffset, hcut, wholeBefore_append, after_append hus hls]

/-! ## Edits of documents -/

/-- An edit of a document leads back to an edit of a text. -/
structure RangeEdit.Denotes (text : String) (r : RangeEdit) (e : TextEdit) : Prop where
  start : r.range.start.offset? text = some e.span.start
  stop : r.range.stop.offset? text = some e.span.stop
  replacement : r.replacement = e.replacement

/-- A file of a workspace has an address. -/
def Addressed (w : Workspace) (f : FileId) (u : String) (source : SourceFile) : Prop :=
  w.file? f = some source ∧ (documentUrl? source.path).map (·.text) = some u

/-- Edits by documents that stand for edits by files: the documents are the files that have an
address, and the edits of a document lead back to those of such a file, one by one. -/
structure DocumentsDenote (w : Workspace) (edits : List (FileId × List TextEdit))
    (documents : List (String × List RangeEdit)) : Prop where
  keys_nodup : (documents.map (·.1)).Nodup
  complete : ∀ f es, (f, es) ∈ edits → ∀ u source, Addressed w f u source →
    u ∈ documents.map (·.1)
  denote : ∀ u rs, (u, rs) ∈ documents → ∃ f es source, (f, es) ∈ edits ∧
    Addressed w f u source ∧ List.Forall₂ (RangeEdit.Denotes source.text) rs es

/-- Edits that stand between characters are those that their ranges lead back to. -/
theorem rangeEdits_denote {es : List TextEdit} (h : ∀ e ∈ es, e.span.FitsIn text) :
    List.Forall₂ (RangeEdit.Denotes text) (rangeEdits text es) es := by
  rw [rangeEdits, List.forall₂_map_left_iff, List.forall₂_same]
  intro e he
  obtain ⟨-, hstart, hstop⟩ := h e he
  exact ⟨Position.offset?_ofOffset hstart, Position.offset?_ofOffset hstop, rfl⟩

section Documents

variable {w : Workspace} {f : FileId} {es : List TextEdit} {edits : List (FileId × List TextEdit)}
  {documents : List (String × List RangeEdit)}

/-- Documents with the edits of one more file. A file without an address adds nothing. -/
def withDocument (w : Workspace) (documents : List (String × List RangeEdit))
    (file : FileId × List TextEdit) : List (String × List RangeEdit) :=
  match (w.file? file.1).bind fun source => (documentUrl? source.path).map fun u => (u, source) with
  | some (u, source) => setEntry u.text (rangeEdits source.text file.2) documents
  | none => documents

theorem documentEdits_eq (w : Workspace) (change : SourceChange) :
    documentEdits w change = change.edits.foldl (withDocument w) [] := rfl

theorem withDocument_cases (w : Workspace) (documents : List (String × List RangeEdit))
    (f : FileId) (es : List TextEdit) :
    (∃ u source, Addressed w f u source ∧
      withDocument w documents (f, es) = setEntry u (rangeEdits source.text es) documents) ∨
    (∀ u source, ¬ Addressed w f u source) ∧ withDocument w documents (f, es) = documents := by
  rw [withDocument]
  cases hfile : w.file? f with
  | none => exact .inr ⟨fun u source h => (nomatch hfile.symm.trans h.1), rfl⟩
  | some source =>
    rw [Option.bind_some]
    cases hu : documentUrl? source.path with
    | none =>
      refine .inr ⟨fun u source' h => ?_, rfl⟩
      cases hfile.symm.trans h.1
      exact nomatch (congrArg (Option.map (·.text)) hu).symm.trans h.2
    | some u => exact .inl ⟨u.text, source, ⟨hfile, congrArg (Option.map (·.text)) hu⟩, rfl⟩

theorem Addressed.unique {u v : String} {source source' : SourceFile} (h : Addressed w f u source)
    (h' : Addressed w f v source') : v = u ∧ source' = source := by
  cases h.1.symm.trans h'.1
  exact ⟨Option.some.inj (h'.2.symm.trans h.2), rfl⟩

/-- Documents that stand for edits do so with the edits of one more file. -/
theorem DocumentsDenote.withDocument (h : DocumentsDenote w edits documents)
    (hfit : ∀ e ∈ es, ∀ source, w.file? f = some source → e.span.FitsIn source.text) :
    DocumentsDenote w (edits ++ [(f, es)]) (withDocument w documents (f, es)) := by
  have hold : ∀ u rs, (u, rs) ∈ documents → ∃ g ds source, (g, ds) ∈ edits ++ [(f, es)] ∧
      Addressed w g u source ∧ List.Forall₂ (RangeEdit.Denotes source.text) rs ds := by
    intro u rs hrs
    obtain ⟨g, ds, source, hmem, hrest⟩ := h.denote u rs hrs
    exact ⟨g, ds, source, List.mem_append_left _ hmem, hrest⟩
  obtain ⟨u, source, hu, heq⟩ | ⟨hno, heq⟩ := withDocument_cases w documents f es
  · rw [heq]
    refine ⟨nodup_setEntry h.keys_nodup, fun g ds hds v source' hv => ?_, fun v rs hrs => ?_⟩
    · rw [mem_keys_setEntry]
      obtain hds | hds := List.mem_append.1 hds
      · exact .inr (h.complete g ds hds v source' hv)
      · cases List.mem_singleton.1 hds
        exact .inl (hu.unique hv).1
    · obtain heq | hrs := mem_setEntry hrs
      · cases heq
        exact ⟨f, es, source, List.mem_append_right _ List.mem_cons_self, hu,
          rangeEdits_denote fun e he => hfit e he source hu.1⟩
      · exact hold v rs hrs
  · rw [heq]
    refine ⟨h.keys_nodup, fun g ds hds v source hv => ?_, hold⟩
    obtain hds | hds := List.mem_append.1 hds
    · exact h.complete g ds hds v source hv
    · cases List.mem_singleton.1 hds
      exact absurd hv (hno v source)

/-- The edits of a change by documents stand for it if they stand between characters. -/
theorem documentEdits_denote {change : SourceChange} (h : ∀ f e, HasEdit change.edits f e →
    ∀ source, w.file? f = some source → e.span.FitsIn source.text) :
    DocumentsDenote w change.edits (documentEdits w change) := by
  rw [documentEdits_eq]
  generalize change.edits = edits at h
  induction edits using List.reverseRecOn with
  | nil => exact ⟨.nil, nofun, nofun⟩
  | append_singleton edits file ih =>
    obtain ⟨f, es⟩ := file
    rw [List.foldl_concat]
    refine (ih fun g e he => ?_).withDocument fun e he => ?_
    · obtain ⟨ds, hds, he⟩ := he
      exact h g e ⟨ds, List.mem_append_left _ hds, he⟩
    · exact h f e ⟨es, List.mem_append_right _ List.mem_cons_self, he⟩

end Documents

/-- The two ways undo each other, later offsets have no earlier places, and the ranges of a change
lead back to the spans of its edits. -/
theorem positions_denote (text : String) :
    (∀ offset, isBoundary offset text.toList = true →
      (Position.ofOffset text offset).offset? text = some offset) ∧
    (∀ (p : Position) (line pre : List Char), (text.toList.splitOn '\n')[p.line]? = some line →
      pre <+: line → p.character = unitLength pre →
      ∃ offset, p.offset? text = some offset ∧ Position.ofOffset text offset = p) ∧
    (∀ m n, m ≤ n → Position.ofOffset text m ≤ Position.ofOffset text n) ∧
    (∀ (w : Workspace) (change : SourceChange), (∀ f e, HasEdit change.edits f e →
      ∀ source, w.file? f = some source → e.span.FitsIn source.text) →
      DocumentsDenote w change.edits (documentEdits w change)) ∧
    ∀ (w : Workspace) (p : FilePosition) (config : Config) (cancelled : Bool)
      (change : SourceChange), w.Reachable → convert w p config cancelled = .ok change →
      DocumentsDenote w change.edits (documentEdits w change) := by
  refine ⟨fun _ => Position.offset?_ofOffset, fun _ _ _ => Position.ofOffset_offset?,
    fun _ _ => Position.ofOffset_mono text, fun _ _ => documentEdits_denote, ?_⟩
  intro w p config cancelled change hw h
  exact documentEdits_denote fun f e he source => fitsIn_of_convert hw.coherent h he

set_option maxRecDepth 100000 in
/-- A conversion behind a comment with characters of two and of four bytes. -/
theorem positions_denote_behind_comment :
    (Position.ofOffset "é🦀\nx" 6).offset? "é🦀\nx" = some 6 ∧
    (∃ offset, Position.offset? "é🦀\nx" ⟨0, 1⟩ = some offset ∧
      Position.ofOffset "é🦀\nx" offset = ⟨0, 1⟩) ∧
    Position.ofOffset "é🦀\nx" 4 ≤ Position.ofOffset "é🦀\nx" 7 ∧
    ∃ change : SourceChange, change.edits = [(0, [⟨⟨18, 24⟩, "(u8);"⟩])] ∧
      documentEdits (Workspace.ofFiles [("/a.rs", "/*é🦀*/struct S{a:u8}")]) change =
        [("file:///a.rs", [⟨⟨⟨0, 15⟩, ⟨0, 21⟩⟩, "(u8);"⟩])] ∧
      DocumentsDenote (Workspace.ofFiles [("/a.rs", "/*é🦀*/struct S{a:u8}")]) change.edits
        (documentEdits (Workspace.ofFiles [("/a.rs", "/*é🦀*/struct S{a:u8}")]) change) := by
  obtain ⟨hback, hthere, hmono, -, hconvert⟩ := positions_denote "é🦀\nx"
  have hw := Workspace.reachable_ofFiles [("/a.rs", "/*é🦀*/struct S{a:u8}")]
  have hchange :
      (convert (.ofFiles [("/a.rs", "/*é🦀*/struct S{a:u8}")]) ⟨0, 17⟩ {} false).toOption.map
        (fun c => (c.edits,
          documentEdits (.ofFiles [("/a.rs", "/*é🦀*/struct S{a:u8}")]) c)) =
        some ([(0, [⟨⟨18, 24⟩, "(u8);"⟩])],
          [("file:///a.rs", [⟨⟨⟨0, 15⟩, ⟨0, 21⟩⟩, "(u8);"⟩])]) := by
    decide +kernel
  obtain ⟨change, hc, heq⟩ := toOption_map_eq_some.1 hchange
  obtain ⟨hedits, hdocuments⟩ := Prod.mk.inj heq
  exact ⟨hback 6 (by decide), hthere ⟨0, 1⟩ ['é', '🦀'] ['é'] (by decide) (by decide) (by decide),
    hmono 4 7 (by decide), change, hedits, hdocuments, hconvert _ _ _ _ change hw hc⟩

end Reshape.Editor
