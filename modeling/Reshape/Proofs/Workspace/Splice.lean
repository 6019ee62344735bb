import Reshape.Proofs.Outcome
import Reshape.Proofs.Text.Boundary
import Reshape.Workspace.Edit

/-!
# Making edits together and one by one

Edits that are made together in one pass from left to right give the text that comes out if they
are made one by one from right to left, where no edit moves the place of another.

* `TextEdit.splice` makes one edit, `splicedText` makes edits one by one.
* `spliceFrom_cons` is a step of the pass, and `spliceFrom_eq_ok` compares the pass with that.
  `applyEdits_eq_ok` says that edits which were checked, and whose ends are boundaries, can be made;
  `eq_splicedText_of_applyEdits` says what edits that could be made come to.
* `checkFiles_ok` says what is known of edits that `SourceChange.validate` lets pass.
-/

namespace Reshape

/-- A text with the span of an edit replaced. -/
def TextEdit.splice (e : TextEdit) (cs : List Char) : List Char :=
  takeBytes e.span.start cs ++ e.replacement.toList ++ dropBytes e.span.stop cs

/-- A text with edits made one by one, the last of them first. -/
def splicedText (text : String) (es : List TextEdit) : String :=
  String.ofList ((sortEdits es).foldr TextEdit.splice text.toList)

/-- The ends of a span are boundaries of a text, in order. -/
def Span.FitsIn (s : Span) (text : String) : Prop :=
  s.start ≤ s.stop ∧ isBoundary s.start text.toList = true ∧ isBoundary s.stop text.toList = true

instance (s : Span) (text : String) : Decidable (s.FitsIn text) :=
  inferInstanceAs (Decidable (_ ∧ _ ∧ _))

/-- Edits follow each other, the first one not before the given offset. -/
def Ascending : Nat → List TextEdit → Prop
  | _, [] => True
  | i, e :: es => i ≤ e.span.start ∧ e.span.start ≤ e.span.stop ∧ Ascending e.span.stop es

theorem ascending_of_not_haveClash {es : List TextEdit} (hle : ∀ e ∈ es, e.span.start ≤ e.span.stop)
    (hclash : haveClash es = false) (i : Nat) (hi : ∀ e ∈ es.head?, i ≤ e.span.start) :
    Ascending i es := by
  induction es generalizing i with
  | nil => trivial
  | cons d es ih =>
    refine ⟨hi d rfl, hle d List.mem_cons_self, ?_⟩
    cases es with
    | nil => trivial
    | cons e es =>
      simp only [haveClash, TextEdit.clashes, Bool.or_eq_false_iff, decide_eq_false_iff_not] at hclash
      refine ih (fun x hx => hle x (List.mem_cons_of_mem _ hx)) hclash.2 _ ?_
      intro x hx
      cases hx
      omega

/-- A pass puts the replacement of the first edit between what stands before it and what the rest of the
pass comes to. -/
theorem spliceFrom_cons {offset : Nat} {u v w more : List Char} {e : TextEdit} {es : List TextEdit}
    (hstart : e.span.start = offset + byteLength u)
    (hstop : e.span.stop = offset + byteLength (u ++ v)) (hmore : spliceFrom e.span.stop w es = .ok more) :
    spliceFrom offset (u ++ v ++ w) (e :: es) = .ok (u ++ e.replacement.toList ++ more) := by
  have hbefore : isBoundary (byteLength u) (u ++ v ++ w) = true :=
    isBoundary_iff.2 ⟨u, v ++ w, by simp, rfl⟩
  have hbehind : isBoundary (byteLength (u ++ v)) (u ++ v ++ w) = true :=
    isBoundary_iff.2 ⟨u ++ v, w, rfl, rfl⟩
  have hdrop : dropBytes (byteLength (u ++ v)) (u ++ v ++ w) = w :=
    dropBytes_append_of_byteLength (u ++ v) w
  have htake : takeBytes (byteLength u) (u ++ v ++ w) = u := by
    rw [List.append_assoc]
    exact takeBytes_append_of_byteLength u (v ++ w)
  have hfrom : e.span.start - offset = byteLength u := by omega
  have hupto : e.span.stop - offset = byteLength (u ++ v) := by omega
  rw [spliceFrom, hfrom, hupto, if_pos ⟨by omega, hbefore, hbehind⟩, hdrop, hmore, htake]

/-- One pass over the rest of a text makes the edits that are made one by one in the whole text. -/
theorem spliceFrom_eq_ok (es : List TextEdit) (before rest : List Char)
    (hasc : Ascending (byteLength before) es)
    (hstart : ∀ e ∈ es, isBoundary e.span.start (before ++ rest) = true)
    (hstop : ∀ e ∈ es, isBoundary e.span.stop (before ++ rest) = true) :
    ∃ out, spliceFrom (byteLength before) rest es = .ok out ∧
      before ++ out = es.foldr TextEdit.splice (before ++ rest) := by
  induction es generalizing before rest with
  | nil => exact ⟨rest, rfl, rfl⟩
  | cons e es ih =>
    obtain ⟨hi, hle, hasc⟩ := hasc
    have hle' : byteLength before ≤ e.span.stop := Nat.le_trans hi hle
    obtain ⟨u, v, w, rfl, hu, hv⟩ := exists_cuts
      (isBoundary_sub_of_append (hstart e List.mem_cons_self) hi)
      (isBoundary_sub_of_append (hstop e List.mem_cons_self) hle') (by omega)
    have hupto : byteLength (before ++ u ++ v) = e.span.stop := by
      rw [List.append_assoc, byteLength_append]
      omega
    have htext : before ++ (u ++ v ++ w) = before ++ u ++ v ++ w := by simp
    rw [htext] at hstart hstop ⊢
    obtain ⟨more, hmore, hsplice⟩ := ih (before ++ u ++ v) w (by rw [hupto]; exact hasc)
      (fun x hx => hstart x (List.mem_cons_of_mem _ hx))
      (fun x hx => hstop x (List.mem_cons_of_mem _ hx))
    refine ⟨u ++ e.replacement.toList ++ more, ?_, ?_⟩
    · rw [hupto] at hmore
      exact spliceFrom_cons (by omega) (by omega) hmore
    · -- What is behind the edit is done already and keeps its place.
      have hpre : byteLength (before ++ u) = e.span.start := by
        rw [byteLength_append]
        omega
      rw [List.foldr_cons, ← hsplice, TextEdit.splice, ← hupto, ← hpre,
        dropBytes_append_of_byteLength, List.append_assoc (before ++ u) v more,
        takeBytes_append_of_byteLength]
      simp

/-- Edits that were checked can be made if their ends are boundaries. -/
theorem applyEdits_eq_ok {text : String} {es : List TextEdit}
    (hcheck : checkEdits text.utf8ByteSize (sortEdits es) = .ok ())
    (hfit : ∀ e ∈ es, e.span.FitsIn text) : applyEdits text es = .ok (splicedText text es) := by
  have hfit' : ∀ e ∈ sortEdits es, e.span.FitsIn text :=
    fun e he => hfit e ((List.mergeSort_perm es _).mem_iff.1 he)
  have hclash : haveClash (sortEdits es) = false := by
    rw [checkEdits] at hcheck
    split at hcheck
    · cases hcheck
    · split at hcheck
      · cases hcheck
      · next h => exact Bool.eq_false_iff.2 h
  have hasc := ascending_of_not_haveClash (fun e he => (hfit' e he).1) hclash 0
    (fun e _ => Nat.zero_le _)
  obtain ⟨out, hout, hsplice⟩ := spliceFrom_eq_ok (sortEdits es) [] text.toList hasc
    (fun e he => (hfit' e he).2.1) (fun e he => (hfit' e he).2.2)
  rw [applyEdits, hcheck]
  show (spliceFrom 0 text.toList (sortEdits es)).map String.ofList = _
  rw [List.nil_append, List.nil_append] at hsplice
  rw [show spliceFrom 0 text.toList (sortEdits es) = .ok out from hout, splicedText, ← hsplice]
  rfl

/-- Edits that a pass has made have boundaries at their ends. -/
theorem fitsIn_of_spliceFrom {es : List TextEdit} {before rest out : List Char}
    (hle : ∀ e ∈ es, e.span.start ≤ e.span.stop)
    (h : spliceFrom (byteLength before) rest es = .ok out) {text : String}
    (htext : text.toList = before ++ rest) : ∀ e ∈ es, e.span.FitsIn text := by
  induction es generalizing before rest out with
  | nil => simp
  | cons d es ih =>
    rw [spliceFrom] at h
    split at h
    · next hfits =>
      obtain ⟨hi, hstart, hstop⟩ := hfits
      have hd : d.span.start ≤ d.span.stop := hle d List.mem_cons_self
      split at h
      · next more hmore =>
        have hupto : byteLength (before ++ takeBytes (d.span.stop - byteLength before) rest) =
            d.span.stop := by
          rw [byteLength_append, byteLength_takeBytes hstop]
          omega
        rw [← hupto] at hmore
        have hrest := ih (fun e he => hle e (List.mem_cons_of_mem _ he)) hmore
          (by rw [hupto, htext, List.append_assoc, takeBytes_append_dropBytes])
        intro e he
        obtain rfl | he := List.mem_cons.1 he
        · refine ⟨hd, ?_, ?_⟩
          · rw [htext, ← Nat.add_sub_of_le hi]
            exact isBoundary_add_of_append hstart
          · rw [htext, ← Nat.add_sub_of_le (Nat.le_trans hi hd)]
            exact isBoundary_add_of_append hstop
        · exact hrest e he
      · cases h
    · cases h

/-- Edits that were made together come to what they come to one by one. -/
theorem eq_splicedText_of_applyEdits {text out : String} {es : List TextEdit}
    (hle : ∀ e ∈ es, e.span.start ≤ e.span.stop) (h : applyEdits text es = .ok out) :
    out = splicedText text es := by
  have hmem {e : TextEdit} : e ∈ sortEdits es ↔ e ∈ es := (List.mergeSort_perm es _).mem_iff
  have happly := h
  rw [applyEdits] at h
  split at h
  · next hcheck =>
    obtain ⟨cs, hcs, -⟩ := map_eq_ok.1 h
    have hsplice : spliceFrom (byteLength []) text.toList (sortEdits es) = .ok cs := hcs
    have hfit := fitsIn_of_spliceFrom (fun e he => hle e (hmem.1 he)) hsplice rfl
    rw [applyEdits_eq_ok hcheck fun e he => hfit e (hmem.2 he)] at happly
    exact (Except.ok.inj happly).symm
  · cases h

/-! ## Edits in order -/

theorem TextEdit.le_iff {d e : TextEdit} : d.le e = true ↔
    d.span.start < e.span.start ∨ d.span.start = e.span.start ∧ d.span.stop ≤ e.span.stop := by
  simp [TextEdit.le]

theorem pairwise_le_sortEdits (es : List TextEdit) :
    (sortEdits es).Pairwise fun d e => d.le e = true := by
  refine List.pairwise_mergeSort (fun a b c => ?_) (fun a b => ?_) es
  · simp only [TextEdit.le_iff]
    omega
  · simp only [Bool.or_eq_true, TextEdit.le_iff]
    omega

theorem sortEdits_idem (es : List TextEdit) : sortEdits (sortEdits es) = sortEdits es :=
  List.mergeSort_of_pairwise (pairwise_le_sortEdits es)

/-! ## Edits of several files -/

/-- The edit is one of those of the file. -/
def HasEdit (edits : List (FileId × List TextEdit)) (f : FileId) (e : TextEdit) : Prop :=
  ∃ es, (f, es) ∈ edits ∧ e ∈ es

theorem hasEdit_cons {f g : FileId} {e : TextEdit} {es : List TextEdit}
    {edits : List (FileId × List TextEdit)} :
    HasEdit ((g, es) :: edits) f e ↔ (f = g ∧ e ∈ es) ∨ HasEdit edits f e := by
  simp only [HasEdit, List.mem_cons, Prod.mk.injEq]
  constructor
  · rintro ⟨ds, ⟨rfl, rfl⟩ | hds, he⟩
    · exact .inl ⟨rfl, he⟩
    · exact .inr ⟨ds, hds, he⟩
  · rintro (⟨rfl, he⟩ | ⟨ds, hds, he⟩)
    · exact ⟨es, .inl ⟨rfl, rfl⟩, he⟩
    · exact ⟨ds, .inr hds, he⟩

theorem hasEdit_addEdit {file g : FileId} {e d : TextEdit} {edits : List (FileId × List TextEdit)} :
    HasEdit (addEdit file e edits) g d ↔ (g = file ∧ d = e) ∨ HasEdit edits g d := by
  induction edits with
  | nil => simp [addEdit, hasEdit_cons]
  | cons x edits ih =>
    obtain ⟨f, fs⟩ := x
    simp only [addEdit]
    split
    · next hf =>
      subst hf
      simp only [hasEdit_cons, List.mem_append, List.mem_singleton]
      grind
    · split
      · simp only [hasEdit_cons, List.mem_singleton]
      · simp only [hasEdit_cons, ih]
        grind

theorem mem_keys_addEdit {file g : FileId} {e : TextEdit} {edits : List (FileId × List TextEdit)} :
    g ∈ (addEdit file e edits).map (·.1) ↔ g = file ∨ g ∈ edits.map (·.1) := by
  induction edits with
  | nil => simp [addEdit]
  | cons x edits ih =>
    obtain ⟨f, fs⟩ := x
    simp only [addEdit]
    split
    · next hf => simp [hf]
    · split
      · simp
      · simp only [List.map_cons, List.mem_cons, ih]
        grind

/-- Files stay in order. -/
theorem pairwise_keys_addEdit {file : FileId} {e : TextEdit}
    {edits : List (FileId × List TextEdit)} (h : (edits.map (·.1)).Pairwise (· < ·)) :
    ((addEdit file e edits).map (·.1)).Pairwise (· < ·) := by
  induction edits with
  | nil => simp [addEdit]
  | cons x edits ih =>
    obtain ⟨f, fs⟩ := x
    simp only [List.map_cons, List.pairwise_cons] at h
    simp only [addEdit]
    split
    · simpa using h
    · next hne =>
      split
      · next hlt =>
        simp only [List.map_cons, List.pairwise_cons, List.mem_cons]
        refine ⟨?_, h⟩
        rintro g (rfl | hg)
        · exact hlt
        · exact Nat.lt_trans hlt (h.1 g hg)
      · next hge =>
        simp only [List.map_cons, List.pairwise_cons]
        refine ⟨?_, ih h.2⟩
        intro g hg
        obtain rfl | hg := mem_keys_addEdit.1 hg
        · exact Nat.lt_of_le_of_ne (Nat.le_of_not_lt hge) hne
        · exact h.1 g hg

namespace SourceChange

/-- Edits that pass are those that were given, sorted, of files with a length, and they have been
checked against it. -/
theorem checkFiles_ok {length : FileId → Option Nat} {edits checked : List (FileId × List TextEdit)}
    (h : checkFiles length edits = (.ok (), checked)) :
    checked = edits.map (fun (f, es) => (f, sortEdits es)) ∧
      ∀ f es, (f, es) ∈ edits → ∃ n, length f = some n ∧ checkEdits n (sortEdits es) = .ok () := by
  induction edits generalizing checked with
  | nil =>
    cases h
    exact ⟨rfl, by simp⟩
  | cons x edits ih =>
    obtain ⟨f, es⟩ := x
    simp only [checkFiles] at h
    split at h
    · cases h
    · next n hn =>
      split at h
      · cases h
      · next hcheck =>
        generalize hrest : checkFiles length edits = answer at h
        obtain ⟨r, rest⟩ := answer
        cases h
        obtain ⟨rfl, hall⟩ := ih hrest
        refine ⟨rfl, ?_⟩
        intro g ds hg
        obtain hg | hg := List.mem_cons.1 hg
        · cases hg
          exact ⟨n, hn, hcheck⟩
        · exact hall g ds hg

end SourceChange

end Reshape
