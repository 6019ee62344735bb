import Mathlib.Data.List.Nodup
import Mathlib.Tactic.ByContra
import Reshape.Proofs.Workspace.Splice

/-!
# Which edits can be made together

Edits that are given in any order are sorted, and only neighbours are compared. That is enough to find
any two of them that clash.

* `Span.Beside` says that two spans can both be replaced, and `AllBeside` that any two of some edits can
  both be made. Edits pass the check of their order if they are so (`checkEdits_sortEdits`).
* `sortEdits_perm` says that edits in different places have one order only, and `applyEdits_perm` that
  the order in which edits are given never matters, not for the error either.
* `Replaced` is what edits in order are to make of a text: what stands between them stays.
* `applyEdits_replaces` puts together when edits can be made and what they come to.
-/

namespace Reshape

variable {text : String} {es es' : List TextEdit}

/-! ## Spans beside each other -/

namespace Span

variable {s t u : Span}

/-- One span ends before the other starts, and they are not the same empty place. -/
def Beside (s t : Span) : Prop := (s.stop ≤ t.start ∨ t.stop ≤ s.start) ∧ s ≠ t

instance (s t : Span) : Decidable (s.Beside t) := inferInstanceAs (Decidable (_ ∧ _))

theorem Beside.symm (h : s.Beside t) : t.Beside s := ⟨h.1.symm, h.2.symm⟩

/-- What a span contains is beside what the span is beside. -/
theorem Beside.of_contains (h : s.Beside t) (hin : s.contains u = true) (hu : u.start < u.stop) :
    u.Beside t := by
  have hends := h.1
  rw [contains_iff] at hin
  refine ⟨by omega, ?_⟩
  rintro rfl
  omega

end Span

/-- Any two of the edits can both be made. -/
def AllBeside (es : List TextEdit) : Prop := es.Pairwise fun d e => d.span.Beside e.span

instance (es : List TextEdit) : Decidable (AllBeside es) := inferInstanceAs (Decidable (es.Pairwise _))

theorem AllBeside.perm (h : AllBeside es) (hes : es'.Perm es) : AllBeside es' :=
  (hes.pairwise_iff Span.Beside.symm).2 h

/-- Edits in order clash if two of them are not beside each other. -/
theorem haveClash_eq_false_iff (hsorted : es.Pairwise fun d e => d.le e = true)
    (hle : ∀ e ∈ es, e.span.start ≤ e.span.stop) : haveClash es = false ↔ AllBeside es := by
  induction es with
  | nil => simp [haveClash, AllBeside]
  | cons d es ih =>
    cases es with
    | nil => simp [haveClash, AllBeside]
    | cons e es =>
      obtain ⟨hd, hrest⟩ := List.pairwise_cons.1 hsorted
      have hde := TextEdit.le_iff.1 (hd e List.mem_cons_self)
      have hdle := hle d List.mem_cons_self
      have hele := hle e (List.mem_cons_of_mem _ List.mem_cons_self)
      have hclash : d.clashes e = false ↔ d.span.Beside e.span := by
        simp only [TextEdit.clashes, Span.isEmpty, Bool.or_eq_false_iff, decide_eq_false_iff_not,
          Bool.and_eq_false_imp, beq_eq_false_iff_ne, beq_iff_eq, Span.Beside, Span.ext_iff, ne_eq]
        omega
      have hlater (hfirst : d.span.Beside e.span) :
          ∀ x ∈ e :: es, d.span.Beside x.span := by
        intro x hx
        obtain rfl | hx := List.mem_cons.1 hx
        · exact hfirst
        have hex := TextEdit.le_iff.1 ((List.pairwise_cons.1 hrest).1 x hx)
        simp only [Span.Beside, Span.ext_iff, ne_eq] at hfirst ⊢
        omega
      rw [haveClash, Bool.or_eq_false_iff, hclash, ih hrest fun x hx => hle x (List.mem_cons_of_mem _ hx)]
      exact ⟨fun h => List.pairwise_cons.2 ⟨hlater h.1, h.2⟩, fun h =>
        ⟨(List.pairwise_cons.1 h).1 e List.mem_cons_self, (List.pairwise_cons.1 h).2⟩⟩

/-- Edits in a text pass the check if any two of them are beside each other. -/
theorem checkEdits_sortEdits {length : Nat} (hle : ∀ e ∈ es, e.span.start ≤ e.span.stop)
    (hin : ∀ e ∈ es, e.span.stop ≤ length) :
    checkEdits length (sortEdits es) =
      if AllBeside es then .ok () else .error .overlappingEdits := by
  have hperm : (sortEdits es).Perm es := List.mergeSort_perm es _
  have hclash : haveClash (sortEdits es) = false ↔ AllBeside es := by
    rw [haveClash_eq_false_iff (pairwise_le_sortEdits es) fun e he => hle e (hperm.mem_iff.1 he)]
    exact ⟨fun h => h.perm hperm.symm, fun h => h.perm hperm⟩
  have hinside : ((sortEdits es).any fun e => decide (length < e.span.stop)) = false := by
    rw [List.any_eq_false]
    intro e he
    have := hin e (hperm.mem_iff.1 he)
    simpa using this
  rw [checkEdits, hinside]
  by_cases hbeside : AllBeside es
  · rw [hclash.2 hbeside, if_pos hbeside]
    rfl
  · rw [(Bool.not_eq_false _).mp fun h => hbeside (hclash.1 h), if_neg hbeside]
    rfl

/-- An edit beyond the end of a text is found before any clash. -/
theorem checkEdits_sortEdits_of_lt {length : Nat} (h : ∃ e ∈ es, length < e.span.stop) :
    checkEdits length (sortEdits es) = .error .editOutOfBounds := by
  obtain ⟨e, he, hlt⟩ := h
  have hmem : e ∈ sortEdits es := (List.mergeSort_perm es _).mem_iff.2 he
  rw [checkEdits, if_pos (List.any_eq_true.2 ⟨e, hmem, decide_eq_true hlt⟩)]

/-! ## The order in which edits are given -/

/-- Edits in different places have one order only. -/
theorem sortEdits_perm (h : (es.map (·.span)).Nodup) (hes : es'.Perm es) :
    sortEdits es' = sortEdits es := by
  have hmem {e : TextEdit} : e ∈ sortEdits es ↔ e ∈ es := (List.mergeSort_perm es _).mem_iff
  have hperm : (sortEdits es').Perm (sortEdits es) :=
    (List.mergeSort_perm es' _).trans (hes.trans (List.mergeSort_perm es _).symm)
  refine hperm.eq_of_pairwise (fun d e hd he hde hed => ?_) (pairwise_le_sortEdits es')
    (pairwise_le_sortEdits es)
  refine List.inj_on_of_nodup_map h (hmem.1 (hperm.mem_iff.1 hd)) (hmem.1 he) ?_
  rw [TextEdit.le_iff] at hde hed
  exact Span.ext (by omega) (by omega)

theorem AllBeside.nodup_spans (h : AllBeside es) : (es.map (·.span)).Nodup :=
  List.pairwise_map.2 (h.imp fun hde => hde.2)

/-- The order in which edits are given does not matter: neither for the text that they make, nor for the
error if they cannot be made. -/
theorem applyEdits_perm (hle : ∀ e ∈ es, e.span.start ≤ e.span.stop) (hes : es'.Perm es) :
    applyEdits text es' = applyEdits text es := by
  have hmem {e : TextEdit} : e ∈ es' ↔ e ∈ es := hes.mem_iff
  by_cases hin : ∀ e ∈ es, e.span.stop ≤ text.utf8ByteSize
  · by_cases hbeside : AllBeside es
    · rw [applyEdits, applyEdits, sortEdits_perm hbeside.nodup_spans hes]
    · have hbeside' : ¬ AllBeside es' := fun h => hbeside (h.perm hes.symm)
      rw [applyEdits, applyEdits, checkEdits_sortEdits hle hin, if_neg hbeside,
        checkEdits_sortEdits (fun e he => hle e (hmem.1 he)) (fun e he => hin e (hmem.1 he)),
        if_neg hbeside']
  · have hout : ∃ e ∈ es, text.utf8ByteSize < e.span.stop := by simpa using hin
    have hout' : ∃ e ∈ es', text.utf8ByteSize < e.span.stop :=
      hout.imp fun e he => ⟨hmem.2 he.1, he.2⟩
    rw [applyEdits, applyEdits, checkEdits_sortEdits_of_lt hout, checkEdits_sortEdits_of_lt hout']

/-! ## When edits can be made, and what they come to -/

/-- Edits that follow each other are made in the rest of a text, which starts at an offset: each puts its
replacement in the place of the characters in its span, and what stands between the spans stays. -/
inductive Replaced : Nat → List TextEdit → List Char → List Char → Prop
  | nil (offset : Nat) (kept : List Char) : Replaced offset [] kept kept
  | cons {offset : Nat} {e : TextEdit} {es : List TextEdit} {kept gone behind out : List Char} :
      e.span.start = offset + byteLength kept → e.span.stop = e.span.start + byteLength gone →
      Replaced e.span.stop es behind out →
      Replaced offset (e :: es) (kept ++ gone ++ behind) (kept ++ e.replacement.toList ++ out)

/-- A pass that comes to an end has replaced the spans, and nothing else. -/
theorem replaced_of_spliceFrom {offset : Nat} {rest out : List Char}
    (hle : ∀ e ∈ es, e.span.start ≤ e.span.stop) (h : spliceFrom offset rest es = .ok out) :
    Replaced offset es rest out := by
  induction es generalizing offset rest out with
  | nil =>
    cases h
    exact .nil offset rest
  | cons e es ih =>
    have hfirst := hle e List.mem_cons_self
    rw [spliceFrom] at h
    split at h
    · next hfits =>
      obtain ⟨hi, hstart, hstop⟩ := hfits
      obtain ⟨kept, gone, behind, rfl, hkept, hgone⟩ := exists_cuts hstart hstop (by omega)
      rw [← hgone, dropBytes_append_of_byteLength] at h
      split at h
      · next more hmore =>
        cases h
        rw [← hkept, List.append_assoc kept, takeBytes_append_of_byteLength, ← List.append_assoc]
        rw [byteLength_append] at hgone
        exact .cons (by omega) (by omega) (ih (fun d hd => hle d (List.mem_cons_of_mem _ hd)) hmore)
      · cases h
    · cases h

/-- Sorted edits that are beside each other follow each other. -/
theorem AllBeside.pairwise_sortEdits (h : AllBeside es)
    (hle : ∀ e ∈ es, e.span.start ≤ e.span.stop) :
    (sortEdits es).Pairwise fun d e => d.span.stop ≤ e.span.start := by
  have hperm : (sortEdits es).Perm es := List.mergeSort_perm es _
  refine ((pairwise_le_sortEdits es).and (h.perm hperm)).imp_of_mem fun {d e} hd he hde => ?_
  obtain ⟨hsorted, hends, hne⟩ := hde
  have hdle := hle d (hperm.mem_iff.1 hd)
  have hele := hle e (hperm.mem_iff.1 he)
  rw [Ne, Span.ext_iff] at hne
  rw [TextEdit.le_iff] at hsorted
  omega

/-- Edits that can be made pass the check, and their ends are boundaries. -/
theorem fitsIn_of_applyEdits {out : String} (hle : ∀ e ∈ es, e.span.start ≤ e.span.stop)
    (h : applyEdits text es = .ok out) :
    ∃ cs, spliceFrom 0 text.toList (sortEdits es) = .ok cs ∧ String.ofList cs = out ∧
      (∀ e ∈ es, e.span.FitsIn text) ∧ AllBeside es := by
  have hmem {e : TextEdit} : e ∈ sortEdits es ↔ e ∈ es := (List.mergeSort_perm es _).mem_iff
  rw [applyEdits] at h
  split at h
  · next hcheck =>
    obtain ⟨cs, hcs, rfl⟩ := map_eq_ok.1 h
    have hsplice : spliceFrom (byteLength []) text.toList (sortEdits es) = .ok cs := hcs
    have hfit := fitsIn_of_spliceFrom (fun e he => hle e (hmem.1 he)) hsplice rfl
    have hin : ∀ e ∈ es, e.span.stop ≤ text.utf8ByteSize := by
      by_contra hout
      rw [checkEdits_sortEdits_of_lt (by simpa using hout)] at hcheck
      cases hcheck
    rw [checkEdits_sortEdits hle hin] at hcheck
    refine ⟨cs, hcs, rfl, fun e he => hfit e (hmem.2 he), ?_⟩
    by_contra hbeside
    rw [if_neg hbeside] at hcheck
    cases hcheck
  · cases h

/-- Edits can be made together exactly if each of them stands in the text, with a boundary at both ends,
and any two of them are beside each other. Then the text with the edits made one by one, the last of them
first, is what they come to: what stands between the spans stays. The order in which the edits are given
does not matter, for an error either. -/
theorem applyEdits_replaces (text : String) (es : List TextEdit)
    (hle : ∀ e ∈ es, e.span.start ≤ e.span.stop) :
    ((∃ out, applyEdits text es = .ok out) ↔
      (∀ e ∈ es, e.span.stop ≤ text.utf8ByteSize ∧ isBoundary e.span.start text.toList = true ∧
        isBoundary e.span.stop text.toList = true) ∧
      es.Pairwise fun d e => (d.span.stop ≤ e.span.start ∨ e.span.stop ≤ d.span.start) ∧
        ¬ (d.span = e.span ∧ d.span.isEmpty = true)) ∧
    (∀ out, applyEdits text es = .ok out → ∃ ds, ds.Perm es ∧
      ds.Pairwise (fun d e => d.span.stop ≤ e.span.start) ∧
      out = String.ofList (ds.foldr TextEdit.splice text.toList) ∧
      Replaced 0 ds text.toList out.toList) ∧
    ∀ es', es'.Perm es → applyEdits text es' = applyEdits text es := by
  have hbeside : AllBeside es ↔
      es.Pairwise fun d e => (d.span.stop ≤ e.span.start ∨ e.span.stop ≤ d.span.start) ∧
        ¬ (d.span = e.span ∧ d.span.isEmpty = true) := by
    refine List.Pairwise.iff_of_mem fun {d e} hd he => ?_
    have hdle := hle d hd
    simp only [Span.Beside, Span.isEmpty, Span.ext_iff, beq_iff_eq, ne_eq]
    omega
  refine ⟨⟨fun ⟨out, hout⟩ => ?_, fun ⟨hfit, hpair⟩ => ?_⟩, fun out hout => ?_,
    fun es' hes => applyEdits_perm hle hes⟩
  · obtain ⟨cs, -, -, hfit, hpair⟩ := fitsIn_of_applyEdits hle hout
    refine ⟨fun e he => ⟨?_, (hfit e he).2⟩, hbeside.1 hpair⟩
    obtain ⟨before, behind, htext, hbefore⟩ := isBoundary_iff.1 (hfit e he).2.2
    rw [utf8ByteSize_eq_byteLength, htext, byteLength_append, hbefore]
    exact Nat.le_add_right _ _
  · have hcheck := checkEdits_sortEdits hle fun e he => (hfit e he).1
    rw [if_pos (hbeside.2 hpair)] at hcheck
    exact ⟨_, applyEdits_eq_ok hcheck fun e he => ⟨hle e he, (hfit e he).2⟩⟩
  · obtain ⟨cs, hcs, rfl, hfit, hpair⟩ := fitsIn_of_applyEdits hle hout
    have hperm : (sortEdits es).Perm es := List.mergeSort_perm es _
    refine ⟨sortEdits es, hperm, hpair.pairwise_sortEdits hle, ?_, ?_⟩
    · exact eq_splicedText_of_applyEdits hle hout
    · rw [String.toList_ofList]
      exact replaced_of_spliceFrom (fun e he => hle e (hperm.mem_iff.1 he)) hcs

/-- An insertion in front of a replaced letter and a letter of two bytes that is taken out, given from
right to left and from left to right. -/
theorem applyEdits_replaces_unsorted :
    let es : List TextEdit := [⟨⟨4, 5⟩, "y"⟩, ⟨⟨4, 4⟩, "+"⟩, ⟨⟨1, 3⟩, ""⟩]
    (∀ e ∈ es, e.span.start ≤ e.span.stop) ∧ applyEdits "aébc" es = .ok "ab+y" ∧
      applyEdits "aébc" es.reverse = .ok "ab+y" ∧
      ∃ ds, ds.Perm es ∧ Replaced 0 ds "aébc".toList "ab+y".toList := by
  intro es
  have hle : ∀ e ∈ es, e.span.start ≤ e.span.stop := by decide
  have hsorted : sortEdits es.reverse = es.reverse := List.mergeSort_of_pairwise (by decide)
  have hmade : applyEdits "aébc" es.reverse = .ok "ab+y" := by
    rw [applyEdits, hsorted]
    decide +kernel
  obtain ⟨-, hreplaced, horder⟩ := applyEdits_replaces "aébc" es hle
  have hmade' : applyEdits "aébc" es = .ok "ab+y" := (horder _ (List.reverse_perm es)).symm.trans hmade
  obtain ⟨ds, hperm, -, -, hds⟩ := hreplaced _ hmade'
  exact ⟨hle, hmade', hmade, ds, hperm, hds⟩

end Reshape
