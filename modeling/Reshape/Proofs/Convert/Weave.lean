import Mathlib.Data.List.Pairwise
import Reshape.Convert.Rewrite
import Reshape.Proofs.Workspace.Beside

/-!
# Edits woven into a part of a text

Edits that have no character in common can be made in any order, and in a copy of any part of the text
that they lie in. What comes out is the part with the replacements between the pieces that stay.

* `Span.Apart` says that two spans have no byte in common, `Separate` that edits stand in the places of
  characters, and of different ones. Edits that are `Placed` may get in each other's way.
* `weave` is a part of a text with the edits inside it made, from left to right. `weave_perm` says that
  neither the order in which edits are listed matters nor edits elsewhere, `weave_outside` that edits in
  other parts do not.
* `ClearIn` says that the edits in each of some parts can be made, `clearIn_append` what this means for
  parts that come one after the other.
* `applyEdits_shift` and `applyEdits_eq_weave` compare making edits with weaving them in, in a copy of a
  part and in the whole text.
-/

namespace Reshape

variable {text : String} {es es' : List TextEdit} {part : Span}

/-! ## Spans with nothing in common -/

namespace Span

/-- No byte is in both spans. -/
def Apart (s t : Span) : Prop := min s.stop t.stop ≤ max s.start t.start

instance (s t : Span) : Decidable (s.Apart t) := inferInstanceAs (Decidable (_ ≤ _))

theorem Apart.symm {s t : Span} (h : s.Apart t) : t.Apart s := by
  rw [Apart] at *
  omega

theorem Apart.beside {s t : Span} (h : s.Apart t) (hs : s.start < s.stop) (ht : t.start < t.stop) :
    s.Beside t := by
  rw [Apart] at h
  refine ⟨by omega, ?_⟩
  rintro rfl
  omega

theorem Beside.apart {s t : Span} (h : s.Beside t) : s.Apart t := by
  have hends := h.1
  rw [Apart]
  omega

/-- Two spans with a third one in both that holds a byte are not apart. -/
theorem not_apart_of_contains {s t u : Span} (hs : s.contains u = true) (ht : t.contains u = true)
    (hu : u.start < u.stop) : ¬ s.Apart t := by
  rw [contains_iff] at hs ht
  rw [Apart]
  omega

end Span

/-- Each edit stands in the place of some characters of the text, and no two of them in the place of the
same one. -/
structure Separate (text : String) (es : List TextEdit) : Prop where
  fitsIn : ∀ e ∈ es, e.span.FitsIn text
  start_lt_stop : ∀ e ∈ es, e.span.start < e.span.stop
  apart : es.Pairwise fun d e => d.span.Apart e.span

namespace Separate

theorem sublist (h : Separate text es) (hes : es'.Sublist es) : Separate text es' where
  fitsIn e he := h.fitsIn e (hes.subset he)
  start_lt_stop e he := h.start_lt_stop e (hes.subset he)
  apart := h.apart.sublist hes

theorem filter (h : Separate text es) (p : TextEdit → Bool) : Separate text (es.filter p) :=
  h.sublist List.filter_sublist

theorem perm (h : Separate text es) (hes : es'.Perm es) : Separate text es' where
  fitsIn e he := h.fitsIn e (hes.mem_iff.1 he)
  start_lt_stop e he := h.start_lt_stop e (hes.mem_iff.1 he)
  apart := (hes.pairwise_iff Span.Apart.symm).2 h.apart

theorem allBeside (h : Separate text es) : AllBeside es :=
  h.apart.imp_of_mem fun hd he hde => hde.beside (h.start_lt_stop _ hd) (h.start_lt_stop _ he)

end Separate

/-- Each edit stands in the place of some characters of the text. -/
structure Placed (text : String) (es : List TextEdit) : Prop where
  fitsIn : ∀ e ∈ es, e.span.FitsIn text
  start_lt_stop : ∀ e ∈ es, e.span.start < e.span.stop

namespace Placed

theorem of_subset (h : Placed text es) (hes : ∀ e ∈ es', e ∈ es) : Placed text es' :=
  ⟨fun e he => h.fitsIn e (hes e he), fun e he => h.start_lt_stop e (hes e he)⟩

theorem filter (h : Placed text es) (p : TextEdit → Bool) : Placed text (es.filter p) :=
  h.of_subset fun _ he => (List.mem_filter.1 he).1

theorem separate (h : Placed text es) (hbeside : AllBeside es) : Separate text es :=
  ⟨h.fitsIn, h.start_lt_stop, hbeside.imp Span.Beside.apart⟩

end Placed

theorem Separate.placed (h : Separate text es) : Placed text es := ⟨h.fitsIn, h.start_lt_stop⟩

/-! ## Edits that are shifted -/

theorem ascending_of_pairwise {i : Nat} (h : es.Pairwise fun d e => d.span.stop ≤ e.span.start)
    (hle : ∀ e ∈ es, e.span.start ≤ e.span.stop) (hi : ∀ e ∈ es, i ≤ e.span.start) :
    Ascending i es := by
  induction es generalizing i with
  | nil => trivial
  | cons e es ih =>
    obtain ⟨hbehind, hrest⟩ := List.pairwise_cons.1 h
    exact ⟨hi e List.mem_cons_self, hle e List.mem_cons_self,
      ih hrest (fun d hd => hle d (List.mem_cons_of_mem _ hd)) hbehind⟩

/-- A shift keeps edits beside each other, and does not bring them apart. -/
theorem allBeside_map_shift_iff {i : Nat}
    (hi : ∀ e ∈ es, i ≤ e.span.start ∧ e.span.start < e.span.stop) :
    AllBeside (es.map (Rewriting.shift i)) ↔ AllBeside es := by
  refine List.pairwise_map.trans (List.Pairwise.iff_of_mem fun {d e} hd he => ?_)
  have hd' := hi d hd
  have he' := hi e he
  simp only [Rewriting.shift, Span.Beside, Span.ext_iff, ne_eq]
  omega

/-- Edits that are shifted are in the same order. -/
theorem sortEdits_map_shift {i : Nat}
    (hi : ∀ e ∈ es, i ≤ e.span.start ∧ e.span.start < e.span.stop) :
    sortEdits (es.map (Rewriting.shift i)) = (sortEdits es).map (Rewriting.shift i) := by
  refine (List.map_mergeSort fun d hd e he => ?_).symm
  have hd' := hi d hd
  have he' := hi e he
  rw [Bool.eq_iff_iff, TextEdit.le_iff, TextEdit.le_iff]
  simp only [Rewriting.shift]
  omega

/-! ## Weaving -/

/-- A text from an offset up to another one, with edits made that follow each other in between. -/
def weaveFrom (cs : List Char) (stop : Nat) : Nat → List TextEdit → List Char
  | start, [] => sliceChars cs start stop
  | start, e :: es =>
    sliceChars cs start e.span.start ++ e.replacement.toList ++ weaveFrom cs stop e.span.stop es

/-- A part of a text with the edits inside it made. -/
def weave (text : String) (part : Span) (es : List TextEdit) : String :=
  String.ofList (weaveFrom text.toList part.stop part.start
    (sortEdits (es.filter fun e => part.contains e.span)))

/-- Edits elsewhere do not matter, nor does the order of those in the part. -/
theorem weave_perm (h : Separate text es)
    (hes : (es'.filter fun e => part.contains e.span).Perm (es.filter fun e => part.contains e.span)) :
    weave text part es' = weave text part es := by
  rw [weave, weave, sortEdits_perm (h.filter _).allBeside.nodup_spans hes]

/-- The edits in none of some parts. -/
def outside (parts : List Span) (es : List TextEdit) : List TextEdit :=
  es.filter fun e => parts.all fun part => !part.contains e.span

theorem outside_nil (es : List TextEdit) : outside [] es = es := List.filter_eq_self.2 fun _ _ => rfl

theorem outside_append (parts parts' : List Span) (es : List TextEdit) :
    outside (parts ++ parts') es = outside parts' (outside parts es) := by
  rw [outside, outside, outside, List.filter_filter]
  refine List.filter_congr fun e _ => ?_
  rw [List.all_append, Bool.and_comm]

/-- The edits in a part of a text. -/
def editsWithin (part : Span) (es : List TextEdit) : List TextEdit :=
  es.filter fun e => part.contains e.span

/-- In no part of the text are there edits that cannot both be made. -/
def ClearIn (parts : List Span) (es : List TextEdit) : Prop :=
  ∀ part ∈ parts, AllBeside (editsWithin part es)

theorem Separate.clearIn (h : Separate text es) (parts : List Span) : ClearIn parts es :=
  fun _ _ => h.allBeside.filter _

theorem Placed.outside (h : Placed text es) (parts : List Span) : Placed text (outside parts es) :=
  h.filter _

theorem clearIn_nil (es : List TextEdit) : ClearIn [] es := fun _ h => absurd h List.not_mem_nil

/-- The edits in a part stay where those in other parts are taken away. -/
theorem editsWithin_outside (hes : Placed text es) {parts : List Span} {part : Span}
    (hparts : ∀ other ∈ parts, other.Apart part) :
    editsWithin part (outside parts es) = editsWithin part es := by
  rw [editsWithin, editsWithin, outside, List.filter_filter]
  refine List.filter_congr fun e he => ?_
  cases hpart : part.contains e.span with
  | false => rfl
  | true =>
    refine List.all_eq_true.2 fun other hother => ?_
    rw [Bool.not_eq_true', Bool.eq_false_iff]
    exact fun hin =>
      Span.not_apart_of_contains hin hpart (hes.start_lt_stop e he) (hparts other hother)

theorem clearIn_append (hes : Placed text es) {parts parts' : List Span}
    (hparts : ∀ part ∈ parts, ∀ part' ∈ parts', part.Apart part') :
    ClearIn (parts ++ parts') es ↔ ClearIn parts es ∧ ClearIn parts' (outside parts es) := by
  have hsame {part' : Span} (h : part' ∈ parts') :
      editsWithin part' (outside parts es) = editsWithin part' es :=
    editsWithin_outside hes fun part hpart => hparts part hpart part' h
  constructor
  · refine fun h => ⟨fun part hpart => h part (List.mem_append_left _ hpart), fun part' hpart' => ?_⟩
    rw [hsame hpart']
    exact h part' (List.mem_append_right _ hpart')
  · rintro ⟨h, h'⟩ part hpart
    obtain hpart | hpart := List.mem_append.1 hpart
    · exact h part hpart
    · exact hsame hpart ▸ h' part hpart

/-- Edits in other parts do not matter. -/
theorem weave_outside (h : Placed text es) {parts : List Span}
    (hparts : ∀ other ∈ parts, other.Apart part) :
    weave text part (outside parts es) = weave text part es :=
  congrArg (fun within => String.ofList (weaveFrom text.toList part.stop part.start (sortEdits within)))
    (editsWithin_outside h hparts)

/-- Only the edits in a part matter. -/
theorem weave_editsWithin (text : String) (part : Span) (es : List TextEdit) :
    weave text part (editsWithin part es) = weave text part es := by
  simp only [weave, editsWithin, List.filter_filter, Bool.and_self]

/-- A pass over the copy of a part, which starts at the offset `i` of the text, weaves in edits that are
shifted accordingly. -/
theorem spliceFrom_shift (i : Nat) (before mid behind : List Char) (hi : i ≤ byteLength before)
    (hasc : Ascending (byteLength before) es)
    (hstart : ∀ e ∈ es, isBoundary e.span.start (before ++ mid ++ behind) = true)
    (hstop : ∀ e ∈ es, isBoundary e.span.stop (before ++ mid ++ behind) = true)
    (hin : ∀ e ∈ es, e.span.stop ≤ byteLength (before ++ mid)) :
    spliceFrom (byteLength before - i) mid (es.map (Rewriting.shift i)) =
      .ok (weaveFrom (before ++ mid ++ behind) (byteLength (before ++ mid)) (byteLength before) es) := by
  induction es generalizing before mid with
  | nil => rw [List.map_nil, spliceFrom, weaveFrom, sliceChars_append]
  | cons e es ih =>
    obtain ⟨hbefore, hle, hasc⟩ := hasc
    have hlast := hin e List.mem_cons_self
    have hmid {n : Nat} (hn : isBoundary n (before ++ mid ++ behind) = true)
        (hle : byteLength before ≤ n) (hle' : n ≤ e.span.stop) :
        isBoundary (n - byteLength before) mid = true := by
      rw [List.append_assoc] at hn
      refine isBoundary_of_append (isBoundary_sub_of_append hn hle) ?_
      rw [byteLength_append] at hlast
      omega
    obtain ⟨u, v, w, rfl, hu, hv⟩ := exists_cuts (hmid (hstart e List.mem_cons_self) hbefore hle)
      (hmid (hstop e List.mem_cons_self) (Nat.le_trans hbefore hle) (Nat.le_refl _)) (by omega)
    have hfrom : byteLength (before ++ u) = e.span.start := by
      rw [byteLength_append]
      omega
    have hupto : byteLength (before ++ u ++ v) = e.span.stop := by
      rw [List.append_assoc, byteLength_append]
      omega
    have htext : before ++ (u ++ v ++ w) ++ behind = before ++ u ++ v ++ w ++ behind := by simp
    have hwhole : before ++ (u ++ v ++ w) = before ++ u ++ v ++ w := by simp
    rw [htext] at hstart hstop ⊢
    rw [hwhole] at hin ⊢
    have hmore := ih (before ++ u ++ v) w (by omega) (by rw [hupto]; exact hasc)
      (fun d hd => hstart d (List.mem_cons_of_mem _ hd))
      (fun d hd => hstop d (List.mem_cons_of_mem _ hd))
      (fun d hd => hin d (List.mem_cons_of_mem _ hd))
    have hslice : sliceChars (before ++ u ++ v ++ w ++ behind) (byteLength before) e.span.start = u := by
      rw [← hfrom, show before ++ u ++ v ++ w ++ behind = before ++ u ++ (v ++ w ++ behind) by simp,
        sliceChars_append]
    have hnext : (Rewriting.shift i e).span.stop = byteLength (before ++ u ++ v) - i :=
      congrArg (· - i) hupto.symm
    rw [← hnext] at hmore
    rw [List.map_cons, weaveFrom, hslice, ← hupto]
    refine spliceFrom_cons ?_ ?_ hmore
    · change e.span.start - i = byteLength before - i + byteLength u
      rw [← hfrom, byteLength_append]
      omega
    · rw [hnext, List.append_assoc, byteLength_append]
      omega

/-- Edits inside a part of a text can be made in a copy of that part, and this weaves them in. -/
theorem applyEdits_shift (hpart : part.FitsIn text) (h : Separate text es)
    (hin : ∀ e ∈ es, part.contains e.span = true) :
    applyEdits (sliceText text part.start part.stop) (es.map (Rewriting.shift part.start)) =
      .ok (weave text part es) := by
  have hmem {e : TextEdit} : e ∈ sortEdits es ↔ e ∈ es := (List.mergeSort_perm es _).mem_iff
  have hspan : ∀ e ∈ es, part.start ≤ e.span.start ∧ e.span.start < e.span.stop ∧
      e.span.stop ≤ part.stop := by
    intro e he
    have hcontains := Span.contains_iff.1 (hin e he)
    exact ⟨hcontains.1, h.start_lt_stop e he, hcontains.2⟩
  obtain ⟨before, mid, behind, htext, hbefore, hmid⟩ := exists_cuts hpart.2.1 hpart.2.2 hpart.1
  have hslice : sliceText text part.start part.stop = String.ofList mid := by
    rw [sliceText, htext, ← hbefore, ← hmid, sliceChars_append]
  have hsort : sortEdits (es.map (Rewriting.shift part.start)) =
      (sortEdits es).map (Rewriting.shift part.start) :=
    sortEdits_map_shift fun e he => ⟨(hspan e he).1, (hspan e he).2.1⟩
  have hshifted : ∀ e ∈ es.map (Rewriting.shift part.start), e.span.start ≤ e.span.stop ∧
      e.span.stop ≤ (String.ofList mid).utf8ByteSize := by
    refine List.forall_mem_map.2 fun e he => ?_
    have := hspan e he
    rw [byteLength_append] at hmid
    rw [utf8ByteSize_ofList]
    simp only [Rewriting.shift]
    omega
  have hcheck : checkEdits (String.ofList mid).utf8ByteSize
      ((sortEdits es).map (Rewriting.shift part.start)) = .ok () := by
    rw [← hsort, checkEdits_sortEdits (fun e he => (hshifted e he).1) fun e he => (hshifted e he).2,
      if_pos ((allBeside_map_shift_iff fun e he => ⟨(hspan e he).1, (hspan e he).2.1⟩).2 h.allBeside)]
  have hasc : Ascending (byteLength before) (sortEdits es) :=
    ascending_of_pairwise (h.allBeside.pairwise_sortEdits fun e he => Nat.le_of_lt (hspan e he).2.1)
      (fun e he => Nat.le_of_lt (hspan e (hmem.1 he)).2.1)
      fun e he => hbefore ▸ (hspan e (hmem.1 he)).1
  have hsplice := spliceFrom_shift part.start before mid behind (Nat.le_of_eq hbefore.symm) hasc
    (fun e he => htext ▸ (h.fitsIn e (hmem.1 he)).2.1)
    (fun e he => htext ▸ (h.fitsIn e (hmem.1 he)).2.2) fun e he => hmid ▸ (hspan e (hmem.1 he)).2.2
  have hall : (es.filter fun e => part.contains e.span) = es := List.filter_eq_self.2 hin
  rw [← hbefore, Nat.sub_self] at hsplice
  rw [applyEdits, hslice, hsort, hcheck, String.toList_ofList, weave, hall, htext, ← hbefore, ← hmid,
    hsplice]
  rfl

/-- Separate edits can be made in a text, and this weaves them in. -/
theorem applyEdits_eq_weave (h : Separate text es) :
    applyEdits text es = .ok (weave text ⟨0, text.utf8ByteSize⟩ es) := by
  have hwhole : isBoundary text.utf8ByteSize text.toList = true := by
    rw [utf8ByteSize_eq_byteLength]
    exact isBoundary_iff.2 ⟨text.toList, [], by simp, rfl⟩
  have hfits : (⟨0, text.utf8ByteSize⟩ : Span).FitsIn text :=
    ⟨Nat.zero_le _, isBoundary_iff.2 ⟨[], text.toList, rfl, rfl⟩, hwhole⟩
  have hin (e : TextEdit) (he : e ∈ es) : e.span.stop ≤ text.utf8ByteSize := by
    obtain ⟨before, behind, htext, hbefore⟩ := isBoundary_iff.1 (h.fitsIn e he).2.2
    rw [utf8ByteSize_eq_byteLength, htext, byteLength_append, hbefore]
    exact Nat.le_add_right _ _
  have hshift := applyEdits_shift hfits h fun e he =>
    Span.contains_iff.2 ⟨Nat.zero_le _, hin e he⟩
  have hslice : sliceText text 0 text.utf8ByteSize = text := by
    have hmid := sliceChars_append [] text.toList []
    rw [List.nil_append, List.append_nil, ← utf8ByteSize_eq_byteLength] at hmid
    rw [sliceText, show (0 : Nat) = byteLength [] from rfl, hmid, String.ofList_toList]
  have hmap : es.map (Rewriting.shift 0) = es := List.map_id' es
  rwa [hslice, hmap] at hshift

end Reshape
