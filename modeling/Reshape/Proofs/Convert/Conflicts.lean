import Reshape.Proofs.Convert.Composition

/-!
# Sites that get in each other's way

The finished edits in a part that is copied are made in the copy, and this fails if two of them have a
character in common. Nothing else can go wrong when sites are rewritten.

* `Takes` specifies a step that copies parts of the text by all it can do: take the edits in the parts
  along, or fail as two of them are not beside each other.
* `Site.Admits` says where something else can stand when a site is rewritten: in a part that is copied, or
  beside the site. `Fitting.step` is what this comes to for one site, and `forM_rewriteSite_outcome` for
  a run over sites.
* `rewriteSites_outcome` says that the sites of a file are rewritten if they are compatible, and that two
  edits overlap if they are not.
-/

namespace Reshape

variable {text : String} {es es' : List TextEdit}

/-! ## Finished edits in parts -/

/-- Edits in a part of a text are made in a copy of it if any two of them are beside each other. -/
theorem applyEdits_shift_outcome {part : Span} (hpart : part.FitsIn text) (hes : Placed text es) :
    (AllBeside (editsWithin part es) ∧ ∃ copy,
      applyEdits (sliceText text part.start part.stop)
        ((editsWithin part es).map (Rewriting.shift part.start)) = .ok copy) ∨
    (¬ AllBeside (editsWithin part es) ∧
      applyEdits (sliceText text part.start part.stop)
        ((editsWithin part es).map (Rewriting.shift part.start)) = .error .overlappingEdits) := by
  have hplaced : Placed text (editsWithin part es) := hes.filter _
  have hin : ∀ e ∈ editsWithin part es, part.contains e.span = true :=
    fun e he => (List.mem_filter.1 he).2
  by_cases hbeside : AllBeside (editsWithin part es)
  · exact .inl ⟨hbeside, _, applyEdits_shift hpart (hplaced.separate hbeside) hin⟩
  refine .inr ⟨hbeside, ?_⟩
  -- A shift does not bring edits apart, so the check fails in the copy as it does in the text.
  have hshifted : ¬ AllBeside ((editsWithin part es).map (Rewriting.shift part.start)) := by
    rwa [allBeside_map_shift_iff fun e he =>
      ⟨(Span.contains_iff.1 (hin e he)).1, hplaced.start_lt_stop e he⟩]
  have hspan : ∀ e ∈ (editsWithin part es).map (Rewriting.shift part.start),
      e.span.start ≤ e.span.stop ∧
        e.span.stop ≤ (sliceText text part.start part.stop).utf8ByteSize := by
    obtain ⟨before, mid, behind, htext, hbefore, hmid⟩ := exists_cuts hpart.2.1 hpart.2.2 hpart.1
    have hslice : sliceText text part.start part.stop = String.ofList mid := by
      rw [sliceText, htext, ← hbefore, ← hmid, sliceChars_append]
    refine List.forall_mem_map.2 fun e he => ?_
    have he' := Span.contains_iff.1 (hin e he)
    have helt := hplaced.start_lt_stop e he
    rw [hslice, utf8ByteSize_ofList]
    rw [byteLength_append] at hmid
    simp only [Rewriting.shift]
    omega
  rw [applyEdits, checkEdits_sortEdits (fun e he => (hspan e he).1) fun e he => (hspan e he).2,
    if_neg hshifted]

/-! ## Steps that copy parts of the text -/

/-- A step that copies parts of the text, by all that it can do: the finished edits in the parts are made
in the copies and are finished no more, or two of them are not beside each other. -/
def Takes {α : Type} (text : String) (parts : List Span) (x : Rewriting α) : Prop :=
  ∀ es, Placed text es →
    (ClearIn parts es ∧ ∃ a, x.run es = .ok (a, outside parts es)) ∨
      (¬ ClearIn parts es ∧ x.run es = .error .overlappingEdits)

namespace Takes

variable {α β : Type} {parts parts' : List Span} {x : Rewriting α}

theorem pure (a : α) : Takes text [] (pure a) := by
  intro es _
  rw [outside_nil]
  exact .inl ⟨clearIn_nil es, a, rfl⟩

theorem render {part : Span} (h : part.FitsIn text) : Takes text [part] (Rewriting.render text part) := by
  intro es hes
  have hclear : ClearIn [part] es ↔ AllBeside (editsWithin part es) := List.forall_mem_singleton
  have houter : (es.filter fun e => !part.contains e.span) = outside [part] es := by simp [outside]
  have hrun : (Rewriting.render text part).run es =
      (applyEdits (sliceText text part.start part.stop)
        ((editsWithin part es).map (Rewriting.shift part.start))).map
          fun copy => (copy, outside [part] es) := by
    rw [Rewriting.render, Rewriting.slice_eq_pure h, ← houter, editsWithin]
    simp only [pure_bind, StateT.run_bind, StateT.run_get, StateT.run_set,
      List.partition_eq_filter_filter, StateT.run_monadLift]
    cases applyEdits _ _ <;> rfl
  rw [hclear, hrun]
  obtain ⟨hbeside, copy, hcopy⟩ | ⟨hclash, hfails⟩ := applyEdits_shift_outcome h hes
  · exact .inl ⟨hbeside, copy, by rw [hcopy]; rfl⟩
  · exact .inr ⟨hclash, by rw [hfails]; rfl⟩

theorem bind {f : α → Rewriting β} (hx : Takes text parts x) (hf : ∀ a, Takes text parts' (f a))
    (hparts : ∀ part ∈ parts, ∀ part' ∈ parts', part.Apart part') :
    Takes text (parts ++ parts') (x >>= f) := by
  intro es hes
  rw [clearIn_append hes hparts, outside_append, StateT.run_bind]
  obtain ⟨hclear, a, hrun⟩ | ⟨hclash, hrun⟩ := hx es hes
  · rw [hrun]
    obtain ⟨hclear', b, hrun'⟩ | ⟨hclash', hrun'⟩ := hf a _ (hes.outside parts)
    · exact .inl ⟨⟨hclear, hclear'⟩, b, hrun'⟩
    · exact .inr ⟨fun h => hclash' h.2, hrun'⟩
  · exact .inr ⟨fun h => hclash h.1, by rw [hrun]; rfl⟩

theorem map (hx : Takes text parts x) (f : α → β) : Takes text parts (x >>= fun a => Pure.pure (f a)) := by
  have hmap := hx.bind (fun a => pure (f a)) fun _ _ _ hpart => absurd hpart List.not_mem_nil
  rwa [List.append_nil] at hmap

theorem mapM {f : α → Rewriting β} {parts : α → List Span} {as : List α}
    (hf : ∀ a ∈ as, Takes text (parts a) (f a)) (hparts : (as.flatMap parts).Pairwise Span.Apart) :
    Takes text (as.flatMap parts) (as.mapM f) := by
  induction as with
  | nil => exact pure []
  | cons a as ih =>
    rw [List.flatMap_cons] at hparts ⊢
    obtain ⟨-, hrest, hacross⟩ := List.pairwise_append.1 hparts
    rw [List.mapM_cons]
    exact (hf a List.mem_cons_self).bind
      (fun b => (ih (fun a' ha' => hf a' (List.mem_cons_of_mem _ ha')) hrest).map fun bs => b :: bs)
      hacross

end Takes

section Sites

variable (plan : Plan) (config : Config) {path : Span} {s t : Site}

theorem takes_renderValue {field : Nat × FieldValue} (h : ∀ part ∈ field.2.part?, part.FitsIn text) :
    Takes text field.2.part?.toList (renderValue text field) := by
  obtain ⟨i, s | name⟩ := field
  · exact (Takes.render (h s rfl)).map fun copy => (i, copy)
  · exact .pure (i, name)

theorem takes_renderBase {base : Option Span} (h : ∀ part ∈ base, part.FitsIn text) :
    Takes text base.toList (renderBase text base) := by
  cases base with
  | none => exact .pure []
  | some s => exact (Takes.render (h s rfl)).map fun copy => [".." ++ copy]

theorem takes_renderPart {part : Nat × Span} (h : part.2.FitsIn text) :
    Takes text [part.2] (renderPart text part) :=
  (Takes.render h).map fun copy => (part.1, copy)

theorem takes_rewriteLiteral {fields : List (Nat × FieldValue)} {base : Option Span}
    (hpath : path.FitsIn text)
    (hparts : ∀ part ∈ (SiteKind.construction path fields base).parts, part.FitsIn text)
    (hapart : (SiteKind.construction path fields base).parts.Pairwise Span.Apart) :
    Takes text (SiteKind.construction path fields base).parts
      (rewriteLiteral text plan path fields base) := by
  rw [SiteKind.parts, List.filterMap_eq_flatMap_toList] at *
  obtain ⟨hfields, -, hacross⟩ := List.pairwise_append.1 hapart
  have hvalues : Takes text (fields.flatMap (·.2.part?.toList)) (fields.mapM (renderValue text)) :=
    Takes.mapM (fun field hfield => takes_renderValue fun part hpart =>
      hparts part (List.mem_append_left _
        (List.mem_flatMap.2 ⟨field, hfield, Option.mem_toList.2 hpart⟩))) hfields
  refine hvalues.bind (fun values => ?_) hacross
  rw [Rewriting.slice_eq_pure hpath, pure_bind]
  -- A literal that becomes a call has no base, so that its values are all that is copied.
  cases hwhole : base.isNone && isComplete plan.size (byField values) with
  | true =>
    obtain rfl := Option.isNone_iff_eq_none.1 (Bool.and_eq_true_iff.1 hwhole).1
    simp only [hwhole, if_true]
    exact .pure _
  | false =>
    simp only [hwhole, Bool.false_eq_true, if_false]
    refine (takes_renderBase fun part hpart => hparts part ?_).map _
    exact List.mem_append_right _ (Option.mem_toList.2 hpart)

theorem takes_rewritePattern {parts : List (Nat × Span)} {rest : Bool} (hpath : path.FitsIn text)
    (hparts : ∀ part ∈ (SiteKind.pattern path parts rest).parts, part.FitsIn text)
    (hapart : (SiteKind.pattern path parts rest).parts.Pairwise Span.Apart) :
    Takes text (SiteKind.pattern path parts rest).parts
      (rewritePattern text plan config path parts rest) := by
  rw [SiteKind.parts, List.map_eq_flatMap] at *
  have hbound : Takes text (parts.flatMap fun part => [part.2]) (parts.mapM (renderPart text)) :=
    Takes.mapM (fun part hpart => takes_renderPart (hparts part.2
      (List.mem_flatMap.2 ⟨part, hpart, List.mem_cons_self⟩))) hapart
  simp only [rewritePattern, Rewriting.slice_eq_pure hpath, pure_bind]
  exact hbound.map fun bound => _

/-- Rewriting a site that is no mention finishes one edit in its place, unless two edits in one of its
parts are not beside each other. -/
theorem rewriteSite_outcome (hkind : s.kind ≠ .mention) (h : s.Fits text) (hes : Placed text es) :
    (ClearIn s.kind.parts es ∧ ∃ r, (rewriteSite text plan config s).run es =
      .ok ((), outside s.kind.parts es ++ [⟨s.span, r⟩])) ∨
    (¬ ClearIn s.kind.parts es ∧
      (rewriteSite text plan config s).run es = .error .overlappingEdits) := by
  have hfinish {x : Rewriting String} (hx : Takes text s.kind.parts x)
      (hrun : (rewriteSite text plan config s).run es =
        (x >>= fun r => modify (· ++ [⟨s.span, r⟩])).run es) :
      (ClearIn s.kind.parts es ∧ ∃ r, (rewriteSite text plan config s).run es =
        .ok ((), outside s.kind.parts es ++ [⟨s.span, r⟩])) ∨
      (¬ ClearIn s.kind.parts es ∧
        (rewriteSite text plan config s).run es = .error .overlappingEdits) := by
    rw [hrun, StateT.run_bind]
    obtain ⟨hclear, r, hr⟩ | ⟨hclash, hr⟩ := hx es hes
    · exact .inl ⟨hclear, r, by rw [hr]; rfl⟩
    · exact .inr ⟨hclash, by rw [hr]; rfl⟩
  obtain ⟨file, span, kind⟩ := s
  cases kind with
  | mention => exact absurd rfl hkind
  | access i => exact hfinish (.pure (toString i)) rfl
  | construction path fields base =>
    exact hfinish (takes_rewriteLiteral plan (h.path path rfl) h.parts h.apart) rfl
  | pattern path parts rest =>
    exact hfinish (takes_rewritePattern plan config (h.path path rfl) h.parts h.apart) rfl

end Sites

/-! ## Sites in order -/

/-- A site takes the place of some characters of the text, and its parts are less of it. -/
structure Site.Settled (text : String) (s : Site) : Prop extends s.Fits text where
  fitsIn : s.span.FitsIn text
  start_lt_stop : s.span.start < s.span.stop
  contains_parts : ∀ part ∈ s.kind.parts, s.span.contains part = true
  size_lt : ∀ part ∈ s.kind.parts, part.size < s.span.size

/-- Something can stand in a place when a site is rewritten: the place is in a part that is copied, or
beside the site. -/
def Site.Admits (s : Site) (place : Span) : Prop :=
  (∃ part ∈ s.kind.parts, part.contains place = true) ∨ place.Beside s.span

instance (s : Site) (place : Span) : Decidable (s.Admits place) := inferInstanceAs (Decidable (_ ∨ _))

/-- Finished edits and sites that are rewritten after them can all be made. -/
structure Fitting (es : List TextEdit) (sites : List Site) : Prop where
  allBeside : AllBeside es
  admits : ∀ s ∈ sites, ∀ e ∈ es, s.Admits e.span
  pairwise : sites.Pairwise fun s t => t.Admits s.span

section Runs

variable {plan : Plan} {config : Config} {sites rest : List Site} {s t : Site} {r : String}

/-- What contains a place is admitted only if the place is. -/
theorem Site.Admits.of_contains {place inner : Span} (h : s.Admits place)
    (hin : place.contains inner = true) (hinner : inner.start < inner.stop) : s.Admits inner := by
  obtain ⟨part, hpart, hcontains⟩ | hbeside := h
  · exact .inl ⟨part, hpart, Span.contains_trans hcontains hin⟩
  · exact .inr (hbeside.of_contains hin hinner)

theorem mem_outside {parts : List Span} {e : TextEdit} :
    e ∈ outside parts es ↔ e ∈ es ∧ ∀ part ∈ parts, part.contains e.span = false := by
  simp [outside]

/-- A finished edit is in a part of a site, or is still finished after the site is rewritten. -/
theorem mem_outside_or {parts : List Span} {e : TextEdit} (he : e ∈ es) :
    (∃ part ∈ parts, part.contains e.span = true) ∨ e ∈ outside parts es := by
  by_cases h : ∃ part ∈ parts, part.contains e.span = true
  · exact .inl h
  · refine .inr (mem_outside.2 ⟨he, fun part hpart => Bool.eq_false_iff.2 fun hin => ?_⟩)
    exact h ⟨part, hpart, hin⟩

namespace Site.Settled

/-- Edits in the parts of a site are in the place of the site. -/
theorem contains (hs : s.Settled text) {e : TextEdit} {part : Span} (hpart : part ∈ s.kind.parts)
    (hin : part.contains e.span = true) : s.span.contains e.span = true :=
  Span.contains_trans (hs.contains_parts part hpart) hin

theorem placed (hs : s.Settled text) (hes : Placed text es) :
    Placed text (outside s.kind.parts es ++ [⟨s.span, r⟩]) where
  fitsIn := List.forall_mem_append.2
    ⟨(hes.outside _).fitsIn, List.forall_mem_singleton.2 hs.fitsIn⟩
  start_lt_stop := List.forall_mem_append.2
    ⟨(hes.outside _).start_lt_stop, List.forall_mem_singleton.2 hs.start_lt_stop⟩

/-- Edits are beside each other if those in each part of a site are, and those elsewhere and the site
are. -/
theorem allBeside_iff (hs : s.Settled text) (hes : Placed text es) :
    ClearIn s.kind.parts es ∧ AllBeside (outside s.kind.parts es ++ [⟨s.span, r⟩]) ↔
      AllBeside es ∧ ∀ e ∈ es, s.Admits e.span := by
  have hconcat : AllBeside (outside s.kind.parts es ++ [⟨s.span, r⟩]) ↔
      AllBeside (outside s.kind.parts es) ∧
        ∀ e ∈ outside s.kind.parts es, e.span.Beside s.span := by
    simp [AllBeside, List.pairwise_append]
  rw [hconcat]
  constructor
  · rintro ⟨hclear, houter, hbeside⟩
    have hadmits : ∀ e ∈ es, s.Admits e.span := fun e he =>
      (mem_outside_or he).imp_right (hbeside e)
    -- Of two edits, each is in a part of the site or in none.
    refine ⟨List.pairwise_iff_forall_sublist.2 fun {d e} hsub => ?_, hadmits⟩
    have hd : d ∈ es := hsub.subset List.mem_cons_self
    have he : e ∈ es := hsub.subset (List.mem_cons_of_mem _ List.mem_cons_self)
    have hboth {p : TextEdit → Bool} (hall : AllBeside (es.filter p)) (hpd : p d = true)
        (hpe : p e = true) : d.span.Beside e.span := by
      have hsub' := hsub.filter p
      rw [List.filter_cons_of_pos hpd, List.filter_cons_of_pos hpe, List.filter_nil] at hsub'
      exact List.pairwise_iff_forall_sublist.1 hall hsub'
    obtain ⟨part, hpart, hin⟩ | hdout := mem_outside_or hd
    · obtain ⟨part', hpart', hin'⟩ | heout := mem_outside_or he
      · by_cases hsame : part = part'
        · subst hsame
          exact hboth (hclear part hpart) hin hin'
        · have hsymm : Std.Symm Span.Apart := ⟨fun _ _ => Span.Apart.symm⟩
          have hapart := hs.apart.forall hpart hpart' hsame
          refine Span.Apart.beside ?_ (hes.start_lt_stop d hd) (hes.start_lt_stop e he)
          rw [Span.contains_iff] at hin hin'
          rw [Span.Apart] at hapart ⊢
          omega
      · exact ((hbeside e heout).symm.of_contains (hs.contains hpart hin)
          (hes.start_lt_stop d hd))
    · obtain ⟨part', hpart', hin'⟩ | heout := mem_outside_or he
      · exact ((hbeside d hdout).symm.of_contains (hs.contains hpart' hin')
          (hes.start_lt_stop e he)).symm
      · exact hboth houter (List.mem_filter.1 hdout).2 (List.mem_filter.1 heout).2
  · rintro ⟨hall, hadmits⟩
    refine ⟨fun part _ => hall.filter _, hall.filter _, fun e he => ?_⟩
    obtain ⟨he, hout⟩ := mem_outside.1 he
    obtain ⟨part, hpart, hin⟩ | hbeside := hadmits e he
    · exact absurd hin (Bool.eq_false_iff.1 (hout part hpart))
    · exact hbeside

/-- What is beside the finished edits once a site is rewritten is what was beside them and is beside the
site. -/
theorem forall_beside_iff (hs : s.Settled text) (hes : Placed text es) (place : Span) :
    (∀ e ∈ outside s.kind.parts es ++ [(⟨s.span, r⟩ : TextEdit)], e.span.Beside place) ↔
      (∀ e ∈ es, e.span.Beside place) ∧ s.span.Beside place := by
  rw [List.forall_mem_append, List.forall_mem_singleton]
  refine ⟨fun ⟨houter, hbeside⟩ => ⟨fun e he => ?_, hbeside⟩, fun ⟨hall, hbeside⟩ =>
    ⟨fun e he => hall e (mem_outside.1 he).1, hbeside⟩⟩
  obtain ⟨part, hpart, hin⟩ | he' := mem_outside_or he
  · exact hbeside.of_contains (hs.contains hpart hin) (hes.start_lt_stop e he)
  · exact houter e he'

end Site.Settled

/-- Once a site is rewritten, what is finished fits what is left exactly if it did so before, with the
site to come first. -/
theorem Fitting.step (hs : s.Settled text) (hes : Placed text es) :
    ClearIn s.kind.parts es ∧ Fitting (outside s.kind.parts es ++ [⟨s.span, r⟩]) rest ↔
      Fitting es (s :: rest) := by
  constructor
  · rintro ⟨hclear, hfit⟩
    obtain ⟨hall, hadmits⟩ := (hs.allBeside_iff hes).1 ⟨hclear, hfit.allBeside⟩
    have hown : ∀ t ∈ rest, t.Admits s.span := fun t ht =>
      hfit.admits t ht ⟨s.span, r⟩ (List.mem_append_right _ List.mem_cons_self)
    refine ⟨hall, List.forall_mem_cons.2 ⟨hadmits, fun t ht e he => ?_⟩,
      List.pairwise_cons.2 ⟨hown, hfit.pairwise⟩⟩
    obtain ⟨part, hpart, hin⟩ | he' := mem_outside_or he
    · exact (hown t ht).of_contains (hs.contains hpart hin) (hes.start_lt_stop e he)
    · exact hfit.admits t ht e (List.mem_append_left _ he')
  · intro hfit
    obtain ⟨hadmits, hlater⟩ := List.forall_mem_cons.1 hfit.admits
    obtain ⟨hown, hpairwise⟩ := List.pairwise_cons.1 hfit.pairwise
    obtain ⟨hclear, hall⟩ := (hs.allBeside_iff hes).2 ⟨hfit.allBeside, hadmits⟩
    refine ⟨hclear, hall, fun t ht => List.forall_mem_append.2 ⟨fun e he => ?_, ?_⟩, hpairwise⟩
    · exact hlater t ht e (mem_outside.1 he).1
    · exact List.forall_mem_singleton.2 (hown t ht)

/-- A run over sites finishes edits exactly if they fit what was finished, and only then can all edits be
made. What is beside all edits is what was beside those before and is beside the sites. -/
theorem forM_rewriteSite_outcome (rest : List Site) (hs : ∀ s ∈ changing rest, s.Settled text)
    (hes : Placed text es) :
    (∃ es', (rest.forM (rewriteSite text plan config)).run es = .ok ((), es') ∧ Placed text es' ∧
      (AllBeside es' ↔ Fitting es (changing rest)) ∧
      ∀ place, (∀ e ∈ es', e.span.Beside place) ↔
        (∀ e ∈ es, e.span.Beside place) ∧ ∀ s ∈ changing rest, s.span.Beside place) ∨
    ((rest.forM (rewriteSite text plan config)).run es = .error .overlappingEdits ∧
      ¬ Fitting es (changing rest)) := by
  induction rest generalizing es with
  | nil =>
    refine .inl ⟨es, rfl, hes, ⟨fun h => ⟨h, by simp [changing], .nil⟩, fun h => h.allBeside⟩, ?_⟩
    simp [changing]
  | cons s rest ih =>
    have hrun (x : Except ConversionError (Unit × List TextEdit))
        (hx : (rewriteSite text plan config s).run es = x) :
        ((s :: rest).forM (rewriteSite text plan config)).run es =
          x >>= fun a => (rest.forM (rewriteSite text plan config)).run a.2 := by
      rw [← hx]
      exact StateT.run_bind _ _ _
    by_cases hkind : s.kind = .mention
    · have hsame : changing (s :: rest) = changing rest := by simp [changing, hkind]
      have hkeeps : (rewriteSite text plan config s).run es = .ok ((), es) := by
        rw [rewriteSite, hkind]
        rfl
      rw [hrun _ hkeeps]
      rw [hsame] at hs ⊢
      exact ih hs hes
    · have hmore : changing (s :: rest) = s :: changing rest := by simp [changing, hkind]
      rw [hmore] at hs ⊢
      obtain ⟨hfirst, hs⟩ := List.forall_mem_cons.1 hs
      obtain ⟨hclear, r, hr⟩ | ⟨hclash, hr⟩ := rewriteSite_outcome plan config hkind
        hfirst.toFits hes
      · rw [hrun _ hr, ← Fitting.step (r := r) hfirst hes]
        obtain ⟨es', hrest, hplaced, hall, hbeside⟩ | ⟨hrest, hfails⟩ := ih hs (hfirst.placed hes)
        · refine .inl ⟨es', hrest, hplaced, by rw [hall, and_iff_right hclear], fun place => ?_⟩
          rw [hbeside, hfirst.forall_beside_iff hes, List.forall_mem_cons, and_assoc]
        · exact .inr ⟨hrest, fun h => hfails h.2⟩
      · rw [hrun _ hr]
        refine .inr ⟨rfl, fun h => hclash ?_⟩
        exact ((Fitting.step (r := "") hfirst hes).2 h).1

/-! ## Sites that are compatible -/

/-- Two sites can both be rewritten: one is in a part that is copied when the other is rewritten, or they
are beside each other. -/
def Site.Compatible (s t : Site) : Prop := t.Admits s.span ∨ s.Admits t.span

instance (s t : Site) : Decidable (s.Compatible t) := inferInstanceAs (Decidable (_ ∨ _))

theorem Site.Compatible.symm (h : s.Compatible t) : t.Compatible s := Or.symm h

/-- The shorter one of two compatible sites is in a part of the other, or beside it. -/
theorem Site.Compatible.admits (h : s.Compatible t) (hs : s.Settled text) (hle : s.le t = true) :
    t.Admits s.span := by
  obtain h | ⟨part, hpart, hin⟩ | hbeside := h
  · exact h
  · have hlt := hs.size_lt part hpart
    have hle := Site.le_iff.1 hle
    rw [Span.contains_iff] at hin
    rw [Span.size, Span.size] at *
    omega
  · exact .inr hbeside.symm

/-- Edits that rewrite sites: they can all be made if any two of the sites are compatible, and they are
beside what the sites are beside. -/
structure Rewrites (sites : List Site) (es : List TextEdit) : Prop where
  allBeside_iff : AllBeside es ↔ sites.Pairwise Site.Compatible
  beside_iff : ∀ place, (∀ e ∈ es, e.span.Beside place) ↔ ∀ s ∈ sites, s.span.Beside place

/-- The sites of a file are rewritten into edits that can all be made exactly if any two of them are
compatible. If not, two edits overlap, in a copy or at the end. -/
theorem rewriteSites_outcome (plan : Plan) (config : Config)
    (hs : ∀ s ∈ changing sites, s.Settled text) :
    (∃ es, rewriteSites text sites plan config = .ok es ∧ Placed text es ∧
      Rewrites (changing sites) es) ∨
    (rewriteSites text sites plan config = .error .overlappingEdits ∧
      ¬ (changing sites).Pairwise Site.Compatible) := by
  have hperm : (changing (sites.mergeSort Site.le)).Perm (changing sites) :=
    (List.mergeSort_perm sites Site.le).filter _
  have hsorted : (changing (sites.mergeSort Site.le)).Pairwise fun s t => s.le t = true :=
    (pairwise_le_mergeSort sites).filter _
  have hs' : ∀ s ∈ changing (sites.mergeSort Site.le), s.Settled text :=
    fun s h => hs s (hperm.mem_iff.1 h)
  have hfitting : Fitting [] (changing (sites.mergeSort Site.le)) ↔
      (changing sites).Pairwise Site.Compatible := by
    rw [← hperm.pairwise_iff Site.Compatible.symm]
    constructor
    · exact fun h => h.pairwise.imp fun h => .inl h
    · refine fun h => ⟨.nil, by simp, ?_⟩
      exact (h.and hsorted).imp_of_mem fun {s t} hmem _ ⟨hst, hle⟩ => hst.admits (hs' s hmem) hle
  have hplaced : Placed text [] := ⟨by simp, by simp⟩
  rw [rewriteSites]
  obtain ⟨es, hrun, hes, hall, hbeside⟩ | ⟨hrun, hfails⟩ := forM_rewriteSite_outcome _ hs' hplaced
  · refine .inl ⟨es, by rw [hrun]; rfl, hes, hall.trans hfitting, fun place => ?_⟩
    rw [hbeside]
    simp [hperm.mem_iff]
  · exact .inr ⟨by rw [hrun]; rfl, fun h => hfails (hfitting.2 h)⟩

end Runs

end Reshape
