import Mathlib.Data.List.Forall2
import Reshape.Convert.Rewrite
import Reshape.Proofs.Outcome

/-!
# What becomes of finished edits

A site that is rewritten copies parts of the text. Each edit that was finished inside such a part is
made in the copy, and the copy stands in the replacement of the site.

* `Leaves` compares the finished edits before and after a step: none is new, and those that are gone
  have a property.
* `MadeIn` says that an edit was made in a copy of a part of the text.
* `rewriteSite_run` is the step lemma: what is gone after a site was rewritten was made in a copy
  that stands in the replacement, or inside a part of a pattern that is left out (`SiteKind.LeavesOut`).
* `TextEdit.Carries` follows copies of copies. `rewriteSites_settles` is the run lemma: every field
  access among the sites is carried out by one of the edits that are left at the end, unless it is
  in a part of a pattern that is left out (`TextEdit.Settles`).
-/

namespace Reshape

variable {text : String} {es es' es₁ es₂ : List TextEdit} {e : TextEdit}

/-! ## Texts in texts -/

/-- The first text stands somewhere in the second. -/
def Occurs (s t : String) : Prop := ∃ before behind, t = before ++ s ++ behind

namespace Occurs

variable {s t : String}

theorem refl (s : String) : Occurs s s := ⟨"", "", by simp⟩

theorem append_left (h : Occurs s t) (u : String) : Occurs s (u ++ t) := by
  obtain ⟨before, behind, rfl⟩ := h
  exact ⟨u ++ before, behind, by simp [String.append_assoc]⟩

theorem append_right (h : Occurs s t) (u : String) : Occurs s (t ++ u) := by
  obtain ⟨before, behind, rfl⟩ := h
  exact ⟨before, behind ++ u, by simp [String.append_assoc]⟩

theorem intercalate {ts : List String} (h : Occurs s t) (ht : t ∈ ts) (separator : String) :
    Occurs s (separator.intercalate ts) := by
  induction ts with
  | nil => cases ht
  | cons u ts ih =>
    cases ts with
    | nil =>
      obtain rfl := List.mem_singleton.1 ht
      rwa [String.intercalate_singleton]
    | cons v vs =>
      rw [String.intercalate_cons_cons]
      obtain rfl | ht := List.mem_cons.1 ht
      · exact (h.append_right _).append_right _
      · exact (ih ht).append_left _

end Occurs

/-! ## Steps -/

/-- No finished edit is new, and those that are gone have a property. -/
def Leaves (P : TextEdit → Prop) (es es' : List TextEdit) : Prop :=
  (∀ e ∈ es', e ∈ es) ∧ ∀ e ∈ es, e ∈ es' ∨ P e

namespace Leaves

variable {P Q : TextEdit → Prop}

theorem refl (es : List TextEdit) : Leaves P es es := ⟨fun _ h => h, fun _ h => .inl h⟩

theorem mono (h : Leaves P es es') (hPQ : ∀ e, P e → Q e) : Leaves Q es es' :=
  ⟨h.1, fun e he => (h.2 e he).imp_right (hPQ e)⟩

theorem trans (h : Leaves P es es₁) (h' : Leaves P es₁ es₂) : Leaves P es es₂ := by
  refine ⟨fun e he => h.1 e (h'.1 e he), fun e he => ?_⟩
  obtain he | hP := h.2 e he
  · exact h'.2 e he
  · exact .inr hP

end Leaves

/-- The copy is one of a part of the text, and the edit was made in it. -/
def MadeIn (text : String) (part : Span) (copy : String) (e : TextEdit) : Prop :=
  part.contains e.span = true ∧ ∃ inner : List TextEdit, e ∈ inner ∧
    applyEdits (sliceText text part.start part.stop) (inner.map (Rewriting.shift part.start)) =
      .ok copy

namespace Rewriting

variable {α β : Type}

theorem run_bind_eq_ok {x : Rewriting α} {f : α → Rewriting β} {b : β} :
    (x >>= f).run es = .ok (b, es') ↔
      ∃ a es₁, x.run es = .ok (a, es₁) ∧ (f a).run es₁ = .ok (b, es') := by
  rw [StateT.run_bind, bind_eq_ok]
  constructor
  · rintro ⟨⟨a, es₁⟩, hx, hf⟩
    exact ⟨a, es₁, hx, hf⟩
  · rintro ⟨a, es₁, hx, hf⟩
    exact ⟨(a, es₁), hx, hf⟩

theorem run_pure_eq_ok {a b : α} :
    (pure a : Rewriting α).run es = .ok (b, es') ↔ a = b ∧ es = es' := by
  rw [StateT.run_pure, pure_eq_ok, Prod.mk.injEq]

theorem slice_run {s : Span} {r : String} (h : (slice text s).run es = .ok (r, es')) :
    r = sliceText text s.start s.stop ∧ es' = es := by
  rw [slice] at h
  split at h
  · obtain ⟨hr, hes⟩ := run_pure_eq_ok.1 h
    exact ⟨hr.symm, hes.symm⟩
  · cases h

theorem render_run {s : Span} {copy : String} (h : (render text s).run es = .ok (copy, es')) :
    Leaves (MadeIn text s copy) es es' := by
  obtain ⟨part, es₁, hpart, hrest⟩ := run_bind_eq_ok.1 h
  obtain ⟨rfl, rfl⟩ := slice_run hpart
  obtain ⟨es₂, es₃, hget, hrest⟩ := run_bind_eq_ok.1 hrest
  cases hget
  rw [List.partition_eq_filter_filter] at hrest
  obtain ⟨u, es₄, hset, hrest⟩ := run_bind_eq_ok.1 hrest
  cases hset
  obtain ⟨a, happly, heq⟩ := bind_eq_ok.1 hrest
  cases heq
  refine ⟨fun e he => (List.mem_filter.1 he).1, fun e he => ?_⟩
  by_cases hin : s.contains e.span = true
  · exact .inr ⟨hin, _, List.mem_filter.2 ⟨he, hin⟩, happly⟩
  · exact .inl (List.mem_filter.2 ⟨he, by simpa using hin⟩)

/-- A step for each item. What is gone afterwards went with one of the items. -/
theorem mapM_run {f : α → Rewriting β} {R : α → β → Prop} {P : α → β → TextEdit → Prop}
    (hf : ∀ a b es es', (f a).run es = .ok (b, es') → R a b ∧ Leaves (P a b) es es')
    {as : List α} {bs : List β} (h : (as.mapM f).run es = .ok (bs, es')) :
    List.Forall₂ R as bs ∧ Leaves (fun e => ∃ xs a ys us b vs, as = xs ++ a :: ys ∧
      bs = us ++ b :: vs ∧ List.Forall₂ R (a :: ys) (b :: vs) ∧ P a b e) es es' := by
  induction as generalizing es bs with
  | nil =>
    cases h
    exact ⟨.nil, .refl _⟩
  | cons a as ih =>
    rw [List.mapM_cons] at h
    obtain ⟨b, es₁, hb, h⟩ := run_bind_eq_ok.1 h
    obtain ⟨bs', es₂, hbs, h⟩ := run_bind_eq_ok.1 h
    cases h
    obtain ⟨hR, hgone⟩ := hf a b es es₁ hb
    obtain ⟨hrest, hgone'⟩ := ih hbs
    refine ⟨.cons hR hrest, (hgone.mono fun e he => ?_).trans (hgone'.mono fun e he => ?_)⟩
    · exact ⟨[], a, as, [], b, bs', rfl, rfl, .cons hR hrest, he⟩
    · obtain ⟨xs, a', ys, us, b', vs, rfl, rfl, hys, hP⟩ := he
      exact ⟨a :: xs, a', ys, b :: us, b', vs, rfl, rfl, hys, hP⟩

end Rewriting

/-! ## Literals -/

/-- A copy of one of the parts stands in a text, and the edit was made in it. -/
def CopiedIn (text : String) (parts : List Span) (r : String) (e : TextEdit) : Prop :=
  ∃ part ∈ parts, ∃ copy, Occurs copy r ∧ MadeIn text part copy e

open Rewriting

/-- The part of the text that the value of a field is. -/
def FieldValue.part? : FieldValue → Option Span
  | .expr s => some s
  | .shorthand _ => none

theorem renderValue_run {field value : Nat × _} (h : (renderValue text field).run es = .ok (value, es')) :
    value.1 = field.1 ∧
      Leaves (fun e => ∃ part ∈ field.2.part?, MadeIn text part value.2 e) es es' := by
  obtain ⟨i, v⟩ := field
  cases v with
  | shorthand name =>
    obtain ⟨rfl, rfl⟩ := run_pure_eq_ok.1 h
    exact ⟨rfl, .refl _⟩
  | expr s =>
    obtain ⟨copy, es₁, hcopy, hrest⟩ := run_bind_eq_ok.1 h
    cases hrest
    exact ⟨rfl, (render_run hcopy).mono fun e he => ⟨s, rfl, he⟩⟩

theorem renderBase_run {base : Option Span} {parts : List String}
    (h : (renderBase text base).run es = .ok (parts, es')) :
    Leaves (fun e => ∃ s ∈ base, ∃ copy, (∃ t ∈ parts, Occurs copy t) ∧ MadeIn text s copy e)
      es es' := by
  cases base with
  | none =>
    cases h
    exact .refl _
  | some s =>
    obtain ⟨copy, es₁, hcopy, hrest⟩ := run_bind_eq_ok.1 h
    cases hrest
    exact (render_run hcopy).mono fun e he =>
      ⟨s, rfl, copy, ⟨_, List.mem_singleton_self _, (Occurs.refl copy).append_left _⟩, he⟩

theorem rewriteLiteral_run {plan : Plan} {path : Span} {fields : List (Nat × FieldValue)}
    {base : Option Span} {r : String}
    (h : (rewriteLiteral text plan path fields base).run es = .ok (r, es')) :
    Leaves (CopiedIn text (fields.filterMap (·.2.part?) ++ base.toList) r) es es' := by
  obtain ⟨values, es₁, hvalues, hname⟩ := run_bind_eq_ok.1 h
  obtain ⟨name, es₂, hslice, hrest⟩ := run_bind_eq_ok.1 hname
  obtain ⟨-, rfl⟩ := slice_run hslice
  obtain ⟨-, hgone⟩ := mapM_run (fun _ _ _ _ => renderValue_run) hvalues
  -- Each value stands in what becomes of the literal, whatever its form.
  have hcopied (hin : ∀ v ∈ byField values, ∀ copy, Occurs copy v.2 → Occurs copy r) :
      Leaves (CopiedIn text (fields.filterMap (·.2.part?) ++ base.toList) r) es es₂ := by
    refine hgone.mono fun e he => ?_
    obtain ⟨xs, field, ys, us, value, vs, rfl, rfl, -, part, hpart, hmade⟩ := he
    refine ⟨part, List.mem_append_left _ (List.mem_filterMap.2 ⟨field, by simp, hpart⟩), value.2,
      hin value ?_ _ (.refl _), hmade⟩
    exact (List.mergeSort_perm _ _).mem_iff.2 (by simp)
  dsimp only at hrest
  split at hrest
  · obtain ⟨rfl, rfl⟩ := run_pure_eq_ok.1 hrest
    exact hcopied fun v hv copy hcopy =>
      ((hcopy.intercalate (List.mem_map.2 ⟨v, hv, rfl⟩) _).append_left _).append_right _
  · obtain ⟨parts, es₃, hbase, hpure⟩ := run_bind_eq_ok.1 hrest
    obtain ⟨rfl, rfl⟩ := run_pure_eq_ok.1 hpure
    refine (hcopied fun v hv copy hcopy => ?_).trans ((renderBase_run hbase).mono fun e he => ?_)
    · refine ((Occurs.intercalate (hcopy.append_left (toString v.1 ++ ": ")) ?_ _).append_left
        _).append_right _
      exact List.mem_append_left _ (List.mem_map.2 ⟨v, hv, rfl⟩)
    · obtain ⟨s, hs, copy, ⟨t, ht, hcopy⟩, hmade⟩ := he
      refine ⟨s, List.mem_append_right _ (Option.mem_toList.2 hs), copy, ?_, hmade⟩
      exact ((hcopy.intercalate (List.mem_append_right _ ht) _).append_left _).append_right _

/-! ## Patterns -/

theorem renderPart_run {part : Nat × Span} {bound : Nat × String}
    (h : (renderPart text part).run es = .ok (bound, es')) :
    bound.1 = part.1 ∧ Leaves (MadeIn text part.2 bound.2) es es' := by
  obtain ⟨i, s⟩ := part
  obtain ⟨copy, es₁, hcopy, hrest⟩ := run_bind_eq_ok.1 h
  cases hrest
  exact ⟨rfl, render_run hcopy⟩

theorem keys_eq_of_forall₂ {parts : List (Nat × Span)} {bound : List (Nat × String)}
    (h : List.Forall₂ (fun part b => b.1 = part.1) parts bound) :
    bound.map (·.1) = parts.map (·.1) := by
  induction h with
  | nil => rfl
  | cons hkey _ ih => rw [List.map_cons, List.map_cons, ih, hkey]

/-- The last part that is bound to a field stands in its slot. -/
theorem mem_boundSlots {count i : Nat} {r : String} {us vs : List (Nat × String)}
    (hi : i < count) (hlast : i ∉ vs.map (·.1)) :
    some r ∈ boundSlots count (us ++ (i, r) :: vs) := by
  refine List.mem_map.2 ⟨i, List.mem_range.2 hi, ?_⟩
  have hnone : vs.reverse.lookup i = none := by
    rw [List.lookup_eq_none_iff]
    intro v hv
    refine bne_iff_ne.2 ?_
    rintro rfl
    exact hlast (List.mem_map.2 ⟨v, List.mem_reverse.1 hv, rfl⟩)
  simp [List.lookup_append, hnone]

/-- A part that stands in its slot is one of those of the positional pattern. -/
theorem mem_patternSlots {count : Nat} {bound : List (Nat × String)} {r : String}
    (h : some r ∈ boundSlots count bound) (rest : Bool) (collapseMin : Nat) :
    r ∈ patternSlots count bound rest collapseMin := by
  rw [patternSlots]
  generalize hslots : boundSlots count bound = slots at h ⊢
  have hcount : slots.length = count := by simp [← hslots, boundSlots]
  split
  · -- Only empty slots are left out.
    refine List.mem_append_left _ (List.mem_filterMap.2 ⟨some r, ?_, rfl⟩)
    have htail := List.takeWhile_append_dropWhile (p := (·.isNone)) (l := slots.reverse)
    have hback := congrArg List.reverse htail
    rw [List.reverse_append, List.reverse_reverse] at hback
    rw [← hback] at h
    obtain h | h := List.mem_append.1 h
    · have hlen := congrArg List.length hback
      simp only [List.length_append, List.length_reverse] at hlen
      rw [← hback, List.take_append_of_le_length (by simp; omega), List.take_of_length_le]
      · exact h
      · simp
        omega
    · have := List.all_takeWhile (p := (·.isNone)) (l := slots.reverse)
      simp only [List.all_eq_true] at this
      simpa using this _ (List.mem_reverse.1 h)
  · exact List.mem_map.2 ⟨some r, h, rfl⟩

/-- A place is in a part of a pattern that is left out, as a later part is bound to the same
field. -/
def LeftOut (parts : List (Nat × Span)) (place : Span) : Prop :=
  ∃ before i part behind, parts = before ++ (i, part) :: behind ∧ i ∈ behind.map (·.1) ∧
    part.contains place = true

theorem rewritePattern_run {plan : Plan} {config : Config} {path : Span}
    {parts : List (Nat × Span)} {rest : Bool} {r : String}
    (hfields : ∀ part ∈ parts, part.1 < plan.size)
    (h : (rewritePattern text plan config path parts rest).run es = .ok (r, es')) :
    Leaves (fun e => CopiedIn text (parts.map (·.2)) r e ∨ LeftOut parts e.span) es es' := by
  obtain ⟨bound, es₁, hbound, hname⟩ := run_bind_eq_ok.1 h
  obtain ⟨name, es₂, hslice, hrest⟩ := run_bind_eq_ok.1 hname
  obtain ⟨-, rfl⟩ := slice_run hslice
  obtain ⟨rfl, rfl⟩ := run_pure_eq_ok.1 hrest
  obtain ⟨-, hgone⟩ := mapM_run (fun _ _ _ _ => renderPart_run) hbound
  refine hgone.mono fun e he => ?_
  obtain ⟨xs, ⟨i, part⟩, ys, us, ⟨j, copy⟩, vs, rfl, rfl, hsame, hmade⟩ := he
  obtain ⟨rfl, hbehind⟩ := List.forall₂_cons.1 hsame
  by_cases hlater : j ∈ vs.map (·.1)
  · rw [keys_eq_of_forall₂ hbehind] at hlater
    exact .inr ⟨xs, j, part, ys, rfl, hlater, hmade.1⟩
  · refine .inl ⟨part, by simp, copy, ?_, hmade⟩
    have hslot : some copy ∈ boundSlots plan.size (us ++ (j, copy) :: vs) :=
      mem_boundSlots (hfields (j, part) (by simp)) hlater
    have hpattern := mem_patternSlots hslot rest config.collapseRestMin
    exact (((Occurs.refl copy).intercalate hpattern _).append_left _).append_right _

/-! ## Sites -/

namespace SiteKind

/-- The parts of the text that are copied when a site is rewritten. -/
def parts : SiteKind → List Span
  | construction _ fields base => fields.filterMap (·.2.part?) ++ base.toList
  | pattern _ parts _ => parts.map (·.2)
  | access _ | mention => []

/-- A place is in a part of a pattern that is left out when the pattern is rewritten. -/
def LeavesOut (place : Span) : SiteKind → Prop
  | pattern _ parts _ => LeftOut parts place
  | construction _ _ _ | access _ | mention => False

/-- The parts of a pattern are bound to fields, of which there are so many. -/
def BindsBelow (count : Nat) : SiteKind → Prop
  | pattern _ parts _ => ∀ part ∈ parts, part.1 < count
  | construction _ _ _ | access _ | mention => True

end SiteKind

/-- Rewriting a site finishes one edit, in the place of the site. -/
theorem rewriteSite_run {plan : Plan} {config : Config} {s : Site} {u : Unit}
    (hfields : s.kind.BindsBelow plan.size)
    (h : (rewriteSite text plan config s).run es = .ok (u, es')) :
    (s.kind = .mention ∧ es' = es) ∨ ∃ r es₁, es' = es₁ ++ [⟨s.span, r⟩] ∧
      (∀ i, s.kind = .access i → r = toString i) ∧
      Leaves (fun e => CopiedIn text s.kind.parts r e ∨ s.kind.LeavesOut e.span) es es₁ := by
  rw [rewriteSite] at h
  split at h
  · next hkind =>
    obtain ⟨-, rfl⟩ := run_pure_eq_ok.1 h
    exact .inl ⟨hkind, rfl⟩
  · next i hkind =>
    obtain ⟨r, es₁, hr, hadd⟩ := run_bind_eq_ok.1 h
    obtain ⟨rfl, rfl⟩ := run_pure_eq_ok.1 hr
    cases hadd
    refine .inr ⟨toString i, es, rfl, fun j hj => ?_, .refl es⟩
    rw [hkind] at hj
    cases hj
    rfl
  · next path fields base hkind =>
    obtain ⟨r, es₁, hr, hadd⟩ := run_bind_eq_ok.1 h
    cases hadd
    refine .inr ⟨r, es₁, rfl, by simp [hkind], ?_⟩
    rw [hkind]
    exact (rewriteLiteral_run hr).mono fun e => .inl
  · next path parts rest hkind =>
    obtain ⟨r, es₁, hr, hadd⟩ := run_bind_eq_ok.1 h
    cases hadd
    refine .inr ⟨r, es₁, rfl, by simp [hkind], ?_⟩
    rw [hkind] at hfields ⊢
    exact rewritePattern_run hfields hr

/-- An edit carries out a replacement: it is that replacement, or its text has a copy of a part of
what it replaces in which an edit was made that carries it out. -/
inductive TextEdit.Carries (text : String) (place : Span) (r : String) : TextEdit → Prop
  | itself : Carries text place r ⟨place, r⟩
  | copied {e d : TextEdit} {part : Span} {copy : String} : e.span.contains part = true →
      Occurs copy e.replacement → MadeIn text part copy d → Carries text place r d →
      Carries text place r e

theorem TextEdit.Carries.contains {place : Span} {r : String} (h : e.Carries text place r) :
    e.span.contains place = true := by
  induction h with
  | itself => exact Span.contains_refl _
  | copied hpart _ hmade _ ih => exact Span.contains_trans hpart (Span.contains_trans hmade.1 ih)

/-- What is in a place that is left out is left out. -/
theorem SiteKind.LeavesOut.mono {place inner : Span} {k : SiteKind} (h : k.LeavesOut place)
    (hin : place.contains inner = true) : k.LeavesOut inner := by
  cases k with
  | pattern path parts rest =>
    obtain ⟨before, i, part, behind, hparts, hi, hpart⟩ := h
    exact ⟨before, i, part, behind, hparts, hi, Span.contains_trans hpart hin⟩
  | construction path fields base => exact h.elim
  | access i => exact h.elim
  | mention => exact h.elim

/-- An edit settles a replacement: it carries it out, or what it replaces is around a part of a
pattern that is left out, and the place is in that part. -/
def TextEdit.Settles (text : String) (sites : List Site) (place : Span) (r : String)
    (e : TextEdit) : Prop :=
  e.Carries text place r ∨ e.span.contains place = true ∧ ∃ s ∈ sites, s.kind.LeavesOut place

theorem TextEdit.Settles.contains {sites : List Site} {place : Span} {r : String}
    (h : e.Settles text sites place r) : e.span.contains place = true :=
  h.elim (·.contains) (·.1)

/-- What is copied when a site is rewritten is part of it, and patterns bind fields, of which there
are so many. -/
structure Site.Sound (count : Nat) (s : Site) : Prop where
  contains_parts : ∀ part ∈ s.kind.parts, s.span.contains part = true
  bindsBelow : s.kind.BindsBelow count

section Runs

variable {plan : Plan} {config : Config} {sites rest : List Site} {s : Site} {place : Span}
  {r : String} {u : Unit}

theorem Site.Sound.contains_of_leavesOut {count : Nat} (hs : s.Sound count)
    (h : s.kind.LeavesOut place) : s.span.contains place = true := by
  have hparts := hs.contains_parts
  generalize s.kind = k at hparts h
  cases k with
  | pattern path parts rest =>
    obtain ⟨before, i, part, behind, rfl, -, hpart⟩ := h
    exact Span.contains_trans (hparts part (by simp [SiteKind.parts])) hpart
  | construction path fields base => exact h.elim
  | access i => exact h.elim
  | mention => exact h.elim

/-- A site that is rewritten finishes an edit in its place only, and leaves replacements settled. -/
theorem rewriteSite_settles (hs : s ∈ sites) (hsound : s.Sound plan.size)
    (h : (rewriteSite text plan config s).run es = .ok (u, es')) :
    (∀ e ∈ es', e ∈ es ∨ e.span = s.span) ∧
      (∀ place r, (∃ e ∈ es, e.Settles text sites place r) →
        ∃ e ∈ es', e.Settles text sites place r) ∧
      ∀ i, s.kind = .access i → ∃ e ∈ es', e.Carries text s.span (toString i) := by
  obtain ⟨hkind, rfl⟩ | ⟨r, es₁, rfl, hr, hold, hgone⟩ := rewriteSite_run hsound.bindsBelow h
  · exact ⟨fun e he => .inl he, fun place r hsettled => hsettled, by simp [hkind]⟩
  have hlast : (⟨s.span, r⟩ : TextEdit) ∈ es₁ ++ [⟨s.span, r⟩] :=
    List.mem_append_right _ (List.mem_singleton_self _)
  refine ⟨fun e he => ?_, ?_, fun i hi => ⟨_, hlast, hr i hi ▸ .itself⟩⟩
  · obtain he | he := List.mem_append.1 he
    · exact .inl (hold e he)
    · exact .inr (by rw [List.mem_singleton.1 he])
  · rintro place r' ⟨e, he, hsettles⟩
    obtain he | ⟨part, hpart, copy, hcopy, hmade⟩ | hout := hgone e he
    · exact ⟨e, List.mem_append_left _ he, hsettles⟩
    · have hin := hsound.contains_parts part hpart
      refine ⟨_, hlast, ?_⟩
      obtain hcarries | ⟨hplace, hleft⟩ := hsettles
      · exact .inl (.copied hin hcopy hmade hcarries)
      · exact .inr ⟨Span.contains_trans hin (Span.contains_trans hmade.1 hplace), hleft⟩
    · have hplace := hout.mono hsettles.contains
      exact ⟨_, hlast, .inr ⟨hsound.contains_of_leavesOut hplace, s, hs, hplace⟩⟩

/-- What becomes of sites that are rewritten one after the other. -/
theorem forM_rewriteSite_settles (hsites : ∀ s ∈ rest, s ∈ sites)
    (hsound : ∀ s ∈ sites, s.Sound plan.size)
    (h : (rest.forM (rewriteSite text plan config)).run es = .ok (u, es')) :
    (∀ e ∈ es', e ∈ es ∨ ∃ s ∈ rest, e.span = s.span) ∧
      (∀ place r, (∃ e ∈ es, e.Settles text sites place r) →
        ∃ e ∈ es', e.Settles text sites place r) ∧
      ∀ s ∈ rest, ∀ i, s.kind = .access i →
        ∃ e ∈ es', e.Settles text sites s.span (toString i) := by
  induction rest generalizing es with
  | nil =>
    cases h
    exact ⟨fun e he => .inl he, fun place r hsettled => hsettled, by simp⟩
  | cons s rest ih =>
    obtain ⟨u', es₁, hfirst, hrest⟩ := run_bind_eq_ok.1 h
    have hs := hsites s List.mem_cons_self
    obtain ⟨hold, hkept, haccess⟩ := rewriteSite_settles hs (hsound s hs) hfirst
    obtain ⟨hold', hkept', haccess'⟩ := ih (fun t ht => hsites t (List.mem_cons_of_mem _ ht)) hrest
    refine ⟨fun e he => ?_, fun place r hsettled => hkept' _ _ (hkept _ _ hsettled),
      fun t ht i hi => ?_⟩
    · obtain he | ⟨t, ht, hspan⟩ := hold' e he
      · exact (hold e he).imp_right fun hspan => ⟨s, List.mem_cons_self, hspan⟩
      · exact .inr ⟨t, List.mem_cons_of_mem _ ht, hspan⟩
    · obtain rfl | ht := List.mem_cons.1 ht
      · obtain ⟨e, he, hcarries⟩ := haccess i hi
        exact hkept' _ _ ⟨e, he, .inl hcarries⟩
      · exact haccess' t ht i hi

/-- Each edit of a file stands in the place of a site, and each access among the sites is settled. -/
theorem rewriteSites_settles (hsound : ∀ s ∈ sites, s.Sound plan.size)
    (h : rewriteSites text sites plan config = .ok es) :
    (∀ e ∈ es, ∃ s ∈ sites, e.span = s.span) ∧
      ∀ s ∈ sites, ∀ i, s.kind = .access i →
        ∃ e ∈ es, e.Settles text sites s.span (toString i) := by
  have hmem {s : Site} : s ∈ sites.mergeSort Site.le ↔ s ∈ sites :=
    (List.mergeSort_perm sites _).mem_iff
  obtain ⟨⟨u, es'⟩, hrun, rfl⟩ := map_eq_ok.1 h
  obtain ⟨hold, -, haccess⟩ := forM_rewriteSite_settles (fun s hs => hmem.1 hs) hsound hrun
  refine ⟨fun e he => ?_, fun s hs => haccess s (hmem.2 hs)⟩
  obtain he | ⟨s, hs, hspan⟩ := hold e he
  · cases he
  · exact ⟨s, hmem.1 hs, hspan⟩

end Runs

end Reshape
