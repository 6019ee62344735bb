import Reshape.Proofs.Convert.Copies
import Reshape.Proofs.Convert.Nesting

/-!
# Rewriting sites in sites

Rewriting the sites of a file from the shortest to the longest is the same as rewriting each site once
those inside it are rewritten, by recursion on the forest of the sites.

* `Copies` specifies a step that copies parts of the text: the copies have the finished edits woven in,
  and these edits are finished no more. `Copies.bind` and `Copies.mapM` put steps together.
* `Site.becomes` is what becomes of a site, given copies of its parts. `Nest.edit` takes them from the
  edits of what stands inside the site, and `rewriteNested` is the text with the whole forest rewritten.
* `Arranged` are the sites that can stand in a file: what stands inside a site is in a part that is
  copied.
* `rewriteSite_step` says that after each site, the finished edits are those of the sites that are
  outermost so far. `rewriteSites_composes` is what follows for all sites.
-/

namespace Reshape

variable {text : String} {es : List TextEdit}

/-! ## Steps that copy parts of the text -/

/-- A step that copies parts of the text. The finished edits are made in the copies and are finished no
more, whatever they are, if those in each part can be made. -/
def Copies {α : Type} (text : String) (parts : List Span) (x : Rewriting α)
    (result : (Span → String) → α) : Prop :=
  ∀ es copy, Placed text es → ClearIn parts es → (∀ part ∈ parts, copy part = weave text part es) →
    x.run es = .ok (result copy, outside parts es)

theorem Rewriting.slice_eq_pure {s : Span} (h : s.FitsIn text) :
    Rewriting.slice text s = pure (sliceText text s.start s.stop) := if_pos h

namespace Copies

variable {α β : Type} {parts parts' : List Span} {x : Rewriting α} {g : (Span → String) → α}

theorem pure (a : α) : Copies text [] (pure a) fun _ => a := by
  intro es copy _ _ _
  rw [outside_nil]
  rfl

theorem render {part : Span} (h : part.FitsIn text) :
    Copies text [part] (Rewriting.render text part) fun copy => copy part := by
  intro es copy hes hclear hcopy
  have hwithin : Placed text (editsWithin part es) := hes.filter _
  have hmade := applyEdits_shift h (hwithin.separate (hclear part List.mem_cons_self))
    fun e he => (List.mem_filter.1 he).2
  have houter : (es.filter fun e => !part.contains e.span) = outside [part] es := by simp [outside]
  change (Rewriting.render text part).run es = .ok (copy part, outside [part] es)
  rw [editsWithin] at hmade
  rw [hcopy part List.mem_cons_self, ← weave_editsWithin, editsWithin, ← houter, Rewriting.render,
    Rewriting.slice_eq_pure h]
  simp only [pure_bind, StateT.run_bind, StateT.run_get, StateT.run_set, List.partition_eq_filter_filter]
  rw [StateT.run_monadLift, hmade]
  rfl

/-- A step and one that depends on its result copy the parts that either copies. -/
theorem bind {f : α → Rewriting β} {k : α → (Span → String) → β} (hx : Copies text parts x g)
    (hf : ∀ a, Copies text parts' (f a) (k a))
    (hparts : ∀ part ∈ parts, ∀ part' ∈ parts', part.Apart part') :
    Copies text (parts ++ parts') (x >>= f) fun copy => k (g copy) copy := by
  intro es copy hes hclear hcopy
  obtain ⟨hclear, hclear'⟩ := (clearIn_append hes hparts).1 hclear
  rw [Rewriting.run_bind_eq_ok]
  refine ⟨_, _, hx es copy hes hclear fun part hpart => hcopy part (List.mem_append_left _ hpart), ?_⟩
  rw [outside_append]
  refine hf _ _ _ (hes.outside _) hclear' fun part' hpart' => ?_
  rw [hcopy part' (List.mem_append_right _ hpart'),
    weave_outside hes fun part hpart => hparts part hpart part' hpart']

/-- A step whose result is put to use copies the same parts. -/
theorem map (hx : Copies text parts x g) (f : α → β) :
    Copies text parts (x >>= fun a => Pure.pure (f a)) fun copy => f (g copy) := by
  have hpure (a : α) : Copies text [] (Pure.pure (f a)) fun _ => f a := pure (f a)
  have hmap := hx.bind hpure fun _ _ _ hpart => absurd hpart List.not_mem_nil
  rwa [List.append_nil] at hmap

theorem mapM {f : α → Rewriting β} {g : α → (Span → String) → β} {parts : α → List Span}
    {as : List α} (hf : ∀ a ∈ as, Copies text (parts a) (f a) (g a))
    (hparts : (as.flatMap parts).Pairwise Span.Apart) :
    Copies text (as.flatMap parts) (as.mapM f) fun copy => as.map fun a => g a copy := by
  induction as with
  | nil => exact pure []
  | cons a as ih =>
    rw [List.flatMap_cons] at hparts ⊢
    obtain ⟨-, hrest, hacross⟩ := List.pairwise_append.1 hparts
    rw [List.mapM_cons]
    exact (hf a List.mem_cons_self).bind
      (fun b => (ih (fun a' ha' => hf a' (List.mem_cons_of_mem _ ha')) hrest).map fun bs => b :: bs)
      hacross

end Copies

/-! ## What becomes of a site -/

/-- The value of a field, given copies of parts of the text. -/
def FieldValue.copied (copy : Span → String) : FieldValue → String
  | .expr s => copy s
  | .shorthand name => name

/-- A literal for values of fields and a value behind two dots. -/
def literalOf (plan : Plan) (name : String) (values : List (Nat × String)) (base : Option String) :
    String :=
  let values := byField values
  if base.isNone && isComplete plan.size values then
    name ++ "(" ++ ", ".intercalate (values.map (·.2)) ++ ")"
  else
    let initializers := values.map fun (i, value) => toString i ++ ": " ++ value
    let parts := initializers ++ base.toList.map (".." ++ ·)
    name ++ " \x7b " ++ ", ".intercalate parts ++ " \x7d"

/-- What becomes of a literal, given copies of its parts. -/
def literalText (text : String) (plan : Plan) (path : Span) (fields : List (Nat × FieldValue))
    (base : Option Span) (copy : Span → String) : String :=
  literalOf plan (sliceText text path.start path.stop)
    (fields.map fun field => (field.1, field.2.copied copy)) (base.map copy)

/-- What becomes of a pattern, given copies of its parts. -/
def patternText (text : String) (plan : Plan) (config : Config) (path : Span)
    (parts : List (Nat × Span)) (rest : Bool) (copy : Span → String) : String :=
  let bound := parts.map fun part => (part.1, copy part.2)
  sliceText text path.start path.stop ++ "(" ++
    ", ".intercalate (patternSlots plan.size bound rest config.collapseRestMin) ++ ")"

/-- What becomes of a site, given copies of its parts. A mention stays as it is. -/
def Site.becomes (text : String) (plan : Plan) (config : Config) (s : Site) (copy : Span → String) :
    String :=
  match s.kind with
  | .construction path fields base => literalText text plan path fields base copy
  | .pattern path parts rest => patternText text plan config path parts rest copy
  | .access i => toString i
  | .mention => sliceText text s.span.start s.span.stop

/-- The name in front of a literal or a pattern. -/
def SiteKind.path? : SiteKind → Option Span
  | construction path _ _ | pattern path _ _ => some path
  | access _ | mention => none

/-- What is read when a site is rewritten lies in the text, and its parts have no character in common. -/
structure Site.Fits (text : String) (s : Site) : Prop where
  path : ∀ path ∈ s.kind.path?, path.FitsIn text
  parts : ∀ part ∈ s.kind.parts, part.FitsIn text
  apart : s.kind.parts.Pairwise Span.Apart

instance (text : String) (s : Site) : Decidable (s.Fits text) :=
  decidable_of_iff ((∀ path ∈ s.kind.path?, path.FitsIn text) ∧
      (∀ part ∈ s.kind.parts, part.FitsIn text) ∧ s.kind.parts.Pairwise Span.Apart)
    ⟨fun h => ⟨h.1, h.2.1, h.2.2⟩, fun h => ⟨h.path, h.parts, h.apart⟩⟩

section Sites

variable (plan : Plan) (config : Config) {path : Span} {s : Site}

theorem copies_renderValue {field : Nat × FieldValue}
    (h : ∀ part ∈ field.2.part?, part.FitsIn text) :
    Copies text field.2.part?.toList (renderValue text field) fun copy =>
      (field.1, field.2.copied copy) := by
  obtain ⟨i, s | name⟩ := field
  · exact (Copies.render (h s rfl)).map fun copy => (i, copy)
  · exact .pure (i, name)

theorem copies_renderBase {base : Option Span} (h : ∀ part ∈ base, part.FitsIn text) :
    Copies text base.toList (renderBase text base) fun copy =>
      (base.map copy).toList.map (".." ++ ·) := by
  cases base with
  | none => exact .pure []
  | some s => exact (Copies.render (h s rfl)).map fun copy => [".." ++ copy]

theorem copies_renderPart {part : Nat × Span} (h : part.2.FitsIn text) :
    Copies text [part.2] (renderPart text part) fun copy => (part.1, copy part.2) :=
  (Copies.render h).map fun copy => (part.1, copy)

theorem copies_rewriteLiteral {fields : List (Nat × FieldValue)} {base : Option Span}
    (hpath : path.FitsIn text)
    (hparts : ∀ part ∈ (SiteKind.construction path fields base).parts, part.FitsIn text)
    (hapart : (SiteKind.construction path fields base).parts.Pairwise Span.Apart) :
    Copies text (SiteKind.construction path fields base).parts
      (rewriteLiteral text plan path fields base) (literalText text plan path fields base) := by
  rw [SiteKind.parts, List.filterMap_eq_flatMap_toList] at *
  obtain ⟨hfields, -, hacross⟩ := List.pairwise_append.1 hapart
  have hvalues : Copies text (fields.flatMap (·.2.part?.toList)) (fields.mapM (renderValue text))
      fun copy => fields.map fun field => (field.1, field.2.copied copy) :=
    Copies.mapM (fun field hfield => copies_renderValue fun part hpart =>
      hparts part (List.mem_append_left _
        (List.mem_flatMap.2 ⟨field, hfield, Option.mem_toList.2 hpart⟩))) hfields
  refine Copies.bind (k := fun values copy => literalOf plan (sliceText text path.start path.stop)
    values (base.map copy)) hvalues (fun values => ?_) hacross
  rw [Rewriting.slice_eq_pure hpath, pure_bind]
  -- A literal that becomes a call has no base, so that its values are all that is copied.
  cases hwhole : base.isNone && isComplete plan.size (byField values) with
  | true =>
    obtain ⟨hnone, hcomplete⟩ := Bool.and_eq_true_iff.1 hwhole
    obtain rfl := Option.isNone_iff_eq_none.1 hnone
    simp only [literalOf, Option.map_none, Option.isNone_none, hcomplete, Bool.and_self, if_true]
    exact .pure _
  | false =>
    simp only [hwhole, literalOf, Option.isNone_map, Bool.false_eq_true, if_false]
    refine (copies_renderBase fun part hpart => hparts part ?_).map _
    exact List.mem_append_right _ (Option.mem_toList.2 hpart)

theorem copies_rewritePattern {parts : List (Nat × Span)} {rest : Bool} (hpath : path.FitsIn text)
    (hparts : ∀ part ∈ (SiteKind.pattern path parts rest).parts, part.FitsIn text)
    (hapart : (SiteKind.pattern path parts rest).parts.Pairwise Span.Apart) :
    Copies text (SiteKind.pattern path parts rest).parts
      (rewritePattern text plan config path parts rest)
      (patternText text plan config path parts rest) := by
  rw [SiteKind.parts, List.map_eq_flatMap] at *
  have hbound : Copies text (parts.flatMap fun part => [part.2]) (parts.mapM (renderPart text))
      fun copy => parts.map fun part => (part.1, copy part.2) :=
    Copies.mapM (fun part hpart => copies_renderPart (hparts part.2
      (List.mem_flatMap.2 ⟨part, hpart, List.mem_cons_self⟩))) hapart
  simp only [rewritePattern, Rewriting.slice_eq_pure hpath, pure_bind]
  exact hbound.map fun bound => _

/-- Rewriting a site that is no mention finishes one edit, of what becomes of it. -/
theorem rewriteSite_eq (hkind : s.kind ≠ .mention) (h : s.Fits text) (hes : Placed text es)
    (hclear : ClearIn s.kind.parts es) {copy : Span → String}
    (hcopy : ∀ part ∈ s.kind.parts, copy part = weave text part es) :
    (rewriteSite text plan config s).run es =
      .ok ((), outside s.kind.parts es ++ [⟨s.span, s.becomes text plan config copy⟩]) := by
  obtain ⟨file, span, kind⟩ := s
  cases kind with
  | mention => exact absurd rfl hkind
  | access i =>
    rw [SiteKind.parts, outside_nil]
    rfl
  | construction path fields base =>
    have hcopies := copies_rewriteLiteral plan (h.path path rfl) h.parts h.apart
    exact Rewriting.run_bind_eq_ok.2 ⟨_, _, hcopies es copy hes hclear hcopy, rfl⟩
  | pattern path parts rest =>
    have hcopies := copies_rewritePattern plan config (h.path path rfl) h.parts h.apart
    exact Rewriting.run_bind_eq_ok.2 ⟨_, _, hcopies es copy hes hclear hcopy, rfl⟩

end Sites

/-! ## The forest rewritten -/

mutual

/-- A site rewritten, with copies of its parts in which what stands inside it is rewritten. -/
def Nest.edit (text : String) (plan : Plan) (config : Config) : Nest → TextEdit
  | .node s inside => ⟨s.span, s.becomes text plan config fun part =>
      weave text part (Nest.edits text plan config inside)⟩

/-- The sites of a forest rewritten. -/
def Nest.edits (text : String) (plan : Plan) (config : Config) : List Nest → List TextEdit
  | [] => []
  | n :: ns => n.edit text plan config :: Nest.edits text plan config ns

end

/-- The sites that are rewritten: all but mentions. -/
def changing (sites : List Site) : List Site := sites.filter (·.kind ≠ .mention)

/-- A text with its sites rewritten, each after those inside it. -/
def rewriteNested (text : String) (sites : List Site) (plan : Plan) (config : Config) : String :=
  weave text ⟨0, text.utf8ByteSize⟩ (Nest.edits text plan config (forest (changing sites)))

/-- Sites as they can stand in a text. What stands inside a site is in one of the parts that are
copied. -/
structure Arranged (text : String) (sites : List Site) : Prop extends Nested sites where
  fitsIn : ∀ s ∈ sites, s.span.FitsIn text
  fits : ∀ s ∈ sites, s.Fits text
  contains_parts : ∀ s ∈ sites, ∀ part ∈ s.kind.parts, s.span.contains part = true
  exists_part : ∀ s ∈ sites, ∀ t ∈ sites, t.within s = true →
    ∃ part ∈ s.kind.parts, part.contains t.span = true

section Runs

variable {plan : Plan} {config : Config} {sites before rest : List Site} {s t : Site}

theorem Nest.edits_eq (ns : List Nest) :
    Nest.edits text plan config ns = ns.map (Nest.edit text plan config) := by
  induction ns with
  | nil => rfl
  | cons n ns ih => rw [edits, ih, List.map_cons]

/-- A site rewritten, each site inside it first. -/
def Site.edit (text : String) (sites : List Site) (plan : Plan) (config : Config) (s : Site) :
    TextEdit :=
  (Nest.node s (forest (inner sites s))).edit text plan config

theorem edits_forest :
    Nest.edits text plan config (forest sites) =
      (outermost sites).map (Site.edit text sites plan config) := by
  rw [Nest.edits_eq, forest_eq, List.map_map]
  rfl

theorem Site.edit_eq (s : Site) : s.edit text sites plan config =
    ⟨s.span, s.becomes text plan config fun part => weave text part
      ((outermost (inner sites s)).map (Site.edit text sites plan config))⟩ := by
  rw [Site.edit, Nest.edit, Nest.edits_eq, forest_inner, List.map_map]
  rfl

/-- The edits of outermost sites are separate. -/
theorem Arranged.separate_outermost (h : Arranged text sites) (hsub : ∀ t ∈ before, t ∈ sites)
    (hnodup : before.Nodup) :
    Separate text ((outermost before).map (Site.edit text sites plan config)) where
  fitsIn := List.forall_mem_map.2 fun t ht => h.fitsIn t (hsub t (mem_outermost.1 ht).1)
  start_lt_stop := List.forall_mem_map.2 fun t ht => h.start_lt_stop t (hsub t (mem_outermost.1 ht).1)
  apart := List.pairwise_map.2 (h.of_subset hsub hnodup).pairwise_apart_outermost

/-- What stands inside a site is what stands in one of its parts. -/
theorem Arranged.within_iff (h : Arranged text sites) (hs : s ∈ sites) (ht : t ∈ sites)
    (hne : t ≠ s) : t.within s = true ↔ ∃ part ∈ s.kind.parts, part.contains t.span = true := by
  refine ⟨h.exists_part s hs t ht, fun ⟨part, hpart, hin⟩ => Site.within_iff.2 ⟨?_, ?_⟩⟩
  · exact Span.contains_trans (h.contains_parts s hs part hpart) hin
  · exact fun hspan => hne (h.eq_of_span_eq ht hs hspan)

/-- After a site is rewritten, the finished edits are again those of the outermost sites. -/
theorem rewriteSite_step (h : Arranged text sites) (hnext : s.Next sites before)
    (hkind : s.kind ≠ .mention) :
    (rewriteSite text plan config s).run ((outermost before).map (Site.edit text sites plan config)) =
      .ok ((), (outermost (before ++ [s])).map (Site.edit text sites plan config)) := by
  have hwithin {t : Site} (ht : t ∈ before) :
      t.within s = true ↔ ∃ part ∈ s.kind.parts, part.contains t.span = true :=
    h.within_iff hnext.mem (hnext.subset t ht) (ne_of_mem_of_not_mem ht hnext.notMem)
  have hpool : Separate text ((outermost before).map (Site.edit text sites plan config)) :=
    h.separate_outermost hnext.subset hnext.nodup
  -- The copies have the edits of what stands inside the site, and of nothing else.
  have hcopy : ∀ part ∈ s.kind.parts,
      weave text part ((outermost (inner sites s)).map (Site.edit text sites plan config)) =
        weave text part ((outermost before).map (Site.edit text sites plan config)) := by
    intro part hpart
    refine weave_perm hpool ?_
    rw [List.filter_map, List.filter_map]
    refine List.Perm.map _ (hnext.outermost_perm h.toNested fun t ht hin => ?_).symm
    exact (hwithin ht).2 ⟨part, hpart, hin⟩
  have hleft : outside s.kind.parts ((outermost before).map (Site.edit text sites plan config)) =
      ((outermost before).filter fun t => !t.within s).map (Site.edit text sites plan config) := by
    rw [outside, List.filter_map]
    congr 1
    refine List.filter_congr fun t ht => ?_
    rw [Bool.eq_iff_iff, Bool.not_eq_true', Bool.eq_false_iff, Ne, hwithin (mem_outermost.1 ht).1]
    simp [Site.edit, Nest.edit]
  rw [rewriteSite_eq plan config hkind (h.fits s hnext.mem) hpool.placed (hpool.clearIn _) hcopy, hleft,
    outermost_concat hnext.within_eq_false, List.map_append, List.map_singleton, Site.edit_eq s]

/-! ## Sites in order -/

theorem Site.le_iff : s.le t = true ↔ s.span.size < t.span.size ∨
    s.span.size = t.span.size ∧ s.span.start ≤ t.span.start := by
  simp [Site.le]

theorem pairwise_le_mergeSort (sites : List Site) :
    (sites.mergeSort Site.le).Pairwise fun s t => s.le t = true := by
  refine List.pairwise_mergeSort (fun s t u => ?_) (fun s t => ?_) sites
  · simp only [Site.le_iff]
    omega
  · simp only [Bool.or_eq_true, Site.le_iff]
    omega

/-- From the shortest to the longest, each site comes behind those inside it. -/
theorem Nested.next_of_pairwise_le (h : Nested sites)
    (hsorted : (before ++ s :: rest).Pairwise fun s t => s.le t = true)
    (hperm : (changing (before ++ s :: rest)).Perm sites) (hkind : s.kind ≠ .mention) :
    s.Next sites (changing before) := by
  have hsplit : changing (before ++ s :: rest) = changing before ++ s :: changing rest := by
    rw [changing, List.filter_append, List.filter_cons_of_pos (by simpa using hkind)]
    rfl
  rw [hsplit] at hperm
  obtain ⟨-, hbehind, hacross⟩ := List.pairwise_append.1 hsorted
  obtain ⟨hnodup, -, hapart⟩ := List.nodup_append.1 (hperm.nodup_iff.2 h.nodup)
  have hmem : s ∈ sites := hperm.mem_iff.1 (List.mem_append_right _ List.mem_cons_self)
  have hsubset : ∀ t ∈ changing before, t ∈ sites :=
    fun t ht => hperm.mem_iff.1 (List.mem_append_left _ ht)
  refine ⟨hmem, hsubset, hnodup, fun hs => hapart s hs s List.mem_cons_self rfl, ?_, ?_⟩
  · intro t ht hts
    have hlt := Site.size_lt_of_within hts (Nat.le_of_lt (h.start_lt_stop t ht))
    obtain hbefore | hrest := List.mem_append.1 (hperm.mem_iff.2 ht)
    · exact hbefore
    obtain rfl | hrest := List.mem_cons.1 hrest
    · exact absurd hlt (Nat.lt_irrefl _)
    · have hle := Site.le_iff.1 ((List.pairwise_cons.1 hbehind).1 t (List.mem_filter.1 hrest).1)
      omega
  · intro t ht
    refine Bool.eq_false_iff.2 fun hst => ?_
    have hlt := Site.size_lt_of_within hst (Nat.le_of_lt (h.start_lt_stop s hmem))
    have hle := Site.le_iff.1 (hacross t (List.mem_filter.1 ht).1 s List.mem_cons_self)
    omega

/-- The order in which sites are listed does not matter once they are sorted. -/
theorem Nested.changing_mergeSort_eq {sites' : List Site} (h : Nested (changing sites))
    (hperm : sites'.Perm sites) :
    changing (sites'.mergeSort Site.le) = changing (sites.mergeSort Site.le) := by
  have hsorted := (List.mergeSort_perm sites Site.le).filter (·.kind ≠ .mention)
  have hsorted' := ((List.mergeSort_perm sites' Site.le).trans hperm).filter (·.kind ≠ .mention)
  refine (hsorted'.trans hsorted.symm).eq_of_pairwise (fun s t hs ht hst hts => ?_)
    ((pairwise_le_mergeSort sites').filter _) ((pairwise_le_mergeSort sites).filter _)
  have hs := hsorted'.mem_iff.1 hs
  have ht := hsorted.mem_iff.1 ht
  refine h.eq_of_span_eq hs ht ?_
  have hs' := h.start_lt_stop s hs
  have ht' := h.start_lt_stop t ht
  rw [Site.le_iff, Span.size, Span.size] at hst hts
  exact Span.ext (by omega) (by omega)

/-- After a run over some of the sites, the finished edits are those of the outermost sites so far. -/
theorem forM_rewriteSite (before rest : List Site) (h : Arranged text sites)
    (hsorted : (before ++ rest).Pairwise fun s t => s.le t = true)
    (hperm : (changing (before ++ rest)).Perm sites) :
    (rest.forM (rewriteSite text plan config)).run
        ((outermost (changing before)).map (Site.edit text sites plan config)) =
      .ok ((), (outermost (changing (before ++ rest))).map (Site.edit text sites plan config)) := by
  induction rest generalizing before with
  | nil =>
    rw [List.append_nil]
    rfl
  | cons s rest ih =>
    have hfirst : (rewriteSite text plan config s).run
        ((outermost (changing before)).map (Site.edit text sites plan config)) =
        .ok ((), (outermost (changing (before ++ [s]))).map (Site.edit text sites plan config)) := by
      by_cases hkind : s.kind = .mention
      · have hsame : changing (before ++ [s]) = changing before := by simp [changing, hkind]
        rw [hsame, rewriteSite, hkind]
        rfl
      · have hmore : changing (before ++ [s]) = changing before ++ [s] := by simp [changing, hkind]
        rw [hmore]
        exact rewriteSite_step h (h.next_of_pairwise_le hsorted hperm hkind) hkind
    have happend : before ++ s :: rest = before ++ [s] ++ rest := by simp
    rw [happend] at hsorted hperm ⊢
    exact Rewriting.run_bind_eq_ok.2 ⟨(), _, hfirst, ih _ hsorted hperm⟩

/-- The edits that are left are those of the outermost sites. -/
theorem rewriteSites_eq {listed : List Site} (h : Arranged text sites)
    (hlisted : (changing listed).Perm sites) :
    rewriteSites text listed plan config =
      .ok ((outermost (changing (listed.mergeSort Site.le))).map
        (Site.edit text sites plan config)) := by
  have hrun : ((listed.mergeSort Site.le).forM (rewriteSite text plan config)).run [] =
      .ok ((), (outermost (changing (listed.mergeSort Site.le))).map
        (Site.edit text sites plan config)) :=
    forM_rewriteSite [] _ h (pairwise_le_mergeSort listed)
      (((List.mergeSort_perm listed Site.le).filter _).trans hlisted)
  rw [rewriteSites, hrun]
  rfl

end Runs

/-- Sites that can stand in a text are rewritten into separate edits, one for each site that stands in no
other, and these edits make the text in which each site is rewritten after those inside it, exactly once.
The order in which the sites are listed does not matter. -/
theorem rewriteSites_composes (text : String) (sites : List Site) (plan : Plan) (config : Config)
    (h : Arranged text (changing sites)) :
    ∃ es, rewriteSites text sites plan config = .ok es ∧
      es.Pairwise (fun d e => d.span.Apart e.span) ∧
      es.Perm (Nest.edits text plan config (forest (changing sites))) ∧
      (es.map (·.span)).Perm ((outermost (changing sites)).map (·.span)) ∧
      applyEdits text es = .ok (rewriteNested text sites plan config) ∧
      ((forest (changing sites)).flatMap Nest.members).Perm (changing sites) ∧
      ∀ sites', sites'.Perm sites → rewriteSites text sites' plan config = .ok es := by
  have hedits : ((outermost (changing (sites.mergeSort Site.le))).map
      (Site.edit text (changing sites) plan config)).Perm
        (Nest.edits text plan config (forest (changing sites))) := by
    rw [edits_forest]
    exact (perm_outermost ((List.mergeSort_perm sites Site.le).filter _)).map _
  have hseparate : Separate text (Nest.edits text plan config (forest (changing sites))) := by
    rw [edits_forest]
    exact h.separate_outermost (fun _ hs => hs) h.nodup
  refine ⟨_, rewriteSites_eq h (.refl _), (hseparate.perm hedits).apart, hedits, ?_, ?_,
    h.forest_members, ?_⟩
  · have hspans : (Nest.edits text plan config (forest (changing sites))).map (·.span) =
        (outermost (changing sites)).map (·.span) := by
      rw [edits_forest, List.map_map]
      rfl
    exact hspans ▸ hedits.map (·.span)
  · rw [applyEdits_eq_weave (hseparate.perm hedits), rewriteNested]
    exact congrArg _ (weave_perm hseparate (hedits.filter _))
  · intro sites' hperm
    rw [rewriteSites_eq h (hperm.filter _), h.changing_mergeSort_eq hperm]

/-- A literal in a literal, and a field access in that one. -/
theorem rewriteSites_composes_nested_literals :
    let text := "A \x7b x: A \x7b x: b.x \x7d \x7d"
    let plan : Plan := ⟨"A", [⟨"x", 0, "T", none, [], []⟩]⟩
    let sites : List Site :=
      [⟨0, ⟨0, 21⟩, .construction ⟨0, 1⟩ [(0, .expr ⟨7, 19⟩)] none⟩,
        ⟨0, ⟨16, 17⟩, .access 0⟩,
        ⟨0, ⟨7, 19⟩, .construction ⟨7, 8⟩ [(0, .expr ⟨14, 17⟩)] none⟩]
    Arranged text (changing sites) ∧ ∃ es, rewriteSites text sites plan {} = .ok es ∧
      rewriteSites text sites.reverse plan {} = .ok es ∧ es.map (·.span) = [⟨0, 21⟩] ∧
      applyEdits text es = .ok "A(A(b.0))" := by
  intro text plan sites
  have harranged : Arranged text (changing sites) :=
    { start_lt_stop := by decide
      nodup_spans := by decide
      laminar := by decide
      fitsIn := by decide
      fits := by decide
      contains_parts := by decide
      exists_part := by decide }
  have hnested : rewriteNested text sites plan {} = "A(A(b.0))" := by decide +kernel
  have houtermost : (outermost (changing sites)).map (·.span) = [⟨0, 21⟩] := by decide
  obtain ⟨es, hes, -, -, hspans, happly, -, horder⟩ :=
    rewriteSites_composes text sites plan {} harranged
  rw [houtermost] at hspans
  exact ⟨harranged, es, hes, horder _ (List.reverse_perm sites), List.perm_singleton.1 hspans,
    hnested ▸ happly⟩

end Reshape
