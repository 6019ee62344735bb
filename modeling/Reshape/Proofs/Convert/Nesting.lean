import Mathlib.Data.List.Nodup
import Mathlib.Data.List.Pairwise
import Mathlib.Data.List.Perm.Basic
import Reshape.Proofs.Convert.Weave

/-!
# Sites in sites

Sites that overlap only by standing in each other form a forest.

* `Site.within` says that a site stands inside another one. `outermost` are the sites that stand in no
  other, `inner` those that stand in a given one.
* `Nested` are sites of which any two have no character in common or stand in each other.
* `forest` puts each site over the sites inside it. `forest_members` says that it has each site exactly
  once.
* `outermost_concat` and `Site.Next.outermost_perm` are about a site that comes behind those inside it, as
  it does when sites are taken from the shortest to the longest: what is outermost once it is added, and
  what is outermost in a part of it.
-/

namespace Reshape

variable {sites before : List Site} {s t u : Site} {part : Span}

/-! ## Standing inside another site -/

/-- Whether a site stands inside another one. -/
def Site.within (s t : Site) : Bool := t.span.contains s.span && s.span != t.span

namespace Site

theorem within_iff : s.within t = true ↔ t.span.contains s.span = true ∧ s.span ≠ t.span := by
  rw [within, Bool.and_eq_true, bne_iff_ne]

theorem within_self (s : Site) : s.within s = false := by simp [within]

theorem within_trans (hst : s.within t = true) (htu : t.within u = true) : s.within u = true := by
  rw [within_iff] at *
  refine ⟨Span.contains_trans htu.1 hst.1, fun heq => hst.2 ?_⟩
  have hts := Span.contains_iff.1 hst.1
  have hut := Span.contains_iff.1 (heq ▸ htu.1)
  exact Span.ext (by omega) (by omega)

/-- What stands inside another site is shorter, unless its end is before its start. -/
theorem size_lt_of_within (h : s.within t = true) (hs : s.span.start ≤ s.span.stop) :
    s.span.size < t.span.size := by
  obtain ⟨hin, hne⟩ := within_iff.1 h
  rw [Span.contains_iff] at hin
  rw [Span.size, Span.size]
  by_contra hsize
  exact hne (Span.ext (by omega) (by omega))

end Site

/-- The sites inside a site. -/
def inner (sites : List Site) (s : Site) : List Site := sites.filter (·.within s)

/-- The sites that stand inside no other. -/
def outermost (sites : List Site) : List Site :=
  sites.filter fun s => sites.all fun t => !s.within t

theorem mem_inner : t ∈ inner sites s ↔ t ∈ sites ∧ t.within s = true := List.mem_filter

theorem mem_outermost :
    s ∈ outermost sites ↔ s ∈ sites ∧ ∀ t ∈ sites, s.within t = false := by
  simp [outermost]

theorem perm_outermost {sites' : List Site} (h : sites'.Perm sites) :
    (outermost sites').Perm (outermost sites) := by
  refine (h.filter _).trans (.of_eq (List.filter_congr fun s _ => ?_))
  rw [Bool.eq_iff_iff, List.all_eq_true, List.all_eq_true]
  exact forall_congr' fun t => imp_congr_left h.mem_iff

theorem inner_inner (h : t.within s = true) : inner (inner sites s) t = inner sites t := by
  rw [inner, inner, List.filter_filter]
  refine List.filter_congr fun u _ => ?_
  cases hut : u.within t with
  | false => rfl
  | true => rw [Site.within_trans hut h, Bool.and_self]

theorem length_inner_lt (h : s ∈ sites) : (inner sites s).length < sites.length :=
  List.length_filter_lt_length_iff_exists.2 ⟨s, h, by simp [Site.within_self]⟩

/-- Each site stands in one that is outermost, or is outermost itself. -/
theorem exists_outermost (hs : s ∈ sites) :
    ∃ t ∈ outermost sites, s = t ∨ s.within t = true := by
  -- On the number of sites around it, of which there are fewer around each of them.
  induction hn : (sites.filter (s.within ·)).length using Nat.strongRecOn generalizing s with
  | ind n ih =>
    by_cases hout : ∀ t ∈ sites, s.within t = false
    · exact ⟨s, mem_outermost.2 ⟨hs, hout⟩, .inl rfl⟩
    · push Not at hout
      obtain ⟨t, ht, hst⟩ := hout
      have hst : s.within t = true := by simpa using hst
      have hfewer : (sites.filter (t.within ·)).length < n := by
        have hsub : sites.filter (t.within ·) = (sites.filter (s.within ·)).filter (t.within ·) := by
          rw [List.filter_filter]
          refine List.filter_congr fun u _ => ?_
          cases htu : t.within u with
          | false => rfl
          | true => rw [Site.within_trans hst htu, Bool.and_self]
        rw [hsub, ← hn]
        exact List.length_filter_lt_length_iff_exists.2
          ⟨t, List.mem_filter.2 ⟨ht, hst⟩, by simp [Site.within_self]⟩
      obtain ⟨u, hu, htu⟩ := ih _ hfewer ht rfl
      refine ⟨u, hu, .inr ?_⟩
      obtain rfl | htu := htu
      · exact hst
      · exact Site.within_trans hst htu

/-! ## Nested sites -/

/-- Sites in different places that hold characters. Any two have no character in common, or one is
contained in the other. -/
structure Nested (sites : List Site) : Prop where
  start_lt_stop : ∀ s ∈ sites, s.span.start < s.span.stop
  nodup_spans : (sites.map (·.span)).Nodup
  laminar : ∀ s ∈ sites, ∀ t ∈ sites, s.span.Apart t.span ∨ s.span.contains t.span = true ∨
    t.span.contains s.span = true

namespace Nested

theorem nodup (h : Nested sites) : sites.Nodup := h.nodup_spans.of_map _

theorem of_subset (h : Nested sites) (hsub : ∀ s ∈ before, s ∈ sites) (hnodup : before.Nodup) :
    Nested before where
  start_lt_stop s hs := h.start_lt_stop s (hsub s hs)
  nodup_spans := hnodup.map_on fun s hs t ht hspan =>
    List.inj_on_of_nodup_map h.nodup_spans (hsub s hs) (hsub t ht) hspan
  laminar s hs t ht := h.laminar s (hsub s hs) t (hsub t ht)

theorem of_inner (h : Nested sites) (s : Site) : Nested (inner sites s) :=
  h.of_subset (fun _ ht => (mem_inner.1 ht).1) (h.nodup.filter _)

theorem eq_of_span_eq (h : Nested sites) (hs : s ∈ sites) (ht : t ∈ sites)
    (hspan : s.span = t.span) : s = t :=
  List.inj_on_of_nodup_map h.nodup_spans hs ht hspan

/-- Of two different sites, one stands inside the other or they have no character in common. -/
theorem within_or_apart (h : Nested sites) (hs : s ∈ sites) (ht : t ∈ sites) (hne : s ≠ t) :
    s.within t = true ∨ t.within s = true ∨ s.span.Apart t.span := by
  have hspan : s.span ≠ t.span := fun heq => hne (h.eq_of_span_eq hs ht heq)
  obtain hapart | hst | hts := h.laminar s hs t ht
  · exact .inr (.inr hapart)
  · exact .inr (.inl (Site.within_iff.2 ⟨hst, hspan.symm⟩))
  · exact .inl (Site.within_iff.2 ⟨hts, hspan⟩)

/-- Two sites that have a site in them that holds a character stand in each other. -/
theorem within_or_within (h : Nested sites) (hs : s ∈ sites) (ht : t ∈ sites) (hne : s ≠ t)
    (hu : u ∈ sites) (hus : s.span.contains u.span = true) (hut : t.span.contains u.span = true) :
    s.within t = true ∨ t.within s = true := by
  obtain hst | hts | hapart := h.within_or_apart hs ht hne
  · exact .inl hst
  · exact .inr hts
  · exact absurd hapart (Span.not_apart_of_contains hus hut (h.start_lt_stop u hu))

/-- Outermost sites have no character in common. -/
theorem pairwise_apart_outermost (h : Nested sites) :
    (outermost sites).Pairwise fun s t => s.span.Apart t.span := by
  refine (h.nodup.filter _).pairwise_of_forall_ne fun s hs t ht hne => ?_
  obtain ⟨hs, hsout⟩ := mem_outermost.1 hs
  obtain ⟨ht, htout⟩ := mem_outermost.1 ht
  obtain hst | hts | hapart := h.within_or_apart hs ht hne
  · exact absurd hst (Bool.eq_false_iff.1 (hsout t ht))
  · exact absurd hts (Bool.eq_false_iff.1 (htout s hs))
  · exact hapart

/-- The outermost sites and the sites inside them are all sites. -/
theorem perm_flatMap_outermost (h : Nested sites) :
    ((outermost sites).flatMap fun s => s :: inner sites s).Perm sites := by
  refine (List.perm_ext_iff_of_nodup ?_ h.nodup).2 fun u => ?_
  · refine List.nodup_flatMap.2 ⟨fun s _ => List.nodup_cons.2 ⟨?_, h.nodup.filter _⟩, ?_⟩
    · exact fun hs => Bool.eq_false_iff.1 (Site.within_self s) (mem_inner.1 hs).2
    · refine h.pairwise_apart_outermost.imp_of_mem fun {s t} hs ht hapart u hus hut => ?_
      have hin {v : Site} (hv : u ∈ v :: inner sites v) : v.span.contains u.span = true := by
        obtain rfl | hv := List.mem_cons.1 hv
        · exact Span.contains_refl _
        · exact (Site.within_iff.1 (mem_inner.1 hv).2).1
      have hu : u ∈ sites := by
        obtain rfl | hus := List.mem_cons.1 hus
        · exact (mem_outermost.1 hs).1
        · exact (mem_inner.1 hus).1
      exact Span.not_apart_of_contains (hin hus) (hin hut) (h.start_lt_stop u hu) hapart
  · rw [List.mem_flatMap]
    constructor
    · rintro ⟨s, hs, hu⟩
      obtain rfl | hu := List.mem_cons.1 hu
      · exact (mem_outermost.1 hs).1
      · exact (mem_inner.1 hu).1
    · intro hu
      obtain ⟨s, hs, rfl | hus⟩ := exists_outermost hu
      · exact ⟨u, hs, List.mem_cons_self⟩
      · exact ⟨s, hs, List.mem_cons_of_mem _ (mem_inner.2 ⟨hu, hus⟩)⟩

end Nested

/-! ## The forest -/

/-- A site with what stands inside it. -/
inductive Nest
  | node (site : Site) (inside : List Nest)

/-- The outermost sites, each with the forest of those inside it. -/
def forest (sites : List Site) : List Nest :=
  (outermost sites).attach.map fun s => .node s.1 (forest (inner sites s.1))
termination_by sites.length
decreasing_by exact length_inner_lt (mem_outermost.1 s.2).1

theorem forest_eq (sites : List Site) :
    forest sites = (outermost sites).map fun s => .node s (forest (inner sites s)) := by
  rw [forest]
  exact List.attach_map_val (f := fun s => Nest.node s (forest (inner sites s)))

/-- The trees inside a site are those of all sites that are rooted there. -/
theorem forest_inner (sites : List Site) (s : Site) :
    forest (inner sites s) =
      (outermost (inner sites s)).map fun t => .node t (forest (inner sites t)) := by
  rw [forest_eq]
  refine List.map_congr_left fun t ht => ?_
  rw [inner_inner (mem_inner.1 (mem_outermost.1 ht).1).2]

mutual

/-- The sites of a tree. -/
def Nest.members : Nest → List Site
  | .node s inside => s :: Nest.membersInside inside

/-- The sites of a forest. -/
def Nest.membersInside : List Nest → List Site
  | [] => []
  | n :: ns => n.members ++ Nest.membersInside ns

end

theorem Nest.membersInside_eq (ns : List Nest) : Nest.membersInside ns = ns.flatMap Nest.members := by
  induction ns with
  | nil => rfl
  | cons n ns ih => rw [membersInside, ih, List.flatMap_cons]

/-- The forest has each site exactly once. -/
theorem Nested.forest_members (h : Nested sites) : ((forest sites).flatMap Nest.members).Perm sites := by
  induction hn : sites.length using Nat.strongRecOn generalizing sites with
  | ind n ih =>
    refine List.Perm.trans ?_ h.perm_flatMap_outermost
    rw [forest_eq, List.flatMap_map]
    refine List.Perm.flatMap_left _ fun s hs => ?_
    rw [Nest.members, Nest.membersInside_eq]
    exact (ih _ (hn ▸ length_inner_lt (mem_outermost.1 hs).1) (h.of_inner s) rfl).cons s

/-! ## From the shortest to the longest -/

/-- Once a site is added that stands in none of the others, it is outermost, and those inside it are
not. -/
theorem outermost_concat (h : ∀ t ∈ before, s.within t = false) :
    outermost (before ++ [s]) = (outermost before).filter (fun t => !t.within s) ++ [s] := by
  rw [outermost, List.filter_append, outermost, List.filter_filter]
  congr 1
  · refine List.filter_congr fun t _ => ?_
    rw [List.all_append, Bool.and_comm]
    simp
  · have hall : (before.all fun t => !s.within t) = true := by simpa using h
    simp [Site.within_self, hall]

/-- A site is the next one behind others: those inside it are among them, and those around it are not. -/
structure Site.Next (sites before : List Site) (s : Site) : Prop where
  mem : s ∈ sites
  subset : ∀ t ∈ before, t ∈ sites
  nodup : before.Nodup
  notMem : s ∉ before
  mem_of_within : ∀ t ∈ sites, t.within s = true → t ∈ before
  within_eq_false : ∀ t ∈ before, s.within t = false

/-- What is outermost in a part of a site is so among the sites inside that site, and among all that come
before it. -/
theorem Site.Next.outermost_perm (hnext : s.Next sites before) (h : Nested sites)
    (hpart : ∀ t ∈ before, part.contains t.span = true → t.within s = true) :
    ((outermost before).filter fun t => part.contains t.span).Perm
      ((outermost (inner sites s)).filter fun t => part.contains t.span) := by
  have hpool : (outermost before).Nodup := hnext.nodup.filter _
  have hinside : (outermost (inner sites s)).Nodup := (h.of_inner s).nodup.filter _
  refine (List.perm_ext_iff_of_nodup (hpool.filter _) (hinside.filter _)).2 fun t => ?_
  simp only [List.mem_filter, mem_outermost, mem_inner]
  constructor
  · rintro ⟨⟨ht, htout⟩, hin⟩
    refine ⟨⟨⟨hnext.subset t ht, hpart t ht hin⟩, fun u hu => ?_⟩, hin⟩
    exact htout u (hnext.mem_of_within u hu.1 hu.2)
  · rintro ⟨⟨⟨ht, hts⟩, htout⟩, hin⟩
    refine ⟨⟨hnext.mem_of_within t ht hts, fun u hu => Bool.eq_false_iff.2 fun htu => ?_⟩, hin⟩
    -- Another one around it that comes before the site also stands inside the site.
    have husites := hnext.subset u hu
    obtain hus | hsu := h.within_or_within husites hnext.mem (ne_of_mem_of_not_mem hu hnext.notMem) ht
      (Site.within_iff.1 htu).1 (Site.within_iff.1 hts).1
    · exact Bool.eq_false_iff.1 (htout u ⟨husites, hus⟩) htu
    · exact Bool.eq_false_iff.1 (hnext.within_eq_false u hu) hsu

end Reshape
