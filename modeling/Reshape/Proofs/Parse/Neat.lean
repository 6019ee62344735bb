import Reshape.Proofs.Grammar.Settling
import Reshape.Proofs.Parse.Regions

/-!
# Neat nodes

A node is neat if it begins with a significant token and ends with one, or if it is known why it does
not. What a parser has recorded stays neat event by event.

* `Crisp` and `Snug` are about places between tokens: behind a significant token, and with trivia on
  one side at most.
* `Sketch.Neat` says which ends a node may have, and which errors there may be where no problem was
  found. `Sketch.EndsOpen` is the one bad end without a problem: a list of bounds behind whose last
  plus sign none follows.
* `ParserState.Stands` says that everything recorded so far is neat and that a standing is right about
  the innermost open node. There is one lemma for each event (`Stands.advance`, `Stands.openNode`,
  `Stands.close`, `Stands.wrap`), and `Stands.blame` for problems.
-/

namespace Reshape

/-! ## Places between tokens -/

/-- A significant token stands before the place behind `n` tokens, if any does. -/
def Crisp (tokens : List Token) (n : Nat) : Prop :=
  ∀ t ∈ (tokens.take n).getLast?, t.isTrivia = false

/-- No trivia stand behind the place behind `n` tokens, or none before it. -/
def Snug (tokens : List Token) (n : Nat) : Prop :=
  Crisp tokens n ∨ fromSignificant (tokens.drop n) = tokens.drop n

/-- The last significant one of `n` tokens from place `i` on is a plus sign, if there is one. -/
def Hangs (tokens : List Token) (i n : Nat) : Prop :=
  ∀ t ∈ (significant ((tokens.drop i).take n)).getLast?, t.kind = .plus

section

variable {tokens : List Token} {n i : Nat}

theorem isTrivia_of_fromSignificant {t : Token} {ts us : List Token}
    (h : fromSignificant ts = t :: us) : t.isTrivia = false := by
  have hhead := List.head?_dropWhile_not (·.isTrivia) ts
  rw [← fromSignificant, h] at hhead
  exact hhead

/-- Behind all tokens the last one is before. -/
theorem crisp_of_drop_eq_nil (hlast : Crisp tokens tokens.length) (h : tokens.drop n = []) :
    Crisp tokens n := by
  rw [Crisp, List.take_length] at hlast
  rw [Crisp, List.take_of_length_le (List.drop_eq_nil_iff.1 h)]
  exact hlast

/-- A place behind a significant token is crisp. -/
theorem crisp_of_drop_tail {j : Nat} (hlast : Crisp tokens tokens.length)
    (h : tokens.drop j = (fromSignificant (tokens.drop i)).tail) : Crisp tokens j := by
  cases hrest : fromSignificant (tokens.drop i) with
  | nil =>
    rw [hrest] at h
    exact crisp_of_drop_eq_nil hlast h
  | cons t ts =>
    rw [hrest, List.tail_cons] at h
    obtain ⟨before, hbefore⟩ : t :: ts <:+ tokens :=
      hrest ▸ (fromSignificant_suffix _).trans (List.drop_suffix _ _)
    by_cases hts : ts = []
    · exact crisp_of_drop_eq_nil hlast (h.trans hts)
    · have hlen := congrArg List.length h
      have hpos : 0 < ts.length := List.length_pos_iff.2 hts
      simp only [← hbefore, List.length_drop, List.length_append, List.length_cons] at hlen
      have hj : j = (before ++ [t]).length := by
        rw [List.length_append, List.length_singleton]
        omega
      rw [Crisp, hj, ← hbefore, List.append_cons before t ts, List.take_left, List.getLast?_concat]
      rintro u ⟨⟩
      exact isTrivia_of_fromSignificant hrest

/-- The tokens between two places. -/
theorem take_drop_of_append {between behind : List Token}
    (h : tokens.drop i = between ++ behind) (h' : tokens.drop (i + n) = behind) :
    (tokens.drop i).take n = between := by
  have hdrop : (between ++ behind).drop n = behind := by rw [← h, List.drop_drop, h']
  have hlen := congrArg List.length hdrop
  rw [List.length_drop, List.length_append] at hlen
  rw [h]
  by_cases hn : n = between.length
  · rw [hn, List.take_left]
  · have hnil : behind = [] := List.eq_nil_of_length_eq_zero (by omega)
    subst hnil
    rw [List.append_nil]
    rw [List.append_nil, List.drop_eq_nil_iff] at hdrop
    exact List.take_of_length_le hdrop

end

/-! ## Neat nodes -/

/-- Whether a token may be a qualifier of a function. -/
def Token.qualifies (t : Token) : Bool :=
  t.kind = .keyword .constKw ∨ t.kind = .keyword .unsafeKw ∨ t.kind = .stringLiteral ∨
    (t.kind = .ident ∧ (t.text = "async" ∨ t.text = "extern"))

/-- A sketch that begins behind `i` tokens ends with a list of bounds behind whose last plus sign
none follows. -/
inductive Sketch.EndsOpen (tokens : List Token) : Nat → Sketch → Prop
  | list {i : Nat} {c : Contents} : Hangs tokens i c.tokenCount →
    EndsOpen tokens i (.plain .typeBoundList c)
  | plain {i : Nat} {k : NodeKind} {c : Contents} {s : Sketch} :
    EndsOpen tokens (i + c.tokenCount) s → EndsOpen tokens i (.plain k (c.node s))
  | around {i : Nat} {k : NodeKind} {first s : Sketch} {c : Contents} :
    EndsOpen tokens (i + first.tokenCount + c.tokenCount) s →
    EndsOpen tokens i (.around k first (c.node s))
  | first {i : Nat} {k : NodeKind} {s : Sketch} :
    EndsOpen tokens i s → EndsOpen tokens i (.around k s .nothing)

/-- A node that begins behind `i` tokens begins with a significant one. It ends with one too, or with
a list of bounds that ends open, or where a problem was found. Where none was found, an error has only
qualifiers in it, and is in a block. -/
structure Sketch.Neat (tokens : List Token) (problems : List Problem) (i : Nat) (s : Sketch) :
    Prop where
  begins : fromSignificant (tokens.drop i) = tokens.drop i
  ends : s.tokenCount = 0 ∨ Crisp tokens (i + s.tokenCount) ∨ s.EndsOpen tokens i ∨
    ∃ p ∈ problems, ∃ t ∈ (tokens.drop (i + s.tokenCount)).head?, p.span = t.span
  bare : problems = [] → s.kind = .errorNode → s.childKinds = [] ∧
    ∀ t ∈ (tokens.drop i).take s.tokenCount, t.isTrivia = true ∨ t.qualifies = true
  spotless : problems = [] → .errorNode ∈ s.childKinds → s.kind = .blockExpr

theorem Sketch.Neat.mono {tokens : List Token} {problems problems' : List Problem}
    (h : problems ⊆ problems') (i : Nat) (s : Sketch) (hs : s.Neat tokens problems i) :
    s.Neat tokens problems' i where
  begins := hs.begins
  ends := hs.ends.imp_right fun h' => h'.imp_right fun h' => h'.imp_right fun ⟨p, hp, ht⟩ =>
    ⟨p, h hp, ht⟩
  bare := fun hnil => hs.bare (List.subset_nil.1 (hnil ▸ h))
  spotless := fun hnil => hs.spotless (List.subset_nil.1 (hnil ▸ h))

namespace OpenNode

theorem childKinds_node {c : Contents} {s : Sketch} {fs : List OpenNode} :
    childKinds (c.node s) fs = childKinds c fs ++ [s.kind] := by
  cases fs <;> simp [childKinds, Contents.kinds]

/-- What was recorded last ends with a list of bounds behind whose last plus sign none follows. -/
def EndsOpen (tokens : List Token) : Contents → List OpenNode → Prop
  | .node c s, fs => s.EndsOpen tokens (tokensBefore fs + c.tokenCount)
  | .nothing, ⟨before, some s⟩ :: fs => s.EndsOpen tokens (tokensBefore fs + before.tokenCount)
  | _, _ => False

theorem EndsOpen.sketch {tokens : List Token} {c : Contents} {f : OpenNode} {fs : List OpenNode}
    (h : EndsOpen tokens c (f :: fs)) (k : NodeKind) :
    (f.sketch k c).EndsOpen tokens (f.place fs) := by
  obtain ⟨before, _ | first⟩ := f <;> cases c with
  | token c => exact h.elim
  | nothing => first | exact h.elim | exact .first h
  | node c s =>
    simp only [EndsOpen, tokensBefore, tokenCount] at h
    first
    | refine .plain ?_
      simpa [place, Nat.add_comm, Nat.add_assoc, Nat.add_left_comm] using h
    | refine .around ?_
      simpa [place, Nat.add_comm, Nat.add_assoc, Nat.add_left_comm] using h

end OpenNode

/-! ## States of a parser -/

namespace ParserState

open OpenNode

variable {tokens : List Token} {m m' : Standing} {s t : ParserState} {c d : Contents}
  {f : OpenNode} {fs : List OpenNode}

/-- The innermost open node may end here: behind a significant token, where a problem was found, or
with a list of bounds that ends open. -/
def Settled (tokens : List Token) (s : ParserState) (c : Contents) (fs : List OpenNode) : Prop :=
  Crisp tokens (c.tokenCount + tokensBefore fs) ∨ (∃ p ∈ s.problems, p.span = s.here) ∨
    EndsOpen tokens c fs

/-- What a parser has recorded is neat so far, and the innermost open node is as a standing says. -/
structure Stands (tokens : List Token) (m : Standing) (s : ParserState) (c : Contents)
    (fs : List OpenNode) : Prop where
  follows : s.Follows tokens c fs
  begun : s.ops ≠ []
  snug : Snug tokens (c.tokenCount + tokensBefore fs)
  inside : c.Each (Sketch.Neat tokens s.problems) (tokensBefore fs)
  around : OpenNode.Each (Sketch.Neat tokens s.problems) fs
  settled : m.settled = true → Settled tokens s c fs
  ended : m.ended = true → Settled tokens s c fs ∧
    ∃ (d : Contents) (last : Sketch), c = d.node last ∧ (s.problems = [] → last.kind ≠ .errorNode)
  spotless : m.spotless = true → s.problems = [] → .errorNode ∉ childKinds c fs
  reported : m.reported = true → s.problems ≠ []

namespace Stands

theorem mono (hle : m' ≤ m) (h : Stands tokens m s c fs) : Stands tokens m' s c fs where
  follows := h.follows
  begun := h.begun
  snug := h.snug
  inside := h.inside
  around := h.around
  settled := fun hm => h.settled (hle.1 hm)
  ended := fun hm => h.ended (hle.2.1 hm)
  spotless := fun hm => h.spotless (hle.2.2.1 hm)
  reported := fun hm => h.reported (hle.2.2.2 hm)

theorem advance (hlast : Crisp tokens tokens.length) (h : Stands tokens m s c fs) :
    ∃ n, Stands tokens m.taken s.advance (c.pad n) fs := by
  obtain ⟨n, hn⟩ := h.follows.advance
  have hcrisp : Crisp tokens ((c.pad n).tokenCount + tokensBefore fs) :=
    crisp_of_drop_tail hlast (hn.rest_eq.symm.trans (h.follows.rest_eq ▸ rest_advance s))
  have hproblems : s.advance.problems = s.problems := by
    rw [ParserState.advance, step]
    split <;> rfl
  have hops : s.advance.ops ≠ [] := by
    rw [ParserState.advance, step]
    split <;> simp [skipTrivia, h.begun]
  refine ⟨n, hn, hops, .inl hcrisp, ?_, ?_, fun _ => .inl hcrisp, fun hm => ?_, fun hm => ?_,
    fun hm => ?_⟩
  · rw [hproblems]
    exact Contents.each_pad.2 h.inside
  · rw [hproblems]
    exact h.around
  · cases hm
  · rw [hproblems, Tidy.childKinds_pad]
    exact h.spotless hm
  · rw [hproblems]
    exact h.reported hm

/-- Where a problem is found, a node may end. -/
theorem blame (h : Stands tokens m s c fs) (hops : t.ops = s.ops) (hrest : t.rest = s.rest)
    (hsub : s.problems ⊆ t.problems) (hhere : ∃ p ∈ t.problems, p.span = t.here) :
    Stands tokens m.blamed t c fs where
  follows := h.follows.congr hops hrest
  begun := hops ▸ h.begun
  snug := h.snug
  inside := Contents.Each.imp (fun _ _ => Sketch.Neat.mono hsub _ _) c h.inside
  around := h.around.imp fun _ _ => Sketch.Neat.mono hsub _ _
  settled := fun _ => .inr (.inl hhere)
  ended := fun hm => by
    obtain ⟨-, d, last, hc, hkind⟩ := h.ended hm
    exact ⟨.inr (.inl hhere), d, last, hc, fun hnil => hkind (List.subset_nil.1 (hnil ▸ hsub))⟩
  spotless := fun _ hnil => by
    obtain ⟨p, hp, -⟩ := hhere
    simp [hnil] at hp
  reported := fun _ hnil => by
    obtain ⟨p, hp, -⟩ := hhere
    simp [hnil] at hp

theorem report (h : Stands tokens m s c fs) (fault : Fault) :
    Stands tokens m.blamed (s.report fault) c fs := by
  rw [ParserState.report]
  split
  · next hhead =>
    obtain ⟨p, hp, hspan⟩ := Option.map_eq_some_iff.1 hhead
    exact h.blame rfl rfl (List.Subset.refl _) ⟨p, List.mem_of_mem_head? hp, hspan⟩
  · exact h.blame rfl rfl (List.subset_cons_self _ _) ⟨_, List.mem_cons_self, rfl⟩

/-- A node that is opened begins with a significant token. -/
theorem openNode (h : Stands tokens m s c fs) :
    ∃ n, Stands tokens m.opened s.openNode .nothing (⟨c.pad n, none⟩ :: fs) ∧
      fromSignificant (tokens.drop (place ⟨c.pad n, none⟩ fs)) =
        tokens.drop (place ⟨c.pad n, none⟩ fs) := by
  obtain ⟨n, hn⟩ := h.follows.openNode
  have hops : s.ops.isEmpty = false := by simpa using h.begun
  have hproblems : s.openNode.problems = s.problems := by simp [ParserState.openNode, hops, skipTrivia]
  have hrest : fromSignificant s.openNode.rest = s.openNode.rest := by
    simp [ParserState.openNode, hops, skipTrivia, fromSignificant_idem]
  have hplace : Contents.nothing.tokenCount + tokensBefore (⟨c.pad n, none⟩ :: fs) =
      place ⟨c.pad n, none⟩ fs := by
    simp [Contents.tokenCount, tokensBefore, tokenCount, place, Nat.add_comm]
  rw [hn.rest_eq, hplace] at hrest
  refine ⟨n, ⟨hn, by simp [ParserState.openNode], ?_, trivial, ?_, ?_, ?_, ?_, ?_⟩, hrest⟩
  · right
    rw [hplace]
    exact hrest
  · rw [hproblems]
    exact ⟨Contents.each_pad.2 h.inside, by simp, h.around⟩
  · intro hm
    cases hm
  · intro hm
    cases hm
  · intro _ _ hmem
    cases hmem
  · rw [hproblems]
    exact h.reported

/-- A node is neat if it may be closed, or if it ends open. -/
theorem neat_sketch (hlast : Crisp tokens tokens.length) (h : Stands tokens m s c (f :: fs))
    {k : NodeKind} (hends : Settled tokens s c (f :: fs) ∨ (f.sketch k c).EndsOpen tokens (f.place fs))
    (hspotless : k = .blockExpr ∨ m.spotless = true) (herror : k = .errorNode → m.reported = true)
    (hbegins : fromSignificant (tokens.drop (f.place fs)) = tokens.drop (f.place fs)) :
    (f.sketch k c).Neat tokens s.problems (f.place fs) where
  begins := hbegins
  ends := by
    have hplace : f.place fs + (f.sketch k c).tokenCount = c.tokenCount + tokensBefore (f :: fs) :=
      place_add_tokenCount_sketch
    rw [hplace]
    obtain (hcrisp | ⟨p, hp, hspan⟩ | hopen) | hopen := hends
    · exact .inr (.inl hcrisp)
    · obtain hcrisp | hrest := h.snug
      · exact .inr (.inl hcrisp)
      · have hs := h.follows.rest_eq
        cases hdrop : tokens.drop (c.tokenCount + tokensBefore (f :: fs)) with
        | nil => exact .inr (.inl (crisp_of_drop_eq_nil hlast hdrop))
        | cons t ts =>
          refine .inr (.inr (.inr ⟨p, hp, t, rfl, ?_⟩))
          rw [hdrop] at hrest hs
          rw [hspan, here, nextToken?, hs, hrest]
          rfl
    · exact .inr (.inr (.inl (hopen.sketch k)))
    · exact .inr (.inr (.inl hopen))
  bare := fun hnil hkind => by
    rw [kind_sketch] at hkind
    exact absurd hnil (h.reported (herror hkind))
  spotless := fun hnil hmem => by
    have hkinds : (f.sketch k c).childKinds = childKinds c (f :: fs) := childKinds_sketch
    rw [hkinds] at hmem
    rw [kind_sketch]
    exact hspotless.resolve_right fun hm => h.spotless hm hnil hmem

/-- Closing a neat node leaves the node around it closed. -/
theorem close (hlast : Crisp tokens tokens.length) (h : Stands tokens m' s c (f :: fs))
    {k : NodeKind} (hends : Settled tokens s c (f :: fs) ∨ (f.sketch k c).EndsOpen tokens (f.place fs))
    (hspotless' : k = .blockExpr ∨ m'.spotless = true) (herror : k = .errorNode → m'.reported = true)
    (hbegins : fromSignificant (tokens.drop (f.place fs)) = tokens.drop (f.place fs))
    (hspotless : m.spotless = true → s.problems = [] → .errorNode ∉ childKinds f.before fs)
    (hreported : m.reported = true → s.problems ≠ []) :
    Stands tokens m.closed (s.record (.close k)) (f.finish k c) fs := by
  have hneat := h.neat_sketch hlast hends hspotless' herror hbegins
  have hcount : (f.finish k c).tokenCount + tokensBefore fs =
      c.tokenCount + tokensBefore (f :: fs) := by
    rw [tokenCount_finish, tokensBefore]
    omega
  have hkind (hnil : s.problems = []) : k ≠ .errorNode := fun hk => h.reported (herror hk) hnil
  have hsettled : Settled tokens (s.record (.close k)) (f.finish k c) fs := by
    rw [Settled, hcount, finish_eq]
    obtain (hcrisp | hproblem | hopen) | hopen := hends
    · exact .inl hcrisp
    · exact .inr (.inl hproblem)
    · exact .inr (.inr (hopen.sketch k))
    · exact .inr (.inr hopen)
  refine ⟨h.follows.record_close k, by simp [record], ?_, h.around.finish h.inside hneat, h.around.2.2,
    fun _ => hsettled, fun _ => ⟨hsettled, _, _, finish_eq, ?_⟩, ?_, hreported⟩
  · rw [hcount]
    exact h.snug
  · rw [kind_sketch]
    exact hkind
  · intro hm hnil hmem
    rw [Tidy.childKinds_finish, List.mem_append, List.mem_singleton] at hmem
    obtain hmem | hmem := hmem
    · exact hspotless hm hnil hmem
    · exact hkind hnil hmem.symm

/-- A node that is wrapped around the last one begins where that does. -/
theorem wrap (h : Stands tokens m s c fs) (hm : m.ended = true) :
    Stands tokens m.wrapped (s.record .wrap) .nothing (wrapping c :: fs) ∧
      fromSignificant (tokens.drop ((wrapping c).place fs)) = tokens.drop ((wrapping c).place fs) ∧
      ∀ k ∈ childKinds (wrapping c).before fs, k ∈ childKinds c fs := by
  obtain ⟨hsettled, d, last, rfl, hkind⟩ := h.ended hm
  have hcount : tokensBefore (wrapping (d.node last) :: fs) =
      (d.node last).tokenCount + tokensBefore fs := by
    rw [tokensBefore, tokenCount_wrapping]
  refine ⟨⟨h.follows.record_wrap, by simp [record], ?_, trivial, .wrapping h.inside h.around, ?_, ?_,
    ?_, h.reported⟩, h.inside.2.self.begins, ?_⟩
  · rw [hcount, Contents.tokenCount, Nat.zero_add]
    exact h.snug
  · intro _
    rw [Settled, hcount, Contents.tokenCount, Nat.zero_add]
    exact hsettled
  · intro hm'
    cases hm'
  · intro _ hnil hmem
    rw [childKinds, firstKinds, wrapping] at hmem
    simp only [Contents.kinds, Option.toList_some, List.map_cons, List.map_nil, List.append_nil,
      List.mem_singleton] at hmem
    exact hkind hnil hmem.symm
  · intro k hk
    rw [childKinds_node]
    exact List.mem_append_left _ hk

end Stands

end ParserState

end Reshape
