import Mathlib.Data.List.Nodup
import Reshape.Proofs.Parse.Balanced
import Reshape.Proofs.Token.Tiling

/-!
# Delimiters and token trees

A token tree takes the tokens up to its closing delimiter. It reports nothing exactly if the tokens are
balanced, and then there is a token tree for each pair of delimiters.

* `ParserState.Grown` says which trees stand in the innermost open node so far.
* `ParserState.RoundTakes` and `ParserState.Takes` say what one round of a token tree and what all of them
  take. There is one lemma for each round, `Takes.after` puts a round in front, and `Grammar.takesSome` is
  by induction on the tokens that are left.
* `Grammar.Meets.heedsClosers` says that no problem is at a closing delimiter before it is next.
* `Grammar.tokenTree_closes` is the result.
-/

namespace Reshape

open Grammar ParserState

/-! ## Trees so far -/

namespace ParserState

/-- What a parser has recorded in the innermost open node stands for the given trees, if the tokens from
the start of that node on are the given ones. -/
def Grown (tokens : List Token) (g : Supply) (fs : List OpenNode) (s : ParserState)
    (trees : List Tree) : Prop :=
  ∃ c o, s.Follows tokens c fs ∧ c.plant g = (trees, ⟨s.rest, o⟩)

/-- The trivia before the next significant token, as trees. -/
def triviaTrees (s : ParserState) : List Tree := (s.rest.takeWhile (·.isTrivia)).map .leaf

namespace Grown

variable {tokens : List Token} {g : Supply} {f : OpenNode} {fs : List OpenNode} {s t : ParserState}
  {trees : List Tree} {u : Token} {us : List Token}

theorem congr (h : s.Grown tokens g fs trees) (hops : t.ops = s.ops) (hrest : t.rest = s.rest) :
    t.Grown tokens g fs trees := by
  obtain ⟨c, o, hfollows, hplant⟩ := h
  exact ⟨c, o, hfollows.congr hops hrest, hrest ▸ hplant⟩

theorem report (h : s.Grown tokens g fs trees) (fault : Fault) :
    (s.report fault).Grown tokens g fs trees := by
  rw [ParserState.report]
  split
  · exact h
  · exact h.congr rfl rfl

theorem step (h : s.Grown tokens g fs trees) (hs : s.rest = u :: us) :
    s.step.Grown tokens g fs (trees ++ [.leaf u]) := by
  obtain ⟨c, o, hfollows, hplant⟩ := h
  have hrest := hfollows.rest_eq
  rw [ParserState.step, hs]
  rw [hs] at hrest hplant
  refine ⟨c.token, u.stop, ⟨?_, ?_⟩, ?_⟩
  · rw [ofOps_cons]
    exact hfollows.holds.advance
  · show us = tokens.drop (c.tokenCount + 1 + OpenNode.tokensBefore fs)
    rw [Nat.add_right_comm, ← List.drop_drop, ← hrest]
    rfl
  · rw [Contents.plant, hplant]

theorem skipTrivia {s : ParserState} {trees : List Tree} (h : s.Grown tokens g fs trees) :
    s.skipTrivia.Grown tokens g fs (trees ++ s.triviaTrees) := by
  rw [skipTrivia_eq, triviaTrees]
  split
  · next hnil => simpa [hnil] using h
  · next u us hcons =>
    split
    · next hu =>
      have hshort : s.step.rest.length < s.rest.length := by simp [ParserState.step, hcons]
      have hrest : s.step.rest = us := by rw [ParserState.step, hcons]
      have hskip := (h.step hcons).skipTrivia
      rw [triviaTrees, hrest, List.append_assoc] at hskip
      rwa [hcons, List.takeWhile_cons_of_pos hu]
    · next hu => simpa [hcons, hu] using h
termination_by s.rest.length

theorem advance (h : s.Grown tokens g fs trees) (hs : s.left = u :: us) :
    s.advance.Grown tokens g fs (trees ++ s.triviaTrees ++ [.leaf u]) :=
  h.skipTrivia.step hs

/-- A node that is opened inside of another leaves the trivia before it to that one, and has the next token
so far. What it is when it is closed is one tree behind these. -/
theorem enter (h : s.Grown tokens g (f :: fs) trees) (hs : s.left = u :: us) :
    ∃ g' f', s.openNode.advance.Grown tokens g' (f' :: f :: fs) [.leaf u] ∧
      ∀ (t : ParserState) k parts, t.Grown tokens g' (f' :: f :: fs) parts → ∃ span,
        (t.record (.close k)).Grown tokens g (f :: fs)
          (trees ++ s.triviaTrees ++ [.node k span parts]) := by
  have hops : s.ops.isEmpty = false := by
    obtain ⟨c, -, hfollows, -⟩ := h
    have hevents := hfollows.holds.events_eq
    cases hops : s.ops with
    | nil =>
      rw [hops] at hevents
      simp [Log.ofOps, Log.empty, OpenNode.events] at hevents
    | cons op ops => rfl
  obtain ⟨c, o, hfollows, hplant⟩ := h.skipTrivia
  have hopen : s.openNode = s.skipTrivia.record .openNode := by
    simp [ParserState.openNode, record, hops]
  have hrest : s.openNode.rest = u :: us := by rw [hopen, ← hs]; rfl
  have htrivia : s.openNode.triviaTrees = [] := by
    rw [triviaTrees, hrest, List.takeWhile_cons_of_neg (by simp [isTrivia_of_fromSignificant hs])]
    rfl
  refine ⟨⟨s.skipTrivia.rest, o⟩, ⟨c, none⟩, ?_, fun t k parts ht => ?_⟩
  · have hempty : s.openNode.Grown tokens ⟨s.skipTrivia.rest, o⟩ (⟨c, none⟩ :: f :: fs) [] := by
      rw [hopen]
      exact ⟨.nothing, o, hfollows.record_openNode, rfl⟩
    simpa [htrivia] using hempty.advance (left_openNode.trans hs)
  · obtain ⟨d, o', hinside, hparts⟩ := ht
    refine ⟨⟨o, o'⟩, c.node (.plain k d), o', hinside.record_close k, ?_⟩
    simp only [Contents.plant, Sketch.plant, hplant, hparts]
    rfl

end Grown

end ParserState

/-! ## What a token tree takes -/

namespace ParserState

/-- The last problem is not at a closing delimiter ahead. -/
def Unblamed (s : ParserState) : Prop :=
  ∀ p ∈ s.problems.head?, ∀ t ∈ s.left, isCloser t.kind = true → t.span ≠ p.span

/-- From the first state to the second, faults of delimiters were reported and no others. -/
def Reports (s t : ParserState) : Prop :=
  ∃ ps, t.problems = ps ++ s.problems ∧
    ∀ p ∈ ps, p.fault = .mismatchedDelimiter ∨ p.fault = .unclosedDelimiter

/-- A round of a token tree takes tokens and adds trees. If it reports nothing, delimiters are nested in
them. -/
structure RoundTakes (s t : ParserState) (us : List Token) (new : List Tree) : Prop where
  rest_eq : s.rest = us ++ t.rest
  leaves_eq : Tree.forestLeaves new = us
  reports : s.Reports t
  left_suffix : t.left <:+ s.left
  grouped : s.Unblamed → t.problems = s.problems → ∀ inside parts, Grouped inside parts →
    Grouped (us ++ inside) (new ++ parts)

/-- The rounds of a token tree take tokens and add trees. If they report nothing, delimiters are nested in
them up to the closing one. They end behind that or at the end. -/
structure Takes (closer : TokenKind) (s t : ParserState) (us : List Token) (new : List Tree) :
    Prop where
  rest_eq : s.rest = us ++ t.rest
  leaves_eq : Tree.forestLeaves new = us
  reports : s.Reports t
  closed : s.Unblamed → t.problems = s.problems → ∃ inside parts c, us = inside ++ [c] ∧
    new = parts ++ [.leaf c] ∧ c.kind = closer ∧ Grouped inside parts
  ends : (∃ c ∈ us.getLast?, c.kind = closer) ∨ kindAt 0 t.rest = .eof

variable {s s' t : ParserState} {closer : TokenKind} {us us' : List Token} {new new' : List Tree}

theorem Unblamed.of_suffix (h : s.Unblamed) (hproblems : t.problems = s.problems)
    (hleft : t.left <:+ s.left) : t.Unblamed := by
  intro p hp u hu
  rw [hproblems] at hp
  exact h p hp u (hleft.subset hu)

namespace Reports

theorem of_eq (h : t.problems = s.problems) : s.Reports t := ⟨[], by simp [h], by simp⟩

theorem trans (h : s.Reports s') (h' : s'.Reports t) : s.Reports t := by
  obtain ⟨ps, hps, hfault⟩ := h
  obtain ⟨qs, hqs, hfault'⟩ := h'
  refine ⟨qs ++ ps, by rw [hqs, hps, List.append_assoc], fun p hp => ?_⟩
  obtain hp | hp := List.mem_append.1 hp
  · exact hfault' p hp
  · exact hfault p hp

/-- Nothing was reported on the way if nothing was reported in all. -/
theorem problems_eq (h : s.Reports s') (h' : s'.Reports t) (heq : t.problems = s.problems) :
    s'.problems = s.problems ∧ t.problems = s'.problems := by
  obtain ⟨ps, hps, -⟩ := h
  obtain ⟨qs, hqs, -⟩ := h'
  have hnil : qs ++ ps = [] := by simpa [hqs, hps, ← List.append_assoc] using heq
  obtain ⟨rfl, rfl⟩ := List.append_eq_nil_iff.1 hnil
  exact ⟨hps, hqs⟩

theorem skippedFaulty (s : ParserState) :
    s.Reports (Grammar.skippedFaulty .mismatchedDelimiter s) := by
  rw [Reports, Grammar.skippedFaulty, record, problems_advance, problems_openNode, report]
  split
  · exact ⟨[], by simp, by simp⟩
  · exact ⟨[⟨.mismatchedDelimiter, s.here, none⟩], rfl, by simp⟩

end Reports

/-- The rounds of a token tree are one round and those behind it. -/
theorem Takes.after (h' : Takes closer s' t us' new') (h : s.RoundTakes s' us new) :
    Takes closer s t (us ++ us') (new ++ new') where
  rest_eq := by rw [h.rest_eq, h'.rest_eq, List.append_assoc]
  leaves_eq := by rw [Tree.forestLeaves_append, h.leaves_eq, h'.leaves_eq]
  reports := h.reports.trans h'.reports
  closed hs heq := by
    obtain ⟨hround, hrest⟩ := h.reports.problems_eq h'.reports heq
    obtain ⟨inside, parts, c, rfl, rfl, hc, hgrouped⟩ :=
      h'.closed (hs.of_suffix hround h.left_suffix) hrest
    exact ⟨us ++ inside, new ++ parts, c, by simp, by simp, hc, h.grouped hs hround _ _ hgrouped⟩
  ends := h'.ends.imp_left fun ⟨c, hc, hkind⟩ => ⟨c, by simp [Option.mem_def.1 hc], hkind⟩

/-! ### Rounds -/

variable {tokens : List Token} {g : Supply} {f : OpenNode} {fs : List OpenNode} {trees : List Tree}
  {u o : Token} {behind : List Token}

theorem forestLeaves_triviaTrees (s : ParserState) :
    Tree.forestLeaves s.triviaTrees = s.rest.takeWhile (·.isTrivia) := by
  rw [triviaTrees]
  induction s.rest.takeWhile (·.isTrivia) with
  | nil => rfl
  | cons t ts ih => simp [Tree.forestLeaves, Tree.leaves, ih]

theorem grouped_triviaTrees (s : ParserState) (h : Grouped us new) :
    Grouped (s.rest.takeWhile (·.isTrivia) ++ us) (s.triviaTrees ++ new) :=
  h.trivia isTrivia_of_mem_takeWhile

theorem rest_advance_of_left (h : s.left = u :: behind) : s.advance.rest = behind := by
  rw [rest_advance, show fromSignificant s.rest = _ from h]
  rfl

theorem rest_eq_of_left (h : s.left = u :: behind) :
    s.rest = s.rest.takeWhile (·.isTrivia) ++ [u] ++ behind := by
  rw [List.append_assoc, List.singleton_append, ← h, left, takeWhile_append_fromSignificant]

theorem left_suffix_of_rest (h : s.left = u :: behind) (ht : t.rest <:+ behind) :
    t.left <:+ s.left :=
  h ▸ ((fromSignificant_suffix t.rest).trans ht).trans (List.suffix_cons u behind)

theorem length_left_lt (h : s.left = u :: behind) (ht : t.rest <:+ behind) :
    t.left.length < s.left.length := by
  rw [h, List.length_cons]
  exact Nat.lt_succ_of_le ((fromSignificant_suffix t.rest).trans ht).length_le

theorem RoundTakes.advance (h : s.left = u :: behind) (hopen : closerOf? u.kind = none)
    (hclose : isCloser u.kind = false) (heof : u.kind ≠ .eof) :
    s.RoundTakes s.advance (s.rest.takeWhile (·.isTrivia) ++ [u]) (s.triviaTrees ++ [.leaf u]) where
  rest_eq := by rw [rest_advance_of_left h, ← rest_eq_of_left h]
  leaves_eq := by
    rw [Tree.forestLeaves_append, forestLeaves_triviaTrees]
    rfl
  reports := .of_eq (problems_advance s)
  left_suffix := left_suffix_of_rest h (rest_advance_of_left h ▸ List.suffix_refl _)
  grouped _ _ inside parts hgrouped := by
    rw [List.append_assoc, List.append_assoc]
    exact s.grouped_triviaTrees (.token hopen hclose heof hgrouped)

theorem rest_skippedFaulty (fault : Fault) (h : s.left = u :: behind) :
    (skippedFaulty fault s).rest = behind :=
  rest_advance_of_left (s := (s.report fault).openNode) (by rw [left_openNode, left_report, h])

/-- A wrong closing delimiter is reported, as no other problem is there. -/
theorem RoundTakes.mismatch (h : s.left = u :: behind) (hclose : isCloser u.kind = true)
    (span : Span) :
    s.RoundTakes (skippedFaulty .mismatchedDelimiter s) (s.rest.takeWhile (·.isTrivia) ++ [u])
      (s.triviaTrees ++ [.node .errorNode span [.leaf u]]) where
  rest_eq := by rw [rest_skippedFaulty _ h, ← rest_eq_of_left h]
  leaves_eq := by
    rw [Tree.forestLeaves_append, forestLeaves_triviaTrees]
    rfl
  reports := .skippedFaulty s
  left_suffix := left_suffix_of_rest h (rest_skippedFaulty _ h ▸ List.suffix_refl _)
  grouped hs heq := by
    have hhere : s.here = u.span := by
      rw [here, nextToken?, show fromSignificant s.rest = _ from h]
      rfl
    have hlast : s.problems.head?.map (·.span) ≠ some s.here := by
      intro hlast
      obtain ⟨p, hp, hspan⟩ := Option.map_eq_some_iff.1 hlast
      exact hs p hp u (h ▸ List.mem_cons_self) hclose (hhere.symm.trans hspan.symm)
    rw [Grammar.skippedFaulty, record, problems_advance, problems_openNode, report, if_neg hlast] at heq
    exact absurd heq (List.cons_ne_self _ _)

/-- A token tree inside a token tree takes what its own rounds take. -/
theorem RoundTakes.pair {c : TokenKind} (h : s.left = o :: behind) (hopen : closerOf? o.kind = some c)
    (hinside : Takes c s.openNode.advance t us new) (span : Span) :
    s.RoundTakes (t.record (.close .tokenTree)) (s.rest.takeWhile (·.isTrivia) ++ o :: us)
      (s.triviaTrees ++ [.node .tokenTree span (.leaf o :: new)]) := by
  have hopened : s.openNode.left = o :: behind := left_openNode.trans h
  have hrest : behind = us ++ t.rest := (rest_advance_of_left hopened).symm.trans hinside.rest_eq
  have hproblems : s.openNode.advance.problems = s.problems :=
    (problems_advance _).trans (problems_openNode s)
  refine ⟨?_, ?_, ?_, left_suffix_of_rest h ⟨us, hrest.symm⟩, fun hs heq inside parts hgrouped => ?_⟩
  · have hs := rest_eq_of_left h
    rw [hrest, List.append_assoc] at hs
    rw [List.append_assoc]
    exact hs
  · simp [Tree.forestLeaves_append, forestLeaves_triviaTrees, Tree.forestLeaves, Tree.leaves,
      hinside.leaves_eq]
  · obtain ⟨ps, hps, hfault⟩ := hinside.reports
    exact ⟨ps, hproblems ▸ hps, hfault⟩
  · have hbegun : s.openNode.advance.Unblamed :=
      hs.of_suffix hproblems (left_suffix_of_rest h (rest_advance_of_left hopened ▸ List.suffix_refl _))
    obtain ⟨us, parts', c, rfl, rfl, rfl, hus⟩ := hinside.closed hbegun (heq.trans hproblems.symm)
    have hpair : Grouped (o :: us ++ c :: inside)
        (.node .tokenTree span (.leaf o :: parts' ++ [.leaf c]) :: parts) := .pair hopen hus hgrouped
    simpa using s.grouped_triviaTrees hpair

/-- The closing delimiter is the last thing that is taken. -/
theorem Takes.last (h : s.left = u :: behind) (hu : u.kind = closer) :
    Takes closer s s.advance (s.rest.takeWhile (·.isTrivia) ++ [u]) (s.triviaTrees ++ [.leaf u]) where
  rest_eq := by rw [rest_advance_of_left h, ← rest_eq_of_left h]
  leaves_eq := by
    rw [Tree.forestLeaves_append, forestLeaves_triviaTrees]
    rfl
  reports := .of_eq (problems_advance s)
  closed _ _ := ⟨_, _, u, rfl, rfl, hu, by simpa using s.grouped_triviaTrees .nil⟩
  ends := .inl ⟨u, by simp, hu⟩

/-- At the end nothing is taken, and the delimiter that is not closed is reported. -/
theorem Takes.unclosed (origin : Span) (h : kindAt 0 s.rest = .eof) :
    Takes closer s (s.reportFrom .unclosedDelimiter origin "opened here") [] [] where
  rest_eq := rfl
  leaves_eq := rfl
  reports := ⟨[⟨.unclosedDelimiter, s.here, some (origin, "opened here")⟩], rfl, by simp⟩
  closed _ heq := absurd heq (List.cons_ne_self _ _)
  ends := .inr h

end ParserState

/-! ### Token trees -/

namespace Grammar

variable {tokens : List Token} {g : Supply} {f : OpenNode} {fs : List OpenNode} {s : ParserState}
  {trees : List Tree} {closer : TokenKind} {u o : Token} {behind : List Token}

/-- The rounds of a token tree come to an end, inside of any open node. -/
def TakesSome (closer : TokenKind) (s : ParserState) : Prop :=
  ∀ origin tokens g f fs trees, s.Grown tokens g (f :: fs) trees → ∃ d t us new,
    Runs d (loop (treeRound closer origin)) s () t ∧
      t.Grown tokens g (f :: fs) (trees ++ new) ∧ s.Takes closer t us new

/-- A token tree is added to the innermost open node if its rounds come to an end. -/
theorem exists_tree (hs : s.Grown tokens g (f :: fs) trees) (hnext : s.left = o :: behind)
    (hopen : closerOf? o.kind = some closer) (h : TakesSome closer s.openNode.advance) :
    ∃ d t us new span, Runs d tokenTree s () (t.record (.close .tokenTree)) ∧
      (t.record (.close .tokenTree)).Grown tokens g (f :: fs)
        (trees ++ s.triviaTrees ++ [.node .tokenTree span (.leaf o :: new)]) ∧
      s.openNode.advance.Takes closer t us new := by
  obtain ⟨g', f', hbegun, hclose⟩ := hs.enter hnext
  obtain ⟨d, t, us, new, hrun, hgrown, htakes⟩ := h (originOf s) _ _ _ _ _ hbegun
  obtain ⟨span, hspan⟩ := hclose t .tokenTree _ hgrown
  refine ⟨d, t, us, new, span, runs_tokenTree ?_ hrun, hspan, htakes⟩
  rw [kindAt_of_fromSignificant hnext, hopen]

/-- A round of a token tree at a token that is neither its closing delimiter nor the end. -/
theorem exists_round (hs : s.Grown tokens g (f :: fs) trees) (hnext : s.left = u :: behind)
    (hne : u.kind ≠ closer) (heof : u.kind ≠ .eof)
    (h : ∀ c, closerOf? u.kind = some c → TakesSome c s.openNode.advance) (origin : Span) :
    ∃ d t us new, Runs d (treeRound closer origin) s true t ∧
      t.Grown tokens g (f :: fs) (trees ++ new) ∧ s.RoundTakes t us new ∧ t.rest <:+ behind := by
  have hk : kindAt 0 s.rest = u.kind := kindAt_of_fromSignificant hnext
  cases hopen : closerOf? u.kind with
  | some c =>
    obtain ⟨d, t, us, new, span, hrun, hgrown, htakes⟩ := exists_tree hs hnext hopen (h c hopen)
    refine ⟨d + 1, t.record (.close .tokenTree), _, _,
      runs_treeRound_pair (hk ▸ hne) (hk ▸ hopen) hrun, ?_, RoundTakes.pair hnext hopen htakes span, ?_⟩
    · rwa [← List.append_assoc]
    · exact ⟨us, htakes.rest_eq.symm.trans (rest_advance_of_left (left_openNode.trans hnext))⟩
  | none =>
    cases hclose : isCloser u.kind with
    | true =>
      have hreported : (s.report .mismatchedDelimiter).Grown tokens g (f :: fs) trees := hs.report _
      obtain ⟨g', f', hbegun, hend⟩ := hreported.enter ((left_report _).trans hnext)
      obtain ⟨span, hgrown⟩ := hend _ .errorNode _ hbegun
      refine ⟨0, _, _, _, runs_treeRound_mismatch (hk ▸ hne) (hk ▸ hclose), ?_,
        RoundTakes.mismatch hnext hclose span, rest_skippedFaulty _ hnext ▸ List.suffix_refl _⟩
      rw [triviaTrees, rest_report, List.append_assoc] at hgrown
      exact hgrown
    | false =>
      refine ⟨0, _, _, _, ?_, ?_, RoundTakes.advance hnext hopen hclose heof,
        rest_advance_of_left hnext ▸ List.suffix_refl _⟩
      · exact runs_treeRound_other (hk ▸ hne) (hk ▸ heof) (hk ▸ hopen) (hk ▸ hclose)
      · rw [← List.append_assoc]
        exact hs.advance hnext

/-- The rounds of a token tree come to an end wherever they begin. -/
theorem takesSome (hcloser : isCloser closer = true) (s : ParserState) : TakesSome closer s := by
  induction hn : s.left.length using Nat.strong_induction_on generalizing closer s with
  | _ n ih =>
    subst hn
    intro origin tokens g f fs trees hs
    have hcloserEof : closer ≠ .eof := by
      rintro rfl
      cases hcloser
    by_cases heof : kindAt 0 s.rest = .eof
    · refine ⟨0, _, [], [], runs_loop_last (runs_treeRound_eof hcloserEof heof), ?_, ?_⟩
      · rw [List.append_nil]
        exact hs.congr rfl rfl
      · exact .unclosed origin heof
    obtain ⟨u, behind, hnext, hu⟩ := exists_of_kindAt_ne_eof heof
    by_cases hk : u.kind = closer
    · refine ⟨0, s.advance, _, _, runs_loop_last (runs_treeRound_closer (hu.symm.trans hk)), ?_,
        .last hnext hk⟩
      rw [← List.append_assoc]
      exact hs.advance hnext
    · have hinside : ∀ c, closerOf? u.kind = some c → TakesSome c s.openNode.advance := fun c hc => by
        refine ih _ ?_ (isCloser_of_closerOf? hc) _ rfl
        have hrest := rest_advance_of_left (left_openNode.trans hnext)
        exact length_left_lt hnext (hrest ▸ List.suffix_refl _)
      obtain ⟨d, s', us, new, hround, hgrown, htakes, hsuffix⟩ :=
        exists_round hs hnext hk (hu ▸ heof) hinside origin
      obtain ⟨e, t, us', new', hrun, hgrown', htakes'⟩ :=
        ih _ (length_left_lt hnext hsuffix) hcloser s' rfl origin _ _ _ _ _ hgrown
      exact ⟨_, t, _, _, runs_loop_again hround hrun, List.append_assoc trees new new' ▸ hgrown',
        htakes'.after htakes⟩

end Grammar

/-! ## Problems at closing delimiters -/

namespace ParserState

/-- The tokens ahead start one behind the other, and no problem is at a closing delimiter behind the next
one. -/
structure HeedsClosers (s : ParserState) : Prop where
  pairwise : s.left.Pairwise (·.start < ·.start)
  ne_span : ∀ p ∈ s.problems, ∀ t ∈ s.left.tail, isCloser t.kind = true → t.span ≠ p.span

variable {s t : ParserState} {p : Problem}

namespace HeedsClosers

theorem of_suffix (h : s.HeedsClosers) (hleft : t.left <:+ s.left)
    (hproblems : t.problems = s.problems) : t.HeedsClosers where
  pairwise := h.pairwise.sublist hleft.sublist
  ne_span p hp u hu := h.ne_span p (hproblems ▸ hp) u (hleft.sublist.tail.subset hu)

/-- A problem that is reported is at the next token, and so at none behind that. -/
theorem cons (h : s.HeedsClosers) (hleft : t.left = s.left) (hp : p.span = s.here)
    (hproblems : t.problems = p :: s.problems) : t.HeedsClosers where
  pairwise := hleft ▸ h.pairwise
  ne_span q hq u hu hclose := by
    rw [hleft] at hu
    rw [hproblems] at hq
    obtain rfl | hq := List.mem_cons.1 hq
    · cases hs : s.left with
      | nil => rw [hs] at hu; cases hu
      | cons v vs =>
        have hhere : s.here = v.span := by
          rw [here, nextToken?, show fromSignificant s.rest = _ from hs]
          rfl
        have hlt := hs ▸ h.pairwise
        rw [hs] at hu
        rw [hp, hhere]
        exact fun heq => (List.rel_of_pairwise_cons hlt hu).ne (congrArg Span.start heq).symm
    · exact h.ne_span q hq u hu hclose

theorem unblamed (h : s.HeedsClosers) (hopen : (closerOf? (kindAt 0 s.rest)).isSome = true) :
    s.Unblamed := by
  intro p hp t ht hclose
  obtain ⟨c, hc⟩ := Option.isSome_iff_exists.1 hopen
  cases hs : s.left with
  | nil => rw [hs] at ht; cases ht
  | cons u us =>
    have hmem : t ∈ s.left.tail := by
      rw [kindAt_of_fromSignificant hs] at hc
      rw [hs] at ht ⊢
      obtain rfl | ht := List.mem_cons.1 ht
      · rw [isCloser_eq_false_of_closerOf? hc] at hclose
        cases hclose
      · exact ht
    exact h.ne_span p (List.mem_of_mem_head? hp) t hmem hclose

theorem initial (text : String) : (ParserState.initial text).HeedsClosers where
  pairwise := (pairwise_start_lexTokens text).sublist (fromSignificant_suffix _).sublist
  ne_span p hp t ht hclose heq := by
    have hmem : t ∈ lexTokens text :=
      (fromSignificant_suffix _).subset (List.mem_of_mem_tail ht)
    obtain ⟨⟨span, fault⟩, hlex, rfl⟩ := List.mem_map.1 (List.mem_reverse.1 hp)
    have hspan := List.mem_map_of_mem (f := Prod.fst) hlex
    rw [map_fst_lexErrors] at hspan
    obtain ⟨u, hu, hspan⟩ := List.mem_map.1 hspan
    obtain ⟨hu, herror⟩ := List.mem_filter.1 hu
    have hstart : t.start = u.start := congrArg Span.start (heq.trans hspan.symm)
    have hnodup : ((lexTokens text).map (·.start)).Nodup :=
      List.pairwise_map.2 ((pairwise_start_lexTokens text).imp fun h => h.ne)
    obtain rfl := List.inj_on_of_nodup_map hnodup hmem hu hstart
    rw [beq_iff_eq] at herror
    rw [herror] at hclose
    cases hclose

end HeedsClosers

end ParserState

namespace Grammar

variable {d : Nat} {α : Type} {a : α} {grammar : Grammar α} {s t : ParserState} {tokens : List Token}

theorem Runs.heedsClosers (h : Runs d grammar s a t) (hs : s.HeedsClosers) : t.HeedsClosers := by
  induction h with
  | pure | ahead => exact hs
  | advance s =>
    exact hs.of_suffix (left_advance_suffix.trans (List.tail_suffix _)) (problems_advance s)
  | report fault s =>
    rw [ParserState.report]
    split
    · exact hs
    · exact hs.cons rfl rfl rfl
  | reportFrom fault origin note s => exact hs.cons rfl rfl rfl
  | bind _ _ ihg ihf => exact ihf (ihg hs)
  | node _ ih =>
    exact (ih (hs.of_suffix (left_openNode.subst (List.suffix_refl _)) (problems_openNode _))).of_suffix
      (List.suffix_refl _) rfl
  | wrap _ ih => exact (ih (hs.of_suffix (List.suffix_refl _) rfl)).of_suffix (List.suffix_refl _) rfl
  | last _ ih => exact ih hs
  | again _ _ ih ihrest => exact ihrest (ih hs)
  | call _ ih => exact ih hs

theorem Meets.heedsClosers {m : Moment} (h : Meets m grammar s) (hs : s.HeedsClosers) :
    m.start.HeedsClosers := by
  induction h with
  | first _ ih | now _ ih | inside _ ih => exact ih hs
  | node _ ih => exact ih (hs.of_suffix (left_openNode.subst (List.suffix_refl _)) (problems_openNode _))
  | wrap _ ih => exact ih (hs.of_suffix (List.suffix_refl _) rfl)
  | second hg _ ih => exact ih (hg.heedsClosers hs)
  | later hround _ ih => exact ih (hround.heedsClosers hs)
  | round | enter => exact hs

/-- A run that comes to an end closes every node that it opens. -/
theorem Runs.extends (h : Runs d grammar s a t) : Extends tokens s t := by
  induction h with
  | pure | ahead => exact .refl _
  | advance =>
    intro c fs h
    obtain ⟨n, hn⟩ := h.advance
    exact ⟨_, hn⟩
  | report fault s => 
    rw [ParserState.report]
    split
    · exact .refl s
    · exact .of_eq rfl rfl
  | reportFrom => exact .of_eq rfl rfl
  | bind _ _ ihg ihf => exact ihg.trans ihf
  | @node _ _ _ _ _ k? _ _ ih =>
    intro c fs h
    obtain ⟨n, hn⟩ := h.openNode
    obtain ⟨e, he⟩ := ih _ _ hn
    cases k? with
    | some k => exact ⟨_, he.record_close k⟩
    | none => exact ⟨_, he.record_abandon⟩
  | wrap _ ih =>
    intro c fs h
    obtain ⟨e, he⟩ := ih _ _ h.record_wrap
    exact ⟨_, he.record_close _⟩
  | last _ ih => exact ih
  | again _ _ ih ihrest => exact ih.trans ihrest
  | call _ ih => exact ih

/-- What is met inside of a node. -/
def MeetsInside (m : Moment) : {α : Type} → Grammar α → ParserState → Prop
  | _, .node body, s => Meets m body s.openNode
  | _, _, _ => True

theorem Meets.of_node {m : Moment} {body : Grammar (Option NodeKind × α)}
    (h : Meets m (.node body) s) : Meets m body s.openNode := by
  have hinside : ∀ {β : Type} {g : Grammar β} {s : ParserState}, Meets m g s → MeetsInside m g s := by
    intro β g s h
    cases h <;> trivial
  exact hinside h

/-- What is met on the way is met inside of the nodes that are open. -/
theorem Meets.follows {m : Moment} (h : Meets m grammar s) {c : Contents} {fs : List OpenNode}
    (hs : s.Follows tokens c fs) : ∃ d gs, m.start.Follows tokens d (gs ++ fs) := by
  induction h generalizing c fs with
  | first _ ih | now _ ih | inside _ ih => exact ih hs
  | node _ ih =>
    obtain ⟨n, hn⟩ := hs.openNode
    obtain ⟨d, gs, hd⟩ := ih hn
    exact ⟨d, gs ++ [_], by simpa using hd⟩
  | wrap _ ih =>
    obtain ⟨d, gs, hd⟩ := ih hs.record_wrap
    exact ⟨d, gs ++ [_], by simpa using hd⟩
  | second hg _ ih =>
    obtain ⟨d, hd⟩ := hg.extends _ _ hs
    exact ih hd
  | later hround _ ih =>
    obtain ⟨d, hd⟩ := hround.extends _ _ hs
    exact ih hd
  | round | enter => exact ⟨c, [], hs⟩

end Grammar

/-- What a parser has recorded stands for trees, whatever it is. -/
theorem ParserState.Follows.grown {tokens : List Token} {s : ParserState} {c : Contents}
    {fs : List OpenNode} (h : s.Follows tokens c fs) : ∃ g trees, s.Grown tokens g fs trees := by
  have hplant := (c.leaves_plant ⟨tokens.drop (OpenNode.tokensBefore fs), 0⟩).2
  rw [List.drop_drop, Nat.add_comm, ← h.rest_eq] at hplant
  generalize hpair : c.plant ⟨tokens.drop (OpenNode.tokensBefore fs), 0⟩ = pair at hplant
  obtain ⟨trees, rest, o⟩ := pair
  exact ⟨_, trees, c, o, h, by rw [hpair, ← hplant]⟩

/-! ## Where a token tree ends -/

namespace Grammar

section

variable {tokens : List Token} {g : Supply} {f : OpenNode} {fs : List OpenNode} {trees : List Tree}
  {s t : ParserState} {closer : TokenKind} {o : Token} {behind us : List Token} {new : List Tree}

/-- The closing delimiter of a token tree that reports nothing is the one that belongs to it. -/
theorem grouped_of_takes (span : Span) (hopen : closerOf? o.kind = some closer) (hs : s.Unblamed)
    (htakes : s.Takes closer t us new) (heq : t.problems = s.problems) :
    (∃ inside, Balanced inside ∧ kinds (o :: us) = o.kind :: inside ++ [closer]) ∧
      (∃ c ∈ (o :: us).getLast?, c.kind = closer) ∧
      Grouped (o :: us) [.node .tokenTree span (.leaf o :: new)] := by
  obtain ⟨inside, parts, c, rfl, rfl, rfl, hgrouped⟩ := htakes.closed hs heq
  refine ⟨⟨kinds inside, hgrouped.balanced, ?_⟩, ⟨c, ?_, rfl⟩, .pair hopen hgrouped .nil⟩
  · rw [kinds_cons (isTrivia_of_closerOf? hopen), kinds_append,
      kinds_cons (isTrivia_of_isCloser (isCloser_of_closerOf? hopen))]
    rfl
  · rw [← List.cons_append, List.getLast?_concat, Option.mem_def]

/-- A token tree that is followed by balanced tokens and its closing delimiter reports nothing. -/
theorem problems_eq_of_balanced {d : Nat} {inside ks : List TokenKind}
    (hopen : closerOf? (kindAt 0 s.rest) = some closer) (hinside : Balanced inside)
    (hs : kinds s.left = kindAt 0 s.rest :: inside ++ closer :: ks) (hrun : Runs d tokenTree s () t) :
    t.problems = s.problems ∧ kinds t.rest = ks := by
  rw [left, kinds_fromSignificant, ← kinds_rest_openNode] at hs
  obtain ⟨-, hrest⟩ := kinds_rest_advance hs
  obtain ⟨e, t', hloop, hks, hproblems⟩ :=
    runs_treeLoop_of_balanced hinside (isCloser_of_closerOf? hopen) (originOf s) hrest
  obtain ⟨-, rfl⟩ := hrun.unique (runs_tokenTree hopen hloop)
  exact ⟨hproblems.trans ((problems_advance _).trans (problems_openNode s)), hks⟩

end

/-- **Token trees are balanced delimiters.** Let an opening delimiter be next inside of an open node, and let
the last problem not be at a closing delimiter ahead. The run of a token tree comes to an end, and adds
one tree to the node: a token tree whose leaves are the tokens that were taken. If the significant tokens
from there on have a closing delimiter of the same kind with balanced tokens before it, that is the last
token that is taken, nothing is reported, and each pair of delimiters among the tokens is a token tree,
and nothing else is. Otherwise delimiters are reported that do not match or are not closed, and
the run ends behind a closing delimiter of the right kind or at the end.

In the parse of a text all of this is so wherever a token tree is entered at an opening delimiter. -/
theorem tokenTree_closes :
    (∀ {tokens : List Token} {g : Supply} {f : OpenNode} {fs : List OpenNode} {trees : List Tree}
      {s : ParserState} {closer : TokenKind}, s.Grown tokens g (f :: fs) trees →
      closerOf? (kindAt 0 s.rest) = some closer → s.Unblamed →
      ∃ d t us tree, Runs d tokenTree s () t ∧ s.left = us ++ t.rest ∧
        t.Grown tokens g (f :: fs) (trees ++ s.triviaTrees ++ [tree]) ∧ tree.leaves = us ∧
        tree.kind? = some .tokenTree ∧
        (∀ inside behind, kinds s.left = kindAt 0 s.rest :: inside ++ closer :: behind →
          Balanced inside → kinds us = kindAt 0 s.rest :: inside ++ [closer] ∧
            (∃ c ∈ us.getLast?, c.kind = closer) ∧ t.problems = s.problems ∧ Grouped us [tree]) ∧
        ((¬ ∃ inside behind, kinds s.left = kindAt 0 s.rest :: inside ++ closer :: behind ∧
          Balanced inside) → ∃ ps ≠ [], t.problems = ps ++ s.problems ∧
            (∀ p ∈ ps, p.fault = .mismatchedDelimiter ∨ p.fault = .unclosedDelimiter) ∧
            ((∃ c ∈ us.getLast?, c.kind = closer) ∨ kindAt 0 t.rest = .eof))) ∧
    ∀ {text : String} {grammar : Grammar Unit} {s : ParserState},
      grammar = sourceFile ∨ grammar = loneExpr → Meets (.enter .tokenTree s) grammar (.initial text) →
      (closerOf? (kindAt 0 s.rest)).isSome = true →
        s.Unblamed ∧ ∃ g f fs trees, s.Grown (lexTokens text) g (f :: fs) trees := by
  refine ⟨fun {tokens g f fs trees s closer} hs hopen hunblamed => ?_,
    fun {text grammar s} hgrammar hmeets hopen => ?_⟩
  · have heof : kindAt 0 s.rest ≠ .eof := fun heof => by
      rw [heof] at hopen
      cases hopen
    obtain ⟨o, behind, hnext, hkind⟩ := exists_of_kindAt_ne_eof heof
    rw [← hkind] at hopen
    have hbehind : s.openNode.advance.rest = behind :=
      rest_advance_of_left (left_openNode.trans hnext)
    have hproblems : s.openNode.advance.problems = s.problems :=
      (problems_advance _).trans (problems_openNode s)
    have hbegun : s.openNode.advance.Unblamed :=
      hunblamed.of_suffix hproblems (left_suffix_of_rest hnext (hbehind ▸ List.suffix_refl _))
    obtain ⟨d, t, us, new, span, hrun, hgrown, htakes⟩ :=
      exists_tree hs hnext hopen (takesSome (isCloser_of_closerOf? hopen) _)
    have hrest : behind = us ++ t.rest := hbehind.symm.trans htakes.rest_eq
    have hleft : s.left = o :: us ++ t.rest := hnext.trans (by rw [hrest, List.cons_append])
    refine ⟨d, _, o :: us, _, hrun, hleft, hgrown, ?_, rfl, fun inside ks hks hinside => ?_,
      fun hnone => ?_⟩
    · simp [Tree.leaves, Tree.forestLeaves, htakes.leaves_eq]
    · obtain ⟨heq, hmore⟩ := problems_eq_of_balanced (hkind ▸ hopen) hinside hks hrun
      obtain ⟨-, hlast, hgrouped⟩ := grouped_of_takes span hopen hbegun htakes (heq.trans hproblems.symm)
      refine ⟨?_, hlast, heq, hgrouped⟩
      have hmore' : kinds t.rest = ks := hmore
      rw [hleft, kinds_append, hmore', List.append_cons] at hks
      exact List.append_cancel_right hks
    · obtain ⟨ps, hps, hfaults⟩ := htakes.reports
      refine ⟨ps, fun hnil => hnone ?_, hproblems ▸ hps, hfaults, ?_⟩
      · obtain ⟨⟨inside, hinside, hks⟩, -, -⟩ :=
          grouped_of_takes span hopen hbegun htakes (by rw [hps, hnil, List.nil_append])
        refine ⟨inside, kinds t.rest, ?_, hinside⟩
        rw [hleft, kinds_append, hks, hkind, ← List.append_cons]
      · exact htakes.ends.imp_left fun ⟨c, hc, hc'⟩ =>
          ⟨c, by simp [List.getLast?_cons, Option.mem_def.1 hc], hc'⟩
  · refine ⟨(hmeets.heedsClosers (.initial text)).unblamed hopen, ?_⟩
    have hbody : ∃ body : Grammar (Option NodeKind × Unit), grammar = node body := by
      obtain rfl | rfl := hgrammar <;> exact ⟨_, rfl⟩
    obtain ⟨body, rfl⟩ := hbody
    obtain ⟨n, hn⟩ := (follows_initial text).openNode
    obtain ⟨c, gs, hc⟩ := hmeets.of_node.follows hn
    obtain ⟨f, fs, hfs⟩ := List.exists_cons_of_ne_nil
      (List.append_ne_nil_of_right_ne_nil gs (List.cons_ne_nil _ _))
    rw [hfs] at hc
    obtain ⟨g, trees, hgrown⟩ := hc.grown
    exact ⟨g, f, fs, trees, hgrown⟩

/-- The delimiters of an attribute, with a pair of parentheses in them. -/
theorem tokenTree_closes_attribute :
    let s := (ParserState.initial "#![a(b)]").openNode.openNode.advance.advance
    Meets (.enter .tokenTree s) sourceFile (.initial "#![a(b)]") ∧
      ∃ d t us tree, Runs d tokenTree s () t ∧ t.problems = s.problems ∧
        kinds us = [.lBracket, .ident, .lParen, .ident, .rParen, .rBracket] ∧ Grouped us [tree] := by
  intro s
  have hround (h : ∀ n ∈ [(0, TokenKind.pound), (1, .bang), (2, .lBracket)],
      kindAt n.1 (ParserState.initial "#![a(b)]").openNode.rest = n.2) :
      Meets (.enter .tokenTree s) sourceFile (.initial "#![a(b)]") := by
    refine .node (.first (.first (.now (.first ?_))))
    refine .second (d := 0) (runs_peek.2 ⟨rfl, rfl⟩) (.second (d := 0) (runs_peek.2 ⟨rfl, rfl⟩)
      (.second (d := 0) (runs_peek.2 ⟨rfl, rfl⟩) ?_))
    rw [if_pos (by simpa using h)]
    exact .first (.node (.first (.second (d := 0) (.advance _) (.second (d := 0) (.advance _)
      (.first .enter)))))
  have hmeets := hround (by decide +kernel)
  have hopen : closerOf? (kindAt 0 s.rest) = some .rBracket := by decide +kernel
  obtain ⟨hunblamed, g, f, fs, trees, hgrown⟩ :=
    tokenTree_closes.2 (.inl rfl) hmeets (by rw [hopen]; rfl)
  obtain ⟨d, t, us, tree, hrun, -, -, -, -, hbalanced, -⟩ :=
    tokenTree_closes.1 hgrown hopen hunblamed
  have hkinds : kinds s.left = kindAt 0 s.rest :: [.ident, .lParen, .ident, .rParen] ++
      .rBracket :: [.eof] := by
    decide +kernel
  have hname : Balanced [.ident] := .other rfl rfl (by decide) .nil
  have hinside : Balanced [.ident, .lParen, .ident, .rParen] :=
    .other rfl rfl (by decide) (.pair rfl hname .nil)
  obtain ⟨hus, -, hproblems, hgrouped⟩ := hbalanced _ _ hkinds hinside
  refine ⟨hmeets, d, t, us, tree, hrun, hproblems, ?_, hgrouped⟩
  rw [hus, show kindAt 0 s.rest = .lBracket by decide +kernel]
  rfl

end Grammar

end Reshape
