import Reshape.Proofs.Grammar.Reading
import Reshape.Proofs.Parse.Fitting

/-!
# Balanced tokens

What stands between delimiters is read as a token tree, whatever it is meant to be. Where a token tree
ends is a matter of its closing delimiter alone.

* `Balanced` are the kinds of tokens among which delimiters are paired and closed by their own kind.
  `Grouped` are the trees that stand for such tokens: every pair of delimiters is a token tree, and nothing
  else is.
* `Grammar.treeRound` is one round of the repetition that reads a token tree, with one lemma for each of
  its branches.
* `Grammar.runs_treeLoop_of_balanced` follows these rounds along balanced tokens, by induction on them.
-/

namespace Reshape

open Grammar ParserState

/-! ## Balanced tokens -/

/-- The kinds of the tokens that are not trivia. -/
def kinds (ts : List Token) : List TokenKind := (significant ts).map (·.kind)

/-- Delimiters are paired and closed by their own kind, and the end of the text is not among them. -/
inductive Balanced : List TokenKind → Prop
  | nil : Balanced []
  | other {k : TokenKind} {ks : List TokenKind} : closerOf? k = none → isCloser k = false → k ≠ .eof →
      Balanced ks → Balanced (k :: ks)
  | pair {o c : TokenKind} {inside ks : List TokenKind} : closerOf? o = some c → Balanced inside →
      Balanced ks → Balanced (o :: inside ++ c :: ks)

/-- The trees that stand for tokens among which delimiters are nested. Each pair of delimiters is a token
tree with what is between them, and everything else is by itself. -/
inductive Grouped : List Token → List Tree → Prop
  | nil : Grouped [] []
  | token {t : Token} {ts : List Token} {trees : List Tree} : closerOf? t.kind = none →
      isCloser t.kind = false → t.kind ≠ .eof → Grouped ts trees → Grouped (t :: ts) (.leaf t :: trees)
  | pair {o c : Token} {inside ts : List Token} {span : Span} {parts trees : List Tree} :
      closerOf? o.kind = some c.kind → Grouped inside parts → Grouped ts trees →
      Grouped (o :: inside ++ c :: ts) (.node .tokenTree span (.leaf o :: parts ++ [.leaf c]) :: trees)

section

variable {k o c : TokenKind} {t : Token} {ts us : List Token} {trees : List Tree}

theorem isCloser_of_closerOf? (h : closerOf? o = some c) : isCloser c = true := by
  cases o <;> cases h <;> rfl

theorem isCloser_eq_false_of_closerOf? (h : closerOf? o = some c) : isCloser o = false := by
  cases o <;> cases h <;> rfl

theorem ne_of_isCloser (hk : isCloser k = false) (hc : isCloser c = true) : k ≠ c := by
  rintro rfl
  rw [hk] at hc
  cases hc

theorem isTrivia_of_closerOf? (h : closerOf? t.kind = some c) : t.isTrivia = false := by
  rw [Token.isTrivia]
  cases hk : t.kind <;> rw [hk] at h <;> cases h <;> rfl

theorem isTrivia_of_isCloser (h : isCloser t.kind = true) : t.isTrivia = false := by
  rw [Token.isTrivia]
  cases hk : t.kind <;> rw [hk] at h <;> cases h <;> rfl

theorem kinds_append (ts us : List Token) : kinds (ts ++ us) = kinds ts ++ kinds us := by
  simp [kinds, significant]

theorem kinds_of_isTrivia (h : ∀ t ∈ ts, t.isTrivia = true) : kinds ts = [] := by
  rw [kinds, significant_of_isTrivia h, List.map_nil]

theorem kinds_cons (h : t.isTrivia = false) : kinds (t :: ts) = t.kind :: kinds ts := by
  simp [kinds, significant, h]

theorem takeWhile_append_fromSignificant (ts : List Token) :
    ts.takeWhile (·.isTrivia) ++ fromSignificant ts = ts :=
  List.takeWhile_append_dropWhile

theorem kinds_fromSignificant (ts : List Token) : kinds (fromSignificant ts) = kinds ts := by
  have h := congrArg kinds (takeWhile_append_fromSignificant ts)
  rwa [kinds_append, kinds_of_isTrivia isTrivia_of_mem_takeWhile, List.nil_append] at h

/-- What is next among the kinds is next among the tokens. -/
theorem exists_of_kinds_eq_cons {ks : List TokenKind} (h : kinds ts = k :: ks) :
    ∃ t us, fromSignificant ts = t :: us ∧ t.kind = k ∧ kinds us = ks := by
  rw [← kinds_fromSignificant] at h
  cases hts : fromSignificant ts with
  | nil => rw [hts] at h; cases h
  | cons t us =>
    rw [hts, kinds_cons (isTrivia_of_fromSignificant hts)] at h
    cases h
    exact ⟨t, us, rfl, rfl, rfl⟩

theorem kindAt_of_fromSignificant (h : fromSignificant ts = t :: us) : kindAt 0 ts = t.kind := by
  rw [kindAt_zero, h]
  rfl

theorem exists_of_kindAt_ne_eof (h : kindAt 0 ts ≠ .eof) :
    ∃ t us, fromSignificant ts = t :: us ∧ t.kind = kindAt 0 ts := by
  cases hts : fromSignificant ts with
  | nil => exact absurd (kindAt_eq_eof hts 0) h
  | cons t us => exact ⟨t, us, rfl, (kindAt_of_fromSignificant hts).symm⟩

theorem Grouped.trivia (hus : ∀ t ∈ us, t.isTrivia = true) (h : Grouped ts trees) :
    Grouped (us ++ ts) (us.map .leaf ++ trees) := by
  induction us with
  | nil => exact h
  | cons t us ih =>
    have ht : t.kind.isTrivia = true := hus t List.mem_cons_self
    have hrest := ih fun t ht => hus t (List.mem_cons_of_mem _ ht)
    obtain hk | hk : t.kind = .whitespace ∨ t.kind = .comment := by
      cases hk : t.kind <;> simp_all [TokenKind.isTrivia]
    all_goals exact .token (by rw [hk]; rfl) (by rw [hk]; rfl) (by rw [hk]; simp) hrest

/-- Delimiters are nested among the tokens if they are in the trees. -/
theorem Grouped.balanced (h : Grouped ts trees) : Balanced (kinds ts) := by
  induction h with
  | nil => exact .nil
  | @token t ts trees hopen hclose heof _ ih =>
    by_cases ht : t.isTrivia = true
    · rwa [← List.singleton_append, kinds_append, kinds_of_isTrivia (by simpa using ht),
        List.nil_append]
    · rw [kinds_cons (by simpa using ht)]
      exact .other hopen hclose heof ih
  | @pair o c inside ts span parts trees hopen _ _ ihInside ih =>
    rw [List.cons_append, kinds_cons (isTrivia_of_closerOf? hopen), kinds_append,
      kinds_cons (isTrivia_of_isCloser (isCloser_of_closerOf? hopen))]
    exact .pair hopen ihInside ih

end

/-! ## Rounds of a token tree -/

namespace Grammar

variable {d : Nat} {closer k : TokenKind} {origin : Span} {s t : ParserState}
  {u : Token} {us : List Token}

/-- One round of a token tree with the given closing delimiter, which began at `origin`. -/
def treeRound (closer : TokenKind) (origin : Span) : Grammar Bool := do
  let k ← peek 0
  if k = closer then advance; return false
  else if k = .eof then reportFrom .unclosedDelimiter origin "opened here"; return false
  else if (closerOf? k).isSome then delimited; return true
  else if isCloser k then skipFaulty .mismatchedDelimiter; return true
  else advance; return true

theorem runs_nodeOf {body : Grammar Unit} (k : NodeKind) (h : Runs d body s.openNode () t) :
    Runs d (nodeOf k body) s () (t.record (.close k)) := by
  have hbody : Runs d (body.bind fun _ => .pure (some k, ())) s.openNode (some k, ()) t :=
    .bind h (.pure _ t)
  exact .node hbody

/-- Steps over the next token as an error. -/
def skippedFaulty (fault : Fault) (s : ParserState) : ParserState :=
  (s.report fault).openNode.advance.record (.close .errorNode)

theorem runs_skipFaulty (fault : Fault) (s : ParserState) :
    Runs d (skipFaulty fault) s () (skippedFaulty fault s) :=
  .bind (.report fault s) (runs_nodeOf _ (.advance _))

/-- The place of the next token, on which a delimiter that is not closed is blamed. -/
def originOf (s : ParserState) : Span := ((nextToken? s.rest).map (·.span)).getD (.empty 0)

/-- Behind its opening delimiter, a token tree is the rounds up to its closing one. -/
theorem runs_tokenTree (h : closerOf? (kindAt 0 s.rest) = some closer)
    (hloop : Runs d (loop (treeRound closer (originOf s))) s.openNode.advance () t) :
    Runs d tokenTree s () (t.record (.close .tokenTree)) := by
  refine .bind (runs_peek.2 ⟨rfl, rfl⟩) ?_
  rw [h]
  exact .bind (.bind (.ahead s) (.pure _ s)) (runs_nodeOf _ (.bind (.advance _) hloop))

theorem runs_treeRound_closer (h : kindAt 0 s.rest = closer) :
    Runs d (treeRound closer origin) s false s.advance := by
  simp [treeRound, h]

theorem runs_treeRound_eof (hcloser : closer ≠ .eof) (h : kindAt 0 s.rest = .eof) :
    Runs d (treeRound closer origin) s false (s.reportFrom .unclosedDelimiter origin "opened here") := by
  refine .bind (runs_peek.2 ⟨rfl, rfl⟩) ?_
  rw [h, if_neg hcloser.symm, if_pos rfl]
  exact .bind (.reportFrom _ _ _ s) (.pure _ _)

theorem runs_treeRound_pair (hne : kindAt 0 s.rest ≠ closer) {c : TokenKind}
    (hopen : closerOf? (kindAt 0 s.rest) = some c) (h : Runs d tokenTree s () t) :
    Runs (d + 1) (treeRound closer origin) s true t := by
  have hcall : Runs (d + 1) (.call .tokenTree) s true t := .call (.bind h (.pure true t))
  refine .bind (runs_peek.2 ⟨rfl, rfl⟩) ?_
  rw [if_neg hne, if_neg (fun heof => by rw [heof] at hopen; cases hopen), if_pos (by simp [hopen])]
  exact .bind (.bind hcall (.pure () t)) (.pure true t)

theorem runs_treeRound_mismatch (hne : kindAt 0 s.rest ≠ closer)
    (h : isCloser (kindAt 0 s.rest) = true) :
    Runs d (treeRound closer origin) s true (skippedFaulty .mismatchedDelimiter s) := by
  have hopen : closerOf? (kindAt 0 s.rest) = none := by
    cases hk : kindAt 0 s.rest <;> simp_all [isCloser, closerOf?]
  refine .bind (runs_peek.2 ⟨rfl, rfl⟩) ?_
  rw [if_neg hne, if_neg (fun heof => by rw [heof] at h; cases h), hopen, Option.isSome_none,
    if_neg Bool.false_ne_true, if_pos h]
  exact .bind (runs_skipFaulty _ s) (.pure true _)

theorem runs_treeRound_other (hne : kindAt 0 s.rest ≠ closer) (heof : kindAt 0 s.rest ≠ .eof)
    (hopen : closerOf? (kindAt 0 s.rest) = none) (hclose : isCloser (kindAt 0 s.rest) = false) :
    Runs d (treeRound closer origin) s true s.advance := by
  simp [treeRound, hne, heof, hopen, hclose]

theorem runs_loop_again {e : Nat} {body : Grammar Bool} {s' : ParserState}
    (h : Runs d body s true s') (hrest : Runs e (loop body) s' () t) :
    Runs (max d e) (loop body) s () t :=
  .again (.bind (h.mono (Nat.le_max_left d e)) (.pure _ _)) (hrest.mono (Nat.le_max_right d e))

theorem runs_loop_last {body : Grammar Bool} (h : Runs d body s false t) :
    Runs d (loop body) s () t :=
  .last (.bind h (.pure _ _))

/-! ## Balanced tokens are read to their end -/

theorem kinds_rest_openNode (s : ParserState) : kinds s.openNode.rest = kinds s.rest := by
  obtain h | h := rest_openNode s <;> rw [h]
  exact kinds_fromSignificant s.rest

theorem problems_openNode (s : ParserState) : s.openNode.problems = s.problems := by
  rw [openNode]
  split <;> rfl

theorem problems_advance (s : ParserState) : s.advance.problems = s.problems := by
  rw [ParserState.advance, step]
  split <;> rfl

theorem kinds_rest_advance {ks : List TokenKind} (h : kinds s.rest = k :: ks) :
    kindAt 0 s.rest = k ∧ kinds s.advance.rest = ks := by
  obtain ⟨t, us, hts, rfl, rfl⟩ := exists_of_kinds_eq_cons h
  rw [rest_advance, hts]
  exact ⟨kindAt_of_fromSignificant hts, rfl⟩

/-- The rounds of a token tree take balanced tokens and the closing delimiter behind them, and nothing is
reported. -/
theorem runs_treeLoop_of_balanced {ks more : List TokenKind} (hks : Balanced ks)
    (hcloser : isCloser closer = true) (origin : Span) (hs : kinds s.rest = ks ++ closer :: more) :
    ∃ d t, Runs d (loop (treeRound closer origin)) s () t ∧ kinds t.rest = more ∧
      t.problems = s.problems := by
  induction hks generalizing closer origin more s with
  | nil =>
    obtain ⟨hk, hmore⟩ := kinds_rest_advance hs
    exact ⟨0, s.advance, runs_loop_last (runs_treeRound_closer hk), hmore, problems_advance s⟩
  | @other k ks hopen hclose heof _ ih =>
    obtain ⟨rfl, hrest⟩ := kinds_rest_advance hs
    obtain ⟨d, t, hrun, hmore, hproblems⟩ := ih hcloser origin hrest
    have hround : Runs 0 (treeRound closer origin) s true s.advance :=
      runs_treeRound_other (ne_of_isCloser hclose hcloser) heof hopen hclose
    exact ⟨_, t, runs_loop_again hround hrun, hmore, hproblems.trans (problems_advance s)⟩
  | @pair o c inside ks hopen _ _ ihInside ih =>
    have hs' : kinds s.openNode.rest = o :: (inside ++ c :: (ks ++ closer :: more)) := by
      rw [kinds_rest_openNode, hs]
      simp
    obtain ⟨hnext, hrest⟩ := kinds_rest_advance hs'
    obtain rfl : kindAt 0 s.rest = o := hnext ▸ (kindAt_congr left_openNode 0).symm
    obtain ⟨d, t, hinside, hks, hproblems⟩ :=
      ihInside (isCloser_of_closerOf? hopen) (originOf s) hrest
    obtain ⟨e, t', hrun, hmore, hproblems'⟩ :=
      ih (s := t.record (.close .tokenTree)) hcloser origin hks
    have hround : Runs (d + 1) (treeRound closer origin) s true (t.record (.close .tokenTree)) :=
      runs_treeRound_pair (ne_of_isCloser (isCloser_eq_false_of_closerOf? hopen) hcloser) hopen
        (runs_tokenTree hopen hinside)
    refine ⟨_, t', runs_loop_again hround hrun, hmore, ?_⟩
    rw [hproblems', record, hproblems, problems_advance, problems_openNode]

end Grammar

end Reshape
