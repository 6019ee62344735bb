import Reshape.Parse
import Reshape.Proofs.Grammar.Runs
import Reshape.Proofs.Token.Scanning

/-!
# Parsing loses nothing

Whatever a text is, and whatever is wrong with it, the leaves of the tree that comes out are the
tokens of the text.

A grammar for whole texts steps over all that is left once it has read what it can. Together with
the run lemma of grammars, by which a parser records one step for each token that it takes, this
puts every token under the root.

* `Grammar.Exhausts` says that no tokens are left behind a grammar. `exhausts_skipToEnd` is the loop
  that makes it so: a round steps over a token, and there are no more rounds than tokens.
* `planted_parseWithin` finds the sketch that a run that leaves nothing has recorded.
* `parse_lossless` is the result for files and for single expressions.
-/

namespace Reshape

/-! ## Where the tokens end -/

theorem kindAt_zero (ts : List Token) :
    kindAt 0 ts = ((fromSignificant ts).head?.map (·.kind)).getD .eof := by
  induction ts with
  | nil => rfl
  | cons t ts ih =>
    by_cases ht : t.isTrivia = true
    · simpa [kindAt, tokenAt?, fromSignificant, ht] using ih
    · simp [kindAt, tokenAt?, fromSignificant, ht]

theorem fromSignificant_suffix (ts : List Token) : fromSignificant ts <:+ ts :=
  List.dropWhile_suffix _

theorem fromSignificant_idem (ts : List Token) :
    fromSignificant (fromSignificant ts) = fromSignificant ts := by
  induction ts with
  | nil => rfl
  | cons t ts ih =>
    by_cases ht : t.isTrivia = true
    · simpa [fromSignificant, ht] using ih
    · simp [fromSignificant, ht]

/-- Nothing but trivia and the end is ahead where the end of a text is next. -/
theorem tail_fromSignificant_of_eof {text : String} {ts : List Token}
    (hts : ts <:+ lexTokens text) (heof : kindAt 0 ts = .eof) :
    (fromSignificant ts).tail = [] := by
  obtain ⟨us, hus, hne⟩ := exists_lexTokens_eq_concat text
  have hsuffix := (fromSignificant_suffix ts).trans hts
  rw [hus, List.suffix_concat_iff] at hsuffix
  rw [kindAt_zero] at heof
  obtain hnil | ⟨vs, hvs, hsub⟩ := hsuffix
  · rw [hnil]
    rfl
  · rw [hvs] at heof ⊢
    cases vs with
    | nil => rfl
    | cons v vs => exact absurd heof (hne v (hsub.mem List.mem_cons_self))

namespace ParserState

theorem rest_advance (s : ParserState) : s.advance.rest = (fromSignificant s.rest).tail := by
  rw [advance, step]
  split
  · next h =>
    rw [skipTrivia] at h ⊢
    simp only at h
    simp [h]
  · next t ts h =>
    rw [skipTrivia] at h
    simp only at h
    simp [h]

theorem rest_openNode (s : ParserState) :
    s.openNode.rest = s.rest ∨ s.openNode.rest = fromSignificant s.rest := by
  rw [openNode]
  split
  · exact .inl rfl
  · exact .inr rfl

theorem rest_report (s : ParserState) (fault : Fault) : (s.report fault).rest = s.rest := by
  rw [report]
  split <;> rfl

theorem Follows.rest_suffix {tokens : List Token} {s : ParserState} {c : Contents}
    {fs : List OpenNode} (h : s.Follows tokens c fs) : s.rest <:+ tokens :=
  h.rest_eq ▸ List.drop_suffix _ _

end ParserState

/-! ## Grammars that leave nothing -/

namespace Grammar

open ParserState

variable {text : String} {call : Rule → ParserState → Bool × ParserState} {α β : Type}

/-- A parser that is somewhere in a text has no tokens ahead after a grammar. -/
def Exhausts (text : String) (call : Rule → ParserState → Bool × ParserState) (g : Grammar α) :
    Prop :=
  ∀ s c fs, s.Follows (lexTokens text) c fs → (g.run call s).2.rest = []

theorem Exhausts.bind (hcall : ∀ r s, Extends (lexTokens text) s (call r s).2) (g : Grammar α)
    {f : α → Grammar β} (hf : ∀ a, Exhausts text call (f a)) : Exhausts text call (g >>= f) := by
  intro s c fs h
  obtain ⟨d, hd⟩ := run_extends hcall g s c fs h
  exact hf _ _ d fs hd

/-- Stepping over a token as an error takes the trivia before it and that token. -/
theorem rest_skipFaulty (fault : Fault) (s : ParserState) :
    ((skipFaulty fault).run call s).2.rest = (fromSignificant s.rest).tail := by
  have hrest : ((skipFaulty fault).run call s).2.rest = (s.report fault).openNode.advance.rest := rfl
  rw [hrest, rest_advance]
  obtain h | h := rest_openNode (s.report fault)
  · rw [h, rest_report]
  · rw [h, rest_report, fromSignificant_idem]

theorem length_rest_skipFaulty (fault : Fault) (s : ParserState) (h : kindAt 0 s.rest ≠ .eof) :
    ((skipFaulty fault).run call s).2.rest.length < s.rest.length := by
  have hle := (fromSignificant_suffix s.rest).length_le
  rw [rest_skipFaulty]
  cases hrest : fromSignificant s.rest with
  | nil => simp [kindAt_zero, hrest] at h
  | cons t ts =>
    rw [hrest, List.length_cons] at hle
    exact hle

theorem run_skipToEnd_round (fault : Fault) (s : ParserState) :
    run call (do if ← isAt .eof then return false else skipFaulty fault; return true) s =
      if kindAt 0 s.rest = .eof then (false, s) else (true, ((skipFaulty fault).run call s).2) := by
  by_cases h : kindAt 0 s.rest = .eof
  · rw [if_pos h]
    simp [h]
  · rw [if_neg h]
    simp [h]

/-- A loop whose rounds take tokens as long as it goes on ends where a round says that it ends. -/
theorem loop_ends {body : Grammar Bool} {P : ParserState → Prop}
    (hstop : ∀ s, (body.run call s).1 = false → P (body.run call s).2)
    (hmore : ∀ s, (body.run call s).1 = true →
      (body.run call s).2.rest.length < s.rest.length) (s : ParserState) :
    P ((loop body).run call s).2 := by
  have hrun : ∀ n s, s.rest.length < n → P (repeatStep
      (fun (_ : Unit) s => (((), (body.run call s).1), (body.run call s).2)) n () s).2 := by
    intro n
    induction n with
    | zero => exact fun s hs => absurd hs (Nat.not_lt_zero _)
    | succ n ih =>
      intro s hs
      rw [repeatStep]
      cases hround : (body.run call s).1 with
      | true =>
        have hlt := hmore s hround
        exact ih _ (by omega)
      | false => exact hstop s hround
  exact hrun (s.rest.length + 1) s (Nat.lt_succ_self _)

theorem kindAt_skipToEnd (fault : Fault) (s : ParserState) :
    kindAt 0 ((sourceFile.skipToEnd fault).run call s).2.rest = .eof := by
  refine loop_ends (P := fun s => kindAt 0 s.rest = .eof) ?_ ?_ s
  · intro s hs
    rw [run_skipToEnd_round] at hs ⊢
    split
    · assumption
    · next h => simp [h] at hs
  · intro s hs
    rw [run_skipToEnd_round] at hs ⊢
    split
    · next h => simp [h] at hs
    · next h =>
      have hlt : ((skipFaulty fault).run call s).2.rest.length < s.rest.length :=
        length_rest_skipFaulty fault s h
      exact hlt

/-- A grammar that steps over all tokens as errors, and then over the end, leaves nothing. -/
theorem exhausts_skipToEnd (hcall : ∀ r s, Extends (lexTokens text) s (call r s).2)
    (fault : Fault) :
    Exhausts text call (do sourceFile.skipToEnd fault; advance) := by
  intro s c fs h
  obtain ⟨d, hd⟩ := run_extends hcall (sourceFile.skipToEnd fault) s c fs h
  rw [run_bind]
  have hrest := rest_advance ((sourceFile.skipToEnd fault).run call s).2
  exact hrest.trans (tail_fromSignificant_of_eof hd.rest_suffix (kindAt_skipToEnd fault s))

end Grammar

/-! ## The leaves of a parse -/

open Grammar ParserState

theorem follows_initial (text : String) :
    (ParserState.initial text).Follows (lexTokens text) .nothing [] :=
  ⟨.empty, rfl⟩

/-- A parse whose tree is that of a sketch with a step for each token of the text. -/
def Parse.Planted (p : Parse) (text : String) : Prop :=
  ∃ s : Sketch, p.tree = (s.plant ⟨lexTokens text, 0⟩).1 ∧ (lexTokens text).length ≤ s.tokenCount

/-- A run that reads a whole text as one node has all tokens of the text under it. -/
theorem planted_parseWithin {text : String} {depth : Nat} {g : Grammar Unit}
    (hg : Exhausts text (runRule depth) g) (k : NodeKind) :
    (parseWithin depth (nodeOf k g) text).Planted text := by
  have hopen : ((ParserState.initial text).openNode).Follows (lexTokens text) .nothing
      [⟨.nothing, none⟩] := (follows_initial text).record_openNode
  obtain ⟨e, he⟩ := run_extends (runRule_extends depth) g _ _ _ hopen
  have hclose := he.record_close k
  have hrest : (lexTokens text).drop e.tokenCount = [] := by
    rw [← hg _ _ _ hopen, he.rest_eq]
    rfl
  have hrun : parserAfter depth (nodeOf k g) text =
      ((g.run (runRule depth) (ParserState.initial text).openNode).2).record (.close k) := rfl
  refine ⟨.plain k e, ?_, List.drop_eq_nil_iff.1 hrest⟩
  rw [parseWithin, hrun]
  exact treeOfOps_eq hclose.holds (lexTokens text)

theorem planted_sourceFile (text : String) (depth : Nat) :
    (parseWithin depth sourceFile text).Planted text := by
  have hcall : ∀ r s, Extends (lexTokens text) s (runRule depth r s).2 := runRule_extends depth
  exact planted_parseWithin
    (.bind hcall _ fun _ => .bind hcall _ fun _ => exhausts_skipToEnd hcall _) _

theorem planted_loneExpr (text : String) (depth : Nat) :
    (parseWithin depth loneExpr text).Planted text := by
  have hcall : ∀ r s, Extends (lexTokens text) s (runRule depth r s).2 := runRule_extends depth
  exact planted_parseWithin (.bind hcall _ fun _ => exhausts_skipToEnd hcall _) _

/-- The leaves of a tree are the tokens of a text, and so it stands for that text. -/
def Parse.Lossless (p : Parse) (text : String) : Prop :=
  p.tree.leaves = lexTokens text ∧ p.tree.text = text

theorem Parse.Planted.lossless {p : Parse} {text : String} (h : p.Planted text) :
    p.Lossless text := by
  obtain ⟨s, htree, hcount⟩ := h
  have hleaves : p.tree.leaves = lexTokens text := by
    rw [htree, (Sketch.leaves_plant s _).1]
    exact List.take_of_length_le hcount
  refine ⟨hleaves, ?_⟩
  rw [Tree.text, hleaves, tokensText_lexTokens]

/-- **Parsing is lossless.** Read as a file or as a single expression, and with whatever bound on
the depth of names inside names, the leaves of the tree are the tokens of the text, of which the
empty one at its end is the last. -/
theorem parse_lossless (text : String) (depth : Nat) :
    (parseFile text).Lossless text ∧ (parseExpr text).Lossless text ∧
      (parseWithin depth sourceFile text).Lossless text ∧
      (parseWithin depth loneExpr text).Lossless text ∧
      ∃ ts, lexTokens text = ts ++ [⟨.eof, text.utf8ByteSize, ""⟩] ∧ ∀ t ∈ ts, t.kind ≠ .eof :=
  ⟨(planted_sourceFile text _).lossless, (planted_loneExpr text _).lossless,
    (planted_sourceFile text depth).lossless, (planted_loneExpr text depth).lossless,
    exists_lexTokens_eq_concat text⟩

end Reshape
