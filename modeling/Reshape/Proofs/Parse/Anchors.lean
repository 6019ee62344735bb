import Reshape.Proofs.Grammar.Anchors
import Reshape.Proofs.Parse.Heads
import Reshape.Proofs.Syntax.Tokens

/-!
# Items have tokens of their own

Whatever a text is, every function, struct, enum and impl block in its tree has a token with text among
its children. So no two of them stand in the same place.

* `Sketch.Anchored` says that such an item in a sketch has a token of its own.
* `ParserState.Fastened` is what a run keeps: all finished nodes are anchored, and a `Footing` is right
  about the innermost open one. There is one lemma for each event, and `Grammar.run_anchors` is the run
  lemma.
* `Node.exists_token_of_isGeneric` is the result for trees, `Node.eq_of_span_eq` the conclusion for places.
-/

namespace Reshape

/-- Whether tokens of the kind have text. Only the end of the text has none. -/
def TokenKind.hasText (k : TokenKind) : Bool := k != .eof

/-- An item that can have generic parameters has a token of its own. -/
def Sketch.Anchored (tokens : List Token) (i : Nat) (s : Sketch) : Prop :=
  Scope.isGeneric s.kind = true → s.Shows TokenKind.hasText tokens i

/-! ## States of a parser -/

namespace ParserState

open OpenNode

variable {tokens : List Token} {a : Footing} {held : Bool} {s t : ParserState} {c : Contents}
  {f : OpenNode} {fs : List OpenNode} {k : NodeKind}

/-- If the flag says so, a token with text stands right in the innermost open node. -/
def Holding (tokens : List Token) (held : Bool) (c : Contents) (fs : List OpenNode) : Prop :=
  held = true → c.Shows TokenKind.hasText tokens (tokensBefore fs)

/-- All nodes that a parser has finished are anchored, and a footing is right about what is ahead and about
the innermost open node. -/
structure Fastened (tokens : List Token) (a : Footing) (s : ParserState) (c : Contents)
    (fs : List OpenNode) : Prop where
  follows : s.Follows tokens c fs
  begun : s.ops ≠ []
  ahead : a.ahead = s.rest
  holding : Holding tokens a.held c fs
  kept : c.Each (Sketch.Anchored tokens) (tokensBefore fs)
  around : OpenNode.Each (Sketch.Anchored tokens) fs

theorem Holding.not_held : Holding tokens false c fs := nofun

theorem Holding.pad {n : Nat} (h : Holding tokens held c fs) : Holding tokens held (c.pad n) fs :=
  fun hheld => Contents.shows_pad.2 (.inl (h hheld))

namespace Fastened

theorem congr (h : Fastened tokens a s c fs) (hops : t.ops = s.ops) (hrest : t.rest = s.rest) :
    Fastened tokens a t c fs :=
  ⟨h.follows.congr hops hrest, by rw [hops]; exact h.begun, h.ahead.trans hrest.symm, h.holding, h.kept,
    h.around⟩

/-- Less may be claimed of the innermost open node. -/
theorem weaken (h : Fastened tokens a s c fs) (hheld : held = true → a.held = true) :
    Fastened tokens ⟨a.ahead, held⟩ s c fs :=
  ⟨h.follows, h.begun, h.ahead, fun hs => h.holding (hheld hs), h.kept, h.around⟩

theorem advance (h : Fastened tokens a s c fs) :
    ∃ n, Fastened tokens a.take s.advance (c.pad n) fs := by
  obtain ⟨n, hn, hrest, htake⟩ := h.follows.exists_advance
  refine ⟨n, hn, ops_advance_ne_nil h.begun, by rw [Footing.take, h.ahead, hrest], fun hheld => ?_,
    Contents.each_pad.2 h.kept, h.around⟩
  obtain hheld | hnext := Bool.or_eq_true_iff.1 hheld
  · exact h.holding.pad hheld
  · rw [Footing.next, h.ahead, kindAt_zero] at hnext
    refine Contents.shows_pad.2 (.inr ?_)
    rw [Nat.add_comm, htake, nextToken?]
    cases hhead : (fromSignificant s.rest).head? with
    | none => simp [hhead] at hnext
    | some u => exact ⟨u, by simp, by simpa [hhead, TokenKind.hasText] using hnext⟩

theorem openNode (h : Fastened tokens a s c fs) : ∃ n,
    Fastened tokens a.enter s.openNode .nothing (⟨c.pad n, none⟩ :: fs) := by
  obtain ⟨n, hn, hrest, -⟩ := h.follows.exists_openNode h.begun
  exact ⟨n, hn, by simp [ParserState.openNode], by rw [hrest, Footing.enter, h.ahead],
    .not_held, trivial, Contents.each_pad.2 h.kept, by simp, h.around⟩

/-- A node is finished. -/
theorem finish (h : Fastened tokens a s c (f :: fs))
    (ht : t.Follows tokens (f.finish k c) fs) (hbegun : t.ops ≠ []) (hrest : t.rest = s.rest)
    (houter : Holding tokens held f.before fs) (hk : Scope.isGeneric k = true → a.held = true) :
    Fastened tokens ⟨a.ahead, held⟩ t (f.finish k c) fs := by
  refine ⟨ht, hbegun, h.ahead.trans hrest.symm, fun hheld => ?_, h.around.finish h.kept fun hgeneric => ?_,
    h.around.2.2⟩
  · rw [finish_eq]
    exact houter hheld
  · rw [kind_sketch] at hgeneric
    exact shows_sketch.2 (h.holding (hk hgeneric))

theorem close (h : Fastened tokens a s c (f :: fs)) (houter : Holding tokens held f.before fs)
    (hk : Scope.isGeneric k = true → a.held = true) :
    Fastened tokens ⟨a.ahead, held⟩ (s.record (.close k)) (f.finish k c) fs :=
  h.finish (h.follows.record_close k) (by simp [record]) rfl houter hk

/-- A node that is abandoned leaves an error, or nothing if nothing was recorded in it. -/
theorem abandon {before : Contents} (h : Fastened tokens a s c (⟨before, none⟩ :: fs))
    (houter : Holding tokens held before fs) :
    ∃ d, Fastened tokens ⟨a.ahead, held⟩ (s.record .abandon) d fs := by
  have hfollows := h.follows.record_abandon
  by_cases hc : c.eventCount = 0
  · rw [if_pos hc] at hfollows
    exact ⟨before, hfollows, by simp [record], h.ahead, houter, h.around.1, h.around.2.2⟩
  · rw [if_neg hc] at hfollows
    exact ⟨_, h.finish (k := .errorNode) hfollows (by simp [record]) rfl houter
      (by simp [Scope.isGeneric])⟩

/-- A node is opened around the last one. -/
theorem wrap (h : Fastened tokens a s c fs) :
    Fastened tokens ⟨a.ahead, false⟩ (s.record .wrap) .nothing (wrapping c :: fs) ∧
      Holding tokens a.held (wrapping c).before fs := by
  refine ⟨⟨h.follows.record_wrap, by simp [record], h.ahead, .not_held, trivial,
    .wrapping h.kept h.around⟩, ?_⟩
  cases c <;> exact h.holding

end Fastened

end ParserState

/-! ## Runs -/

namespace Grammar

open ParserState

variable {tokens : List Token} {call : Rule → ParserState → Bool × ParserState}

/-- What the named forms keep. -/
def Fastens (tokens : List Token) (call : Rule → ParserState → Bool × ParserState) : Prop :=
  ∀ r s a c fs, Fastened tokens a s c fs → ∃ d ts, Fastened tokens ⟨ts, a.held⟩ (call r s).2 d fs

theorem repeatStep_anchors {σ : Type} {I : σ → Footing → Prop} {fs : List OpenNode}
    {step : σ → ParserState → (σ × Bool) × ParserState}
    (hstep : ∀ x s a c, I x a → Fastened tokens a s c fs →
      ∃ d b, Fastened tokens b (step x s).2 d fs ∧ I (step x s).1.1 b)
    (n : Nat) (x : σ) {s : ParserState} {a : Footing} {c : Contents} (hx : I x a)
    (h : Fastened tokens a s c fs) :
    ∃ d b, Fastened tokens b (repeatStep step n x s).2 d fs ∧ I (repeatStep step n x s).1 b :=
  repeatStep_keeps (I := fun x s => ∃ c a, Fastened tokens a s c fs ∧ I x a)
    (fun x s ⟨c, a, hs, hx⟩ => hstep x s a c hx hs)
    (fun _ _ ⟨c, a, hs, hx⟩ => ⟨c, a, hs.congr rfl rfl, hx⟩) n x ⟨c, a, h, hx⟩

/-- A run of a grammar from a footing that anchors items keeps the finished nodes anchored, and ends at a
footing that the grammar leads to. -/
theorem run_anchors (hcall : Fastens tokens call) {α : Type} (g : Grammar α) {P : α → Footing → Prop}
    {a : Footing} (hg : g.Anchors a P) {s : ParserState} {c : Contents} {fs : List OpenNode}
    (h : Fastened tokens a s c fs) :
    ∃ d b, Fastened tokens b (g.run call s).2 d fs ∧ P (g.run call s).1 b := by
  induction g generalizing a s c fs with
  | pure x => exact ⟨c, a, h, hg⟩
  | bind g f ihg ihf =>
    obtain ⟨d, b, hd, hf⟩ := ihg hg h
    exact ihf _ hf hd
  | ahead =>
    have hg : P a.ahead a := hg
    rw [h.ahead] at hg
    exact ⟨c, a, h, hg⟩
  | advance =>
    obtain ⟨n, hn⟩ := h.advance
    exact ⟨_, _, hn, hg⟩
  | report fault =>
    refine ⟨c, a, ?_, hg⟩
    simp only [run, ParserState.report]
    split
    · exact h
    · exact h.congr rfl rfl
  | reportFrom fault origin note => exact ⟨c, a, h.congr rfl rfl, hg⟩
  | node body ih =>
    obtain ⟨n, hn⟩ := h.openNode
    obtain ⟨e, b, he, hclose, hP⟩ := ih hg hn
    rw [run]
    split
    · next k x s' heq =>
      rw [heq] at he hclose hP
      exact ⟨_, _, he.close h.holding.pad (hclose k rfl), hP⟩
    · next x s' heq =>
      rw [heq] at he hP
      obtain ⟨d, hd⟩ := he.abandon h.holding.pad
      exact ⟨d, _, hd, hP⟩
  | wrap body ih =>
    obtain ⟨hwrap, houter⟩ := h.wrap
    obtain ⟨e, b, he, hk, hP⟩ := ih hg hwrap
    exact ⟨_, _, he.close houter fun hgeneric => absurd hgeneric (by simp [hk]), hP⟩
  | iterate init body ih =>
    obtain ⟨I, hI, hround, hend⟩ := hg
    obtain ⟨d, b, hd, hlast⟩ :=
      repeatStep_anchors (fun x s a c hx hs => ih x (hround x a hx) hs) _ init hI h
    exact ⟨d, b, hd, hend _ _ hlast⟩
  | call r =>
    obtain ⟨d, ts, hd⟩ := hcall r s a c fs h
    exact ⟨d, _, hd, hg _ ts⟩

theorem fastens_runRule (depth : Nat) : Fastens tokens (runRule depth) := by
  induction depth with
  | zero => exact fun r s a c fs h => ⟨c, a.ahead, h.congr rfl rfl⟩
  | succ depth ih =>
    intro r s a c fs h
    obtain ⟨d, b, hd, hb⟩ := run_anchors ih r.grammar (r.anchors_grammar a) h
    exact ⟨d, b.ahead, hd.weaken hb⟩

/-- A text that is read as one node has a tree of anchored nodes. -/
theorem anchored_parseWithin {g : Grammar Unit} (hg : g.Spares) (depth : Nat) (k : NodeKind)
    (text : String) :
    ∃ e : Contents, (parseWithin depth (nodeOf k g) text).tree =
        ((Sketch.plain k e).plant ⟨lexTokens text, 0⟩).1 ∧
      e.Each (Sketch.Anchored (lexTokens text)) 0 := by
  have hrun : parserAfter depth (nodeOf k g) text =
      ((g.run (runRule depth) (ParserState.initial text).openNode).2).record (.close k) := rfl
  have hopen : Fastened (lexTokens text) ⟨lexTokens text, false⟩
      (ParserState.initial text).openNode .nothing [⟨.nothing, none⟩] :=
    ⟨(follows_initial text).record_openNode, by simp [openNode], rfl, .not_held, trivial, trivial, by simp,
      trivial⟩
  obtain ⟨e, b, he, -⟩ := run_anchors (fastens_runRule depth) g hg.anchors hopen
  refine ⟨e, ?_, he.kept⟩
  rw [parseWithin, hrun]
  exact treeOfOps_eq (he.follows.record_close k).holds _

end Grammar

/-! ## Trees -/

namespace Node

open Reshape.Tree

variable {text : String} {n m : Node}

/-- Items that can have generic parameters have a token with text among their children. -/
theorem exists_token_of_isGeneric (hn : Below (ofTree (parseFile text).tree) n)
    (hkind : Scope.isGeneric n.kind = true) : ∃ t ∈ n.tokens, t.start < t.stop := by
  suffices htoken : ∃ t, .leaf t ∈ n.elements ∧ t.kind ≠ .eof by
    obtain ⟨t, ht, heof⟩ := htoken
    have htokens : t ∈ n.tokens := List.mem_filterMap.2 ⟨_, ht, rfl⟩
    exact ⟨t, htokens, start_lt_stop_of_text_ne_empty
      (text_ne_empty_of_mem_lexTokens (mem_lexTokens_of_below hn htokens) heof)⟩
  have hanchored : ∃ e : Contents, (parseFile text).tree =
      ((Sketch.plain .sourceFile e).plant ⟨lexTokens text, 0⟩).1 ∧
        e.Each (Sketch.Anchored (lexTokens text)) 0 :=
    Grammar.anchored_parseWithin (by simp) _ _ text
  generalize parseFile text = p at hn hanchored
  obtain ⟨e, htree, he⟩ := hanchored
  have hne : n ≠ ofTree p.tree := by
    rintro rfl
    rw [htree] at hkind
    simp [Sketch.plant, ofTree, Scope.isGeneric] at hkind
  obtain ⟨s, i, hs, hgrows⟩ := grows_of_below_plant htree he hn hne
  have hshows := hs.self (by rwa [← Option.some.inj hgrows.kind?_eq])
  obtain ⟨t, ht, htext⟩ := hgrows.shows_iff.1 hshows
  exact ⟨t, ht, by simpa [TokenKind.hasText] using htext⟩

theorem start_lt_stop_of_isGeneric (hn : Below (ofTree (parseFile text).tree) n)
    (hkind : Scope.isGeneric n.kind = true) : n.span.start < n.span.stop := by
  obtain ⟨t, ht, hpos⟩ := exists_token_of_isGeneric hn hkind
  have hin := Span.contains_iff.1 ((placedIn_of_below hn).contains_token ht)
  simp only [Token.span] at hin
  omega

/-- A node around such an item, in the same place, has the item below it. -/
theorem below_of_span_eq (hn : Below (ofTree (parseFile text).tree) n)
    (hm : Below (ofTree (parseFile text).tree) m) (hkind : Scope.isGeneric n.kind = true)
    (hspan : n.span = m.span) : Below m n := by
  obtain ⟨t, ht, hpos⟩ := exists_token_of_isGeneric hn hkind
  exact below_of_contains_token (placedIn_of_below .refl) hn hm ht hpos
    (hspan ▸ (placedIn_of_below hn).contains_token ht)

/-- No two items that can have generic parameters stand in the same place. -/
theorem eq_of_span_eq (hn : Below (ofTree (parseFile text).tree) n)
    (hm : Below (ofTree (parseFile text).tree) m) (hnkind : Scope.isGeneric n.kind = true)
    (hmkind : Scope.isGeneric m.kind = true) (hspan : n.span = m.span) : n = m :=
  (below_of_span_eq hm hn hmkind hspan.symm).antisymm (below_of_span_eq hn hm hnkind hspan)

end Node

end Reshape
