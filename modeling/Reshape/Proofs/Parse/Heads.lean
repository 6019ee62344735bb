import Reshape.Proofs.Grammar.Heads
import Reshape.Proofs.Parse.Fitting
import Reshape.Proofs.Syntax.Addresses

/-!
# Record literals inside of heads

In the head of an `if`, `while`, `match` or `for` every record literal stands behind a delimiter that
opens, in a node of the head.

* `Sketch.Bare` says that there is a record literal in a node with no such delimiter between, and
  `Sketch.Guarded` that a form with a head is free of them.
* `ParserState.Sheltered` is what a run keeps: all finished nodes are guarded, and a `Spot` is right
  about the innermost open one. There is one lemma for each event, and `Grammar.run_shelters` is the run
  lemma.
* `Node.enclosed_of_head` is the result. Arguments that do not begin with a parenthesis are the one
  exception, and `Node.not_enclosed_behind_generics` shows that it is needed.
-/

namespace Reshape

/-! ## Record literals in sketches -/

/-- A token that opens something stands right in contents that begin behind `i` tokens. -/
abbrev Contents.Opens (tokens : List Token) (i : Nat) (c : Contents) : Prop :=
  c.Shows TokenKind.isOpener tokens i

/-- Arguments that begin behind `i` tokens, but not with a parenthesis. -/
def Sketch.Stray (tokens : List Token) (i : Nat) (s : Sketch) : Prop :=
  s.kind = .argList ∧ kindAt 0 (tokens.drop i) ≠ .lParen

mutual

/-- A node that begins behind `i` tokens is a record literal or has one in it, and no delimiter is opened
between the two. -/
def Sketch.Bare (tokens : List Token) (i : Nat) : Sketch → Prop
  | .plain k c => k = .recordExpr ∨ c.Bare tokens i
  | .around k s c => k = .recordExpr ∨ (s.Bare tokens i ∧ ¬s.Stray tokens i) ∨
      c.Bare tokens (i + s.tokenCount)

/-- A record literal is among contents that begin behind `i` tokens, and no delimiter is opened before
it. -/
def Contents.Bare (tokens : List Token) (i : Nat) : Contents → Prop
  | .nothing => False
  | .token c => c.Bare tokens i
  | .node c s => c.Bare tokens i ∨ ¬c.Opens tokens i ∧ s.Bare tokens (i + c.tokenCount) ∧
      ¬s.Stray tokens (i + c.tokenCount)

end

/-- A token that opens something stands right in a node that begins behind `i` tokens. -/
abbrev Sketch.Opens (tokens : List Token) (i : Nat) (s : Sketch) : Prop :=
  s.Shows TokenKind.isOpener tokens i

/-- A form with a head opens no delimiter by itself, and has no bare record literal. -/
def Sketch.Guarded (tokens : List Token) (i : Nat) (s : Sketch) : Prop :=
  s.kind.hasHead = true → ¬s.Opens tokens i ∧ ¬s.Bare tokens i

section

variable {tokens : List Token} {c : Contents} {i n : Nat}

theorem Contents.bare_pad : (c.pad n).Bare tokens i ↔ c.Bare tokens i := by
  induction n with
  | zero => rfl
  | succ n ih => exact ih

end

theorem isOpener_of_isTrivia {t : Token} (h : t.isTrivia = true) : t.kind.isOpener = false := by
  rw [Token.isTrivia] at h
  cases hk : t.kind <;> simp [hk, TokenKind.isTrivia] at h <;> rfl

/-- Trivia open nothing. -/
theorem exists_isOpener_append {ts us : List Token} :
    (∃ t ∈ ts.takeWhile (·.isTrivia) ++ us, t.kind.isOpener = true) ↔
      ∃ t ∈ us, t.kind.isOpener = true := by
  refine exists_congr fun t => and_congr_left fun hopener => ?_
  rw [List.mem_append, or_iff_right]
  intro ht
  rw [isOpener_of_isTrivia (isTrivia_of_mem_takeWhile t ht)] at hopener
  cases hopener

namespace OpenNode

/-- A token that opens something stands in the innermost open node. -/
def Opens (tokens : List Token) (c : Contents) (fs : List OpenNode) : Prop :=
  c.Opens tokens (tokensBefore fs)

/-- A bare record literal stands in the innermost open node. -/
def Bare (tokens : List Token) (c : Contents) : List OpenNode → Prop
  | [] => c.Bare tokens 0
  | f :: fs => (f.sketch .errorNode c).Bare tokens (f.place fs)

variable {tokens : List Token} {c : Contents} {f : OpenNode} {fs : List OpenNode} {k : NodeKind}

theorem bare_sketch :
    (f.sketch k c).Bare tokens (f.place fs) ↔ k = .recordExpr ∨ Bare tokens c (f :: fs) := by
  obtain ⟨before, _ | s⟩ := f <;> simp [sketch, Sketch.Bare, Bare]

theorem bare_pad {n : Nat} : Bare tokens (c.pad n) fs ↔ Bare tokens c fs := by
  cases fs with
  | nil => exact Contents.bare_pad
  | cons f fs => obtain ⟨before, _ | s⟩ := f <;> simp [Bare, sketch, Sketch.Bare, Contents.bare_pad]

/-- A node that is added is bare if it has a bare record literal, and nothing was opened before it. -/
theorem bare_node {s : Sketch} : Bare tokens (c.node s) fs ↔ Bare tokens c fs ∨
    ¬Opens tokens c fs ∧ s.Bare tokens (tokensBefore fs + c.tokenCount) ∧
      ¬s.Stray tokens (tokensBefore fs + c.tokenCount) := by
  cases fs with
  | nil => simp [Bare, Opens, Contents.Bare, tokensBefore]
  | cons f fs =>
    obtain ⟨before, _ | s⟩ := f <;>
      simp [Bare, Opens, sketch, Sketch.Bare, Contents.Bare, place, tokensBefore, tokenCount, or_assoc,
        Nat.add_comm, Nat.add_left_comm, Nat.add_assoc]

/-- A node that is opened around another one has that in it. -/
theorem bare_around {s : Sketch} : Bare tokens .nothing (⟨c, some s⟩ :: fs) ↔
    s.Bare tokens (tokensBefore fs + c.tokenCount) ∧ ¬s.Stray tokens (tokensBefore fs + c.tokenCount) := by
  simp [Bare, sketch, Sketch.Bare, Contents.Bare, place]

end OpenNode

/-! ## States of a parser -/

namespace ParserState

open OpenNode

variable {tokens : List Token} {free inner allowed : Bool} {a : Spot} {s t : ParserState}
  {c d : Contents} {f : OpenNode} {fs : List OpenNode} {k : NodeKind}

/-- What a spot says of the innermost open node: record literals are allowed if they were at its start,
or a delimiter was opened in it since. If they were not, there is no bare one. -/
structure Shielded (tokens : List Token) (free allowed : Bool) (c : Contents) (fs : List OpenNode) :
    Prop where
  allowed : allowed = true ↔ free = true ∨ Opens tokens c fs
  hidden : free = false → ¬Bare tokens c fs

/-- All nodes that a parser has finished are guarded, and a spot is right about what is ahead and about
the innermost open node. -/
structure Sheltered (tokens : List Token) (free : Bool) (a : Spot) (s : ParserState) (c : Contents)
    (fs : List OpenNode) : Prop where
  follows : s.Follows tokens c fs
  begun : s.ops ≠ []
  ahead : a.ahead = s.rest
  shielded : Shielded tokens free a.allowed c fs
  kept : c.Each (Sketch.Guarded tokens) (tokensBefore fs)
  around : OpenNode.Each (Sketch.Guarded tokens) fs

theorem Shielded.pad {n : Nat} (h : Shielded tokens free allowed c fs)
    (hopens : Opens tokens (c.pad n) fs ↔ Opens tokens c fs) :
    Shielded tokens free allowed (c.pad n) fs :=
  ⟨h.allowed.trans (or_congr_right hopens.symm), fun hfree => bare_pad.not.2 (h.hidden hfree)⟩

namespace Sheltered

theorem congr (h : Sheltered tokens free a s c fs) (hops : t.ops = s.ops) (hrest : t.rest = s.rest) :
    Sheltered tokens free a t c fs :=
  ⟨h.follows.congr hops hrest, by rw [hops]; exact h.begun, h.ahead.trans hrest.symm, h.shielded, h.kept,
    h.around⟩

theorem advance (h : Sheltered tokens free a s c fs) :
    ∃ n, Sheltered tokens free a.take s.advance (c.pad n) fs := by
  obtain ⟨n, hn, hrest, htake⟩ := h.follows.exists_advance
  have hopens : Opens tokens (c.pad n) fs ↔ Opens tokens c fs ∨ a.next.isOpener = true := by
    rw [Opens, Contents.Opens, Contents.shows_pad, Nat.add_comm, htake, exists_isOpener_append, Spot.next, h.ahead,
      kindAt_zero]
    refine or_congr_right ?_
    rw [nextToken?]
    cases (fromSignificant s.rest).head? <;> simp [TokenKind.isOpener, Grammar.closerOf?]
  refine ⟨n, hn, ops_advance_ne_nil h.begun, by rw [Spot.take, h.ahead, hrest], ⟨?_, ?_⟩,
    Contents.each_pad.2 h.kept, h.around⟩
  · rw [Spot.allowed_take, Bool.or_eq_true, h.shielded.allowed, hopens, or_assoc]
  · exact fun hfree => bare_pad.not.2 (h.shielded.hidden hfree)

theorem openNode (h : Sheltered tokens free a s c fs) (inner : Bool) : ∃ n,
    Sheltered tokens inner (a.enter inner) s.openNode .nothing (⟨c.pad n, none⟩ :: fs) ∧
      Shielded tokens free a.allowed (c.pad n) fs ∧
      kindAt 0 (tokens.drop (place ⟨c.pad n, none⟩ fs)) = a.next := by
  obtain ⟨n, hn, hrest, htake, hplace, hdrop⟩ := h.follows.exists_openNode h.begun
  have hopens : Opens tokens (c.pad n) fs ↔ Opens tokens c fs := by
    rw [Opens, Contents.Opens, Contents.shows_pad, Nat.add_comm, htake,
      ← List.append_nil (s.rest.takeWhile (·.isTrivia)), exists_isOpener_append]
    simp [Opens]
  refine ⟨n, ⟨hn, by simp [ParserState.openNode], by rw [hrest, Spot.enter, h.ahead], ⟨?_, ?_⟩, trivial,
    Contents.each_pad.2 h.kept, by simp, h.around⟩, h.shielded.pad hopens, ?_⟩
  · simp [Opens, Contents.Shows]
  · simp [Bare, sketch, Sketch.Bare, Contents.Bare]
  · rw [hplace, hdrop, Spot.next, h.ahead]
    exact kindAt_congr (fromSignificant_idem _) 0

/-- A node is finished. -/
theorem finish (h : Sheltered tokens inner a s c (f :: fs))
    (ht : t.Follows tokens (f.finish k c) fs) (hbegun : t.ops ≠ []) (hrest : t.rest = s.rest)
    (houter : Shielded tokens free allowed f.before fs)
    (hhead : k.hasHead = true → a.allowed = false) (hrecord : k = .recordExpr → allowed = true)
    (hinner : inner = true → allowed = true ∨ (f.sketch k c).Stray tokens (f.place fs)) :
    Sheltered tokens free ⟨a.ahead, allowed⟩ t (f.finish k c) fs := by
  have hguarded : (f.sketch k c).Guarded tokens (f.place fs) := by
    intro hkind
    rw [kind_sketch] at hkind
    have hnot := h.shielded.allowed.not.1 (by simp [hhead hkind])
    rw [not_or, Bool.not_eq_true] at hnot
    refine ⟨shows_sketch.not.2 hnot.2, bare_sketch.not.2 ?_⟩
    rintro (rfl | hbare)
    · cases hkind
    · exact h.shielded.hidden hnot.1 hbare
  refine ⟨ht, hbegun, h.ahead.trans hrest.symm, ⟨?_, fun hfree => ?_⟩, h.around.finish h.kept hguarded,
    h.around.2.2⟩
  · rw [finish_eq]
    exact houter.allowed
  · rw [finish_eq, bare_node]
    rintro (hbare | ⟨hopens, hbare, hstray⟩)
    · exact houter.hidden hfree hbare
    · have hallowed : allowed ≠ true := fun hallowed => by
        simpa [hfree, hopens] using houter.allowed.1 hallowed
      obtain hk | hbare := bare_sketch.1 hbare
      · exact hallowed (hrecord hk)
      · cases inner with
        | false => exact h.shielded.hidden rfl hbare
        | true => exact (hinner rfl).elim hallowed hstray

theorem close (h : Sheltered tokens inner a s c (f :: fs))
    (houter : Shielded tokens free allowed f.before fs)
    (hhead : k.hasHead = true → a.allowed = false) (hrecord : k = .recordExpr → allowed = true)
    (hinner : inner = true → allowed = true ∨ (f.sketch k c).Stray tokens (f.place fs)) :
    Sheltered tokens free ⟨a.ahead, allowed⟩ (s.record (.close k)) (f.finish k c) fs :=
  h.finish (h.follows.record_close k) (by simp [record]) rfl houter hhead hrecord hinner

/-- A node that is abandoned leaves an error, or nothing if nothing was recorded in it. -/
theorem abandon {before : Contents} (h : Sheltered tokens inner a s c (⟨before, none⟩ :: fs))
    (houter : Shielded tokens free allowed before fs) (hinner : inner = true → allowed = true) :
    ∃ d, Sheltered tokens free ⟨a.ahead, allowed⟩ (s.record .abandon) d fs := by
  have hfollows := h.follows.record_abandon
  by_cases hc : c.eventCount = 0
  · rw [if_pos hc] at hfollows
    exact ⟨before, hfollows, by simp [record], h.ahead, houter, h.around.1, h.around.2.2⟩
  · rw [if_neg hc] at hfollows
    exact ⟨_, h.finish (k := .errorNode) hfollows (by simp [record]) rfl houter
      (by simp [NodeKind.hasHead]) (by simp) fun hin => .inl (hinner hin)⟩

/-- A node is opened around the last one. -/
theorem wrap (h : Sheltered tokens free a s c fs) :
    Sheltered tokens a.allowed a (s.record .wrap) .nothing (wrapping c :: fs) ∧
      Shielded tokens free a.allowed (wrapping c).before fs := by
  have hbare (hallowed : a.allowed = false) : ¬Bare tokens c fs ∧ ¬Opens tokens c fs := by
    have hnot := h.shielded.allowed.not.1 (by simp [hallowed])
    rw [not_or, Bool.not_eq_true] at hnot
    exact ⟨h.shielded.hidden hnot.1, hnot.2⟩
  refine ⟨⟨h.follows.record_wrap, by simp [record], h.ahead, ⟨by simp [Opens, Contents.Shows], ?_⟩,
    trivial, .wrapping h.kept h.around⟩, ?_⟩
  · intro hallowed
    cases c with
    | nothing | token c => simp [wrapping, Bare, sketch, Sketch.Bare, Contents.Bare]
    | node d last =>
      obtain ⟨hbare, hopens⟩ := hbare hallowed
      rw [bare_node, not_or] at hbare
      exact fun hfirst => hbare.2 ⟨hopens, bare_around.1 hfirst⟩
  · cases c with
    | nothing | token c => exact h.shielded
    | node d last =>
      exact ⟨h.shielded.allowed, fun hfree hd => h.shielded.hidden hfree (bare_node.2 (.inl hd))⟩

end Sheltered

end ParserState

/-! ## Runs -/

namespace Grammar

open ParserState

variable {tokens : List Token} {call : Rule → ParserState → Bool × ParserState}

/-- What the named forms keep where they may be read. -/
def Guards (tokens : List Token) (call : Rule → ParserState → Bool × ParserState) : Prop :=
  ∀ r s free a c fs, r.Fits a → Sheltered tokens free a s c fs →
    ∃ d ts, Sheltered tokens free ⟨ts, a.allowed⟩ (call r s).2 d fs

theorem repeatStep_shelters {σ : Type} {I : σ → Spot → Prop} {free : Bool} {fs : List OpenNode}
    {step : σ → ParserState → (σ × Bool) × ParserState}
    (hstep : ∀ x s a c, I x a → Sheltered tokens free a s c fs →
      ∃ d b, Sheltered tokens free b (step x s).2 d fs ∧ I (step x s).1.1 b)
    (n : Nat) (x : σ) {s : ParserState} {a : Spot} {c : Contents} (hx : I x a)
    (h : Sheltered tokens free a s c fs) :
    ∃ d b, Sheltered tokens free b (repeatStep step n x s).2 d fs ∧ I (repeatStep step n x s).1 b :=
  repeatStep_keeps (I := fun x s => ∃ c a, Sheltered tokens free a s c fs ∧ I x a)
    (fun x s ⟨c, a, hs, hx⟩ => hstep x s a c hx hs)
    (fun _ _ ⟨c, a, hs, hx⟩ => ⟨c, a, hs.congr rfl rfl, hx⟩) n x ⟨c, a, h, hx⟩

/-- A run of a grammar from a spot that shelters record literals keeps the finished nodes guarded, and
ends at a spot that the grammar leads to. -/
theorem run_shelters (hcall : Guards tokens call) {α : Type} (g : Grammar α) {P : α → Spot → Prop}
    {a : Spot} (hg : g.Shelters a P) {free : Bool} {s : ParserState} {c : Contents}
    {fs : List OpenNode} (h : Sheltered tokens free a s c fs) :
    ∃ d b, Sheltered tokens free b (g.run call s).2 d fs ∧ P (g.run call s).1 b := by
  induction g generalizing a free s c fs with
  | pure x => exact ⟨c, a, h, hg⟩
  | bind g f ihg ihf =>
    obtain ⟨d, b, hd, hf⟩ := ihg hg h
    exact ihf _ hf hd
  | ahead =>
    refine ⟨c, a, h, ?_⟩
    rw [run, ← h.ahead]
    exact hg
  | advance =>
    obtain ⟨n, hn⟩ := h.advance
    exact ⟨c.pad n, a.take, hn, hg⟩
  | report fault =>
    refine ⟨c, a, ?_, hg⟩
    simp only [run, ParserState.report]
    split
    · exact h
    · exact h.congr rfl rfl
  | reportFrom fault origin note => exact ⟨c, a, h.congr rfl rfl, hg⟩
  | node body ih =>
    obtain ⟨inner, hbody⟩ := hg
    obtain ⟨n, hn, houter, hnext⟩ := h.openNode inner
    obtain ⟨e, b, he, hclose, hinner, hP⟩ := ih hbody hn
    rw [run]
    split
    · next k x s' heq =>
      rw [heq] at he hclose hinner hP
      obtain ⟨hhead, hrecord⟩ := hclose k rfl
      refine ⟨_, _, he.close houter hhead hrecord fun hin => ?_, hP⟩
      refine (hinner hin).imp id fun hstray => ?_
      rw [Sketch.Stray, OpenNode.kind_sketch, hnext]
      exact ⟨Option.some.inj hstray.1, hstray.2⟩
    · next x s' heq =>
      rw [heq] at he hinner hP
      obtain ⟨d, hd⟩ := he.abandon houter fun hin => (hinner hin).resolve_right (by simp)
      exact ⟨d, _, hd, hP⟩
  | wrap body ih =>
    obtain ⟨hwrap, houter⟩ := h.wrap
    obtain ⟨e, b, he, hhead, hrecord, hP⟩ := ih hg hwrap
    exact ⟨_, _, he.close houter (fun hk => absurd hk (by simp [hhead])) hrecord .inl, hP⟩
  | iterate init body ih =>
    obtain ⟨I, hI, hround, hend⟩ := hg
    obtain ⟨d, b, hd, hlast⟩ :=
      repeatStep_shelters (fun x s a c hx hs => ih x (hround x a hx) hs) _ init hI h
    exact ⟨d, b, hd, hend _ _ hlast⟩
  | call r =>
    obtain ⟨d, ts, hd⟩ := hcall r s free a c fs hg.1 h
    exact ⟨d, _, hd, hg.2 _ ts⟩

theorem guards_runRule (depth : Nat) : Guards tokens (runRule depth) := by
  induction depth with
  | zero => exact fun r s free a c fs _ h => ⟨c, a.ahead, h.congr rfl rfl⟩
  | succ depth ih =>
    intro r s free a c fs hfits h
    obtain ⟨d, b, hd, hb⟩ := run_shelters ih r.grammar (Rule.keeps_grammar hfits) h
    exact ⟨d, b.ahead, hb ▸ hd⟩

/-- A text that is read as one node has a tree of guarded nodes. -/
theorem guarded_parseWithin {g : Grammar Unit} (hg : g.Tame false) (depth : Nat) (k : NodeKind)
    (text : String) :
    ∃ e : Contents, (parseWithin depth (nodeOf k g) text).tree =
        ((Sketch.plain k e).plant ⟨lexTokens text, 0⟩).1 ∧
      e.Each (Sketch.Guarded (lexTokens text)) 0 := by
  have hrun : parserAfter depth (nodeOf k g) text =
      ((g.run (runRule depth) (ParserState.initial text).openNode).2).record (.close k) := rfl
  have hopen : Sheltered (lexTokens text) true ⟨lexTokens text, true⟩
      (ParserState.initial text).openNode .nothing [⟨.nothing, none⟩] :=
    ⟨(follows_initial text).record_openNode, by simp [openNode], rfl, ⟨by simp, by simp⟩, trivial,
      trivial, by simp, trivial⟩
  obtain ⟨e, b, he, -⟩ := run_shelters (guards_runRule depth) g (hg.safe fun _ => rfl) hopen
  refine ⟨e, ?_, he.kept⟩
  rw [parseWithin, hrun]
  exact treeOfOps_eq (he.follows.record_close k).holds _

end Grammar

/-! ## Trees -/

section

variable {tokens : List Token} {i offset : Nat}

/-- No token among trees opens something. -/
def OpensNothing (ts : List Tree) : Prop := ∀ t, .leaf t ∈ ts → t.kind.isOpener = false

/-- A node among contents grew from a sketch. If that is bare, and nothing is opened before it, so are the
contents. -/
theorem Contents.exists_sketch {t : Tree} {k : NodeKind} (ht : t.kind? = some k) :
    (c : Contents) → {i offset : Nat} → {before behind : List Tree} →
      Contiguous offset (tokens.drop i) →
      (c.plant ⟨tokens.drop i, offset⟩).1 = before ++ t :: behind →
      ∃ (s : Sketch) (j : Nat), s.Grows tokens j t ∧
        (s.Bare tokens j → ¬s.Stray tokens j → OpensNothing before → c.Bare tokens i)
  | .nothing, _, _, _, _, _, h => by simp [plant] at h
  | .token c, _, _, before, behind, hoff, h => by
    simp only [plant] at h
    split at h
    · exact c.exists_sketch ht hoff h
    · obtain rfl | ⟨us, u, rfl⟩ := behind.eq_nil_or_concat
      · obtain ⟨-, hlast⟩ := List.append_inj' h rfl
        cases hlast
        cases ht
      · rw [List.concat_eq_append, ← List.cons_append, ← List.append_assoc] at h
        exact c.exists_sketch ht hoff (List.append_inj' h rfl).1
  | .node c s, i, offset, before, behind, hoff, h => by
    obtain rfl | ⟨us, u, rfl⟩ := behind.eq_nil_or_concat
    · obtain ⟨rfl, hlast⟩ := List.append_inj' h rfl
      obtain ⟨stop, hsupply, hcont⟩ := c.plant_snd hoff
      rw [hsupply] at hlast
      refine ⟨s, _, ⟨stop, hcont, (List.cons.inj hlast).1.symm⟩,
        fun hs hstray hnone => .inr ⟨?_, hs, hstray⟩⟩
      rw [Contents.Opens, c.shows_iff offset]
      rintro ⟨u, hu, hopener⟩
      simp [hnone u hu] at hopener
    · rw [List.concat_eq_append, ← List.cons_append, ← List.append_assoc] at h
      obtain ⟨s, j, hs, hbare⟩ := c.exists_sketch ht hoff (List.append_inj' h rfl).1
      exact ⟨s, j, hs, fun h₁ h₂ h₃ => .inl (hbare h₁ h₂ h₃)⟩

/-- A node right below one that grew from a sketch. -/
theorem Sketch.Grows.exists_sketch {s : Sketch} {t u : Tree} {k : NodeKind} {before behind : List Tree}
    (h : s.Grows tokens i t) (hu : u.kind? = some k) (ht : t.children = before ++ u :: behind) :
    ∃ (s' : Sketch) (j : Nat), s'.Grows tokens j u ∧
      (s'.Bare tokens j → ¬s'.Stray tokens j → OpensNothing before → s.Bare tokens i) := by
  obtain ⟨offset, hoff, rfl⟩ := h
  cases s with
  | plain k c =>
    obtain ⟨s', j, hs', hbare⟩ := c.exists_sketch hu hoff ht
    exact ⟨s', j, hs', fun h₁ h₂ h₃ => .inr (hbare h₁ h₂ h₃)⟩
  | around k s c =>
    obtain ⟨stop, hsupply, hcont⟩ := s.plant_snd hoff
    simp only [plant, Tree.children, hsupply] at ht
    cases before with
    | nil =>
      obtain ⟨rfl, -⟩ := List.cons.inj ht
      exact ⟨s, i, ⟨offset, hoff, rfl⟩, fun h₁ h₂ _ => .inr (.inl ⟨h₁, h₂⟩)⟩
    | cons v before =>
      obtain ⟨s', j, hs', hbare⟩ := c.exists_sketch hu hcont (List.cons.inj ht).2
      exact ⟨s', j, hs', fun h₁ h₂ h₃ =>
        .inr (.inr (hbare h₁ h₂ fun t ht => h₃ t (List.mem_cons_of_mem _ ht)))⟩

theorem Sketch.Grows.opensNothing {s : Sketch} {t : Tree} (h : s.Grows tokens i t)
    (hs : ¬s.Opens tokens i) : OpensNothing t.children := by
  intro u hu
  by_contra hopener
  rw [Bool.not_eq_false] at hopener
  exact hs (h.shows_iff.2 ⟨u, hu, hopener⟩)

end

theorem Sketch.bare_of_kind {tokens : List Token} {i : Nat} {s : Sketch} (h : s.kind = .recordExpr) :
    s.Bare tokens i := by
  cases s <;> exact .inl h

namespace Node

open Reshape.Tree

/-! ## Heads -/

/-- The head of a form: the expression before the body. -/
def head? (n : Node) : Option Node :=
  match n.kind with
  | .ifExpr | .whileExpr => n.condition?
  | .matchExpr => n.scrutinee?
  | .forExpr => n.iterable?
  | _ => none

/-- A token right in a node opens something before another node. -/
def OpensBefore (n r : Node) : Prop :=
  ∃ t ∈ n.tokens, t.kind.isOpener = true ∧ t.stop ≤ r.span.start

instance (n r : Node) : Decidable (n.OpensBefore r) :=
  inferInstanceAs (Decidable (∃ t ∈ n.tokens, t.kind.isOpener = true ∧ t.stop ≤ r.span.start))

/-- Arguments that do not begin with a parenthesis. -/
def IsStrayArgs (n : Node) : Prop :=
  n.kind = .argList ∧ ∀ t ∈ n.firstSignificant?, t.kind ≠ .lParen

variable {tokens : List Token} {text : String} {s : Sketch} {n m head r : Node} {i : Nat}

theorem isStrayArgs_of_grows (h : s.Grows tokens i n.tree) (hs : s.Stray tokens i) : n.IsStrayArgs := by
  refine ⟨(Option.some.inj h.kind?_eq).trans hs.1, fun t ht => ?_⟩
  rw [firstSignificant?, h.leaves_eq] at ht
  have hfirst : (tokens.drop i).find? (fun t => !t.isTrivia) = some t := by
    rw [← List.take_append_drop s.tokenCount (tokens.drop i), List.find?_append, Option.mem_def.1 ht]
    rfl
  have hkind : kindAt 0 (tokens.drop i) = t.kind := by
    rw [kindAt_zero, fromSignificant, ← List.find?_not_eq_head?_dropWhile, hfirst]
    rfl
  exact hkind ▸ hs.2

theorem OpensBefore.child (h : n.OpensBefore r) (hr : r.PlacedIn text) (hm : m ∈ r.children) :
    n.OpensBefore m := by
  obtain ⟨t, ht, hopener, hle⟩ := h
  exact ⟨t, ht, hopener, hle.trans (Span.contains_iff.1 (hr.child hm).2).1⟩

/-- What opens something before a child in a node opens it before that child. -/
theorem opensBefore_of_mem {before behind : List Tree} (hn : n.PlacedIn text)
    (hm : n.elements = before ++ m.tree :: behind) {t : Token} (ht : .leaf t ∈ before)
    (hopener : t.kind.isOpener = true) : n.OpensBefore m := by
  have hforest := hn.covers.2
  rw [hm] at hforest
  obtain ⟨i, hbefore, j, hmid, -⟩ := forestCovers_append.1 hforest
  obtain ⟨us, vs, rfl⟩ := List.append_of_mem ht
  obtain ⟨-, -, stop, ⟨-, hstop⟩, hrest⟩ := forestCovers_append.1 hbefore
  refine ⟨t, List.mem_filterMap.2 ⟨.leaf t, by simp [hm], rfl⟩, hopener, ?_⟩
  have hspan : m.span = ⟨i, j⟩ := hmid.span_eq
  rw [hspan, hstop]
  exact hrest.le

/-- Down from a node, a record literal is bare for that node, or enclosed on the way. -/
theorem exists_sketch_of_below {Z : Prop} (hn : n.PlacedIn text)
    (hs : ∃ (s : Sketch) (i : Nat), s.Grows tokens i n.tree ∧ (s.Bare tokens i → Z))
    (h : Below n r) : ∃ (s : Sketch) (i : Nat), s.Grows tokens i r.tree ∧ (s.Bare tokens i →
      Z ∨ ∃ m, Below n m ∧ Below m r ∧ (m.OpensBefore r ∨ m.IsStrayArgs)) := by
  induction h with
  | refl =>
    obtain ⟨s, i, hs, hbare⟩ := hs
    exact ⟨s, i, hs, fun h => .inl (hbare h)⟩
  | @child q r hq hr ih =>
    obtain ⟨s, i, hs, hbare⟩ := ih
    obtain ⟨-, before, behind, helements⟩ := exists_of_mem_children hr
    obtain ⟨s', j, hs', hchild⟩ := hs.exists_sketch (k := r.kind) rfl helements
    refine ⟨s', j, hs', fun hbare' => ?_⟩
    by_cases hstray : s'.Stray tokens j
    · exact .inr ⟨r, hq.child hr, .refl, .inr (isStrayArgs_of_grows hs' hstray)⟩
    by_cases hopens : OpensNothing before
    · refine (hbare (hchild hbare' hstray hopens)).imp id ?_
      rintro ⟨m, hm, hm', henclosed⟩
      exact ⟨m, hm, hm'.child hr, henclosed.imp (·.child (hn.below hq).1 hr) id⟩
    · simp only [OpensNothing, not_forall, Bool.not_eq_false] at hopens
      obtain ⟨t, ht, hopener⟩ := hopens
      exact .inr ⟨q, hq, .child .refl hr, .inl (opensBefore_of_mem (hn.below hq).1 helements ht hopener)⟩

theorem hasHead_of_head? (h : n.head? = some m) : n.kind.hasHead = true ∧ m ∈ n.children := by
  rw [head?] at h
  split at h
  all_goals first
    | exact ⟨by simp [*, NodeKind.hasHead], List.mem_of_find?_eq_some h⟩
    | cases h

/-- **Record literals in heads are enclosed.** Whatever a text is, a record literal in the head of an `if`,
`while`, `match` or `for` stands behind a delimiter that is opened in a node around it, in the head. Else
it stands in arguments that do not begin with a parenthesis. -/
theorem enclosed_of_head {text : String} {p : Parse} (hp : p = parseFile text ∨ p = parseExpr text)
    (hn : Below (ofTree p.tree) n) (hhead : n.head? = some head)
    (hr : Below head r) (hrecord : r.kind = .recordExpr) :
    ∃ m, Below head m ∧ Below m r ∧ (m.OpensBefore r ∨ m.IsStrayArgs) := by
  obtain ⟨hkind, hmem⟩ := hasHead_of_head? hhead
  have hguarded : ∃ e : Contents, p.tree = ((Sketch.plain .sourceFile e).plant ⟨lexTokens text, 0⟩).1 ∧
      e.Each (Sketch.Guarded (lexTokens text)) 0 := by
    obtain rfl | rfl := hp
    · exact Grammar.guarded_parseWithin (by simp) _ _ text
    · exact Grammar.guarded_parseWithin (by simp [Grammar.expr, Rule.mayBeRecord]) _ _ text
  have hplanted : p.Planted text := by
    obtain rfl | rfl := hp
    · exact planted_sourceFile text _
    · exact planted_loneExpr text _
  have hplaced := ((placedIn_ofTree hplanted.covers hplanted.lossless.2).below hn).1
  obtain ⟨e, htree, he⟩ := hguarded
  have hne : n ≠ ofTree p.tree := by
    rintro rfl
    simp [htree, Sketch.plant, ofTree, NodeKind.hasHead] at hkind
  obtain ⟨s, i, hs, hgrows⟩ := grows_of_below_plant htree he hn hne
  obtain ⟨hopens, hbare⟩ := hs.self (by rwa [← Option.some.inj hgrows.kind?_eq])
  obtain ⟨-, before, behind, helements⟩ := exists_of_mem_children hmem
  obtain ⟨s', j, hs', hchild⟩ := hgrows.exists_sketch (k := head.kind) rfl helements
  by_cases hstray : s'.Stray (lexTokens text) j
  · exact ⟨head, .refl, hr, .inr (isStrayArgs_of_grows hs' hstray)⟩
  have hnone : OpensNothing before := fun t ht => hgrows.opensNothing hopens t (by
    show Tree.leaf t ∈ n.elements
    rw [helements]
    exact List.mem_append_left _ ht)
  obtain ⟨s'', j', hs'', henclosed⟩ := exists_sketch_of_below (Z := False) (hplaced.child hmem).1
    ⟨s', j, hs', fun hbare' => hbare (hchild hbare' hstray hnone)⟩ hr
  exact (henclosed (Sketch.bare_of_kind ((Option.some.inj hs''.kind?_eq).symm.trans hrecord))).resolve_left
    id

theorem enclosed_of_head_field : ∃ n head r m : Node,
    Below (ofTree (parseFile "fn f() \x7b if (S \x7b a: 1 \x7d).a \x7b\x7d \x7d").tree) n ∧
      n.head? = some head ∧ Below head r ∧ r.kind = .recordExpr ∧ Below head m ∧ Below m r ∧
        (m.OpensBefore r ∨ m.IsStrayArgs) := by
  obtain ⟨n, hn⟩ := Option.isSome_iff_exists.1
    (by decide +kernel :
      ((ofTree (parseFile "fn f() \x7b if (S \x7b a: 1 \x7d).a \x7b\x7d \x7d").tree).descendants.find?
        fun n => n.head?.any fun head => head.descendants.any (·.kind == .recordExpr)).isSome = true)
  have hfound := List.find?_some hn
  rw [Option.any_eq_true] at hfound
  obtain ⟨head, hhead, hany⟩ := hfound
  obtain ⟨r, hr, hkind⟩ := List.any_eq_true.1 hany
  have hbelow := below_of_mem_descendants (List.mem_of_find?_eq_some hn)
  have hr' := below_of_mem_descendants hr
  have hrecord : r.kind = .recordExpr := by simpa using hkind
  obtain ⟨m, hm, hm', henclosed⟩ := enclosed_of_head (.inl rfl) hbelow hhead hr' hrecord
  exact ⟨n, head, r, m, hbelow, hhead, hr', hrecord, hm, hm', henclosed⟩

set_option maxRecDepth 100000 in
/-- No problem is found where a method call with generic arguments has a semicolon in the place of its
parenthesis, and the record literal behind that is not enclosed in the condition. -/
theorem not_enclosed_behind_generics :
    (parseFile "fn f()\x7bif x.m::<u8>;S\x7ba:1\x7d)\x7b\x7d\x7d").ok = true ∧ ∃ n head r : Node,
      Below (ofTree (parseFile "fn f()\x7bif x.m::<u8>;S\x7ba:1\x7d)\x7b\x7d\x7d").tree) n ∧
        n.head? = some head ∧ Below head r ∧ r.kind = .recordExpr ∧
          ¬∃ m, Below head m ∧ Below m r ∧ m.OpensBefore r := by
  refine ⟨by decide +kernel, ?_⟩
  have hfound :
      ∃ n ∈ (ofTree (parseFile "fn f()\x7bif x.m::<u8>;S\x7ba:1\x7d)\x7b\x7d\x7d").tree).descendants,
        ∃ head ∈ n.head?, ∃ r ∈ head.descendants, r.kind = .recordExpr ∧
          ∀ m ∈ head.descendants, ¬m.OpensBefore r := by
    decide +kernel
  obtain ⟨n, hn, head, hhead, r, hr, hrecord, hnone⟩ := hfound
  refine ⟨n, head, r, below_of_mem_descendants hn, hhead, below_of_mem_descendants hr, hrecord, ?_⟩
  rintro ⟨m, hm, -, hopens⟩
  exact hnone m (mem_descendants_of_below hm) hopens

end Node

end Reshape
