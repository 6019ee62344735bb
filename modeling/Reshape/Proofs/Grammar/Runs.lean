import Reshape.Grammar.Rules
import Reshape.Proofs.Tree.Planting

/-!
# What every run of a grammar keeps

A grammar closes every node that it opens, takes the tokens in order and records one step for each.
This is a fact about the terms of which grammars are made, not about any grammar in particular.

* `ParserState.Follows` says that what a parser has recorded describes contents and open nodes, and
  that it has taken as many tokens as it recorded steps over tokens.
* `ParserState.Extends` relates two states of a parser if the second is reached by adding contents
  to the innermost open node.
* `Grammar.run_extends` is the run lemma, by induction on the grammar, and `Grammar.runRule_extends`
  the same for the named forms, by induction on the depth of names inside names.
-/

namespace Reshape

/-! ## Counting tokens -/

namespace OpenNode

/-- The number of steps over tokens before an open node, in the node around it. -/
def tokenCount (f : OpenNode) : Nat :=
  f.before.tokenCount + match f.first with
    | none => 0
    | some s => s.tokenCount

/-- The number of steps over tokens before the first of the given open nodes. -/
def tokensBefore : List OpenNode → Nat
  | [] => 0
  | f :: fs => f.tokenCount + tokensBefore fs

@[simp] theorem tokenCount_wrapping (c : Contents) : (wrapping c).tokenCount = c.tokenCount := by
  cases c <;> rfl

@[simp] theorem tokenCount_finish (f : OpenNode) (k : NodeKind) (inside : Contents) :
    (f.finish k inside).tokenCount = f.tokenCount + inside.tokenCount := by
  obtain ⟨c, _ | s⟩ := f
  · rfl
  · simp [finish, tokenCount, Contents.tokenCount, Sketch.tokenCount, Nat.add_assoc]

end OpenNode

/-- Contents with steps over tokens behind them. -/
def Contents.pad (c : Contents) : Nat → Contents
  | 0 => c
  | n + 1 => (c.pad n).token

theorem Contents.pad_pad (c : Contents) (m n : Nat) : (c.pad m).pad n = c.pad (m + n) := by
  induction n with
  | zero => rfl
  | succ n ih => rw [pad, ih, Nat.add_succ, pad]

theorem Contents.tokenCount_eq_zero {c : Contents} (h : c.eventCount = 0) : c.tokenCount = 0 := by
  obtain rfl := Contents.eventCount_eq_zero.1 h
  rfl

/-! ## States of a parser -/

namespace ParserState

variable {tokens : List Token} {s s' t : ParserState} {c : Contents} {f : OpenNode}
  {fs : List OpenNode}

/-- What a parser has recorded describes contents and open nodes, and the tokens ahead are those
behind as many as it recorded steps over tokens. -/
structure Follows (tokens : List Token) (s : ParserState) (inside : Contents)
    (opened : List OpenNode) : Prop where
  holds : (Log.ofOps s.ops.reverse).Holds inside opened
  rest_eq : s.rest = tokens.drop (inside.tokenCount + OpenNode.tokensBefore opened)

theorem ofOps_cons (op : Op) (ops : List Op) :
    Log.ofOps (op :: ops).reverse = (Log.ofOps ops.reverse).record op := by
  simp [Log.ofOps]

namespace Follows

theorem congr (h : Follows tokens s c fs) (hops : t.ops = s.ops) (hrest : t.rest = s.rest) :
    Follows tokens t c fs :=
  ⟨hops ▸ h.holds, hrest ▸ h.rest_eq⟩

/-- A node that is opened at once is empty so far. -/
theorem record_openNode (h : Follows tokens s c fs) :
    Follows tokens (s.record .openNode) .nothing (⟨c, none⟩ :: fs) where
  holds := by
    rw [record, ofOps_cons]
    exact h.holds.openNode
  rest_eq := by
    simpa [record, Contents.tokenCount, OpenNode.tokensBefore, OpenNode.tokenCount] using h.rest_eq

theorem record_wrap (h : Follows tokens s c fs) :
    Follows tokens (s.record .wrap) .nothing (.wrapping c :: fs) where
  holds := by
    rw [record, ofOps_cons]
    exact h.holds.wrap
  rest_eq := by
    simpa [record, Contents.tokenCount, OpenNode.tokensBefore] using h.rest_eq

theorem record_close (h : Follows tokens s c (f :: fs)) (k : NodeKind) :
    Follows tokens (s.record (.close k)) (f.finish k c) fs where
  holds := by
    rw [record, ofOps_cons]
    exact h.holds.close k
  rest_eq := by
    rw [OpenNode.tokenCount_finish, Nat.add_comm f.tokenCount, Nat.add_assoc]
    exact h.rest_eq

/-- An abandoned node leaves nothing behind, or an error. -/
theorem record_abandon {e : Contents} (h : Follows tokens s e (⟨c, none⟩ :: fs)) :
    Follows tokens (s.record .abandon)
      (if e.eventCount = 0 then c else c.node (.plain .errorNode e)) fs where
  holds := by
    rw [record, ofOps_cons]
    exact h.holds.abandon
  rest_eq := by
    have hrest := h.rest_eq
    simp only [OpenNode.tokensBefore, OpenNode.tokenCount, Nat.add_zero] at hrest
    split
    · next he =>
      rw [Contents.tokenCount_eq_zero he, Nat.zero_add] at hrest
      exact hrest
    · rw [Contents.tokenCount, Sketch.tokenCount, Nat.add_comm c.tokenCount, Nat.add_assoc]
      exact hrest

theorem step (h : Follows tokens s c fs) : ∃ n, Follows tokens s.step (c.pad n) fs := by
  rw [ParserState.step]
  split
  · exact ⟨0, h⟩
  · next t ts hcons =>
    refine ⟨1, ?_, ?_⟩
    · rw [ofOps_cons]
      exact h.holds.advance
    · have hrest := h.rest_eq
      rw [hcons] at hrest
      show ts = tokens.drop (c.tokenCount + 1 + OpenNode.tokensBefore fs)
      rw [Nat.add_right_comm, ← List.drop_drop, ← hrest]
      rfl

end Follows

/-- The second state is reached from the first by adding contents to the innermost open node. -/
def Extends (tokens : List Token) (s s' : ParserState) : Prop :=
  ∀ c fs, Follows tokens s c fs → ∃ d, Follows tokens s' d fs

namespace Extends

theorem refl (s : ParserState) : Extends tokens s s := fun c _ h => ⟨c, h⟩

theorem trans (h : Extends tokens s s') (h' : Extends tokens s' t) : Extends tokens s t := by
  intro c fs hc
  obtain ⟨d, hd⟩ := h c fs hc
  exact h' d fs hd

/-- Only the operations and the tokens ahead matter. -/
theorem of_eq (hops : t.ops = s.ops) (hrest : t.rest = s.rest) : Extends tokens s t :=
  fun c _ h => ⟨c, h.congr hops hrest⟩

end Extends

/-- Passing over trivia is passing over one of them and then over the others. -/
theorem skipTrivia_eq (s : ParserState) :
    s.skipTrivia = match s.rest with
      | [] => s
      | u :: _ => if u.isTrivia then s.step.skipTrivia else s := by
  obtain ⟨_ | ⟨u, us⟩, ops, problems, finish, exhausted⟩ := s
  · rfl
  · by_cases hu : u.isTrivia = true
    · simp [skipTrivia, step, fromSignificant, hu, List.replicate_succ']
    · simp [skipTrivia, fromSignificant, hu]

theorem Follows.skipTrivia {s : ParserState} {c : Contents} (h : Follows tokens s c fs) :
    ∃ n, Follows tokens s.skipTrivia (c.pad n) fs := by
  rw [skipTrivia_eq]
  split
  · exact ⟨0, h⟩
  · next u us hcons =>
    split
    · have hshort : s.step.rest.length < s.rest.length := by simp [ParserState.step, hcons]
      obtain ⟨m, hm⟩ := h.step
      obtain ⟨n, hn⟩ := hm.skipTrivia
      exact ⟨m + n, c.pad_pad m n ▸ hn⟩
    · exact ⟨0, h⟩
termination_by s.rest.length

theorem Follows.advance (h : Follows tokens s c fs) :
    ∃ n, Follows tokens s.advance (c.pad n) fs := by
  obtain ⟨m, hm⟩ := h.skipTrivia
  obtain ⟨n, hn⟩ := hm.step
  exact ⟨m + n, c.pad_pad m n ▸ hn⟩

/-- A node that is opened is the innermost one, and empty so far. -/
theorem Follows.openNode (h : Follows tokens s c fs) :
    ∃ n, Follows tokens s.openNode .nothing (⟨c.pad n, none⟩ :: fs) := by
  rw [ParserState.openNode]
  split
  · exact ⟨0, h.record_openNode⟩
  · obtain ⟨n, hn⟩ := h.skipTrivia
    exact ⟨n, hn.record_openNode⟩

end ParserState

/-! ## Runs -/

namespace Grammar

open ParserState

section

variable (call : Rule → ParserState → Bool × ParserState) {α β : Type} (s : ParserState)

@[simp] theorem run_pure (a : α) : (Pure.pure a : Grammar α).run call s = (a, s) := rfl

@[simp] theorem run_bind (g : Grammar α) (f : α → Grammar β) :
    (g >>= f).run call s = (f (g.run call s).1).run call (g.run call s).2 := rfl

@[simp] theorem run_isAt (k : TokenKind) : (isAt k).run call s = (kindAt 0 s.rest == k, s) := rfl

end

variable {tokens : List Token}

/-- A repetition keeps what its rounds keep, if it does not matter that a parser is stopped. -/
theorem repeatStep_keeps {σ : Type} {step : σ → ParserState → (σ × Bool) × ParserState}
    {I : σ → ParserState → Prop} (hstep : ∀ x s, I x s → I (step x s).1.1 (step x s).2)
    (hexhaust : ∀ x s, I x s → I x s.exhaust) (n : Nat) (x : σ) {s : ParserState} (h : I x s) :
    I (repeatStep step n x s).1 (repeatStep step n x s).2 := by
  induction n generalizing x s with
  | zero => exact hexhaust x s h
  | succ n ih =>
    have hround := hstep x s h
    rw [repeatStep]
    split
    · next y s' heq =>
      rw [heq] at hround
      exact ih y hround
    · next y s' heq =>
      rw [heq] at hround
      exact hround

theorem repeatStep_extends {σ : Type} {step : σ → ParserState → (σ × Bool) × ParserState}
    (hstep : ∀ x s, Extends tokens s (step x s).2) (n : Nat) (x : σ) (s : ParserState) :
    Extends tokens s (repeatStep step n x s).2 :=
  repeatStep_keeps (I := fun _ t => Extends tokens s t) (fun x t ht => ht.trans (hstep x t))
    (fun _ _ ht => ht.trans (.of_eq rfl rfl)) n x (.refl s)

/-- A run of a grammar closes every node that it opens. -/
theorem run_extends {call : Rule → ParserState → Bool × ParserState}
    (hcall : ∀ r s, Extends tokens s (call r s).2) {α : Type} (g : Grammar α) (s : ParserState) :
    Extends tokens s (g.run call s).2 := by
  induction g generalizing s with
  | pure a => exact .refl s
  | bind g f ihg ihf => exact (ihg s).trans (ihf _ _)
  | ahead => exact .refl s
  | advance =>
    intro c fs h
    obtain ⟨n, hn⟩ := h.advance
    exact ⟨_, hn⟩
  | report fault =>
    simp only [run, ParserState.report]
    split
    · exact .refl s
    · exact .of_eq rfl rfl
  | reportFrom fault origin note => exact .of_eq rfl rfl
  | node body ih =>
    intro c fs h
    obtain ⟨n, hn⟩ := h.openNode
    obtain ⟨e, he⟩ := ih s.openNode _ _ hn
    rw [run]
    split
    · next k a s' heq =>
      rw [heq] at he
      exact ⟨_, he.record_close k⟩
    · next a s' heq =>
      rw [heq] at he
      exact ⟨_, he.record_abandon⟩
  | wrap body ih =>
    intro c fs h
    obtain ⟨e, he⟩ := ih (s.record .wrap) _ _ h.record_wrap
    exact ⟨_, he.record_close _⟩
  | iterate init body ih => exact repeatStep_extends (fun x s => ih x s) _ init s
  | call r => exact hcall r s

theorem runRule_extends (depth : Nat) (r : Rule) (s : ParserState) :
    Extends tokens s (runRule depth r s).2 := by
  induction depth generalizing r s with
  | zero => exact .of_eq rfl rfl
  | succ depth ih => exact run_extends ih r.grammar s

end Grammar

end Reshape
