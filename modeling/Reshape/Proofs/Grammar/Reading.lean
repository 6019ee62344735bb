import Reshape.Proofs.Grammar.Unbounded
import Reshape.Proofs.Token.Marks
import Reshape.Proofs.Tree.Skeleton

/-!
# Reading marks

What a grammar does to a text that was written token by token can be followed on the marks and the
skeleton of the innermost open node alone.

* A `Prospect` is what matters of a parser: the marks ahead, the parts of the innermost open node,
  and whether the last one of them is a node that has just ended. `ParserState.Faces` ties it to a
  parser.
* `Grammar.Reads` says that a grammar leads from one prospect to another, whatever the parser. There
  is a rule for each of the terms of which grammars are made; what is seen ahead is rewritten to what
  was written (`Grammar.reads_peek_bind`).
-/

namespace Reshape

/-- The skeleton of the token of a mark. -/
def Mark.skeleton (m : Mark) : Skeleton := .token m.kind m.text

/-- The marks ahead, the parts of the innermost open node so far, and whether a node has just
ended. -/
structure Prospect where
  ahead : List Mark
  parts : List Skeleton
  ended : Bool

/-- A parser has what a prospect says ahead and behind it, inside of open nodes with given parts. It
has found no problems. -/
structure ParserState.Faces (tokens : List Token) (around : List (List Skeleton)) (s : ParserState)
    (v : Prospect) : Prop where
  left_eq : ∃ i, s.left = layout i v.ahead
  shows : s.Shows tokens (v.parts :: around)
  problems_eq : s.problems = []
  ended : v.ended = true → s.Ended

namespace ParserState.Faces

variable {tokens : List Token} {around : List (List Skeleton)} {s : ParserState} {v : Prospect}
  {m : Mark} {ms : List Mark} {xs : List Skeleton} {x : Skeleton} {b : Bool}

theorem advance (h : s.Faces tokens around ⟨m :: ms, xs, b⟩) :
    s.advance.Faces tokens around ⟨ms, xs ++ [m.skeleton], false⟩ := by
  obtain ⟨i, hi⟩ := h.left_eq
  have hnext : nextToken? s.rest = some (m.token i) := by
    rw [nextToken?, show fromSignificant s.rest = _ from hi]
    rfl
  refine ⟨⟨m.stop i ms, ?_⟩, ?_, ?_, fun hended => by cases hended⟩
  · rw [left, rest_advance, show fromSignificant s.rest = _ from hi]
    exact fromSignificant_tail_layout
  · have hshows := h.shows.advance hnext
    rwa [Token.skeletons, if_neg (by simp)] at hshows
  · rw [ParserState.advance, step]
    split <;> exact h.problems_eq

theorem openNode (h : s.Faces tokens around v) :
    s.openNode.Faces tokens (v.parts :: around) ⟨v.ahead, [], false⟩ := by
  refine ⟨?_, h.shows.openNode, ?_, fun hended => by cases hended⟩
  · rw [left_openNode]
    exact h.left_eq
  · rw [ParserState.openNode]
    split <;> exact h.problems_eq

theorem close (h : s.Faces tokens (xs :: around) v) (k : NodeKind) :
    (s.record (.close k)).Faces tokens around ⟨v.ahead, xs ++ [.ofNode k v.parts], true⟩ where
  left_eq := h.left_eq
  shows := h.shows.close k
  problems_eq := h.problems_eq
  ended _ := h.shows.ended_close k

theorem wrap (h : s.Faces tokens around ⟨ms, xs ++ [x], true⟩) :
    (s.record .wrap).Faces tokens (xs :: around) ⟨ms, [x], false⟩ where
  left_eq := h.left_eq
  shows := h.shows.wrap (h.ended rfl)
  problems_eq := h.problems_eq
  ended hended := by cases hended

/-- It need not be said that a node has just ended. -/
theorem forget (h : s.Faces tokens around ⟨ms, xs, b⟩) : s.Faces tokens around ⟨ms, xs, false⟩ :=
  { h with ended := fun hended => by cases hended }

end ParserState.Faces

namespace Grammar

open ParserState

/-- More names inside names are allowed to a run than it needs. -/
theorem Runs.mono {d e : Nat} {α : Type} {g : Grammar α} {s s' : ParserState} {a : α}
    (h : Runs d g s a s') (hle : d ≤ e) : Runs e g s a s' := by
  induction h generalizing e with
  | pure a s => exact .pure a s
  | ahead s => exact .ahead s
  | advance s => exact .advance s
  | report fault s => exact .report fault s
  | reportFrom fault origin note s => exact .reportFrom fault origin note s
  | bind _ _ ihg ihf => exact .bind (ihg hle) (ihf hle)
  | node _ ih => exact .node (ih hle)
  | wrap _ ih => exact .wrap (ih hle)
  | last _ ih => exact .last (ih hle)
  | again _ _ ih ihrest => exact .again (ih hle) (ihrest hle)
  | @call d r s s' found _ ih =>
    cases e with
    | zero => cases hle
    | succ e => exact .call (ih (Nat.le_of_succ_le_succ hle))

/-- A grammar leads from one prospect to another, with a value. -/
def Reads {α : Type} (g : Grammar α) (v : Prospect) (a : α) (v' : Prospect) : Prop :=
  ∀ tokens around s, s.Faces tokens around v →
    ∃ d s', Runs d g s a s' ∧ s'.Faces tokens around v'

variable {α β σ : Type} {g : Grammar α} {f : α → Grammar β} {v v' w : Prospect} {a : α} {b : β}
  {m : Mark} {ms ms' : List Mark} {xs ys : List Skeleton} {x : Skeleton} {ended : Bool}

/-! ## Terms -/

namespace Reads

protected theorem pure (a : α) (v : Prospect) : Reads (Pure.pure a) v a v :=
  fun _ _ s h => ⟨0, s, .pure a s, h⟩

protected theorem bind (hg : Reads g v a w) (hf : Reads (f a) w b v') : Reads (g >>= f) v b v' := by
  intro tokens around s h
  obtain ⟨d, t, hrun, ht⟩ := hg tokens around s h
  obtain ⟨e, s', hrun', hs'⟩ := hf tokens around t ht
  exact ⟨max d e, s', .bind (hrun.mono (Nat.le_max_left d e)) (hrun'.mono (Nat.le_max_right d e)),
    hs'⟩

/-- A value may be returned that was not computed. -/
theorem thenReturn (h : Reads g v a v') (c : β) : Reads (g >>= fun _ => Pure.pure c) v c v' :=
  h.bind (.pure c v')

theorem advance : Reads advance ⟨m :: ms, xs, ended⟩ () ⟨ms, xs ++ [m.skeleton], false⟩ :=
  fun _ _ s h => ⟨0, s.advance, .advance s, h.advance⟩

theorem call {r : Rule} {found : Bool} (h : Reads r.grammar v found v') :
    Reads (.call r) v found v' := by
  intro tokens around s hs
  obtain ⟨d, s', hrun, hs'⟩ := h tokens around s hs
  exact ⟨d + 1, s', .call hrun, hs'⟩

theorem nodeBy {body : Grammar NodeKind} {k : NodeKind}
    (h : Reads body ⟨ms, [], false⟩ k ⟨ms', ys, false⟩) :
    Reads (nodeBy body) ⟨ms, xs, ended⟩ () ⟨ms', xs ++ [.ofNode k ys], true⟩ := by
  intro tokens around s hs
  obtain ⟨d, s', hrun, hs'⟩ := h _ _ _ hs.openNode
  exact ⟨d, _, .node (.bind hrun (.pure _ _)), hs'.close k⟩

theorem nodeOf {body : Grammar Unit} (k : NodeKind)
    (h : Reads body ⟨ms, [], false⟩ () ⟨ms', ys, false⟩) :
    Reads (nodeOf k body) ⟨ms, xs, ended⟩ () ⟨ms', xs ++ [.ofNode k ys], true⟩ := by
  intro tokens around s hs
  obtain ⟨d, s', hrun, hs'⟩ := h _ _ _ hs.openNode
  exact ⟨d, _, .node (.bind hrun (.pure _ _)), hs'.close k⟩

theorem wrap {body : Grammar NodeKind} {k : NodeKind}
    (h : Reads body ⟨ms, [x], false⟩ k ⟨ms', ys, false⟩) :
    Reads (wrap body) ⟨ms, xs ++ [x], true⟩ () ⟨ms', xs ++ [.ofNode k ys], true⟩ := by
  intro tokens around s hs
  obtain ⟨d, s', hrun, hs'⟩ := h _ _ _ hs.wrap
  exact ⟨d, _, .wrap hrun, hs'.close k⟩

theorem last {y z : σ} {body : σ → Grammar (σ × Bool)} (h : Reads (body y) v (z, false) v') :
    Reads (iterate y body) v z v' := by
  intro tokens around s hs
  obtain ⟨d, s', hrun, hs'⟩ := h tokens around s hs
  exact ⟨d, s', .last hrun, hs'⟩

theorem again {y z u : σ} {body : σ → Grammar (σ × Bool)} (h : Reads (body y) v (z, true) w)
    (hrest : Reads (iterate z body) w u v') : Reads (iterate y body) v u v' := by
  intro tokens around s hs
  obtain ⟨d, t, hrun, ht⟩ := h tokens around s hs
  obtain ⟨e, s', hrun', hs'⟩ := hrest tokens around t ht
  exact ⟨max d e, s', .again (hrun.mono (Nat.le_max_left d e)) (hrun'.mono (Nat.le_max_right d e)),
    hs'⟩

theorem loop_last {body : Grammar Bool} (h : Reads body v false v') : Reads (loop body) v () v' :=
  .last (h.bind (.pure _ _))

theorem loop_again {body : Grammar Bool} (h : Reads body v true w)
    (hrest : Reads (loop body) w () v') : Reads (loop body) v () v' :=
  .again (h.bind (.pure _ _)) hrest

theorem forget (h : Reads g v a ⟨ms, xs, ended⟩) : Reads g v a ⟨ms, xs, false⟩ := by
  intro tokens around s hs
  obtain ⟨d, s', hrun, hs'⟩ := h tokens around s hs
  exact ⟨d, s', hrun, hs'.forget⟩

end Reads

/-! ## Looking ahead -/

theorem reads_congr {h : Grammar β} {g : Grammar β}
    (heq : ∀ tokens around s, s.Faces tokens around v → ∀ d t, Runs d g s b t ↔ Runs d h s b t) :
    Reads g v b v' ↔ Reads h v b v' := by
  refine forall₃_congr fun tokens around s => forall_congr' fun hs => ?_
  simp only [heq tokens around s hs]

@[simp] theorem reads_pure_bind {a : α} :
    Reads (Pure.pure a >>= f) v b v' ↔ Reads (f a) v b v' := by
  refine reads_congr fun _ _ _ _ d t => ?_
  simp

@[simp] theorem reads_bind_bind {γ : Type} {h : β → Grammar γ} {c : γ} :
    Reads (g >>= f >>= h) v c v' ↔ Reads (g >>= fun a => f a >>= h) v c v' := by
  refine reads_congr fun _ _ _ _ d t => ?_
  simp only [runs_bind]
  grind

/-- What is done with the tokens ahead is done with what was written, wherever that stands. -/
theorem reads_ahead_bind {f : List Token → Grammar β}
    (hf : ∀ ts i, fromSignificant ts = layout i v.ahead → f ts = f (layout 0 v.ahead)) :
    Reads (ahead >>= f) v b v' ↔ Reads (f (layout 0 v.ahead)) v b v' := by
  refine reads_congr fun _ _ s hs d t => ?_
  obtain ⟨i, hi⟩ := hs.left_eq
  rw [runs_bind, ← hf _ i hi]
  constructor
  · rintro ⟨ts, s', hts, hrun⟩
    obtain ⟨rfl, rfl⟩ := runs_iff.1 hts
    exact hrun
  · exact fun hrun => ⟨_, _, .ahead s, hrun⟩

/-- A test that finds the same in what was written, wherever that stands, is a test of it. -/
theorem reads_return_ahead_bind {γ : Type} {q : List Token → γ} {f : γ → Grammar β} {c : γ}
    (hc : ∀ ts i, fromSignificant ts = layout i v.ahead → q ts = c) :
    Reads ((ahead >>= fun ts => Pure.pure (q ts)) >>= f) v b v' ↔ Reads (f c) v b v' := by
  rw [reads_bind_bind, reads_ahead_bind fun ts i hi => ?_, hc _ 0 fromSignificant_layout,
    reads_pure_bind]
  rw [hc ts i hi, hc _ 0 fromSignificant_layout]

@[simp] theorem reads_peek_bind {n : Nat} {f : TokenKind → Grammar β} :
    Reads (peek n >>= f) v b v' ↔ Reads (f (markKind n v.ahead)) v b v' := by
  refine reads_return_ahead_bind fun ts i hi => ?_
  rw [← kindAt_layout (i := i), ← hi, kindAt_congr (fromSignificant_idem ts)]

@[simp] theorem reads_isAt_bind {k : TokenKind} {f : Bool → Grammar β} :
    Reads (isAt k >>= f) v b v' ↔ Reads (f (markKind 0 v.ahead == k)) v b v' := by
  rw [isAt, reads_bind_bind, reads_peek_bind, reads_pure_bind]

@[simp] theorem reads_remaining_bind {f : Nat → Grammar β} :
    Reads (remaining >>= f) v b v' ↔ Reads (f (width v.ahead)) v b v' := by
  refine reads_return_ahead_bind fun ts i hi => ?_
  rw [hi, length_layout]

/-- A test that passes over trivia is a test of what was written. -/
theorem reads_test_bind {q : List Token → Bool} {f : Bool → Grammar β} {c : Bool}
    (hq : ∀ ts us, fromSignificant ts = fromSignificant us → q ts = q us)
    (hc : ∀ i, q (layout i v.ahead) = c) :
    Reads (test q >>= f) v b v' ↔ Reads (f c) v b v' := by
  refine reads_return_ahead_bind fun ts i hi => ?_
  rw [hq ts (layout i v.ahead) (hi.trans fromSignificant_layout.symm), hc i]

theorem reads_eat_bind_of_ne {k : TokenKind} {f : Bool → Grammar β} (hk : markKind 0 v.ahead ≠ k) :
    Reads (eat k >>= f) v b v' ↔ Reads (f false) v b v' := by
  rw [eat, reads_bind_bind, reads_isAt_bind, beq_false_of_ne hk]
  exact reads_pure_bind

theorem Reads.eat :
    Reads (eat m.kind) ⟨m :: ms, xs, ended⟩ true ⟨ms, xs ++ [m.skeleton], false⟩ := by
  rw [Grammar.eat, reads_isAt_bind, markKind_cons_zero, beq_self_eq_true]
  exact .bind .advance (.pure _ _)

theorem Reads.expect :
    Reads (expect m.kind) ⟨m :: ms, xs, ended⟩ true ⟨ms, xs ++ [m.skeleton], false⟩ :=
  .bind .eat (.pure _ _)

end Grammar

end Reshape
