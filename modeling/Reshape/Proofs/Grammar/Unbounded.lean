import Reshape.Proofs.Grammar.Lookahead

/-!
# Runs without bounds

`Grammar.run` bounds the rounds of a repetition and the depth of names inside names. What a grammar
reads is a matter of runs that have no bounds, and that need not come to an end.

* `Grammar.Runs` are the runs that come to an end, with names nested at most so deep. They have one
  outcome (`Runs.unique`), and never give back what was read (`Runs.left_suffix`).
* `Grammar.Meets` says what happens in the course of a run, whether or not it comes to an end: a
  named form is entered, or a repetition goes on behind a round (`Moment`).
-/

namespace Reshape

namespace ParserState

variable {s : ParserState}

/-- The tokens from the next significant one on. -/
def left (s : ParserState) : List Token := fromSignificant s.rest

@[simp] theorem left_record (op : Op) : (s.record op).left = s.left := rfl

@[simp] theorem left_report (fault : Fault) : (s.report fault).left = s.left := by
  rw [report]
  split <;> rfl

@[simp] theorem left_reportFrom (fault : Fault) (origin : Span) (note : String) :
    (s.reportFrom fault origin note).left = s.left :=
  rfl

theorem left_skipTrivia : s.skipTrivia.left = s.left := fromSignificant_idem s.rest

@[simp] theorem left_openNode : s.openNode.left = s.left := by
  rw [openNode]
  split
  · rfl
  · exact left_skipTrivia

theorem left_advance_suffix : s.advance.left <:+ s.left.tail := by
  rw [left, rest_advance]
  exact List.dropWhile_suffix _

end ParserState

namespace Grammar

open ParserState

/-! ## Runs that come to an end -/

/-- A run of a grammar from a state comes to an end with a value in another state. Repetitions may
take any number of rounds; names are nested at most `depth` deep. -/
inductive Runs : (depth : Nat) → {α : Type} → Grammar α → ParserState → α → ParserState → Prop
  | pure {d : Nat} {α : Type} (a : α) (s : ParserState) : Runs d (.pure a) s a s
  | bind {d : Nat} {α β : Type} {g : Grammar α} {f : α → Grammar β} {s s' t : ParserState} {a : α}
      {b : β} : Runs d g s a s' → Runs d (f a) s' b t → Runs d (.bind g f) s b t
  | ahead {d : Nat} (s : ParserState) : Runs d .ahead s s.rest s
  | advance {d : Nat} (s : ParserState) : Runs d .advance s () s.advance
  | report {d : Nat} (fault : Fault) (s : ParserState) :
      Runs d (.report fault) s () (s.report fault)
  | reportFrom {d : Nat} (fault : Fault) (origin : Span) (note : String) (s : ParserState) :
      Runs d (.reportFrom fault origin note) s () (s.reportFrom fault origin note)
  | node {d : Nat} {α : Type} {body : Grammar (Option NodeKind × α)} {s s' : ParserState}
      {k? : Option NodeKind} {a : α} :
      Runs d body s.openNode (k?, a) s' → Runs d (.node body) s a (s'.record (k?.elim .abandon .close))
  | wrap {d : Nat} {body : Grammar NodeKind} {s s' : ParserState} {k : NodeKind} :
      Runs d body (s.record .wrap) k s' → Runs d (.wrap body) s () (s'.record (.close k))
  | last {d : Nat} {σ : Type} {x y : σ} {body : σ → Grammar (σ × Bool)} {s s' : ParserState} :
      Runs d (body x) s (y, false) s' → Runs d (.iterate x body) s y s'
  | again {d : Nat} {σ : Type} {x y z : σ} {body : σ → Grammar (σ × Bool)} {s s' t : ParserState} :
      Runs d (body x) s (y, true) s' → Runs d (.iterate y body) s' z t →
      Runs d (.iterate x body) s z t
  | call {d : Nat} {r : Rule} {s s' : ParserState} {found : Bool} :
      Runs d r.grammar s found s' → Runs (d + 1) (.call r) s found s'

/-- Some run of a grammar from a state comes to an end. -/
def Terminates {α : Type} (g : Grammar α) (s : ParserState) : Prop := ∃ d a s', Runs d g s a s'

/-- What a run of a grammar consists of, by the outermost constructor. -/
def Outcome (d : Nat) : {α : Type} → Grammar α → ParserState → α → ParserState → Prop
  | _, .pure b, s, a, t => a = b ∧ t = s
  | _, .bind g f, s, b, t => ∃ a s', Runs d g s a s' ∧ Runs d (f a) s' b t
  | _, .ahead, s, ts, t => ts = s.rest ∧ t = s
  | _, .advance, s, _, t => t = s.advance
  | _, .report fault, s, _, t => t = s.report fault
  | _, .reportFrom fault origin note, s, _, t => t = s.reportFrom fault origin note
  | _, .node body, s, a, t =>
      ∃ k? s', Runs d body s.openNode (k?, a) s' ∧ t = s'.record (k?.elim .abandon .close)
  | _, .wrap body, s, _, t => ∃ k s', Runs d body (s.record .wrap) k s' ∧ t = s'.record (.close k)
  | _, .iterate x body, s, z, t =>
      Runs d (body x) s (z, false) t ∨
        ∃ y s', Runs d (body x) s (y, true) s' ∧ Runs d (.iterate y body) s' z t
  | _, .call r, s, found, t => ∃ e, d = e + 1 ∧ Runs e r.grammar s found t

section

variable {d e : Nat} {α β σ : Type} {g : Grammar α} {s s' t : ParserState} {a b : α}

theorem runs_iff : Runs d g s a t ↔ Outcome d g s a t := by
  constructor
  · intro h
    cases h with
    | pure | ahead => exact ⟨rfl, rfl⟩
    | advance | report | reportFrom => exact rfl
    | bind hg hf => exact ⟨_, _, hg, hf⟩
    | node h | wrap h => exact ⟨_, _, h, rfl⟩
    | last h => exact .inl h
    | again h hrest => exact .inr ⟨_, _, h, hrest⟩
    | call h => exact ⟨_, rfl, h⟩
  · intro h
    cases g with
    | pure | ahead =>
      obtain ⟨rfl, rfl⟩ := h
      constructor
    | advance | report | reportFrom =>
      cases h
      constructor
    | bind =>
      obtain ⟨_, _, hg, hf⟩ := h
      exact .bind hg hf
    | node =>
      obtain ⟨_, _, h, rfl⟩ := h
      exact .node h
    | wrap =>
      obtain ⟨_, _, h, rfl⟩ := h
      exact .wrap h
    | iterate =>
      obtain h | ⟨_, _, h, hrest⟩ := h
      · exact .last h
      · exact .again h hrest
    | call =>
      obtain ⟨_, rfl, h⟩ := h
      exact .call h

/-! ### Terms -/

@[simp] theorem runs_pure : Runs d (Pure.pure b : Grammar α) s a t ↔ a = b ∧ t = s := runs_iff

@[simp] theorem runs_bind {g : Grammar β} {f : β → Grammar α} :
    Runs d (g >>= f) s a t ↔ ∃ b s', Runs d g s b s' ∧ Runs d (f b) s' a t :=
  runs_iff

@[simp] theorem runs_advance {u : Unit} : Runs d advance s u t ↔ t = s.advance := runs_iff

@[simp] theorem runs_call {r : Rule} {found : Bool} :
    Runs d (call r) s found t ↔ ∃ e, d = e + 1 ∧ Runs e r.grammar s found t :=
  runs_iff

@[simp] theorem runs_peek {n : Nat} {k : TokenKind} :
    Runs d (peek n) s k t ↔ k = kindAt n s.rest ∧ t = s := by
  rw [peek, runs_bind]
  constructor
  · rintro ⟨ts, s', hts, h⟩
    obtain ⟨rfl, rfl⟩ := runs_iff.1 hts
    exact runs_pure.1 h
  · rintro ⟨rfl, rfl⟩
    exact ⟨_, _, .ahead t, .pure _ t⟩

end

/-! ### All runs -/

namespace Runs

variable {d e : Nat} {α : Type} {g : Grammar α} {s s' t : ParserState} {a b : α}

/-- A run has one outcome, whatever the depth that is allowed. -/
theorem unique (h : Runs d g s a s') (h' : Runs e g s b t) : a = b ∧ s' = t := by
  induction h generalizing e t with
  | pure | ahead =>
    obtain ⟨rfl, rfl⟩ := runs_iff.1 h'
    exact ⟨rfl, rfl⟩
  | advance | report | reportFrom =>
    obtain rfl := runs_iff.1 h'
    exact ⟨rfl, rfl⟩
  | bind _ _ ihg ihf =>
    obtain ⟨_, _, hg, hf⟩ := runs_iff.1 h'
    obtain ⟨rfl, rfl⟩ := ihg hg
    exact ihf hf
  | node _ ih =>
    obtain ⟨_, _, hbody, rfl⟩ := runs_iff.1 h'
    obtain ⟨heq, rfl⟩ := ih hbody
    cases heq
    exact ⟨rfl, rfl⟩
  | wrap _ ih =>
    obtain ⟨_, _, hbody, rfl⟩ := runs_iff.1 h'
    obtain ⟨rfl, rfl⟩ := ih hbody
    exact ⟨rfl, rfl⟩
  | last _ ih =>
    obtain hbody | ⟨_, _, hbody, -⟩ := runs_iff.1 h'
    · obtain ⟨heq, rfl⟩ := ih hbody
      cases heq
      exact ⟨rfl, rfl⟩
    · cases (ih hbody).1
  | again _ _ ih ihrest =>
    obtain hbody | ⟨_, _, hbody, hrest⟩ := runs_iff.1 h'
    · cases (ih hbody).1
    · obtain ⟨heq, rfl⟩ := ih hbody
      cases heq
      exact ihrest hrest
  | call _ ih =>
    obtain ⟨_, -, h⟩ := runs_iff.1 h'
    exact ih h

/-- What was read is not given back. -/
theorem left_suffix (h : Runs d g s a s') : s'.left <:+ s.left := by
  induction h with
  | pure | ahead => exact List.suffix_refl _
  | advance => exact left_advance_suffix.trans (List.tail_suffix _)
  | report => simp
  | reportFrom => simp
  | bind _ _ ihg ihf => exact ihf.trans ihg
  | node _ ih | wrap _ ih => simpa using ih
  | last _ ih => exact ih
  | again _ _ ih ihrest => exact ihrest.trans ih
  | call _ ih => exact ih

/-- A run that comes to an end does not stop the parser. -/
theorem exhausted_eq (h : Runs d g s a s') : s'.exhausted = s.exhausted := by
  induction h with
  | pure | ahead | reportFrom => rfl
  | advance s =>
    rw [ParserState.advance, step]
    split <;> rfl
  | report fault s =>
    rw [ParserState.report]
    split <;> rfl
  | bind _ _ ihg ihf => exact ihf.trans ihg
  | node _ ih =>
    refine ih.trans ?_
    rw [openNode]
    split <;> rfl
  | wrap _ ih => exact ih
  | last _ ih => exact ih
  | again _ _ ih ihrest => exact ihrest.trans ih
  | call _ ih => exact ih

end Runs

/-! ## The course of a run -/

/-- What may happen in the course of a run. -/
inductive Moment
  /-- A named form is entered in a state. -/
  | enter (r : Rule) (s : ParserState)
  /-- A round of a repetition leads from a state to another one, and the repetition goes on. -/
  | round (s s' : ParserState)

/-- In the course of its run from a state, a grammar meets a moment. -/
inductive Meets : Moment → {α : Type} → Grammar α → ParserState → Prop
  | first {m : Moment} {α β : Type} {g : Grammar α} {f : α → Grammar β} {s : ParserState} :
      Meets m g s → Meets m (.bind g f) s
  | second {m : Moment} {d : Nat} {α β : Type} {g : Grammar α} {f : α → Grammar β}
      {s s' : ParserState} {a : α} :
      Runs d g s a s' → Meets m (f a) s' → Meets m (.bind g f) s
  | node {m : Moment} {α : Type} {body : Grammar (Option NodeKind × α)} {s : ParserState} :
      Meets m body s.openNode → Meets m (.node body) s
  | wrap {m : Moment} {body : Grammar NodeKind} {s : ParserState} :
      Meets m body (s.record .wrap) → Meets m (.wrap body) s
  | now {m : Moment} {σ : Type} {x : σ} {body : σ → Grammar (σ × Bool)} {s : ParserState} :
      Meets m (body x) s → Meets m (.iterate x body) s
  | later {m : Moment} {d : Nat} {σ : Type} {x y : σ} {body : σ → Grammar (σ × Bool)}
      {s s' : ParserState} :
      Runs d (body x) s (y, true) s' → Meets m (.iterate y body) s' → Meets m (.iterate x body) s
  | round {d : Nat} {σ : Type} {x y : σ} {body : σ → Grammar (σ × Bool)} {s s' : ParserState} :
      Runs d (body x) s (y, true) s' → Meets (.round s s') (.iterate x body) s
  | enter {r : Rule} {s : ParserState} : Meets (.enter r s) (.call r) s
  | inside {m : Moment} {r : Rule} {s : ParserState} : Meets m r.grammar s → Meets m (.call r) s

namespace Moment

/-- The state in which a moment begins. -/
def start : Moment → ParserState
  | .enter _ s | .round s _ => s

end Moment

/-- What was read before a moment is not given back. -/
theorem Meets.left_suffix {m : Moment} {α : Type} {g : Grammar α} {s : ParserState}
    (h : Meets m g s) : m.start.left <:+ s.left := by
  induction h with
  | first _ ih | now _ ih | inside _ ih => exact ih
  | node _ ih | wrap _ ih => simpa using ih
  | second hg _ ih => exact ih.trans hg.left_suffix
  | later hround _ ih => exact ih.trans hround.left_suffix
  | round | enter => exact List.suffix_refl _

end Grammar

end Reshape
