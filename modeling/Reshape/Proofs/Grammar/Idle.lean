import Reshape.Proofs.Grammar.Unbounded

/-!
# What a grammar does before it reads

Whether runs come to an end depends on what a grammar does before it steps over a significant token:
which repetitions go on, and which named forms are entered. This is a matter of the tokens ahead,
which stay the same so long.

* `Grammar.Idle` is a judgement on grammars, by recursion on the term. As long as nothing is read,
  the tokens ahead are the given ones, every named form that is entered ranks below a bound `ρ`,
  no repetition goes on, and the property holds of the value.
* `Grammar.Steady` says that no repetition in a grammar goes on behind a round that reads nothing.
* `Runs.of_idle` and `Meets.of_idle` are the soundness of the first, `Meets.lt_of_steady` that of
  the second. They rest on the same judgements for the named forms (`Rule.Paced`).
-/

namespace Reshape

open Grammar

namespace Rule

/-- What a named form may enter before it reads something ranks below it. A condition is entered at
the word `if` only; elsewhere it goes on with an expression. -/
def rank (ts : List Token) : Rule → Nat
  | .expr _ _ => 2
  | .atom _ => 1
  | .ifExpr => if kindAt 0 ts = .eof then 3 else 0
  | _ => 0

/-- All that a named form enters before it reads something ranks below this. A type enters itself at
the word `for` if there is no binder. -/
def limit (ts : List Token) (r : Rule) : Nat :=
  if r = .type ∧ BareFor ts then 1 else r.rank ts

/-- A named form does not end before it reads something. -/
def Moves (ts : List Token) (r : Rule) : Prop :=
  (r = .tokenTree ∧ (closerOf? (kindAt 0 ts)).isSome) ∨ (r = .type ∧ BareFor ts)

theorem rank_lt (ts : List Token) (r : Rule) : r.rank ts < 4 := by
  cases r <;> simp only [rank] <;> first | omega | (split <;> omega)

theorem limit_le (ts : List Token) (r : Rule) : r.limit ts ≤ r.rank ts + 1 := by
  rw [limit]
  split
  · exact Nat.le_add_left _ _
  · exact Nat.le_add_right _ _

end Rule

namespace Grammar

open ParserState

/-- As long as a grammar reads nothing and the tokens `ts` are ahead, it enters named forms of a rank
below `ρ` only, no repetition goes on, and `P` holds of the value. -/
def Idle (ρ : Nat) (ts : List Token) : {α : Type} → Grammar α → (α → Prop) → Prop
  | _, .pure a, P => P a
  | _, .bind g f, P => g.Idle ρ ts fun a => (f a).Idle ρ ts P
  | _, .ahead, P => ∀ us, fromSignificant us = fromSignificant ts → P us
  | _, .advance, P => kindAt 0 ts = .eof → P ()
  | _, .report _, P | _, .reportFrom _ _ _, P => P ()
  | _, .node body, P => body.Idle ρ ts fun x => P x.2
  | _, .wrap body, P => body.Idle ρ ts fun _ => P ()
  | _, .iterate x body, P => (body x).Idle ρ ts fun y => y.2 = false ∧ P y.1
  | _, .call r, P => r.rank ts < ρ ∧ (¬ r.Moves ts → ∀ found, P found)

/-- No repetition in a grammar goes on behind a round that reads nothing, whatever is ahead. -/
def Steady : {α : Type} → Grammar α → Prop
  | _, .bind g f => g.Steady ∧ ∀ a, (f a).Steady
  | _, .node body => body.Steady
  | _, .wrap body => body.Steady
  | _, .iterate _ body =>
      (∀ x, (body x).Steady) ∧ ∀ x ts, (body x).Idle 4 ts fun y => y.2 = false
  | _, _ => True

variable {ρ : Nat} {ts : List Token} {α : Type} {g : Grammar α} {P P' : α → Prop}

theorem idle_bind {β : Type} {g : Grammar β} {f : β → Grammar α} :
    (g.bind f).Idle ρ ts P ↔ g.Idle ρ ts fun a => (f a).Idle ρ ts P :=
  .rfl

theorem Idle.mono (h : g.Idle ρ ts P) (hP : ∀ a, P a → P' a) : g.Idle ρ ts P' := by
  induction g with
  | pure a => exact hP a h
  | bind g f ihg ihf => exact ihg h fun a hf => ihf a hf hP
  | ahead => exact fun us hus => hP us (h us hus)
  | advance => exact fun hend => hP () (h hend)
  | report | reportFrom => exact hP () h
  | node body ih => exact ih h fun x => hP x.2
  | wrap body ih => exact ih h fun _ => hP ()
  | iterate x body ih => exact ih x h fun y => And.imp_right (hP y.1)
  | call r => exact ⟨h.1, fun hmoves found => hP found (h.2 hmoves found)⟩

/-- All ranks are below four. -/
theorem Steady.idle (h : g.Steady) (ts : List Token) : g.Idle 4 ts fun _ => True := by
  induction g with
  | pure | report | reportFrom => trivial
  | ahead => exact fun _ _ => trivial
  | advance => exact fun _ => trivial
  | bind g f ihg ihf => exact (ihg h.1).mono fun a _ => ihf a (h.2 a)
  | node body ih => exact ih h
  | wrap body ih => exact ih h
  | iterate x body ih => exact (h.2 x ts).mono fun y hy => ⟨hy, trivial⟩
  | call r => exact ⟨r.rank_lt ts, fun _ _ => trivial⟩

end Grammar

/-- The judgements on a named form on which those on all grammars rest. -/
structure Rule.Paced (r : Rule) : Prop where
  steady : r.grammar.Steady
  idle : ∀ ts, r.grammar.Idle (r.limit ts) ts fun _ => ¬ r.Moves ts

namespace Grammar

open ParserState

variable {ρ d : Nat} {ts : List Token} {α : Type} {g : Grammar α} {P : α → Prop}
  {s s' t : ParserState} {a : α}

/-- Nothing was read at the start if nothing was read in all. -/
theorem Runs.left_eq (h : Runs d g s a s') {us : List Token} (hs : s.left = us)
    (ht : t.left <:+ s'.left) (hus : t.left = us) : s'.left = us := by
  refine List.IsSuffix.eq_of_length_le ?_ ?_
  · exact hs ▸ h.left_suffix
  · exact hus ▸ ht.length_le

/-- If a run reads nothing, the property holds of its value. -/
theorem Runs.of_idle (hpaced : ∀ r : Rule, r.Paced) (h : Runs d g s a s') (hg : g.Idle ρ ts P)
    (hs : s.left = fromSignificant ts) (hs' : s'.left = fromSignificant ts) : P a := by
  induction h generalizing ρ with
  | pure => exact hg
  | bind hfirst hsecond ihg ihf =>
    have hmid := hfirst.left_eq hs hsecond.left_suffix hs'
    exact ihf (ihg hg hs hmid) hmid hs'
  | ahead s => exact hg s.rest hs
  | advance s =>
    -- A token that is next was read, so none is next.
    refine hg (kindAt_eq_eof ?_ 0)
    have hlength := left_advance_suffix (s := s) |>.length_le
    rw [hs', hs, List.length_tail] at hlength
    exact List.length_eq_zero_iff.1 (by omega)
  | report | reportFrom => exact hg
  | node _ ih => exact ih hg (by simpa using hs) (by simpa using hs')
  | wrap _ ih => exact ih hg (by simpa using hs) (by simpa using hs')
  | last _ ih => exact (ih hg hs hs').2
  | again hround hrest ih _ =>
    have hmid := hround.left_eq hs hrest.left_suffix hs'
    cases (ih hg hs hmid).1
  | @call _ r _ _ _ _ ih => exact hg.2 (ih ((hpaced r).idle ts) hs hs') _

/-- A round behind which a repetition goes on reads something, if it stops behind one that does
not. -/
theorem Runs.lt_of_goesOn (hpaced : ∀ r : Rule, r.Paced) {σ : Type} {body : Grammar (σ × Bool)}
    {y : σ} (h : Runs d body s (y, true) s')
    (hbody : body.Idle 4 s.rest fun y => y.2 = false) : s'.left.length < s.left.length := by
  refine Nat.lt_of_le_of_ne h.left_suffix.length_le fun hlength => ?_
  cases h.of_idle hpaced hbody rfl (h.left_suffix.eq_of_length hlength)

/-- A named form that is entered before something is read ranks below the bound. -/
theorem Meets.of_idle (hpaced : ∀ r : Rule, r.Paced) {m : Moment} (h : Meets m g s)
    (hg : g.Idle ρ ts P) (hs : s.left = fromSignificant ts)
    (hm : m.start.left = fromSignificant ts) {r : Rule} (hr : m = .enter r m.start) :
    r.rank ts < ρ := by
  induction h generalizing ρ with
  | first _ ih => exact ih hg hs hm hr
  | second hfirst hrest ih =>
    have hmid := hfirst.left_eq hs hrest.left_suffix hm
    have hsecond := hfirst.of_idle hpaced (idle_bind.1 hg) hs hmid
    exact ih hsecond hmid hm hr
  | node _ ih => exact ih hg (by simpa using hs) hm hr
  | wrap _ ih => exact ih hg (by simpa using hs) hm hr
  | now _ ih => exact ih hg hs hm hr
  | later hround hrest _ =>
    have hmid := hround.left_eq hs hrest.left_suffix hm
    cases (hround.of_idle hpaced hg hs hmid).1
  | round => cases hr
  | enter =>
    cases hr
    exact hg.1
  | @inside _ q _ _ ih =>
    have hq := ih ((hpaced q).idle ts) hs hm hr
    have hlimit := q.limit_le ts
    have hbound := hg.1
    omega

/-- A round behind which a repetition goes on reads something. -/
theorem Meets.lt_of_steady (hpaced : ∀ r : Rule, r.Paced) (h : Meets (.round s s') g t)
    (hg : g.Steady) : s'.left.length < s.left.length := by
  generalize hm : Moment.round s s' = m at h
  induction h with
  | first _ ih => exact ih hg.1 hm
  | second _ _ ih => exact ih (hg.2 _) hm
  | node _ ih | wrap _ ih => exact ih hg hm
  | now _ ih => exact ih (hg.1 _) hm
  | later _ _ ih => exact ih hg hm
  | round hround =>
    cases hm
    exact hround.lt_of_goesOn hpaced (hg.2 _ _)
  | enter => cases hm
  | inside _ ih => exact ih (hpaced _).steady hm

end Grammar

end Reshape
