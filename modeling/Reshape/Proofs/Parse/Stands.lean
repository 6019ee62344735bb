import Reshape.Proofs.Parse.Neat

/-!
# Runs keep what is known

The standings that `Grammar.wp` promises are those that runs end in, unless the parser is stopped
because it does not come to an end.

* `ParserState.Later` is what a run keeps whatever it reads: problems that were found, and that the
  parser was stopped (`run_later`).
* `Heeds` is what has to be known of the named forms. `run_stands` is the run lemma, by induction on
  the grammar.
-/

namespace Reshape

namespace ParserState

/-- A parser went on from the first state to the second. -/
structure Later (s t : ParserState) : Prop where
  exhausted : s.exhausted = true → t.exhausted = true
  problems : t.problems = [] → s.problems = []

namespace Later

variable {s t u : ParserState}

theorem refl (s : ParserState) : Later s s := ⟨id, id⟩

theorem trans (h : Later s t) (h' : Later t u) : Later s u :=
  ⟨h'.exhausted ∘ h.exhausted, h.problems ∘ h'.problems⟩

/-- A parser that is not stopped was not stopped before. -/
theorem running (h : Later s t) (ht : t.exhausted = false) : s.exhausted = false := by
  cases hs : s.exhausted with
  | false => rfl
  | true => rw [h.exhausted hs] at ht; cases ht

theorem record (s : ParserState) (op : Op) : Later s (s.record op) := ⟨id, id⟩

theorem exhaust (s : ParserState) : Later s s.exhaust := ⟨fun _ => rfl, id⟩

theorem advance (s : ParserState) : Later s s.advance := by
  rw [ParserState.advance, step]
  split <;> exact ⟨id, id⟩

theorem openNode (s : ParserState) : Later s s.openNode := by
  rw [ParserState.openNode]
  split <;> exact ⟨id, id⟩

theorem report (s : ParserState) (fault : Fault) : Later s (s.report fault) := by
  rw [ParserState.report]
  split
  · exact .refl s
  · exact ⟨id, fun h => by cases h⟩

end Later

/-- A node is closed behind what went on inside it. The children of the node around it that stand before it
are among those that were there when it was opened. -/
theorem Stands.close_of_later {tokens : List Token} {m m' : Standing} {s t : ParserState}
    {c d : Contents} {f : OpenNode} {fs : List OpenNode} {k : NodeKind}
    (hlast : Crisp tokens tokens.length) (h : Stands tokens m s c fs) (hlater : Later s t)
    (hinside : Stands tokens m' t d (f :: fs))
    (hkinds : ∀ l ∈ OpenNode.childKinds f.before fs, l ∈ OpenNode.childKinds c fs)
    (hends : Settled tokens t d (f :: fs) ∨ (f.sketch k d).EndsOpen tokens (f.place fs))
    (hspotless : k = .blockExpr ∨ m'.spotless = true) (herror : k = .errorNode → m'.reported = true)
    (hbegins : fromSignificant (tokens.drop (f.place fs)) = tokens.drop (f.place fs)) :
    Stands tokens m.closed (t.record (.close k)) (f.finish k d) fs :=
  hinside.close hlast hends hspotless herror hbegins
    (fun hspot hnil hmem => h.spotless hspot (hlater.problems hnil) (hkinds _ hmem))
    fun hreported hnil => h.reported hreported (hlater.problems hnil)

end ParserState

namespace Grammar

open ParserState

variable {call : Rule → ParserState → Bool × ParserState} {α σ : Type}

theorem repeatStep_later {round : σ → ParserState → (σ × Bool) × ParserState}
    (hround : ∀ x s, Later s (round x s).2) (n : Nat) (x : σ) (s : ParserState) :
    Later s (repeatStep round n x s).2 :=
  repeatStep_keeps (I := fun _ t => Later s t) (fun x t ht => ht.trans (hround x t))
    (fun _ t ht => ht.trans (.exhaust t)) n x (.refl s)

/-- A repetition that is not stopped ends as its last round does, if the rounds before keep what holds. -/
theorem repeatStep_ends {round : σ → ParserState → (σ × Bool) × ParserState}
    (hlater : ∀ x s, Later s (round x s).2) {I J : σ → ParserState → Prop}
    (hmore : ∀ x s, I x s → (round x s).2.exhausted = false → (round x s).1.2 = true →
      I (round x s).1.1 (round x s).2)
    (hstop : ∀ x s, I x s → (round x s).2.exhausted = false → (round x s).1.2 = false →
      J (round x s).1.1 (round x s).2)
    (n : Nat) (x : σ) {s : ParserState} (h : I x s)
    (hend : (repeatStep round n x s).2.exhausted = false) :
    J (repeatStep round n x s).1 (repeatStep round n x s).2 := by
  induction n generalizing x s with
  | zero => cases hend
  | succ n ih =>
    have hmore := hmore x s h
    have hstop := hstop x s h
    rw [repeatStep] at hend ⊢
    split at hend
    · next y s' heq =>
      rw [heq] at hmore
      exact ih y (hmore ((repeatStep_later hlater n y s').running hend) rfl) hend
    · next y s' heq =>
      rw [heq] at hstop
      exact hstop hend rfl

/-- A run goes on from the state it starts in. -/
theorem run_later (hcall : ∀ r s, Later s (call r s).2) (g : Grammar α) (s : ParserState) :
    Later s (g.run call s).2 := by
  induction g generalizing s with
  | pure a => exact .refl s
  | bind g f ihg ihf => exact (ihg s).trans (ihf _ _)
  | ahead => exact .refl s
  | advance => exact .advance s
  | report fault => exact .report s fault
  | reportFrom fault origin note => exact ⟨id, fun h => by cases h⟩
  | node body ih =>
    have h := (Later.openNode s).trans (ih s.openNode)
    rw [run]
    split
    · next k a s' heq =>
      rw [heq] at h
      exact h.trans (.record s' _)
    · next a s' heq =>
      rw [heq] at h
      exact h.trans (.record s' _)
  | wrap body ih => exact ((Later.record s .wrap).trans (ih _)).trans (.record _ _)
  | iterate init body ih => exact repeatStep_later (fun x s => ih x s) _ init s
  | call r => exact hcall r s

theorem runRule_later (depth : Nat) (r : Rule) (s : ParserState) :
    Later s (runRule depth r s).2 := by
  induction depth generalizing r s with
  | zero => exact .exhaust s
  | succ depth ih => exact run_later ih r.grammar s

/-! ## Runs -/

variable {tokens : List Token}

/-- What the run lemma asks of named forms: each goes on from the state it starts in, and leaves the
node around it in the standing that is said of it, unless the parser is stopped. -/
structure Heeds (tokens : List Token) (call : Rule → ParserState → Bool × ParserState) : Prop where
  later : ∀ r s, Later s (call r s).2
  stands : ∀ r m s c fs, Stands tokens m s c fs → (call r s).2.exhausted = false →
    ∃ d, Stands tokens (r.after (call r s).1 m) (call r s).2 d fs

/-- A repetition keeps the standing that its rounds keep. -/
theorem repeatStep_stands {round : σ → ParserState → (σ × Bool) × ParserState} {m : Standing}
    {fs : List OpenNode} (hlater : ∀ x s, Later s (round x s).2)
    (hround : ∀ x s c, Stands tokens m s c fs → (round x s).2.exhausted = false →
      ∃ d, Stands tokens m (round x s).2 d fs)
    (n : Nat) (x : σ) {s : ParserState} {c : Contents} (h : Stands tokens m s c fs)
    (hend : (repeatStep round n x s).2.exhausted = false) :
    ∃ d, Stands tokens m (repeatStep round n x s).2 d fs :=
  repeatStep_ends (I := fun _ s => ∃ c, Stands tokens m s c fs) (J := fun _ s => ∃ c, Stands tokens m s c fs)
    hlater (fun x s ⟨c, hs⟩ hrunning _ => hround x s c hs hrunning)
    (fun x s ⟨c, hs⟩ hrunning _ => hround x s c hs hrunning) n x ⟨c, h⟩ hend

/-- Behind a run that is not stopped, the standing is one that the grammar promises. -/
theorem run_stands (hlast : Crisp tokens tokens.length) (hcall : Heeds tokens call)
    (g : Grammar α) {P : α → UpperSet Standing} {m : Standing} (hg : m ∈ g.wp P) {s : ParserState}
    {c : Contents} {fs : List OpenNode} (h : Stands tokens m s c fs)
    (hend : (g.run call s).2.exhausted = false) :
    ∃ d m', Stands tokens m' (g.run call s).2 d fs ∧ m' ∈ P (g.run call s).1 := by
  induction g generalizing m s c fs with
  | pure a => exact ⟨c, m, h, hg⟩
  | bind g f ihg ihf =>
    have hmid := (run_later hcall.later (f (g.run call s).1) (g.run call s).2).running hend
    obtain ⟨d, m', hd, hm'⟩ := ihg hg h hmid
    exact ihf _ hm' hd hend
  | ahead => exact ⟨c, m, h, mem_wp_ahead.1 hg s.rest⟩
  | advance =>
    obtain ⟨n, hn⟩ := h.advance hlast
    exact ⟨_, m.taken, hn, hg⟩
  | report fault => exact ⟨c, m.blamed, h.report fault, hg⟩
  | reportFrom fault origin note =>
    exact ⟨c, m.blamed, h.blame rfl rfl (List.subset_cons_self _ _) ⟨_, List.mem_cons_self, rfl⟩, hg⟩
  | node body ih =>
    rw [mem_wp_node] at hg
    obtain ⟨n, hopen, hbegins⟩ := h.openNode
    have hlater := (Later.openNode s).trans (run_later hcall.later body s.openNode)
    rw [run] at hend ⊢
    split at hend
    · next k a s' heq =>
      obtain ⟨e, m', he, hm'⟩ := ih hg.1 hopen (by rw [heq]; exact hend)
      rw [heq] at he hm' hlater
      exact ⟨_, m.closed, h.close_of_later hlast hlater he (fun _ hl => Tidy.childKinds_pad n ▸ hl)
        (.inl (he.settled hm'.1)) hm'.2.1 hm'.2.2 hbegins, hg.2 a⟩
    · next a s' heq =>
      obtain ⟨e, m', he, hm'⟩ := ih hg.1 hopen (by rw [heq]; exact hend)
      rw [heq] at hm'
      cases hm'
  | wrap body ih =>
    obtain ⟨hm, hbody, hP⟩ := mem_wp_wrap.1 hg
    obtain ⟨hwrap, hbegins, hkinds⟩ := h.wrap hm
    have hlater := (Later.record s .wrap).trans (run_later hcall.later body (s.record .wrap))
    obtain ⟨e, m', he, hm'⟩ := ih hbody hwrap hend
    exact ⟨_, m.closed, h.close_of_later hlast hlater he hkinds (.inl (he.settled hm'.1)) hm'.2.1
      hm'.2.2 hbegins, hP⟩
  | iterate init body ih =>
    obtain ⟨i, hi, hround, hP⟩ := hg
    obtain ⟨d, hd⟩ := repeatStep_stands (fun x s => run_later hcall.later (body x) s)
      (fun x s c hs hx => by
        obtain ⟨d, m', hd, hle⟩ := ih x (hround x) hs hx
        exact ⟨d, hd.mono hle⟩) _ init (h.mono hi) hend
    exact ⟨d, i, hd, hP _⟩
  | call r =>
    obtain ⟨d, hd⟩ := hcall.stands r m s c fs h hend
    exact ⟨d, _, hd, mem_wp_call.1 hg _⟩

end Grammar

end Reshape
