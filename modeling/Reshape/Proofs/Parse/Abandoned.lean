import Mathlib.Data.List.TakeWhile
import Reshape.Proofs.Parse.Stands

/-!
# Forms that may be abandoned

Two forms open a node before they know that it is one. A bound that turns out to be none leaves
nothing behind, an item that turns out to be none leaves the qualifiers of a function that it took.

* `exists_bound_eq` and `exists_itemBody_eq` say what the inside of such a node does: it is closed as a
  node that may be closed, or it is abandoned and did no more than that.
* `stands_bounds` and `stands_item` say where this leaves the node around it. In a list of bounds the
  trivia behind the last plus sign may end up in the list, without anything behind them.
* `heeds_runRule` adds them to the other named forms, by induction on the depth of names inside names.
-/

namespace Reshape

open Standing

/-- The standings behind the inside of a node that may be abandoned, whose answer is that it was not. -/
def closableIf : Option NodeKind × Bool → UpperSet Standing
  | (some k, true) => closable k
  | (none, false) => ⊥
  | _ => ⊤

/-! ## Tokens that are passed over -/

theorem Hangs.pad {tokens : List Token} {i n k : Nat} (h : Hangs tokens i n)
    (htrivia : ∀ u ∈ (tokens.drop (i + n)).take k, u.isTrivia = true) : Hangs tokens i (n + k) := by
  have hnil : significant ((tokens.drop (i + n)).take k) = [] := by
    simpa [significant] using htrivia
  rw [Hangs, List.take_add, List.drop_drop, significant, List.filter_append, ← significant,
    ← significant, hnil, List.append_nil]
  exact h

theorem hangs_of_take {tokens trivia : List Token} {i n k : Nat} {t : Token}
    (h : (tokens.drop (i + n)).take k = trivia ++ [t]) (ht : t.kind = .plus) :
    Hangs tokens i (n + k) := by
  have hsignificant : t.isTrivia = false := by simp [Token.isTrivia, ht, TokenKind.isTrivia]
  rw [Hangs, List.take_add, List.drop_drop, h, significant, List.filter_append, List.filter_append]
  simp [hsignificant, ht]

theorem tokenAt?_zero (ts : List Token) : tokenAt? 0 ts = (fromSignificant ts).head? := by
  induction ts with
  | nil => rfl
  | cons t ts ih =>
    by_cases ht : t.isTrivia = true
    · simpa [tokenAt?, fromSignificant, ht] using ih
    · simp [tokenAt?, fromSignificant, ht]

namespace ParserState

open OpenNode

variable {tokens : List Token} {ok : Token → Bool} {m : Standing} {s t u : ParserState} {c : Contents}
  {f : OpenNode} {fs : List OpenNode} {k n : Nat}

/-- A parser does nothing but step over significant tokens of a class. -/
inductive Passes (ok : Token → Bool) (s : ParserState) : ParserState → Prop
  | refl : Passes ok s s
  | advance {t : ParserState} : Passes ok s t → (∀ u ∈ nextToken? t.rest, ok u = true) →
    Passes ok s t.advance

/-- The tokens that a parser steps over with the next significant one. -/
theorem Follows.take_advance (h : Follows tokens s c fs) (h' : Follows tokens s.advance (c.pad k) fs) :
    (tokens.drop (c.tokenCount + tokensBefore fs)).take k =
      s.rest.takeWhile (·.isTrivia) ++ (nextToken? s.rest).toList := by
  have hrest := h.rest_eq
  have hrest' := h'.rest_eq
  rw [rest_advance, Contents.tokenCount_pad, Nat.add_right_comm] at hrest'
  have hsplit : s.rest.takeWhile (·.isTrivia) ++ fromSignificant s.rest = s.rest :=
    List.takeWhile_append_dropWhile
  have hhead : (nextToken? s.rest).toList ++ (fromSignificant s.rest).tail = fromSignificant s.rest := by
    rw [nextToken?]
    cases fromSignificant s.rest <;> rfl
  refine take_drop_of_append ?_ hrest'.symm
  rw [← hrest, List.append_assoc, hhead, hsplit]

/-- The tokens before a node that is opened are trivia. -/
theorem Follows.isTrivia_openNode (hs : s.ops ≠ []) (h : Follows tokens s c fs)
    (h' : Follows tokens s.openNode .nothing (⟨c.pad n, none⟩ :: fs)) :
    ∀ u ∈ (tokens.drop (c.tokenCount + tokensBefore fs)).take n, u.isTrivia = true := by
  have hops : s.ops.isEmpty = false := by simpa using hs
  have hrest := h'.rest_eq
  have hopen : s.openNode.rest = fromSignificant s.rest := by
    simp [ParserState.openNode, hops, ParserState.skipTrivia]
  rw [hopen, tokensBefore, tokenCount, Contents.tokenCount_pad, Contents.tokenCount, Nat.zero_add,
    Nat.add_zero, Nat.add_right_comm] at hrest
  have hsplit : s.rest.takeWhile (·.isTrivia) ++ fromSignificant s.rest = s.rest :=
    List.takeWhile_append_dropWhile
  rw [take_drop_of_append (h.rest_eq.symm.trans hsplit.symm) hrest.symm]
  exact fun u hu => List.mem_takeWhile_imp hu

/-- What a parser passes over is in the node, and is trivia or of the class. -/
theorem Passes.stands (hlast : Crisp tokens tokens.length) (h : Passes ok s t)
    (hs : Stands tokens m s c fs) :
    ∃ n, Stands tokens m.loose t (c.pad n) fs ∧
      (n = 0 ∨ Crisp tokens ((c.pad n).tokenCount + tokensBefore fs)) ∧
      ∀ u ∈ (tokens.drop (c.tokenCount + tokensBefore fs)).take n, u.isTrivia = true ∨ ok u = true := by
  induction h with
  | refl => exact ⟨0, hs.mono (by simp), .inl rfl, by simp⟩
  | @advance t h hok ih =>
    obtain ⟨n, hn, -, htokens⟩ := ih
    obtain ⟨k, hk⟩ := hn.advance hlast
    have htake := hn.follows.take_advance hk.follows
    have hcrisp : Crisp tokens (((c.pad n).pad k).tokenCount + tokensBefore fs) :=
      crisp_of_drop_tail hlast
        (hk.follows.rest_eq.symm.trans (hn.follows.rest_eq ▸ rest_advance t))
    rw [Contents.tokenCount_pad, Nat.add_right_comm] at htake
    rw [Contents.pad_pad] at hk hcrisp
    refine ⟨n + k, hk.mono (by simp), .inr hcrisp, ?_⟩
    intro u hu
    rw [List.take_add, List.drop_drop, htake] at hu
    simp only [List.mem_append, Option.mem_toList] at hu
    obtain hu | hu | hu := hu
    · exact htokens u hu
    · exact .inl (List.mem_takeWhile_imp hu)
    · exact .inr (hok u hu)

/-- A node that is abandoned with nothing in it leaves the trivia before it. -/
theorem Stands.abandon {m' : Standing} (h : Stands tokens m' s .nothing (⟨c, none⟩ :: fs))
    (hspotless : m.spotless = true → s.problems = [] → .errorNode ∉ childKinds c fs)
    (hreported : m.reported = true → s.problems ≠ []) :
    Stands tokens m.loose (s.record .abandon) c fs where
  follows := h.follows.record_abandon
  begun := by simp [record]
  snug := by
    have hsnug := h.snug
    simpa [Contents.tokenCount, tokensBefore, tokenCount] using hsnug
  inside := h.around.1
  around := h.around.2.2
  settled := fun hm => by cases hm
  ended := fun hm => by cases hm
  spotless := hspotless
  reported := hreported

/-- A node that is abandoned with qualifiers in it leaves an error. -/
theorem Stands.abandonQualifiers {m' : Standing}
    (h : Stands tokens m' s (.pad .nothing n) (⟨c, none⟩ :: fs)) (hn : n ≠ 0)
    (hcrisp : Crisp tokens ((Contents.nothing.pad n).tokenCount + tokensBefore (⟨c, none⟩ :: fs)))
    (hbegins : fromSignificant (tokens.drop (place ⟨c, none⟩ fs)) = tokens.drop (place ⟨c, none⟩ fs))
    (htokens : ∀ u ∈ (tokens.drop (place ⟨c, none⟩ fs)).take n, u.isTrivia = true ∨ u.qualifies = true)
    (hreported : m.reported = true → s.problems ≠ []) :
    Stands tokens m.unsure (s.record .abandon) (c.node (.plain .errorNode (.pad .nothing n))) fs := by
  have hevents : (Contents.nothing.pad n).eventCount ≠ 0 := by
    cases n with
    | zero => exact absurd rfl hn
    | succ n => simp [Contents.pad, Contents.eventCount]
  have hfollows := h.follows.record_abandon
  rw [if_neg hevents] at hfollows
  have hcount : (c.node (.plain .errorNode (.pad .nothing n))).tokenCount + tokensBefore fs =
      (Contents.nothing.pad n).tokenCount + tokensBefore (⟨c, none⟩ :: fs) := by
    simp only [Contents.tokenCount, Sketch.tokenCount, tokensBefore, tokenCount]
    omega
  have htotal : (Sketch.plain .errorNode (.pad .nothing n)).tokenCount = n := by
    simp [Sketch.tokenCount, Contents.tokenCount]
  have hplace : place ⟨c, none⟩ fs + n =
      (Contents.nothing.pad n).tokenCount + tokensBefore (⟨c, none⟩ :: fs) := by
    simp only [Contents.tokenCount_pad, Contents.tokenCount, tokensBefore, tokenCount, place]
    omega
  have hneat : (Sketch.plain .errorNode (.pad .nothing n)).Neat tokens s.problems
      (place ⟨c, none⟩ fs) := by
    refine ⟨hbegins, .inr (.inl ?_), fun _ _ => ⟨by simp [Sketch.childKinds, Contents.kinds], ?_⟩, ?_⟩
    · rwa [htotal, hplace]
    · rwa [htotal]
    · simp [Sketch.childKinds, Contents.kinds]
  refine ⟨hfollows, by simp [record], ?_, ⟨h.around.1, hneat, Contents.each_pad.2 trivial⟩,
    h.around.2.2, fun hm => ?_, fun hm => ?_, fun hm => ?_, hreported⟩
  · rw [hcount]
    exact .inl hcrisp
  · cases hm
  · cases hm
  · cases hm

end ParserState

namespace Grammar

open ParserState OpenNode

variable {tokens : List Token} {call : Rule → ParserState → Bool × ParserState} {m : Standing}
  {s : ParserState} {c : Contents} {fs : List OpenNode}

section

variable (call) (s : ParserState)

@[simp] theorem run_advance : advance.run call s = ((), s.advance) := rfl

@[simp] theorem run_peek (n : Nat) : (peek n).run call s = (kindAt n s.rest, s) := rfl

@[simp] theorem run_test (p : List Token → Bool) : (test p).run call s = (p s.rest, s) := rfl

theorem run_eat (k : TokenKind) : (eat k).run call s =
    if kindAt 0 s.rest = k then (true, s.advance) else (false, s) := by
  by_cases h : kindAt 0 s.rest = k
  · simp [eat, h]
  · simp [eat, h]

end

/-- A loop that is not stopped ends as its last round does, if the rounds before keep what holds. -/
theorem run_loop (hlater : ∀ r s, Later s (call r s).2) {body : Grammar Bool}
    {I J : ParserState → Prop}
    (hmore : ∀ s, I s → (body.run call s).2.exhausted = false → (body.run call s).1 = true →
      I (body.run call s).2)
    (hstop : ∀ s, I s → (body.run call s).2.exhausted = false → (body.run call s).1 = false →
      J (body.run call s).2)
    (h : I s) (hend : ((loop body).run call s).2.exhausted = false) :
    J ((loop body).run call s).2 :=
  repeatStep_ends (I := fun _ s => I s) (J := fun _ s => J s) (fun _ s => run_later hlater body s)
    (fun _ s => hmore s) (fun _ s => hstop s) _ () h hend

/-! ## Bounds -/

/-- A bound is closed if it is one, and nothing is read if it is none. -/
theorem exists_bound_eq : ∃ body, bound = node body ∧
    (∀ m : Standing, m.opened ∈ body.wp closableIf) ∧
    ∀ call s, (body.run call s).1 = (none, false) → (body.run call s).2 = s := by
  refine ⟨_, rfl, fun m => ?_, fun call s h => ?_⟩
  · rw [mem_wp_bind, mem_wp_peek]
    intro ts
    split <;> simp [closableIf, mem_wp_optForBinder]
  · revert h
    rw [run_bind, run_peek]
    dsimp only
    split
    · simp
    · simp
    · simp
    · simp
    · rw [run_bind, run_test]
      dsimp only
      split <;> simp

/-! ## Items -/

section

variable {round : Bool → ParserState → (Bool × Bool) × ParserState}

/-- A repetition whose rounds read something, or end it and do no more, goes on to say that something was
read. -/
theorem repeatStep_true (hround : ∀ x s, round x s = ((x, false), s) ∨ (round x s).1 = (true, true))
    (n : Nat) (s : ParserState) : (repeatStep round n true s).1 = true := by
  refine repeatStep_keeps (I := fun x _ => x = true) (fun x s hx => ?_) (fun _ _ hx => hx) n true
    (s := s) rfl
  obtain h | h := hround x s <;> rw [h]
  exact hx

/-- If such a repetition says that nothing was read, it did nothing. -/
theorem repeatStep_of_false
    (hround : ∀ x s, round x s = ((x, false), s) ∨ (round x s).1 = (true, true)) {n : Nat}
    {s : ParserState} (h : (repeatStep round (n + 1) false s).1 = false) :
    (repeatStep round (n + 1) false s).2 = s := by
  rw [repeatStep] at h ⊢
  obtain hstop | hmore := hround false s
  · rw [hstop]
  · split at h
    · next y s' heq =>
      rw [heq] at hmore
      cases hmore
      rw [repeatStep_true hround] at h
      cases h
    · next y s' heq =>
      rw [heq] at hmore
      cases hmore

end

/-- Attributes that are not there leave no trace. -/
theorem run_outerAttributes_of_false (h : (outerAttributes.run call s).1 = false) :
    (outerAttributes.run call s).2 = s := by
  refine repeatStep_of_false (fun any s => ?_) h
  by_cases hat : kindAt 0 s.rest = .pound ∧ kindAt 1 s.rest = .lBracket
  · right
    simp [hat]
  · left
    simp [hat]

theorem run_optVisibility_of_false (h : (optVisibility.run call s).1 = false) :
    (optVisibility.run call s).2 = s := by
  revert h
  rw [optVisibility, run_bind, run_isAt]
  dsimp only
  split <;> simp

theorem run_bareItem?_of_none (h : (bareItem?.run call s).1 = none) :
    (bareItem?.run call s).2 = s := by
  revert h
  rw [bareItem?, run_bind, run_peek]
  dsimp only
  split
  case h_11 =>
    rw [run_bind, run_peek]
    dsimp only
    split <;> simp
  case h_12 =>
    rw [run_bind, run_test, run_bind, run_peek]
    dsimp only
    split
    · simp
    · rw [run_bind, run_test]
      dsimp only
      split <;> simp
  all_goals simp

theorem kindAt_of_mem_nextToken? {ts : List Token} {t : Token} (h : t ∈ nextToken? ts) :
    kindAt 0 ts = t.kind ∧ textAt 0 ts = t.text := by
  rw [nextToken?, ← tokenAt?_zero] at h
  rw [kindAt, textAt, h]
  exact ⟨rfl, rfl⟩

theorem qualifies_of_qualifierAhead {ts : List Token} {t : Token} (h : qualifierAhead ts = true)
    (ht : t ∈ nextToken? ts) : t.qualifies = true := by
  obtain ⟨hkind, htext⟩ := kindAt_of_mem_nextToken? ht
  simp only [qualifierAhead, contextualAhead, hkind, htext, Bool.or_eq_true, Bool.and_eq_true,
    beq_iff_eq] at h
  rw [Token.qualifies, decide_eq_true_iff]
  tauto

/-- The qualifiers of a function are passed over. -/
theorem passes_qualifiers (hlater : ∀ r s, Later s (call r s).2)
    (h : (qualifiers.run call s).2.exhausted = false) :
    Passes Token.qualifies s (qualifiers.run call s).2 := by
  have hround : ∀ t, Passes Token.qualifies s t → Passes Token.qualifies s (run call (do
      if ← test qualifierAhead then
        let abi ← test (contextualAhead "extern")
        advance
        if abi then
          let _ ← eat .stringLiteral
        return true
      else return false) t).2 := by
    intro t ht
    by_cases hq : qualifierAhead t.rest = true
    · have hadvance := ht.advance fun u hu => qualifies_of_qualifierAhead hq hu
      have heat : Passes Token.qualifies s ((eat .stringLiteral).run call t.advance).2 := by
        rw [run_eat]
        split
        · next hat =>
          refine hadvance.advance fun u hu => ?_
          rw [(kindAt_of_mem_nextToken? hu).1] at hat
          simp [Token.qualifies, hat]
        · exact hadvance
      by_cases habi : contextualAhead "extern" t.rest = true
      · simpa [hq, habi] using heat
      · simpa [hq, habi] using hadvance
    · simpa [hq] using ht
  exact run_loop hlater (I := Passes Token.qualifies s) (J := Passes Token.qualifies s)
    (fun t ht _ _ => hround t ht) (fun t ht _ _ => hround t ht) .refl h

/-- An item is closed if it is one, and only qualifiers are read if it is none. -/
theorem exists_itemBody_eq : ∃ body, itemBody = node body ∧
    (∀ m : Standing, m.opened ∈ body.wp closableIf) ∧
    ∀ call s, (∀ r s, Later s (call r s).2) → (body.run call s).1 = (none, false) →
      (body.run call s).2.exhausted = false → Passes Token.qualifies s (body.run call s).2 := by
  refine ⟨_, rfl, fun m => ?_, fun call s hlater h hend => ?_⟩
  · rw [mem_wp_bind, mem_wp_outerAttributes]
    intro attributed
    rw [mem_wp_bind, mem_wp_optVisibility]
    refine ⟨UpperSet.upper _ (by simp) (?_ : m.opened ∈ Grammar.wp _ closableIf), ?_⟩
    all_goals
      rw [mem_wp_bind, mem_wp_qualifiers (by simp), mem_wp_bind]
      refine mem_wp_bareItem? ?_ fun k hk => ?_
      · cases attributed <;> simp [closableIf]
      · simp [closableIf, hk]
  · have hattributed : (outerAttributes.run call s).1 = false → (outerAttributes.run call s).2 = s :=
      run_outerAttributes_of_false
    have hvisible : (optVisibility.run call (outerAttributes.run call s).2).1 = false →
        (optVisibility.run call (outerAttributes.run call s).2).2 = (outerAttributes.run call s).2 :=
      run_optVisibility_of_false
    revert h hend
    simp only [run_bind]
    generalize outerAttributes.run call s = x at *
    obtain ⟨attributed, s₁⟩ := x
    dsimp only at *
    generalize optVisibility.run call s₁ = y at *
    obtain ⟨visible, s₂⟩ := y
    dsimp only at *
    have hpasses := passes_qualifiers (s := s₂) hlater
    generalize (qualifiers.run call s₂).2 = s₃ at *
    have hbare : (bareItem?.run call s₃).1 = none → (bareItem?.run call s₃).2 = s₃ :=
      run_bareItem?_of_none
    generalize bareItem?.run call s₃ = z at *
    obtain ⟨_ | k, s₄⟩ := z
    · dsimp only at *
      cases attributed <;> cases visible <;> simp
      obtain rfl := hbare rfl
      obtain rfl := hvisible rfl
      obtain rfl := hattributed rfl
      exact hpasses
    · simp

/-! ## Where these forms leave a node -/

/-- A node that may be abandoned is closed, or abandoned as its inside left it. -/
theorem run_node_closableIf (hlast : Crisp tokens tokens.length) (hcall : Heeds tokens call)
    {body : Grammar (Option NodeKind × Bool)} (hbody : m.opened ∈ body.wp closableIf)
    (h : Stands tokens m s c fs) (hend : ((node body).run call s).2.exhausted = false) :
    (((node body).run call s).1 = true ∧ ∃ d, Stands tokens m.closed ((node body).run call s).2 d fs) ∨
      ((body.run call s.openNode).1 = (none, false) ∧
        (body.run call s.openNode).2.exhausted = false ∧
        (node body).run call s = (false, (body.run call s.openNode).2.record .abandon)) := by
  obtain ⟨n, hopen, hbegins⟩ := h.openNode
  have hlater := (Later.openNode s).trans (run_later hcall.later body s.openNode)
  have hstands := run_stands hlast hcall body hbody hopen
  rw [run] at hend ⊢
  generalize run call body s.openNode = x at *
  obtain ⟨⟨_ | k, _ | _⟩, t⟩ := x
  · exact .inr ⟨rfl, hend, rfl⟩
  · obtain ⟨e, m', he, hm'⟩ := hstands hend
    cases hm'
  · obtain ⟨e, m', he, hm'⟩ := hstands hend
    cases hm'
  · obtain ⟨e, m', he, hm'⟩ := hstands hend
    exact .inl ⟨rfl, _, h.close_of_later hlast hlater he (fun _ hl => Tidy.childKinds_pad n ▸ hl)
      (.inl (he.settled hm'.1)) hm'.2.1 hm'.2.2 hbegins⟩

/-- A round of a list of bounds: there is a bound and a plus sign behind it, or the list ends. -/
theorem stands_bound (hlast : Crisp tokens tokens.length) (hcall : Heeds tokens call)
    (h : Stands tokens m s c fs) (hend : (bound.run call s).2.exhausted = false) :
    ((bound.run call s).1 = true ∧ ∃ d, Stands tokens m.closed (bound.run call s).2 d fs) ∨
      ((bound.run call s).1 = false ∧ ∃ n, Stands tokens m.loose (bound.run call s).2 (c.pad n) fs ∧
        ∀ u ∈ (tokens.drop (c.tokenCount + tokensBefore fs)).take n, u.isTrivia = true) := by
  obtain ⟨body, hbound, hwp, hnone⟩ := exists_bound_eq
  rw [hbound] at hend ⊢
  obtain hclosed | ⟨hvalue, -, hrun⟩ := run_node_closableIf hlast hcall (hwp m) h hend
  · exact .inl hclosed
  · right
    obtain ⟨n, hopen, -⟩ := h.openNode
    rw [hrun, hnone call s.openNode hvalue]
    refine ⟨rfl, n, hopen.abandon ?_ ?_, h.follows.isTrivia_openNode h.begun hopen.follows⟩
    · intro hm hnil
      rw [Tidy.childKinds_pad]
      exact h.spotless hm ((Later.openNode s).problems hnil)
    · exact fun hm hnil => h.reported hm ((Later.openNode s).problems hnil)

/-- What holds between the rounds of a list of bounds: it is at its start, or behind a plus sign. -/
def AtBound (tokens : List Token) (m : Standing) (fs : List OpenNode) (s : ParserState) : Prop :=
  ∃ c, Stands tokens m.loose s c fs ∧ Hangs tokens (tokensBefore fs) c.tokenCount

/-- What holds behind the last round: the list may end, or a bound could follow. -/
def BehindBounds (tokens : List Token) (m : Standing) (fs : List OpenNode) (s : ParserState) : Prop :=
  ∃ c, Stands tokens m.loose s c fs ∧
    (Settled tokens s c fs ∨ Hangs tokens (tokensBefore fs) c.tokenCount)

/-- A round of a list of bounds reads one and a plus sign behind it, or is the last one. -/
theorem stands_boundRound (hlast : Crisp tokens tokens.length) (hcall : Heeds tokens call)
    (h : AtBound tokens m fs s)
    (hend : (run call (do if ← bound then eat .plus else return false) s).2.exhausted = false) :
    ((run call (do if ← bound then eat .plus else return false) s).1 = true →
      AtBound tokens m fs (run call (do if ← bound then eat .plus else return false) s).2) ∧
    ((run call (do if ← bound then eat .plus else return false) s).1 = false →
      BehindBounds tokens m fs (run call (do if ← bound then eat .plus else return false) s).2) := by
  obtain ⟨c, hc, hhangs⟩ := h
  have hmid := (run_later hcall.later (do
    if (bound.run call s).1 then eat .plus else return false : Grammar Bool) _).running hend
  rw [run_bind] at hend ⊢
  obtain ⟨hfound, d, hd⟩ | ⟨hfound, n, hn, htrivia⟩ := stands_bound hlast hcall hc hmid
  · rw [if_pos hfound, run_eat]
    split
    · next hat =>
      refine ⟨fun _ => ?_, fun hstop => by cases hstop⟩
      obtain ⟨k, hk⟩ := hd.advance hlast
      have htake := hd.follows.take_advance hk.follows
      obtain ⟨t, ht⟩ : ∃ t, nextToken? (bound.run call s).2.rest = some t := by
        rw [← Option.ne_none_iff_exists', nextToken?, ← tokenAt?_zero]
        intro hnone
        simp [kindAt, hnone] at hat
      rw [ht, Option.toList_some, Nat.add_comm] at htake
      refine ⟨d.pad k, hk.mono (by simp), ?_⟩
      rw [Contents.tokenCount_pad]
      exact hangs_of_take htake ((kindAt_of_mem_nextToken? ht).1.symm.trans hat)
    · exact ⟨fun hmore => (by cases hmore), fun _ => ⟨d, hd.mono (by simp), .inl (hd.settled rfl)⟩⟩
  · rw [if_neg (by simp [hfound]), run_pure]
    refine ⟨fun hmore => (by cases hmore), fun _ => ⟨c.pad n, hn, .inr ?_⟩⟩
    rw [Contents.tokenCount_pad]
    rw [Nat.add_comm] at htrivia
    exact hhangs.pad htrivia

/-- Behind a list of bounds, nothing is between the last plus sign and the next significant token. -/
theorem stands_bounds (hlast : Crisp tokens tokens.length) (hcall : Heeds tokens call)
    (h : Stands tokens m s c fs) (hend : (boundsBody.run call s).2.exhausted = false) :
    ∃ d, Stands tokens m.closed (boundsBody.run call s).2 d fs := by
  obtain ⟨n, hopen, hbegins⟩ := h.openNode
  have hrun : (boundsBody.run call s).2 = ((loop do
      if ← bound then eat .plus
      else return false).run call s.openNode).2.record (.close .typeBoundList) := rfl
  have hlater := (Later.openNode s).trans (run_later hcall.later (loop do
      if ← bound then eat .plus
      else return false) s.openNode)
  rw [hrun] at hend ⊢
  have hstart : AtBound tokens m.opened (⟨c.pad n, none⟩ :: fs) s.openNode :=
    ⟨.nothing, hopen, by simp [Hangs, Contents.tokenCount, significant]⟩
  obtain ⟨e, he, hends⟩ := run_loop hcall.later (J := BehindBounds tokens m.opened _)
    (fun t ht hend => (stands_boundRound hlast hcall ht hend).1)
    (fun t ht hend => (stands_boundRound hlast hcall ht hend).2) hstart hend
  have hplace : tokensBefore (⟨c.pad n, none⟩ :: fs) = place ⟨c.pad n, none⟩ fs := by
    simp [place, tokensBefore, tokenCount, Nat.add_comm]
  rw [hplace] at hends
  exact ⟨_, h.close_of_later hlast hlater he (fun _ hl => Tidy.childKinds_pad n ▸ hl)
    (hends.imp_right .list) (.inr rfl) (fun hk => by cases hk) hbegins⟩

/-- An item that is none may leave an error behind. -/
theorem stands_item (hlast : Crisp tokens tokens.length) (hcall : Heeds tokens call)
    (h : Stands tokens m s c fs) (hend : (itemBody.run call s).2.exhausted = false) :
    ∃ d, Stands tokens (Rule.item.after (itemBody.run call s).1 m) (itemBody.run call s).2 d fs := by
  obtain ⟨body, hbody, hwp, hnone⟩ := exists_itemBody_eq
  rw [hbody] at hend ⊢
  obtain ⟨hfound, hclosed⟩ | ⟨hvalue, hrunning, hrun⟩ := run_node_closableIf hlast hcall (hwp m) h hend
  · rw [hfound]
    exact hclosed
  · obtain ⟨n, hopen, hbegins⟩ := h.openNode
    have hlater := (Later.openNode s).trans (run_later hcall.later body s.openNode)
    have hreported : m.reported = true → (body.run call s.openNode).2.problems ≠ [] :=
      fun hm hnil => h.reported hm (hlater.problems hnil)
    obtain ⟨k, hk, hcrisp, htokens⟩ :=
      (hnone call s.openNode hcall.later hvalue hrunning).stands hlast hopen
    rw [hrun]
    by_cases hzero : k = 0
    · subst hzero
      refine ⟨c.pad n, hk.abandon (m := m.unsure) ?_ hreported⟩
      intro hm
      cases hm
    · refine ⟨_, hk.abandonQualifiers hzero (hcrisp.resolve_left hzero) hbegins ?_ hreported⟩
      simpa [Contents.tokenCount, tokensBefore, tokenCount, place, Nat.add_comm] using htokens

/-- The named forms do what is said of them, however deep names are nested. -/
theorem heeds_runRule (hlast : Crisp tokens tokens.length) (depth : Nat) :
    Heeds tokens (runRule depth) where
  later := runRule_later depth
  stands := by
    induction depth with
    | zero => exact fun r m s c fs h hend => by cases hend
    | succ depth ih =>
      have hcall : Heeds tokens (runRule depth) := ⟨runRule_later depth, ih⟩
      intro r m s c fs h hend
      rw [runRule] at hend ⊢
      by_cases hbounds : r = .bounds
      · subst hbounds
        rw [Rule.grammar, run_bind] at hend ⊢
        exact stands_bounds hlast hcall h hend
      · by_cases hitem : r = .item
        · subst hitem
          rw [Rule.grammar] at hend ⊢
          exact stands_item hlast hcall h hend
        · obtain ⟨d, m', hd, hle⟩ :=
            run_stands hlast hcall r.grammar (r.wp_grammar hbounds hitem) h hend
          exact ⟨d, hd.mono hle⟩

end Grammar

end Reshape
