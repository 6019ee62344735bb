import Reshape.Proofs.Grammar.Productions
import Reshape.Proofs.Parse.Margins
import Reshape.Proofs.Parse.Termination

/-!
# Nodes of faultless parses are of their forms

`Grammar.Reaches` is about stages. A stage depicts what a parser has recorded, and a run that finds no
problem goes on from a stage as the judgement says. So every node of a file without problems fits.

* `Contents.constituents` and `Sketch.constituents` read off what stands in a node, given the tokens.
* `Sketch.Apt` says that a finished node fits. `ParserState.Depicts` says that all finished nodes do, and
  that a stage is right about the innermost open one. There is one lemma for each event
  (`Depicts.advance`, `Depicts.openNode`, `Depicts.finish`, `Depicts.wrap`).
* `Grammar.Runs.depicts` is the run lemma, by induction on the run.
* `Node.fits_of_below` is the result for the nodes of a file.
-/

namespace Reshape

/-! ## What stands in nodes -/

/-- What a token is to the node that it stands in. Trivia are nothing to it. -/
def Token.constituent? (t : Token) : Option Constituent :=
  if t.isTrivia then none else some (.token t.kind)

/-- What stands in contents that begin behind `i` tokens. -/
def Contents.constituents (tokens : List Token) (i : Nat) : Contents → List Constituent
  | .nothing => []
  | .token c => c.constituents tokens i ++ (tokens[i + c.tokenCount]?.bind (·.constituent?)).toList
  | .node c s => c.constituents tokens i ++ [.node s.kind]

/-- What stands in a node that begins behind `i` tokens. -/
def Sketch.constituents (tokens : List Token) (i : Nat) : Sketch → List Constituent
  | .plain _ c => c.constituents tokens i
  | .around _ s c => .node s.kind :: c.constituents tokens (i + s.tokenCount)

/-- No trivia come last in contents that begin behind `i` tokens. -/
def Contents.Flush (tokens : List Token) (i : Nat) : Contents → Prop
  | .token c => (∀ t ∈ tokens[i + c.tokenCount]?, t.isTrivia = false) ∧
      (tokens[i + c.tokenCount]? = none → c.Flush tokens i)
  | _ => True

/-- No trivia come last in a node that begins behind `i` tokens. -/
def Sketch.Flush (tokens : List Token) (i : Nat) : Sketch → Prop
  | .plain _ c => c.Flush tokens i
  | .around _ s c => c.Flush tokens (i + s.tokenCount)

/-- The kind of the last significant one of the first `n` tokens. -/
def lastKind (tokens : List Token) (n : Nat) : Option TokenKind :=
  ((significant (tokens.take n)).getLast?).map (·.kind)

section

variable {tokens : List Token} {c : Contents} {i n : Nat}

theorem Contents.constituents_pad : (c.pad n).constituents tokens i = c.constituents tokens i ++
    ((tokens.drop (i + c.tokenCount)).take n).filterMap (·.constituent?) := by
  induction n with
  | zero => simp [Contents.pad]
  | succ n ih =>
    rw [Contents.pad, Contents.constituents, ih, Contents.tokenCount_pad, List.take_add_one,
      List.filterMap_append, List.append_assoc, List.getElem?_drop, Nat.add_assoc]
    cases tokens[i + (c.tokenCount + n)]? <;> simp [Option.toList]
    split <;> simp_all

theorem Contents.flush_pad (hne : (tokens.drop (i + c.tokenCount)).take n ≠ [])
    (h : ∀ t ∈ ((tokens.drop (i + c.tokenCount)).take n).getLast?, t.isTrivia = false) :
    (c.pad n).Flush tokens i := by
  induction n with
  | zero => simp at hne
  | succ n ih =>
    rw [Contents.pad, Contents.Flush, Contents.tokenCount_pad, ← Nat.add_assoc, ← List.getElem?_drop]
    rw [List.take_add_one] at hne h
    refine ⟨fun t ht => h t (by simp [Option.mem_def.1 ht]), fun hnone => ?_⟩
    simp only [hnone, Option.toList_none, List.append_nil] at hne h
    exact ih hne h

theorem lastKind_add {between : List Token} (h : (tokens.drop i).take n = between) :
    lastKind tokens (i + n) =
      (((significant between).getLast?).map (·.kind)).or (lastKind tokens i) := by
  rw [lastKind, List.take_add, h, significant, List.filter_append, List.getLast?_append, lastKind,
    significant, significant, Option.map_or]

/-- What was ahead is trivia, the next token and what is ahead behind it. -/
theorem takeWhile_append_nextToken? (ts : List Token) :
    ts = (ts.takeWhile (·.isTrivia) ++ (nextToken? ts).toList) ++ (fromSignificant ts).tail := by
  have hsplit : ts.takeWhile (·.isTrivia) ++ fromSignificant ts = ts := List.takeWhile_append_dropWhile
  rw [List.append_assoc, nextToken?]
  cases hts : fromSignificant ts <;> rw [hts] at hsplit <;> simpa using hsplit.symm

theorem filterMap_constituent?_of_isTrivia {ts : List Token} (h : ∀ t ∈ ts, t.isTrivia = true) :
    ts.filterMap (·.constituent?) = [] :=
  List.filterMap_eq_nil_iff.2 fun t ht => if_pos (h t ht)

theorem significant_of_isTrivia {ts : List Token} (h : ∀ t ∈ ts, t.isTrivia = true) :
    significant ts = [] :=
  List.filter_eq_nil_iff.2 fun t ht => by simp [h t ht]

theorem isTrivia_of_mem_takeWhile {ts : List Token} :
    ∀ t ∈ ts.takeWhile (·.isTrivia), t.isTrivia = true :=
  fun _ ht => (List.mem_takeWhile_imp ht)

end

/-- A node that begins behind `i` tokens fits. Trivia do not stand both at its end and behind it. -/
structure Sketch.Apt (tokens : List Token) (i : Nat) (s : Sketch) : Prop where
  snug : Snug tokens (i + s.tokenCount)
  fits : ∃ t : Stage, Fits s.kind (kindAt 0 (tokens.drop i)) t ∧
    t.last = lastKind tokens (i + s.tokenCount) ∧ t.inside = s.constituents tokens i ∧
    (t.flush = true → s.Flush tokens i)

namespace OpenNode

/-- What stands in the innermost open node. -/
def constituents (tokens : List Token) (c : Contents) : List OpenNode → List Constituent
  | [] => c.constituents tokens 0
  | f :: fs => f.first.toList.map (fun s => .node s.kind) ++ c.constituents tokens (tokensBefore (f :: fs))

variable {tokens : List Token} {c : Contents} {f : OpenNode} {fs : List OpenNode} {k : NodeKind}

theorem constituents_append {d : Contents} {xs : List Constituent}
    (h : ∀ i, i = tokensBefore fs → d.constituents tokens i = c.constituents tokens i ++ xs) :
    constituents tokens d fs = constituents tokens c fs ++ xs := by
  cases fs with
  | nil => exact h 0 rfl
  | cons f fs => rw [constituents, constituents, h _ rfl, List.append_assoc]

theorem constituents_pad {n : Nat} : constituents tokens (c.pad n) fs = constituents tokens c fs ++
    ((tokens.drop (c.tokenCount + tokensBefore fs)).take n).filterMap (·.constituent?) := by
  refine constituents_append fun i hi => ?_
  rw [Contents.constituents_pad, hi, Nat.add_comm]

theorem constituents_node {last : Sketch} :
    constituents tokens (c.node last) fs = constituents tokens c fs ++ [.node last.kind] :=
  constituents_append fun _ _ => rfl

theorem constituents_finish :
    constituents tokens (f.finish k c) fs = constituents tokens f.before fs ++ [.node k] := by
  rw [finish_eq, constituents_node, kind_sketch]

theorem constituents_sketch :
    (f.sketch k c).constituents tokens (f.place fs) = constituents tokens c (f :: fs) := by
  obtain ⟨before, _ | s⟩ := f <;>
    simp [sketch, Sketch.constituents, constituents, place, tokensBefore, tokenCount, Nat.add_comm,
      Nat.add_left_comm, Nat.add_assoc]

theorem flush_sketch :
    (f.sketch k c).Flush tokens (f.place fs) ↔ c.Flush tokens (tokensBefore (f :: fs)) := by
  obtain ⟨before, _ | s⟩ := f <;>
    simp [sketch, Sketch.Flush, place, tokensBefore, tokenCount, Nat.add_comm, Nat.add_left_comm,
      Nat.add_assoc]

end OpenNode

/-! ## States of a parser -/

namespace ParserState

open OpenNode

variable {tokens : List Token} {s t : ParserState} {a b : Stage} {c d : Contents} {f : OpenNode}
  {fs : List OpenNode} {k : NodeKind}

/-- All nodes that a parser has finished fit, and a stage is right about the place that the parser has
reached and about the innermost open node. -/
structure Depicts (tokens : List Token) (a : Stage) (s : ParserState) (c : Contents)
    (fs : List OpenNode) : Prop where
  follows : s.Follows tokens c fs
  begun : s.ops ≠ []
  snug : Snug tokens (c.tokenCount + tokensBefore fs)
  ahead : a.ahead = s.rest
  last : a.last = lastKind tokens (c.tokenCount + tokensBefore fs)
  inside : a.inside = constituents tokens c fs
  flush : a.flush = true → c.Flush tokens (tokensBefore fs)
  closed : a.closed = true → ∃ d last, c = .node d last
  kept : c.Each (Sketch.Apt tokens) (tokensBefore fs)
  around : OpenNode.Each (Sketch.Apt tokens) fs

/-- The tokens between two states. -/
theorem Follows.take_eq {n : Nat} {between : List Token} (h : s.Follows tokens c fs)
    (h' : t.Follows tokens (c.pad n) fs) (heq : s.rest = between ++ t.rest) :
    (tokens.drop (c.tokenCount + tokensBefore fs)).take n = between := by
  refine take_drop_of_append (h.rest_eq.symm.trans heq) ?_
  rw [h'.rest_eq, Contents.tokenCount_pad, Nat.add_right_comm]

/-- Stepping over a token takes the trivia before it and that token. -/
theorem Follows.exists_advance (h : s.Follows tokens c fs) : ∃ n,
    s.advance.Follows tokens (c.pad n) fs ∧ s.advance.rest = (fromSignificant s.rest).tail ∧
      (tokens.drop (c.tokenCount + tokensBefore fs)).take n =
        s.rest.takeWhile (·.isTrivia) ++ (nextToken? s.rest).toList := by
  obtain ⟨n, hn⟩ := h.advance
  have hrest := rest_advance s
  exact ⟨n, hn, hrest, h.take_eq hn (hrest ▸ takeWhile_append_nextToken? s.rest)⟩

theorem ops_advance_ne_nil (h : s.ops ≠ []) : s.advance.ops ≠ [] := by
  rw [ParserState.advance, step]
  split <;> simp [skipTrivia, h]

/-- Opening a node leaves the trivia ahead to the node around it. -/
theorem Follows.exists_openNode (h : s.Follows tokens c fs) (hbegun : s.ops ≠ []) : ∃ n,
    s.openNode.Follows tokens .nothing (⟨c.pad n, none⟩ :: fs) ∧
      s.openNode.rest = fromSignificant s.rest ∧
      (tokens.drop (c.tokenCount + tokensBefore fs)).take n = s.rest.takeWhile (·.isTrivia) ∧
      place ⟨c.pad n, none⟩ fs = c.tokenCount + tokensBefore fs + n ∧
      tokens.drop (c.tokenCount + tokensBefore fs + n) = fromSignificant s.rest := by
  obtain ⟨n, hn⟩ := h.openNode
  have hops : s.ops.isEmpty = false := by simpa using hbegun
  have hrest : s.openNode.rest = fromSignificant s.rest := by
    simp [ParserState.openNode, hops, ParserState.skipTrivia]
  have hplace : place ⟨c.pad n, none⟩ fs = c.tokenCount + tokensBefore fs + n := by
    simp only [place, Contents.tokenCount_pad]
    omega
  have hdrop : tokens.drop (c.tokenCount + tokensBefore fs + n) = fromSignificant s.rest := by
    rw [← hrest, hn.rest_eq, ← hplace, Contents.tokenCount, tokensBefore, tokenCount, place,
      Nat.zero_add, Nat.add_zero, Nat.add_comm]
  refine ⟨n, hn, hrest, take_drop_of_append ?_ hdrop, hplace, hdrop⟩
  rw [← h.rest_eq]
  exact List.takeWhile_append_dropWhile.symm

namespace Depicts

theorem advance (hlast : Crisp tokens tokens.length) (h : Depicts tokens a s c fs) :
    ∃ n, Depicts tokens a.take s.advance (c.pad n) fs := by
  obtain ⟨n, hn, hrest, htake⟩ := h.follows.exists_advance
  have hcount : (c.pad n).tokenCount + tokensBefore fs = c.tokenCount + tokensBefore fs + n := by
    rw [Contents.tokenCount_pad, Nat.add_right_comm]
  have hnext : ∀ t ∈ nextToken? s.rest, t.isTrivia = false := fun t ht => by
    obtain ⟨ts, hts⟩ := List.head?_eq_some_iff.1 ht
    exact isTrivia_of_fromSignificant hts
  refine ⟨n, hn, ops_advance_ne_nil h.begun, .inl ?_, ?_, ?_, ?_, fun hflush => ?_, by simp [Stage.take],
    Contents.each_pad.2 h.kept, h.around⟩
  · exact crisp_of_drop_tail hlast (hn.rest_eq.symm.trans (h.follows.rest_eq ▸ hrest))
  · rw [Stage.take, h.ahead, hrest]
  · rw [hcount, lastKind_add htake, significant, List.filter_append, ← significant,
      significant_of_isTrivia isTrivia_of_mem_takeWhile, Stage.take, h.ahead, h.last]
    cases hs : nextToken? s.rest with
    | none => rfl
    | some u => simp [hnext u hs]
  · rw [constituents_pad, htake,
      List.filterMap_append, filterMap_constituent?_of_isTrivia isTrivia_of_mem_takeWhile, Stage.take,
      h.ahead, h.inside]
    cases hs : nextToken? s.rest with
    | none => rfl
    | some u => simp [Token.constituent?, hnext u hs]
  · rw [Stage.take, h.ahead] at hflush
    obtain ⟨u, hu⟩ := Option.isSome_iff_exists.1 hflush
    rw [Nat.add_comm, hu] at htake
    refine Contents.flush_pad (by simp [htake]) fun v hv => ?_
    rw [htake, Option.toList_some, List.getLast?_concat] at hv
    cases hv
    exact hnext u hu

theorem openNode (h : Depicts tokens a s c fs) : ∃ n,
    Depicts tokens a.enter s.openNode .nothing (⟨c.pad n, none⟩ :: fs) ∧
      constituents tokens (c.pad n) fs = a.inside ∧
      kindAt 0 (tokens.drop (place ⟨c.pad n, none⟩ fs)) = a.next := by
  obtain ⟨n, hn, hrest, htake, hbegin, hdrop⟩ := h.follows.exists_openNode h.begun
  have hplace : Contents.nothing.tokenCount + tokensBefore (⟨c.pad n, none⟩ :: fs) =
      c.tokenCount + tokensBefore fs + n := by
    simp only [Contents.tokenCount, tokensBefore, tokenCount, Contents.tokenCount_pad]
    omega
  refine ⟨n, ⟨hn, by simp [ParserState.openNode], .inr ?_, ?_, ?_, rfl, fun _ => trivial,
    by simp [Stage.enter], trivial, ⟨Contents.each_pad.2 h.kept, by simp, h.around⟩⟩, ?_, ?_⟩
  · rw [hplace, hdrop, fromSignificant_idem]
  · rw [hrest, Stage.enter, h.ahead]
  · rw [hplace, lastKind_add htake, significant_of_isTrivia isTrivia_of_mem_takeWhile, Stage.enter,
      h.last]
    rfl
  · rw [constituents_pad, htake,
      filterMap_constituent?_of_isTrivia isTrivia_of_mem_takeWhile, List.append_nil, h.inside]
  · rw [hbegin, hdrop, Stage.next, h.ahead]
    exact kindAt_congr (fromSignificant_idem _) 0

/-- A node that fits is finished. -/
theorem finish (h : Depicts tokens a s c (f :: fs)) (ht : t.Follows tokens (f.finish k c) fs)
    (hbegun : t.ops ≠ []) (hrest : t.rest = s.rest)
    (hfits : Fits k (kindAt 0 (tokens.drop (f.place fs))) a) :
    Depicts tokens ⟨a.ahead, a.last, constituents tokens f.before fs ++ [.node k], true, true⟩ t
      (f.finish k c) fs := by
  have hcount : (f.finish k c).tokenCount + tokensBefore fs =
      c.tokenCount + tokensBefore (f :: fs) := by
    rw [tokenCount_finish, tokensBefore]
    omega
  have hplace : f.place fs + (f.sketch k c).tokenCount = c.tokenCount + tokensBefore (f :: fs) :=
    place_add_tokenCount_sketch
  have hapt : (f.sketch k c).Apt tokens (f.place fs) := by
    refine ⟨by rw [hplace]; exact h.snug, a, by rwa [kind_sketch], by rw [hplace]; exact h.last, ?_, ?_⟩
    · rw [constituents_sketch]
      exact h.inside
    · rw [flush_sketch]
      exact h.flush
  exact ⟨ht, hbegun, by rw [hcount]; exact h.snug, h.ahead.trans hrest.symm,
    by rw [hcount]; exact h.last, constituents_finish.symm, fun _ => by rw [finish_eq]; trivial,
    fun _ => ⟨_, _, finish_eq ..⟩, h.around.finish h.kept hapt, h.around.2.2⟩

theorem close (h : Depicts tokens a s c (f :: fs))
    (hfits : Fits k (kindAt 0 (tokens.drop (f.place fs))) a) :
    Depicts tokens ⟨a.ahead, a.last, constituents tokens f.before fs ++ [.node k], true, true⟩
      (s.record (.close k)) (f.finish k c) fs :=
  h.finish (h.follows.record_close k) (by simp [record]) rfl hfits

/-- A node that is abandoned leaves an error, or nothing if nothing was recorded in it. -/
theorem abandon {before : Contents} (h : Depicts tokens a s c (⟨before, none⟩ :: fs)) :
    (c = .nothing ∧ Depicts tokens ⟨a.ahead, a.last, constituents tokens before fs, false, false⟩
      (s.record .abandon) before fs) ∨
    Depicts tokens ⟨a.ahead, a.last, constituents tokens before fs ++ [.node .errorNode], true,
        true⟩
      (s.record .abandon) (OpenNode.finish ⟨before, none⟩ .errorNode c) fs := by
  have hfollows := h.follows.record_abandon
  by_cases hc : c.eventCount = 0
  · left
    rw [if_pos hc] at hfollows
    obtain rfl := Contents.eventCount_eq_zero.1 hc
    have hcount : Contents.nothing.tokenCount + tokensBefore (⟨before, none⟩ :: fs) =
        before.tokenCount + tokensBefore fs := by
      simp [Contents.tokenCount, tokensBefore, tokenCount]
    exact ⟨rfl, hfollows, by simp [record], hcount ▸ h.snug, h.ahead, hcount ▸ h.last, rfl, by simp,
      by simp, h.around.1, h.around.2.2⟩
  · right
    rw [if_neg hc] at hfollows
    exact h.finish hfollows (by simp [record]) rfl (by simp)

/-- A node is opened around the last one. If that was just finished, it moves into the new one. -/
theorem wrap (h : Depicts tokens a s c fs) : (∃ xs,
    Depicts tokens ⟨a.ahead, a.last, xs, true, false⟩ (s.record .wrap) .nothing (wrapping c :: fs)) ∧
      (a.closed = true →
        ∃ k, a.inside = constituents tokens (wrapping c).before fs ++ [.node k]) := by
  have hcount : Contents.nothing.tokenCount + tokensBefore (wrapping c :: fs) =
      c.tokenCount + tokensBefore fs := by
    rw [tokensBefore, tokenCount_wrapping, Contents.tokenCount, Nat.zero_add]
  refine ⟨⟨_, h.follows.record_wrap, by simp [record], by rw [hcount]; exact h.snug, h.ahead,
    by rw [hcount]; exact h.last, rfl, fun _ => trivial, by simp, trivial,
    .wrapping h.kept h.around⟩, fun hclosed => ?_⟩
  obtain ⟨d, last, rfl⟩ := h.closed hclosed
  exact ⟨last.kind, h.inside.trans constituents_node⟩

end Depicts

end ParserState

/-! ## Runs -/

namespace Grammar

open ParserState

variable {tokens : List Token} {depth : Nat} {α : Type} {g : Grammar α} {s t : ParserState} {x : α}

/-- No problem that was found before a run is taken back. -/
theorem Runs.problems_eq_nil (h : Runs depth g s x t) (ht : t.problems = []) : s.problems = [] := by
  induction h with
  | pure | ahead => exact ht
  | advance s => exact (Later.advance s).problems ht
  | report fault s => exact (Later.report s fault).problems ht
  | reportFrom => cases ht
  | bind _ _ ihg ihf => exact ihg (ihf ht)
  | node _ ih => exact (Later.openNode _).problems (ih ht)
  | wrap _ ih => exact ih ht
  | last _ ih => exact ih ht
  | again _ _ ih ihrest => exact ih (ihrest ht)
  | call _ ih => exact ih ht

theorem problems_report_ne_nil (s : ParserState) (fault : Fault) : (s.report fault).problems ≠ [] := by
  rw [ParserState.report]
  split
  · next h =>
    intro hnil
    simp [hnil] at h
  · exact List.cons_ne_nil _ _

/-- A run that finds no problem ends in a stage that its grammar reaches. -/
theorem Runs.depicts (hlast : Crisp tokens tokens.length) (h : Runs depth g s x t)
    (ht : t.problems = []) {a : Stage} {P : α → Stage → Prop} (hg : g.Reaches a P) {c : Contents}
    {fs : List OpenNode} (hs : Depicts tokens a s c fs) : ∃ d b, Depicts tokens b t d fs ∧ P x b := by
  induction h generalizing a c fs with
  | pure => exact ⟨c, a, hs, hg⟩
  | ahead =>
    refine ⟨c, a, hs, ?_⟩
    rw [← hs.ahead]
    exact hg
  | advance =>
    obtain ⟨n, hn⟩ := hs.advance hlast
    exact ⟨_, _, hn, hg⟩
  | report fault s => exact absurd ht (problems_report_ne_nil s fault)
  | reportFrom => cases ht
  | bind _ hf ihg ihf =>
    obtain ⟨d, b, hb, hfirst⟩ := ihg (hf.problems_eq_nil ht) hg hs
    exact ihf ht hfirst hb
  | @node _ _ body s s' k? x _ ih =>
    obtain ⟨n, hopen, hbefore, hnext⟩ := hs.openNode
    obtain ⟨e, b, hb, hkind, hnone⟩ := ih ht hg hopen
    cases k? with
    | some k =>
      obtain ⟨hfits, hP⟩ := hkind k rfl
      refine ⟨_, _, hb.close (hnext ▸ hfits), ?_⟩
      rw [hbefore]
      exact hP
    | none =>
      obtain ⟨herror, hempty⟩ := hnone rfl
      obtain ⟨rfl, hleft⟩ | hleft := hb.abandon
      · refine ⟨_, _, hleft, ?_⟩
        rw [hbefore]
        exact hempty hb.inside
      · refine ⟨_, _, hleft, ?_⟩
        rw [hbefore]
        exact herror
  | wrap _ ih =>
    obtain ⟨⟨xs, hwrap⟩, hinside⟩ := hs.wrap
    obtain ⟨e, b, hb, hfits, hP⟩ := ih ht (hg xs true) hwrap
    exact ⟨_, _, hb.close (hfits _), hP _ hinside⟩
  | last _ ih =>
    obtain ⟨I, hI, hround⟩ := hg
    exact ih ht (hround _ _ hI) hs
  | again _ hrest ih ihrest =>
    obtain ⟨I, hI, hround⟩ := hg
    obtain ⟨d, b, hb, hnext⟩ := ih (hrest.problems_eq_nil ht) (hround _ _ hI) hs
    exact ihrest ht ⟨I, hnext, hround⟩ hb
  | @call _ r _ _ found _ ih =>
    obtain ⟨d, b, hb, hleads⟩ := ih ht (reaches_grammar r) hs
    exact ⟨d, b, hb, hg found b hleads⟩

/-- The tree of a text in which no problem is found grew from a sketch whose nodes fit. -/
theorem apt_parseWithin {text : String} {g : Grammar Unit} {k : NodeKind}
    (hg : g.Fit ⟨lexTokens text, none, [], true, false⟩)
    (hend : (parserAfter depth (nodeOf k g) text).exhausted = false)
    (hok : (parseWithin depth (nodeOf k g) text).problems = []) :
    ∃ e : Contents, (parseWithin depth (nodeOf k g) text).tree =
        ((Sketch.plain k e).plant ⟨lexTokens text, 0⟩).1 ∧
      e.Each (Sketch.Apt (lexTokens text)) 0 := by
  have hrun : parserAfter depth (nodeOf k g) text =
      ((g.run (runRule depth) (ParserState.initial text).openNode).2).record (.close k) := rfl
  have hopen : Depicts (lexTokens text) ⟨lexTokens text, none, [], true, false⟩
      (ParserState.initial text).openNode .nothing [⟨.nothing, none⟩] :=
    ⟨(follows_initial text).record_openNode, by simp [openNode], .inl (by simp [Crisp,
      Contents.tokenCount, OpenNode.tokensBefore, OpenNode.tokenCount]), rfl, rfl, rfl,
      fun _ => trivial, by simp, trivial, trivial, by simp, trivial⟩
  have hproblems : ((g.run (runRule depth) (ParserState.initial text).openNode).2).problems = [] := by
    have hlength := congrArg List.length hok
    rw [parseWithin, hrun] at hlength
    simpa [record] using hlength
  have hrun' := runs_of_run (g := g) (s := (ParserState.initial text).openNode) hend
  obtain ⟨e, b, he, -⟩ := hrun'.depicts (crisp_lexTokens text) hproblems hg hopen
  refine ⟨e, ?_, he.kept⟩
  rw [parseWithin, hrun]
  exact treeOfOps_eq (he.follows.record_close k).holds _

/-- Files in which no problem is found are trees of nodes that fit. -/
theorem apt_sourceFile {text : String} (hend : (parserAfter depth sourceFile text).exhausted = false)
    (hok : (parseWithin depth sourceFile text).problems = []) :
    ∃ e : Contents, (parseWithin depth sourceFile text).tree =
        ((Sketch.plain .sourceFile e).plant ⟨lexTokens text, 0⟩).1 ∧
      e.Each (Sketch.Apt (lexTokens text)) 0 := by
  refine apt_parseWithin ?_ hend hok
  simp [sourceFile.skipToEnd]

end Grammar

/-! ## Nodes of a file -/

/-- What a tree is to the node that it stands in. -/
def Tree.constituent? : Tree → Option Constituent
  | .leaf t => t.constituent?
  | .node k _ _ => some (.node k)

theorem constituent?_plant (s : Sketch) (g : Supply) :
    (s.plant g).1.constituent? = some (.node s.kind) := by
  cases s <;> rfl

theorem Contents.constituents_plant (tokens : List Token) (i : Nat) (c : Contents) (offset : Nat) :
    (c.plant ⟨tokens.drop i, offset⟩).1.filterMap (·.constituent?) = c.constituents tokens i := by
  cases c with
  | nothing => rfl
  | token c =>
    have hc := Contents.constituents_plant tokens i c offset
    have hrest := (c.leaves_plant ⟨tokens.drop i, offset⟩).2
    rw [List.drop_drop] at hrest
    rw [Contents.plant, Contents.constituents, ← hc, ← List.head?_drop, ← hrest]
    dsimp only
    split
    · next hnil => simp [hnil]
    · next t ts hcons =>
      rw [hcons, List.filterMap_append]
      cases ht : t.constituent? <;> simp [Tree.constituent?, ht]
  | node c s =>
    have hc := Contents.constituents_plant tokens i c offset
    rw [Contents.plant, Contents.constituents, ← hc]
    dsimp only
    rw [List.filterMap_append]
    simp [constituent?_plant]

/-- No trivia come last among the trees of contents. -/
theorem Contents.flush_plant {tokens : List Token} {i : Nat} {c : Contents} {offset : Nat}
    (h : c.Flush tokens i) :
    ∀ t ∈ (c.plant ⟨tokens.drop i, offset⟩).1.getLast?, t.token?.all (!·.isTrivia) = true := by
  cases c with
  | nothing => simp [Contents.plant]
  | token c =>
    obtain ⟨htoken, hnone⟩ := h
    have hrest := (c.leaves_plant ⟨tokens.drop i, offset⟩).2
    rw [List.drop_drop] at hrest
    rw [← List.head?_drop, ← hrest] at htoken hnone
    rw [Contents.plant]
    dsimp only
    split
    · next hnil => exact flush_plant (hnone (by rw [hnil]; rfl))
    · next t ts hcons =>
      rw [List.getLast?_concat]
      rintro _ ⟨⟩
      simpa [Tree.token?] using htoken t (by rw [hcons]; rfl)
  | node c s =>
    rw [Contents.plant]
    dsimp only
    rw [List.getLast?_concat]
    rintro _ ⟨⟩
    cases s <;> rfl

namespace Sketch.Grows

variable {tokens : List Token} {s : Sketch} {t : Tree} {i : Nat}

theorem constituents_eq (h : s.Grows tokens i t) :
    t.children.filterMap (·.constituent?) = s.constituents tokens i := by
  obtain ⟨offset, hoff, rfl⟩ := h
  cases s with
  | plain k c => exact c.constituents_plant tokens i offset
  | around k s c =>
    obtain ⟨stop, hsupply, -⟩ := s.plant_snd hoff
    simp [plant, Tree.children, constituents, constituent?_plant, hsupply, c.constituents_plant]

theorem flush_eq (h : s.Grows tokens i t) (hs : s.Flush tokens i) :
    ∀ u ∈ t.children.getLast?, u.token?.all (!·.isTrivia) = true := by
  obtain ⟨offset, hoff, rfl⟩ := h
  cases s with
  | plain k c => exact Contents.flush_plant hs
  | around k s c =>
    obtain ⟨stop, hsupply, -⟩ := s.plant_snd hoff
    intro u hu
    simp only [plant, Tree.children, hsupply, List.getLast?_cons] at hu
    cases hlast : (c.plant ⟨tokens.drop (i + s.tokenCount), stop⟩).1.getLast? with
    | some v =>
      rw [hlast] at hu
      cases hu
      exact Contents.flush_plant hs _ hlast
    | none =>
      rw [hlast] at hu
      cases hu
      cases s <;> rfl

end Sketch.Grows

/-- A text is read to its end as a file, and nothing is wrong with it. -/
structure Faultless (text : String) : Prop where
  ended : (parserAfter (nestingBound (lexTokens text)) Grammar.sourceFile text).exhausted = false
  ok : (parseFile text).ok = true

theorem Faultless.problems_eq {text : String} (h : Faultless text) : (parseFile text).problems = [] :=
  List.isEmpty_iff.1 h.ok

/-- The tokens of a faultless text are tokens. -/
theorem Faultless.lexErrors_eq {text : String} (h : Faultless text) : lexErrors text = [] := by
  obtain ⟨e, -, -, hlex⟩ := Grammar.neat_parse (.inl rfl) h.ended
  exact (hlex h.problems_eq).1

namespace Node

variable {text : String} {n : Node}

theorem kind_ofTree (h : Faultless text) : (ofTree (parseFile text).tree).kind = .sourceFile := by
  obtain ⟨e, htree, -⟩ := Grammar.apt_sourceFile h.ended h.problems_eq
  have hplant : (parseFile text).tree = ((Sketch.plain .sourceFile e).plant ⟨lexTokens text, 0⟩).1 :=
    htree
  simp only [hplant, Sketch.plant, ofTree]

theorem ne_root (h : Faultless text) (hkind : n.kind ≠ .sourceFile) :
    n ≠ ofTree (parseFile text).tree := by
  intro hn
  rw [hn] at hkind
  exact hkind (kind_ofTree h)

/-- What stands in a node. -/
def constituents (n : Node) : List Constituent := n.elements.filterMap (·.constituent?)

theorem apt_of_below (h : Faultless text) (hn : Below (ofTree (parseFile text).tree) n)
    (hkind : n.kind ≠ .sourceFile) :
    ∃ (s : Sketch) (i : Nat), s.Apt (lexTokens text) i ∧ s.Grows (lexTokens text) i n.tree := by
  obtain ⟨e, htree, he⟩ := Grammar.apt_sourceFile h.ended h.problems_eq
  obtain ⟨s, i, hs, hgrows⟩ := grows_of_below_plant htree he hn (ne_root h hkind)
  exact ⟨s, i, hs.self, hgrows⟩

/-- The nodes of a faultless file begin with a significant token. -/
theorem isTrivia_head_of_below (h : Faultless text) (hn : Below (ofTree (parseFile text).tree) n)
    (hkind : n.kind ≠ .sourceFile) : ∀ t ∈ n.tree.leaves.head?, t.isTrivia = false := by
  obtain ⟨s, i, hs, hgrows⟩ := neat_of_below (.inl rfl) h.ended hn (ne_root h hkind)
  exact isTrivia_head_of_grows hs hgrows

/-- **Nodes fit.** What stands in a node of a faultless file is of the form that the kind of the node
names. -/
theorem fits_of_below (h : Faultless text) (hn : Below (ofTree (parseFile text).tree) n)
    (hroot : n.kind ≠ .sourceFile) :
    ∃ (first : TokenKind) (t : Stage), Fits n.kind first t ∧ t.inside = n.constituents ∧
      (t.flush = true → ∀ u ∈ n.elements.getLast?, u.token?.all (!·.isTrivia) = true) ∧
      (∀ u ∈ n.tree.leaves.head?, u.kind = first) ∧
      ∀ u ∈ (significant n.tree.leaves).getLast?, t.last = some u.kind := by
  have hhead := isTrivia_head_of_below h hn hroot
  obtain ⟨s, i, ⟨-, t, hfits, hlast, hinside, hflush⟩, hgrows⟩ := apt_of_below h hn hroot
  have hkind : s.kind = n.kind := (Option.some.inj hgrows.kind?_eq).symm
  refine ⟨_, t, hkind ▸ hfits, hinside.trans hgrows.constituents_eq.symm,
    fun ht => hgrows.flush_eq (hflush ht), fun u hu => ?_, fun u hu => ?_⟩
  · have hu' := hu
    rw [hgrows.leaves_eq, List.head?_take] at hu'
    split at hu'
    · cases hu'
    · obtain ⟨us, hus⟩ := List.head?_eq_some_iff.1 hu'
      rw [hus, kindAt, tokenAt?, hhead u hu]
      rfl
  · rw [hlast, lastKind_add hgrows.leaves_eq.symm, hu]
    rfl

/-- The tokens before a node of a faultless file, those of the node and those behind it. Trivia do not
stand both at its end and behind it. -/
theorem snug_of_below (h : Faultless text) (hn : Below (ofTree (parseFile text).tree) n)
    (hkind : n.kind ≠ .sourceFile) :
    ∃ before behind, lexTokens text = before ++ n.tree.leaves ++ behind ∧
      Contiguous n.span.stop behind ∧
      ((∀ t ∈ n.tree.leaves.getLast?, t.isTrivia = false) ∨ ∀ t ∈ behind.head?, t.isTrivia = false) := by
  obtain ⟨s, i, hs, hgrows⟩ := apt_of_below h hn hkind
  refine ⟨(lexTokens text).take i, (lexTokens text).drop (i + s.tokenCount), ?_,
    hgrows.contiguous_stop, hs.snug.imp (fun hcrisp t ht => ?_) fun hrest t ht => ?_⟩
  · rw [hgrows.leaves_eq, List.append_assoc, ← List.drop_drop, List.take_append_drop,
      List.take_append_drop]
  · rw [hgrows.leaves_eq] at ht
    exact isTrivia_getLast_of_crisp hcrisp t ht
  · obtain ⟨ts, hts⟩ := List.head?_eq_some_iff.1 ht
    exact isTrivia_of_fromSignificant (hrest.trans hts)

end Node

end Reshape
