import Reshape.Proofs.Grammar.Runs

/-!
# Recording a tree and growing it

The operations of a parser can also be carried out on a tree at once: open nodes stand on a stack
with their children so far, and opening a node around the last finished one takes that out of its
parent and makes it the first child. Recording events, resolving their links and carrying out the
steps comes to the same, as long as nodes are closed in turn and stand under one root.

* `Growth` is a tree as it grows, `Growth.perform?` the direct meaning of the operations.
* `ParserState.Allows` are the conditions under which a parser may carry out an operation, in terms of
  what it has recorded, and `ParserState.Disciplined` says that they hold all along.
* `Growth.ofSketches` is the growth that a log describes. `Grows.perform` is the step lemma: an allowed
  operation does to it what it does to the tree. `Grows.performAll` is the run lemma.
* `Assembly.Supports` says that steps finish no node where none is open.
* `treeOfOps_grown` is the result.
-/

namespace Reshape

/-! ## Growing a tree -/

/-- A node that is open: the offset of its start and its children so far, last first. -/
structure Bud where
  start : Nat
  children : List Tree

/-- The nodes that are open, innermost first, the trees that are finished outside of all nodes, last
first, and the tokens still to be placed. -/
structure Growth where
  buds : List Bud
  grown : List Tree
  supply : Supply

namespace Growth

/-- Nothing has grown yet. -/
def start (tokens : List Token) : Growth := ⟨[], [], ⟨tokens, 0⟩⟩

/-- What is finished in the innermost open node, last first. -/
def siblings (g : Growth) : List Tree :=
  match g.buds with
  | [] => g.grown
  | b :: _ => b.children

/-- Puts other trees in the place of what is finished in the innermost open node. -/
def setSiblings (g : Growth) (ts : List Tree) : Growth :=
  match g.buds with
  | [] => { g with grown := ts }
  | b :: bs => { g with buds := ⟨b.start, ts⟩ :: bs }

/-- Adds a tree to the innermost open node. -/
def add (g : Growth) (t : Tree) : Growth := g.setSiblings (t :: g.siblings)

/-- Adds the next token. -/
def take (g : Growth) : Growth :=
  match g.supply.tokens with
  | [] => g
  | t :: ts => { g.add (.leaf t) with supply := ⟨ts, t.stop⟩ }

/-- Adds the trivia ahead. -/
def takeTrivia (g : Growth) : Growth :=
  (g.supply.tokens.takeWhile (·.isTrivia)).foldl (fun g _ => g.take) g

/-- Opens a node with the given start and children. -/
def openBud (g : Growth) (start : Nat) (children : List Tree) : Growth :=
  { g with buds := ⟨start, children⟩ :: g.buds }

/-- Finishes a node and adds it to the one around it. -/
def closeBud (g : Growth) (b : Bud) (bs : List Bud) (k : NodeKind) : Growth :=
  { g with buds := bs }.add (.node k ⟨b.start, g.supply.offset⟩ b.children.reverse)

/-- Carries out an operation. A node opens behind the trivia ahead, unless it is the first one. The
node that is opened around the last finished one takes the place of that, and has it as its first
child. An operation without the nodes it needs has no meaning. -/
def perform? (g : Growth) : Op → Option Growth
  | .openNode =>
    match g.buds, g.grown with
    | [], [] => some (g.openBud g.supply.offset [])
    | [], _ :: _ => none
    | _ :: _, _ => some (g.takeTrivia.openBud g.takeTrivia.supply.offset [])
  | .wrap =>
    match g.siblings with
    | .node k s ts :: us => some ((g.setSiblings us).openBud s.start [.node k s ts])
    | _ => none
  | .close k =>
    match g.buds with
    | [] => none
    | b :: bs => some (g.closeBud b bs k)
  | .abandon =>
    match g.buds with
    | [] => none
    | ⟨_, []⟩ :: bs => some { g with buds := bs }
    | b :: bs => some (g.closeBud b bs .errorNode)
  | .advance =>
    match g.buds with
    | [] => none
    | _ :: _ => some g.takeTrivia.take

end Growth

/-! ## Operations of a parser -/

namespace ParserState

/-- The log of what a parser has recorded. -/
def log (s : ParserState) : Log := .ofOps s.ops.reverse

/-- Carries out an operation. Opening a node and stepping over a token take the trivia ahead. -/
def perform (s : ParserState) : Op → ParserState
  | .openNode => s.openNode
  | .advance => s.advance
  | op => s.record op

/-- Whether an event starts a node that was opened by itself. -/
def startsAlone : Event → Bool
  | .start _ _ => true
  | _ => false

/-- Whether an operation may be carried out. All nodes but the first are opened inside of others, and
tokens are taken there; a node is opened around one whose end is the last event, and only a node that
was opened by itself is abandoned. -/
def Allows (s : ParserState) : Op → Prop
  | .openNode => s.ops = [] ∨ s.log.opened ≠ []
  | .wrap => s.log.events.back? = some .finish
  | .close _ => s.log.opened ≠ []
  | .abandon => (s.log.opened.head?.bind (s.log.events[·]?)).any startsAlone = true
  | .advance => s.log.opened ≠ []

/-- Each of the operations is allowed where it is carried out, and behind the last one the nodes that
were opened are closed, of which there was one. -/
def Disciplined : ParserState → List Op → Prop
  | s, [] => s.log.opened = [] ∧ s.log.events ≠ #[]
  | s, op :: ops => s.Allows op ∧ Disciplined (s.perform op) ops

instance (s : ParserState) : (op : Op) → Decidable (s.Allows op)
  | .openNode => inferInstanceAs (Decidable (s.ops = [] ∨ s.log.opened ≠ []))
  | .wrap => inferInstanceAs (Decidable (s.log.events.back? = some .finish))
  | .close _ => inferInstanceAs (Decidable (s.log.opened ≠ []))
  | .abandon =>
    inferInstanceAs (Decidable ((s.log.opened.head?.bind (s.log.events[·]?)).any startsAlone = true))
  | .advance => inferInstanceAs (Decidable (s.log.opened ≠ []))

instance decidableDisciplined : (s : ParserState) → (ops : List Op) → Decidable (s.Disciplined ops)
  | s, [] => inferInstanceAs (Decidable (s.log.opened = [] ∧ s.log.events ≠ #[]))
  | s, op :: ops =>
    have := decidableDisciplined (s.perform op) ops
    inferInstanceAs (Decidable (s.Allows op ∧ Disciplined (s.perform op) ops))

end ParserState

/-! ## The growth that a log describes -/

namespace Growth

variable {g₀ : Supply} {c d e : Contents} {s : Sketch} {f : OpenNode} {fs : List OpenNode}

/-- The finished node that an open one has around it, planted. -/
def firstTrees (f : OpenNode) (g : Supply) : List Tree × Supply :=
  match f.first with
  | none => ([], g)
  | some s => ([(s.plant g).1], (s.plant g).2)

/-- Contents and open nodes, planted. -/
def ofSketches (g₀ : Supply) : List OpenNode → Contents → Growth
  | [], c => ⟨[], (c.plant g₀).1.reverse, (c.plant g₀).2⟩
  | f :: fs, c =>
    let around := ofSketches g₀ fs f.before
    let first := firstTrees f around.supply
    ⟨⟨around.supply.offset, (c.plant first.2).1.reverse ++ first.1⟩ :: around.buds, around.grown,
      (c.plant first.2).2⟩

theorem ofSketches_token : ofSketches g₀ fs c.token = (ofSketches g₀ fs c).take := by
  cases fs with
  | nil =>
    simp only [ofSketches, Contents.plant, take]
    split <;> simp [add, setSiblings, siblings, *]
  | cons f fs =>
    simp only [ofSketches, Contents.plant, take]
    split <;> simp [add, setSiblings, siblings, *]

theorem ofSketches_node : ofSketches g₀ fs (c.node s) =
    { (ofSketches g₀ fs c).add (s.plant (ofSketches g₀ fs c).supply).1 with
      supply := (s.plant (ofSketches g₀ fs c).supply).2 } := by
  cases fs with
  | nil => simp [ofSketches, Contents.plant, add, setSiblings, siblings]
  | cons f fs => simp [ofSketches, Contents.plant, add, setSiblings, siblings]

/-- A node that opens is empty so far. -/
theorem ofSketches_open : ofSketches g₀ (⟨c, none⟩ :: fs) .nothing =
    (ofSketches g₀ fs c).openBud (ofSketches g₀ fs c).supply.offset [] := by
  simp [ofSketches, firstTrees, Contents.plant, openBud]

theorem span_start_plant (s : Sketch) (g : Supply) : (s.plant g).1.span.start = g.offset := by
  cases s <;> rfl

theorem ofSketches_wrap : (ofSketches g₀ fs (d.node s)).perform? .wrap =
    some (ofSketches g₀ (⟨d, some s⟩ :: fs) .nothing) := by
  have hstart := span_start_plant s (ofSketches g₀ fs d).supply
  rw [ofSketches_node]
  simp only [ofSketches, firstTrees, Contents.plant]
  generalize ofSketches g₀ fs d = g at hstart ⊢
  obtain ⟨_ | ⟨b, bs⟩, grown, supply⟩ := g
  all_goals
    cases s <;>
    simp_all [perform?, add, setSiblings, siblings, openBud, Sketch.plant, Tree.span]

/-- The innermost open node is finished. -/
theorem ofSketches_finish (k : NodeKind) :
    (ofSketches g₀ (f :: fs) e).perform? (.close k) = some (ofSketches g₀ fs (f.finish k e)) := by
  obtain ⟨c, _ | s⟩ := f
  all_goals
    simp only [OpenNode.finish, ofSketches_node, ofSketches, firstTrees]
    generalize ofSketches g₀ fs c = g
    obtain ⟨_ | ⟨b, bs⟩, grown, supply⟩ := g <;>
    simp [perform?, closeBud, Sketch.plant, add, setSiblings, siblings]

theorem tokens_supply_ofSketches (tokens : List Token) :
    (ofSketches ⟨tokens, 0⟩ fs c).supply.tokens =
      tokens.drop (c.tokenCount + OpenNode.tokensBefore fs) := by
  induction fs generalizing c with
  | nil => exact (c.leaves_plant ⟨tokens, 0⟩).2
  | cons f fs ih =>
    obtain ⟨before, _ | s⟩ := f
    · simp only [ofSketches, firstTrees, (Contents.leaves_plant _ _).2, ih, List.drop_drop,
        OpenNode.tokensBefore, OpenNode.tokenCount]
      congr 1
      omega
    · simp only [ofSketches, firstTrees, (Contents.leaves_plant _ _).2, (Sketch.leaves_plant _ _).2,
        ih, List.drop_drop, OpenNode.tokensBefore, OpenNode.tokenCount]
      congr 1
      omega

/-- Contents with an event grow, if there are tokens for them. -/
theorem plant_ne_nil (h : e.eventCount ≠ 0) (hcount : e.tokenCount ≤ g₀.tokens.length) :
    (e.plant g₀).1 ≠ [] := by
  cases e with
  | nothing => exact absurd rfl h
  | token d =>
    have htokens := (d.leaves_plant g₀).2
    rw [Contents.tokenCount] at hcount
    rw [Contents.plant]
    dsimp only
    split
    · next hnil =>
      have hlen := congrArg List.length htokens
      rw [hnil, List.length_drop, List.length_nil] at hlen
      omega
    · simp
  | node d s => simp [Contents.plant]

/-- A node that was opened by itself is abandoned. -/
theorem ofSketches_abandon (h : e.tokenCount ≤ (ofSketches g₀ fs c).supply.tokens.length) :
    (ofSketches g₀ (⟨c, none⟩ :: fs) e).perform? .abandon =
      some (ofSketches g₀ fs (if e.eventCount = 0 then c else c.node (.plain .errorNode e))) := by
  by_cases he : e.eventCount = 0
  · obtain rfl := Contents.eventCount_eq_zero.1 he
    simp [perform?, ofSketches, firstTrees, Contents.plant, Contents.eventCount]
  · have hclose : (ofSketches g₀ (⟨c, none⟩ :: fs) e).perform? (.close .errorNode) = _ :=
      ofSketches_finish .errorNode
    have hne := plant_ne_nil he h
    rw [if_neg he]
    refine Eq.trans ?_ hclose
    simp only [ofSketches, firstTrees, perform?, List.append_nil]
    split
    · next heq => cases heq
    · next heq => simp_all
    · next heq => cases heq; rfl

end Growth

/-! ## Operations on a parser and on a tree -/

/-- The contents at the top, below which everything else is. -/
def OpenNode.topmost : List OpenNode → Contents → Contents
  | [], c => c
  | f :: fs, _ => topmost fs f.before

/-- A parser has recorded what a tree has grown to: the root is open, or it is finished and all there
is, and no more steps over tokens are recorded than there are tokens. -/
structure Grows (tokens : List Token) (s : ParserState) (g : Growth) (c : Contents)
    (fs : List OpenNode) : Prop where
  follows : s.Follows tokens c fs
  growth_eq : g = .ofSketches ⟨tokens, 0⟩ fs c
  count_le : c.tokenCount + OpenNode.tokensBefore fs ≤ tokens.length
  topmost_eq : OpenNode.topmost fs c = .nothing ∨ fs = [] ∧ ∃ root, c = .node .nothing root

namespace Grows

open ParserState

variable {tokens : List Token} {s : ParserState} {g : Growth} {c : Contents} {fs : List OpenNode}

theorem tokens_eq (h : Grows tokens s g c fs) : g.supply.tokens = s.rest := by
  rw [h.growth_eq, Growth.tokens_supply_ofSketches, h.follows.rest_eq]

theorem start {s : ParserState} (h : s.ops = []) : Grows s.rest s (.start s.rest) .nothing [] where
  follows := ⟨by rw [h]; exact .empty, rfl⟩
  growth_eq := rfl
  count_le := Nat.zero_le _
  topmost_eq := .inl rfl

theorem ne_nil_iff (h : Grows tokens s g c fs) : s.log.opened ≠ [] ↔ fs ≠ [] := by
  rw [log, h.follows.holds.opened_eq]
  cases fs <;> simp [OpenNode.starts]

theorem buds_ne_nil (h : Grows tokens s g c fs) (hfs : fs ≠ []) : g.buds ≠ [] := by
  rw [h.growth_eq]
  cases fs with
  | nil => exact absurd rfl hfs
  | cons f fs => simp [Growth.ofSketches]

/-- Under an open node the next token is added where it is recorded. -/
theorem step (h : Grows tokens s g c fs) (hfs : fs ≠ []) :
    ∃ d, Grows tokens s.step g.take d fs := by
  have htokens := h.tokens_eq
  cases hrest : s.rest with
  | nil =>
    rw [hrest] at htokens
    refine ⟨c, ?_⟩
    simpa [ParserState.step, hrest, Growth.take, htokens] using h
  | cons t ts =>
    have hlen := congrArg List.length h.follows.rest_eq
    rw [hrest, List.length_cons, List.length_drop] at hlen
    refine ⟨c.token, ⟨?_, ?_⟩, ?_, ?_, ?_⟩
    · rw [ParserState.step, hrest]
      dsimp only
      rw [ofOps_cons]
      exact h.follows.holds.advance
    · have hdrop := h.follows.rest_eq
      rw [hrest] at hdrop
      rw [ParserState.step, hrest]
      show ts = tokens.drop (c.tokenCount + 1 + OpenNode.tokensBefore fs)
      rw [Nat.add_right_comm, ← List.drop_drop, ← hdrop]
      rfl
    · rw [Growth.ofSketches_token, ← h.growth_eq]
    · rw [Contents.tokenCount]
      omega
    · cases fs with
      | nil => exact absurd rfl hfs
      | cons f fs => exact .inl (h.topmost_eq.resolve_right fun hnil => by simp at hnil)

theorem skipTrivia {s : ParserState} {g : Growth} {c : Contents} (h : Grows tokens s g c fs)
    (hfs : fs ≠ []) : ∃ d, Grows tokens s.skipTrivia g.takeTrivia d fs := by
  have htokens := h.tokens_eq
  rw [skipTrivia_eq]
  split
  · next hnil =>
    refine ⟨c, ?_⟩
    rw [hnil] at htokens
    simpa [Growth.takeTrivia, htokens] using h
  · next u us hcons =>
    rw [hcons] at htokens
    split
    · next hu =>
      have hshort : s.step.rest.length < s.rest.length := by simp [ParserState.step, hcons]
      obtain ⟨d, hd⟩ := h.step hfs
      have htake : g.takeTrivia = g.take.takeTrivia := by
        have hrest := hd.tokens_eq
        rw [Growth.takeTrivia, htokens, List.takeWhile_cons_of_pos hu, Growth.takeTrivia, hrest]
        simp [ParserState.step, hcons]
      rw [htake]
      exact hd.skipTrivia hfs
    · next hu =>
      refine ⟨c, ?_⟩
      simpa [Growth.takeTrivia, htokens, hu] using h
termination_by s.rest.length

/-- An empty log has no nodes and no contents. -/
theorem eq_nothing (h : Grows tokens s g c fs) (hops : s.ops = []) : c = .nothing ∧ fs = [] := by
  have hevents := h.follows.holds.events_eq
  rw [hops] at hevents
  obtain ⟨hfs, hc⟩ := List.append_eq_nil_iff.1 hevents.symm
  obtain rfl : fs = [] := by
    cases fs with
    | nil => rfl
    | cons f fs => simp [OpenNode.events] at hfs
  have hcount := congrArg List.length hc
  rw [Contents.length_events] at hcount
  exact ⟨Contents.eventCount_eq_zero.1 hcount, rfl⟩

/-- The node that is opened first is the root. -/
theorem openRoot (h : Grows tokens s g c fs) (hops : s.ops = []) :
    ∃ g', g.perform? .openNode = some g' ∧
      Grows tokens s.openNode g' .nothing [⟨.nothing, none⟩] := by
  obtain ⟨rfl, rfl⟩ := h.eq_nothing hops
  have hopen : s.openNode = s.record .openNode := by simp [ParserState.openNode, record, hops]
  refine ⟨_, ?_, ?_, Growth.ofSketches_open, h.count_le, .inl rfl⟩
  · rw [h.growth_eq]
    rfl
  · rw [hopen]
    exact h.follows.record_openNode

theorem openNode (h : Grows tokens s g c fs) (hfs : fs ≠ []) :
    ∃ g' d, g.perform? .openNode = some g' ∧
      Grows tokens s.openNode g' .nothing (⟨d, none⟩ :: fs) := by
  have hops : s.ops.isEmpty = false := by
    cases hempty : s.ops with
    | nil => exact absurd (h.eq_nothing hempty).2 hfs
    | cons op ops => rfl
  have hopen : s.openNode = s.skipTrivia.record .openNode := by
    simp [ParserState.openNode, record, hops]
  obtain ⟨b, bs, hbuds⟩ := List.exists_cons_of_ne_nil (h.buds_ne_nil hfs)
  obtain ⟨d, hd⟩ := h.skipTrivia hfs
  refine ⟨_, d, by rw [Growth.perform?, hbuds], ?_, ?_, ?_, ?_⟩
  · rw [hopen]
    exact hd.follows.record_openNode
  · rw [Growth.ofSketches_open, ← hd.growth_eq]
  · simpa [Contents.tokenCount, OpenNode.tokensBefore, OpenNode.tokenCount] using hd.count_le
  · exact .inl (hd.topmost_eq.resolve_right fun hnil => hfs hnil.1)

theorem wrap (h : Grows tokens s g c fs) (hlast : s.log.events.back? = some .finish) :
    ∃ g' f, g.perform? .wrap = some g' ∧
      Grows tokens (s.record .wrap) g' .nothing (f :: fs) := by
  obtain ⟨d, last, rfl⟩ := h.follows.holds.back?_eq_finish.1 hlast
  refine ⟨_, ⟨d, some last⟩, ?_, h.follows.record_wrap, rfl, ?_, ?_⟩
  · rw [h.growth_eq]
    exact Growth.ofSketches_wrap
  · have hcount := h.count_le
    simp only [Contents.tokenCount, OpenNode.tokensBefore, OpenNode.tokenCount] at hcount ⊢
    omega
  · obtain htop | ⟨rfl, root, heq⟩ := h.topmost_eq
    · cases fs with
      | nil => cases htop
      | cons f fs => exact .inl htop
    · cases heq
      exact .inl rfl

theorem close {f : OpenNode} (h : Grows tokens s g c (f :: fs)) (k : NodeKind) :
    ∃ g', g.perform? (.close k) = some g' ∧
      Grows tokens (s.record (.close k)) g' (f.finish k c) fs := by
  refine ⟨_, ?_, h.follows.record_close k, rfl, ?_, ?_⟩
  · rw [h.growth_eq]
    exact Growth.ofSketches_finish k
  · have hcount := h.count_le
    rw [OpenNode.tokensBefore] at hcount
    rw [OpenNode.tokenCount_finish]
    omega
  · have htop := h.topmost_eq.resolve_right fun hnil => by simp at hnil
    cases fs with
    | nil =>
      obtain ⟨before, _ | first⟩ := f
      · obtain rfl : before = .nothing := htop
        exact .inr ⟨rfl, _, rfl⟩
      · obtain rfl : before = .nothing := htop
        exact .inr ⟨rfl, _, rfl⟩
    | cons f' fs => exact .inl htop

theorem abandon {before : Contents} (h : Grows tokens s g c (⟨before, none⟩ :: fs)) :
    ∃ g' d, g.perform? .abandon = some g' ∧ Grows tokens (s.record .abandon) g' d fs := by
  have hcount := h.count_le
  simp only [OpenNode.tokensBefore, OpenNode.tokenCount, Nat.add_zero] at hcount
  have htop := h.topmost_eq.resolve_right fun hnil => by simp at hnil
  refine ⟨_, _, ?_, h.follows.record_abandon, rfl, ?_, ?_⟩
  · rw [h.growth_eq]
    refine Growth.ofSketches_abandon ?_
    rw [Growth.tokens_supply_ofSketches, List.length_drop]
    omega
  · split
    · omega
    · rw [Contents.tokenCount, Sketch.tokenCount]
      omega
  · cases fs with
    | nil =>
      obtain rfl : before = .nothing := htop
      split
      · exact .inl rfl
      · exact .inr ⟨rfl, _, rfl⟩
    | cons f fs => exact .inl htop

/-- The innermost open node was opened by itself if its first event says so. -/
theorem first_eq_none {f : OpenNode} (h : Grows tokens s g c (f :: fs))
    (halone : s.Allows .abandon) : f.first = none := by
  have hhead : s.log.opened.head? = some (f.preface (OpenNode.events fs)).length := by
    rw [log, h.follows.holds.opened_eq]
    rfl
  rw [Allows, hhead, Option.bind_some, ← Array.getElem?_toList, log, h.follows.holds.events_eq,
    OpenNode.events, List.append_assoc, List.getElem?_append_right (Nat.le_refl _), Nat.sub_self]
    at halone
  obtain ⟨before, _ | first⟩ := f
  · rfl
  · simp [OpenNode.opener, startsAlone] at halone

/-- An operation that is allowed does the same to what is recorded as to the tree. -/
theorem perform (h : Grows tokens s g c fs) {op : Op} (hop : s.Allows op) :
    ∃ g' d fs', g.perform? op = some g' ∧ Grows tokens (s.perform op) g' d fs' := by
  cases op with
  | openNode =>
    by_cases hfs : fs = []
    · obtain hops | hopened := hop
      · obtain ⟨g', hg', hgrows⟩ := h.openRoot hops
        exact ⟨g', _, _, hg', hgrows⟩
      · exact absurd hfs (h.ne_nil_iff.1 hopened)
    · obtain ⟨g', d, hg', hgrows⟩ := h.openNode hfs
      exact ⟨g', _, _, hg', hgrows⟩
  | wrap =>
    obtain ⟨g', f, hg', hgrows⟩ := h.wrap hop
    exact ⟨g', _, _, hg', hgrows⟩
  | close k =>
    obtain ⟨f, fs, rfl⟩ := List.exists_cons_of_ne_nil (h.ne_nil_iff.1 hop)
    obtain ⟨g', hg', hgrows⟩ := h.close k
    exact ⟨g', _, _, hg', hgrows⟩
  | abandon =>
    cases fs with
    | nil => simp [Allows, log, h.follows.holds.opened_eq, OpenNode.starts] at hop
    | cons f fs =>
      obtain ⟨before, first⟩ := f
      obtain rfl : first = none := h.first_eq_none hop
      obtain ⟨g', d, hg', hgrows⟩ := h.abandon
      exact ⟨g', d, fs, hg', hgrows⟩
  | advance =>
    have hfs := h.ne_nil_iff.1 hop
    obtain ⟨b, bs, hbuds⟩ := List.exists_cons_of_ne_nil (h.buds_ne_nil hfs)
    obtain ⟨d, hd⟩ := h.skipTrivia hfs
    obtain ⟨e, he⟩ := hd.step hfs
    exact ⟨_, e, fs, by rw [Growth.perform?, hbuds], he⟩

/-- Operations that are allowed all along do the same to what is recorded as to the tree. -/
theorem performAll {s : ParserState} {g : Growth} {c : Contents} {fs : List OpenNode}
    (h : Grows tokens s g c fs) {ops : List Op} (hops : s.Disciplined ops) :
    ∃ g' root, ops.foldlM Growth.perform? g = some g' ∧
      Grows tokens (ops.foldl ParserState.perform s) g' (.node .nothing root) [] := by
  induction ops generalizing s g c fs with
  | nil =>
    obtain ⟨hopened, hevents⟩ := hops
    obtain rfl : fs = [] := Classical.byContradiction fun hfs => h.ne_nil_iff.2 hfs hopened
    obtain rfl | ⟨-, root, rfl⟩ := h.topmost_eq
    · refine absurd ?_ hevents
      rw [← Array.toList_eq_nil_iff]
      exact h.follows.holds.events_eq
    · exact ⟨g, root, rfl, h⟩
  | cons op ops ih =>
    obtain ⟨hop, hrest⟩ := hops
    obtain ⟨g₁, d, fs', hg₁, hgrows⟩ := h.perform hop
    obtain ⟨g', root, hg', hend⟩ := ih hgrows hrest
    refine ⟨g', root, ?_, hend⟩
    rw [List.foldlM_cons, hg₁]
    exact hg'

end Grows

/-! ## Steps on a stack -/

namespace Assembly

/-- The steps finish no node where none is open. -/
def Supports : Assembly → List Step → Prop
  | _, [] => True
  | a, s :: ss => (s = .finish → a.frames ≠ []) ∧ Supports (a.step s) ss

theorem supports_append {a : Assembly} {ss ts : List Step} :
    a.Supports (ss ++ ts) ↔ a.Supports ss ∧ (ss.foldl step a).Supports ts := by
  induction ss generalizing a with
  | nil => simp [Supports]
  | cons s ss ih => simp [Supports, ih, and_assoc]

theorem frames_grow_start (a : Assembly) (k : NodeKind) (ts : List Tree) (g : Supply) :
    ((a.step (.start k)).grow ts g).frames ≠ [] := by
  simp [step, grow]

mutual

theorem supports_sketch : (s : Sketch) → (a : Assembly) → a.Supports s.steps
  | .plain k c, a => by
    refine ⟨fun h => (by cases h), supports_append.2 ⟨supports_contents c _, fun _ => ?_, trivial⟩⟩
    rw [foldl_steps_contents]
    exact frames_grow_start a k _ _
  | .around k s c, a => by
    refine ⟨fun h => (by cases h), ?_⟩
    rw [supports_append, supports_append, List.foldl_append, foldl_steps_contents,
      foldl_steps_sketch, grow_grow]
    refine ⟨⟨supports_sketch s _, supports_contents c _⟩, fun _ => ?_, trivial⟩
    exact frames_grow_start a k _ _

theorem supports_contents : (c : Contents) → (a : Assembly) → a.Supports c.steps
  | .nothing, a => trivial
  | .token c, a => supports_append.2 ⟨supports_contents c a, fun h => (by cases h), trivial⟩
  | .node c s, a => supports_append.2 ⟨supports_contents c a, supports_sketch s _⟩

end

end Assembly

/-! ## The tree that is recorded -/

/-- **A tree that is recorded is the tree that grows directly.** The direct meaning of the operations is
defined all along and leaves a single tree; the steps of the log finish no node where none is open,
leave none open, and build that tree and no other. -/
theorem treeOfOps_grown {s : ParserState} (hs : s.ops = []) {ops : List Op}
    (hops : s.Disciplined ops) :
    ∃ tree supply, ops.foldlM Growth.perform? (.start s.rest) = some ⟨[], [tree], supply⟩ ∧
      let recorded := (ops.foldl ParserState.perform s).ops.reverse
      let assembled := (Log.ofOps recorded).steps.foldl Assembly.step ⟨[], [], s.rest, 0⟩
      (⟨[], [], s.rest, 0⟩ : Assembly).Supports (Log.ofOps recorded).steps ∧
        assembled.frames = [] ∧ assembled.done = [tree] ∧ treeOfOps recorded s.rest = tree := by
  obtain ⟨g, root, hg, hgrows⟩ := (Grows.start hs).performAll hops
  have hsteps : (ParserState.log (ops.foldl ParserState.perform s)).steps =
      (Contents.node .nothing root).steps := by
    apply Log.steps_of_contents
    rw [ParserState.log, hgrows.follows.holds.events_eq]
    rfl
  refine ⟨(root.plant ⟨s.rest, 0⟩).1, (root.plant ⟨s.rest, 0⟩).2, ?_, ?_⟩
  · rw [hg, hgrows.growth_eq]
    rfl
  · dsimp only
    rw [show Log.ofOps _ = ParserState.log (ops.foldl ParserState.perform s) from rfl, hsteps,
      Assembly.foldl_steps_contents]
    exact ⟨Assembly.supports_contents _ _, rfl, rfl, treeOfOps_eq hgrows.follows.holds _⟩

/-- Tokens with trivia between them. -/
def looseTokens : List Token :=
  [⟨.ident, 0, "a"⟩, ⟨.whitespace, 1, " "⟩, ⟨.ident, 2, "b"⟩, ⟨.question, 3, "?"⟩,
    ⟨.comment, 4, "/**/"⟩, ⟨.plus, 8, "+"⟩, ⟨.eof, 9, ""⟩]

/-- Nodes that are opened around others, one such node inside another, a node that is abandoned with
nothing in it and one that is abandoned with a token. -/
def wrappingOps : List Op :=
  [.openNode, .openNode, .advance, .close .pathExpr, .wrap, .openNode, .advance, .close .literal,
    .wrap, .advance, .close .tryExpr, .wrap, .close .parenExpr, .close .binExpr, .wrap, .openNode,
    .abandon, .close .exprStmt, .openNode, .advance, .abandon, .advance, .close .sourceFile]

theorem treeOfOps_grown_wrapping :
    (⟨looseTokens, [], [], 9, false⟩ : ParserState).Disciplined wrappingOps ∧
      treeOfOps (wrappingOps.foldl ParserState.perform ⟨looseTokens, [], [], 9, false⟩).ops.reverse
        looseTokens =
      .node .sourceFile ⟨0, 9⟩
        [.node .exprStmt ⟨0, 8⟩
          [.node .binExpr ⟨0, 4⟩
            [.node .pathExpr ⟨0, 1⟩ [.leaf ⟨.ident, 0, "a"⟩], .leaf ⟨.whitespace, 1, " "⟩,
              .node .parenExpr ⟨2, 4⟩
                [.node .tryExpr ⟨2, 4⟩
                  [.node .literal ⟨2, 3⟩ [.leaf ⟨.ident, 2, "b"⟩], .leaf ⟨.question, 3, "?"⟩]]],
            .leaf ⟨.comment, 4, "/**/"⟩],
          .node .errorNode ⟨8, 9⟩ [.leaf ⟨.plus, 8, "+"⟩], .leaf ⟨.eof, 9, ""⟩] := by
  have hops : (⟨looseTokens, [], [], 9, false⟩ : ParserState).Disciplined wrappingOps := by
    decide +kernel
  obtain ⟨tree, supply, hgrown, -, -, -, htree⟩ := treeOfOps_grown rfl hops
  refine ⟨hops, htree.trans ?_⟩
  cases hgrown
  rfl

end Reshape
