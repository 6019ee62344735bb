import Reshape.Proofs.Tree.Growth

/-!
# Skeletons

The skeleton of a tree has its nodes and significant tokens, without places. Parentheses around an
expression are dropped, so that trees with the same skeleton group in the same way.

* `Tree.skeletons` is the skeleton of a tree, or none of a blank or comment.
* `ParserState.Shows` says which skeletons the open nodes have so far in the tree that a parser has
  recorded. It has one lemma for each operation, and `Shows.skeletons_treeOfOps` for the last one.
-/

namespace Reshape

/-- A tree without trivia and places. -/
inductive Skeleton
  | token (kind : TokenKind) (text : String)
  | node (kind : NodeKind) (parts : List Skeleton)

/-- A node of given parts. Parentheses around an expression are not kept. -/
def Skeleton.ofNode : NodeKind → List Skeleton → Skeleton
  | .parenExpr, [.token .lParen _, x, .token .rParen _] => x
  | k, xs => .node k xs

/-- The skeleton of a token. -/
def Token.skeletons (t : Token) : List Skeleton :=
  if t.isTrivia then [] else [.token t.kind t.text]

mutual

/-- The skeleton of a tree, if it has one. -/
def Tree.skeletons : Tree → List Skeleton
  | .leaf t => t.skeletons
  | .node k _ ts => [.ofNode k (forestSkeletons ts)]

/-- The skeletons of trees. -/
def Tree.forestSkeletons : List Tree → List Skeleton
  | [] => []
  | t :: ts => t.skeletons ++ forestSkeletons ts

end

namespace Tree

@[simp] theorem forestSkeletons_append (ts us : List Tree) :
    forestSkeletons (ts ++ us) = forestSkeletons ts ++ forestSkeletons us := by
  induction ts with
  | nil => rfl
  | cons t ts ih => simp [forestSkeletons, ih]

theorem forestSkeletons_concat (ts : List Tree) (t : Tree) :
    forestSkeletons (ts ++ [t]) = forestSkeletons ts ++ t.skeletons := by
  simp [forestSkeletons]

end Tree

/-- The skeletons of what stands in an open node so far. -/
def Bud.parts (b : Bud) : List Skeleton := Tree.forestSkeletons b.children.reverse

namespace Growth

variable {g : Growth} {b : Bud} {bs : List Bud} {t : Token} {ts : List Token}

theorem buds_take (htokens : g.supply.tokens = t :: ts) (hbuds : g.buds = b :: bs) :
    g.take.buds = ⟨b.start, .leaf t :: b.children⟩ :: bs := by
  simp [take, htokens, add, setSiblings, siblings, hbuds]

theorem parts_take (htokens : g.supply.tokens = t :: ts) (hbuds : g.buds = b :: bs) :
    g.take.buds.map Bud.parts = (b.parts ++ t.skeletons) :: bs.map Bud.parts := by
  simp [buds_take htokens hbuds, Bud.parts, Tree.forestSkeletons, Tree.skeletons]

theorem tokens_take (htokens : g.supply.tokens = t :: ts) : g.take.supply.tokens = ts := by
  simp [take, htokens]

/-- Trivia leave no trace in a skeleton. -/
theorem parts_takeTrivia (hbuds : g.buds ≠ []) :
    g.takeTrivia.buds.map Bud.parts = g.buds.map Bud.parts := by
  induction hts : g.supply.tokens generalizing g with
  | nil => simp [takeTrivia, hts]
  | cons t ts ih =>
    by_cases ht : t.isTrivia = true
    · obtain ⟨b, bs, hcons⟩ := List.exists_cons_of_ne_nil hbuds
      have hrest := tokens_take hts
      have htake : g.takeTrivia = g.take.takeTrivia := by
        rw [takeTrivia, takeTrivia, hrest, hts, List.takeWhile_cons_of_pos ht, List.foldl_cons]
      rw [htake, ih (by simp [buds_take hts hcons]) hrest, parts_take hts hcons, hcons,
        Token.skeletons, if_pos ht, List.append_nil, List.map_cons]
    · simp [takeTrivia, hts, ht]

end Growth

namespace ParserState

/-- In the tree that a parser has recorded, the open nodes have the given parts so far, innermost
first. -/
def Shows (tokens : List Token) (s : ParserState) (parts : List (List Skeleton)) : Prop :=
  ∃ g c fs, Grows tokens s g c fs ∧ g.buds.map Bud.parts = parts

/-- The last event is the end of a node. -/
def Ended (s : ParserState) : Prop := s.log.events.back? = some .finish

namespace Shows

variable {tokens : List Token} {s : ParserState} {xs ys : List Skeleton} {x : Skeleton}
  {around : List (List Skeleton)}

theorem ne_nil_of_parts {g : Growth} {c : Contents} {fs : List OpenNode}
    (h : Grows tokens s g c fs) (hparts : g.buds.map Bud.parts = xs :: around) : fs ≠ [] := by
  rintro rfl
  rw [h.growth_eq] at hparts
  cases hparts

theorem advance (h : Shows tokens s (xs :: around)) {t : Token}
    (ht : nextToken? s.rest = some t) :
    Shows tokens s.advance ((xs ++ t.skeletons) :: around) := by
  obtain ⟨g, c, fs, hgrows, hparts⟩ := h
  have hfs := ne_nil_of_parts hgrows hparts
  obtain ⟨d, hd⟩ := hgrows.skipTrivia hfs
  obtain ⟨e, he⟩ := hd.step hfs
  obtain ⟨ts, hts⟩ : ∃ ts, g.takeTrivia.supply.tokens = t :: ts := by
    rw [hd.tokens_eq]
    exact List.head?_eq_some_iff.1 ht
  rw [← Growth.parts_takeTrivia (hgrows.buds_ne_nil hfs)] at hparts
  obtain ⟨b, bs, hbuds, rfl, rfl⟩ := List.map_eq_cons_iff.1 hparts
  exact ⟨_, e, fs, he, Growth.parts_take hts hbuds⟩

theorem openNode (h : Shows tokens s (xs :: around)) :
    Shows tokens s.openNode ([] :: xs :: around) := by
  obtain ⟨g, c, fs, hgrows, hparts⟩ := h
  have hfs := ne_nil_of_parts hgrows hparts
  obtain ⟨b, bs, hbuds⟩ := List.exists_cons_of_ne_nil (hgrows.buds_ne_nil hfs)
  obtain ⟨g', d, hg', hopen⟩ := hgrows.openNode hfs
  rw [Growth.perform?, hbuds] at hg'
  obtain rfl := Option.some.inj hg'
  refine ⟨_, _, _, hopen, ?_⟩
  rw [← hparts, ← Growth.parts_takeTrivia (hgrows.buds_ne_nil hfs)]
  rfl

/-- The first node that is opened is the root. -/
theorem openRoot (hops : s.ops = []) : Shows s.rest s.openNode [[]] := by
  obtain ⟨g', hg', hopen⟩ := (Grows.start hops).openRoot hops
  obtain rfl := Option.some.inj hg'
  exact ⟨_, _, _, hopen, rfl⟩

theorem close (h : Shows tokens s (xs :: ys :: around)) (k : NodeKind) :
    Shows tokens (s.record (.close k)) ((ys ++ [.ofNode k xs]) :: around) := by
  obtain ⟨g, c, fs, hgrows, hparts⟩ := h
  obtain ⟨f, fs, rfl⟩ := List.exists_cons_of_ne_nil (ne_nil_of_parts hgrows hparts)
  obtain ⟨b, bs, hbuds, rfl, hrest⟩ := List.map_eq_cons_iff.1 hparts
  obtain ⟨a, as, rfl, rfl, rfl⟩ := List.map_eq_cons_iff.1 hrest
  obtain ⟨g', hg', hclose⟩ := hgrows.close k
  rw [Growth.perform?, hbuds] at hg'
  obtain rfl := Option.some.inj hg'
  refine ⟨_, _, _, hclose, ?_⟩
  simp [Growth.closeBud, Growth.add, Growth.setSiblings, Growth.siblings, Bud.parts,
    Tree.forestSkeletons, Tree.skeletons]

theorem ended_close (h : Shows tokens s (xs :: around)) (k : NodeKind) :
    (s.record (.close k)).Ended := by
  obtain ⟨g, c, fs, hgrows, hparts⟩ := h
  obtain ⟨f, fs, rfl⟩ := List.exists_cons_of_ne_nil (ne_nil_of_parts hgrows hparts)
  obtain ⟨g', -, hclose⟩ := hgrows.close k
  refine hclose.follows.holds.back?_eq_finish.2 ?_
  obtain ⟨before, _ | first⟩ := f <;> exact ⟨_, _, rfl⟩

/-- A node that is opened around the last one takes its part. -/
theorem wrap (h : Shows tokens s ((xs ++ [x]) :: around)) (hended : s.Ended) :
    Shows tokens (s.record .wrap) ([x] :: xs :: around) := by
  obtain ⟨g, c, fs, hgrows, hparts⟩ := h
  obtain ⟨⟨start, children⟩, bs, hbuds, hb, rfl⟩ := List.map_eq_cons_iff.1 hparts
  obtain ⟨g', f, hg', hwrap⟩ := hgrows.wrap hended
  rw [Growth.perform?, Growth.siblings, hbuds] at hg'
  split at hg'
  · next k sp ts us hchildren =>
    obtain rfl : children = .node k sp ts :: us := hchildren
    obtain rfl := Option.some.inj hg'
    rw [Bud.parts, List.reverse_cons, Tree.forestSkeletons_concat, Tree.skeletons] at hb
    obtain ⟨rfl, hx⟩ := List.append_inj' hb rfl
    refine ⟨_, _, _, hwrap, ?_⟩
    rw [← hx]
    simp [Growth.setSiblings, Growth.openBud, hbuds, Bud.parts, Tree.forestSkeletons,
      Tree.skeletons]
  · cases hg'

/-- The tree that is recorded when the root is closed. -/
theorem skeletons_treeOfOps (h : Shows tokens s [xs]) (k : NodeKind) :
    (treeOfOps (s.record (.close k)).ops.reverse tokens).skeletons = [.ofNode k xs] := by
  obtain ⟨g, c, fs, hgrows, hparts⟩ := h
  obtain ⟨f, fs, rfl⟩ := List.exists_cons_of_ne_nil (ne_nil_of_parts hgrows hparts)
  obtain ⟨b, bs, hbuds, rfl, hrest⟩ := List.map_eq_cons_iff.1 hparts
  obtain rfl := List.map_eq_nil_iff.1 hrest
  have hlen := congrArg List.length hbuds
  obtain rfl : fs = [] := by
    cases fs with
    | nil => rfl
    | cons f' fs => simp [hgrows.growth_eq, Growth.ofSketches] at hlen
  obtain ⟨g', hg', hclose⟩ := hgrows.close k
  rw [Growth.perform?, hbuds] at hg'
  obtain rfl := Option.some.inj hg'
  obtain ⟨root, hroot⟩ : ∃ root, f.finish k c = .node .nothing root := by
    obtain hnothing | ⟨-, hroot⟩ := hclose.topmost_eq
    · obtain ⟨before, _ | first⟩ := f <;> cases hnothing
    · exact hroot
  rw [hroot] at hclose
  rw [treeOfOps_eq hclose.follows.holds]
  have hgrown := congrArg Growth.grown hclose.growth_eq
  have hempty : g.grown = [] := by
    have hbefore : f.before = .nothing := hgrows.topmost_eq.resolve_right fun h => by cases h.1
    simp [hgrows.growth_eq, Growth.ofSketches, hbefore, Contents.plant]
  simp [Growth.closeBud, Growth.add, Growth.setSiblings, Growth.siblings, Growth.ofSketches,
    Contents.plant, hempty] at hgrown
  rw [← hgrown]
  simp [Tree.skeletons, Bud.parts]

end Shows

end ParserState

end Reshape
