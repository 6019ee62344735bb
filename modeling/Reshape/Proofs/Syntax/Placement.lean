import Reshape.Proofs.Tree.Covering
import Reshape.Syntax.Form

/-!
# Where nodes stand

The nodes that are reached from the root of a file stand in its text: the place of each is a range
between characters, and it is part of the place of the node around it.

* `Node.Below` says that a node is reached from another by steps to children.
  `below_of_mem_descendants` and `Below.parent?` are the other ways to walk.
* `Node.PlacedIn` says that a node stands in a text; children of such nodes stand in it too
  (`PlacedIn.child`).
* `placedIn_of_below` is the result for the nodes of a file.
-/

namespace Reshape

open Reshape.Tree

namespace Node

/-! ## Walking -/

/-- A node among trees is one of them, in the surroundings of them all. -/
theorem exists_of_mem_nodesAmong {above : List Layer} {i : Nat} {ts : List Tree} {m : Node}
    (h : m ∈ nodesAmong above i ts) :
    m.above = above ∧ ∃ before behind, ts = before ++ m.tree :: behind := by
  induction ts generalizing i with
  | nil => simp [nodesAmong] at h
  | cons t ts ih =>
    have hskip (hm : m ∈ nodesAmong above (i + 1) ts) :
        m.above = above ∧ ∃ before behind, t :: ts = before ++ m.tree :: behind := by
      obtain ⟨habove, before, behind, hts⟩ := ih hm
      exact ⟨habove, t :: before, behind, by rw [hts, List.cons_append]⟩
    cases t with
    | leaf t => exact hskip h
    | node k s es =>
      obtain rfl | hm := List.mem_cons.1 h
      · exact ⟨rfl, [], ts, rfl⟩
      · exact hskip hm

theorem exists_of_mem_children {n m : Node} (h : m ∈ n.children) :
    m.above = n.toLayer :: n.above ∧ ∃ before behind, n.elements = before ++ m.tree :: behind :=
  exists_of_mem_nodesAmong h

theorem parent?_of_mem_children {n m : Node} (h : m ∈ n.children) : m.parent? = some n := by
  rw [parent?, (exists_of_mem_children h).1]

/-- A node is reached from another by steps to children. -/
inductive Below (r : Node) : Node → Prop
  | refl : Below r r
  | child {n m : Node} : Below r n → m ∈ n.children → Below r m

namespace Below

variable {r n m : Node}

theorem trans (h : Below r n) (h' : Below n m) : Below r m := by
  induction h' with
  | refl => exact h
  | child _ hm ih => exact ih.child hm

theorem child? {p : NodeKind → Bool} (h : Below r n) (hm : n.child? p = some m) : Below r m :=
  h.child (List.mem_of_find?_eq_some hm)

theorem childOfKind? {k : NodeKind} (h : Below r n) (hm : n.childOfKind? k = some m) : Below r m :=
  h.child? hm

theorem childrenOfKind {k : NodeKind} (h : Below r n) (hm : m ∈ n.childrenOfKind k) : Below r m :=
  h.child (List.mem_filter.1 hm).1

/-- Below a root, a node is a child of the node around it. -/
theorem mem_children_of_parent? (hr : r.above = []) (h : Below r n) (hm : n.parent? = some m) :
    n ∈ m.children := by
  cases h with
  | refl => simp [Node.parent?, hr] at hm
  | child _ hc =>
    rw [parent?_of_mem_children hc, Option.some.injEq] at hm
    exact hm ▸ hc

/-- Below a root, the node around a node is reached as well. -/
theorem parent? (hr : r.above = []) (h : Below r n) (hm : n.parent? = some m) : Below r m := by
  cases h with
  | refl => simp [Node.parent?, hr] at hm
  | child hb hc =>
    rw [parent?_of_mem_children hc, Option.some.injEq] at hm
    exact hm ▸ hb

end Below

theorem mem_nodesAmong_of_eq {above : List Layer} {before behind : List Tree} {k : NodeKind}
    {s : Span} {es : List Tree} (i : Nat) :
    (⟨⟨k, s, es, i + before.length⟩, above⟩ : Node) ∈
      nodesAmong above i (before ++ .node k s es :: behind) := by
  induction before generalizing i with
  | nil => exact List.mem_cons_self
  | cons t before ih =>
    have h := ih (i + 1)
    rw [Nat.add_right_comm, Nat.add_assoc] at h
    cases t with
    | leaf t => exact h
    | node k' s' es' => exact List.mem_cons_of_mem _ h

mutual

/-- The nodes of a tree among the children of a node are below that node. -/
theorem below_of_mem_descendantsOf {n m : Node} :
    (t : Tree) → (before behind : List Tree) → n.elements = before ++ t :: behind →
      m ∈ descendantsOf (n.toLayer :: n.above) before.length t → Below n m
  | .leaf t, _, _, _, h => by simp [descendantsOf] at h
  | .node k s es, before, behind, hes, h => by
    have hchild : (⟨⟨k, s, es, before.length⟩, n.toLayer :: n.above⟩ : Node) ∈ n.children := by
      have hmem : (⟨⟨k, s, es, 0 + before.length⟩, n.toLayer :: n.above⟩ : Node) ∈
          nodesAmong (n.toLayer :: n.above) 0 (before ++ .node k s es :: behind) :=
        mem_nodesAmong_of_eq 0
      rw [Nat.zero_add, ← hes] at hmem
      exact hmem
    have hbelow : Below n ⟨⟨k, s, es, before.length⟩, n.toLayer :: n.above⟩ := .child .refl hchild
    rw [descendantsOf] at h
    obtain rfl | hm := List.mem_cons.1 h
    · exact hbelow
    · exact hbelow.trans (below_of_mem_descendantsAmong es [] (by simp) hm)

/-- The nodes of trees among the children of a node are below that node. -/
theorem below_of_mem_descendantsAmong {n m : Node} :
    (ts : List Tree) → (before : List Tree) → n.elements = before ++ ts →
      m ∈ descendantsAmong (n.toLayer :: n.above) before.length ts → Below n m
  | [], _, _, h => by simp [descendantsAmong] at h
  | t :: ts, before, hes, h => by
    rw [descendantsAmong] at h
    obtain hm | hm := List.mem_append.1 h
    · exact below_of_mem_descendantsOf t before ts hes hm
    · refine below_of_mem_descendantsAmong ts (before ++ [t]) (by simp [hes]) ?_
      simpa using hm

end

theorem below_of_mem_descendants {n m : Node} (h : m ∈ n.descendants) : Below n m := by
  obtain rfl | hm := List.mem_cons.1 h
  · exact .refl
  · exact below_of_mem_descendantsAmong n.elements [] rfl hm

/-! ## Standing in a text -/

/-- A node stands in a text: what its tokens cover is its place, and they are what the text has
there. -/
structure PlacedIn (text : String) (n : Node) : Prop where
  covers : n.tree.Covers n.span.start n.span.stop
  text_eq : ∃ before behind, text.toList = before ++ n.text.toList ++ behind ∧
    byteLength before = n.span.start

namespace PlacedIn

variable {text : String} {n m : Node}

theorem le (h : n.PlacedIn text) : n.span.start ≤ n.span.stop := h.covers.le

/-- The text of a node is cut out of the text around it. -/
theorem exists_split (h : n.PlacedIn text) : ∃ before behind,
    text.toList = before ++ n.text.toList ++ behind ∧ byteLength before = n.span.start ∧
      byteLength (before ++ n.text.toList) = n.span.stop := by
  obtain ⟨before, behind, htext, hstart⟩ := h.text_eq
  refine ⟨before, behind, htext, hstart, ?_⟩
  rw [byteLength_append, hstart, ← utf8ByteSize_eq_byteLength]
  exact h.covers.stop_eq.symm

/-- Both ends of a place are boundaries of the text. -/
theorem isBoundary (h : n.PlacedIn text) :
    isBoundary n.span.start text.toList = true ∧ isBoundary n.span.stop text.toList = true := by
  obtain ⟨before, behind, htext, hstart, hstop⟩ := h.exists_split
  exact ⟨isBoundary_iff.2 ⟨before, n.text.toList ++ behind, by rw [htext, List.append_assoc], hstart⟩,
    isBoundary_iff.2 ⟨_, behind, htext, hstop⟩⟩

/-- A boundary of the text in the place of a node is one of the text of the node. -/
theorem isBoundary_sub (h : n.PlacedIn text) {i : Nat} (hi : Reshape.isBoundary i text.toList = true)
    (hstart : n.span.start ≤ i) (hstop : i ≤ n.span.stop) :
    Reshape.isBoundary (i - n.span.start) n.text.toList = true := by
  obtain ⟨before, behind, htext, hbefore, hend⟩ := h.exists_split
  rw [htext, List.append_assoc] at hi
  rw [byteLength_append, hbefore] at hend
  have hrest := isBoundary_sub_of_append hi (by omega)
  rw [hbefore] at hrest
  exact isBoundary_of_append hrest (by omega)

theorem sliceText_eq (h : n.PlacedIn text) : sliceText text n.span.start n.span.stop = n.text := by
  obtain ⟨before, behind, htext, hstart, hstop⟩ := h.exists_split
  rw [sliceText, htext, ← hstart, ← hstop, sliceChars_append, String.ofList_toList]

/-- A child stands in the text too, and its place is part of that of the node. -/
theorem child (h : n.PlacedIn text) (hm : m ∈ n.children) :
    m.PlacedIn text ∧ n.span.contains m.span = true := by
  obtain ⟨-, before, behind, helements⟩ := exists_of_mem_children hm
  have hforest := h.covers.2
  rw [helements] at hforest
  obtain ⟨i, hbefore, j, hmid, hbehind⟩ := forestCovers_append.1 hforest
  have hspan : m.span = ⟨i, j⟩ := hmid.span_eq
  obtain ⟨us, vs, htext, hlen⟩ := h.text_eq
  have hcontains : n.span.contains m.span = true := by
    rw [hspan]
    exact Span.contains_iff.2 ⟨hbefore.le, hbehind.le⟩
  refine ⟨⟨by rw [hspan]; exact hmid, us ++ (tokensText (forestLeaves before)).toList,
    (tokensText (forestLeaves behind)).toList ++ vs, ?_, ?_⟩, hcontains⟩
  · have hn : n.text = tokensText (forestLeaves before) ++ m.text ++
        tokensText (forestLeaves behind) := by
      rw [Node.text, Tree.text, Node.tree, leaves, helements, forestLeaves_append, forestLeaves,
        tokensText_append, tokensText_append, String.append_assoc]
      rfl
    rw [htext, hn]
    simp
  · have hi := hbefore.stop_eq
    rw [byteLength_append, hlen, ← utf8ByteSize_eq_byteLength, hspan]
    exact hi.symm

end PlacedIn

/-- What is below a node of a text stands in the text, in the place of the node. -/
theorem PlacedIn.below {text : String} {n m : Node} (h : n.PlacedIn text) (hm : Below n m) :
    m.PlacedIn text ∧ n.span.contains m.span = true := by
  induction hm with
  | refl => exact ⟨h, Span.contains_refl _⟩
  | child _ hc ih =>
    obtain ⟨hplaced, hin⟩ := ih
    obtain ⟨hplaced', hin'⟩ := hplaced.child hc
    exact ⟨hplaced', Span.contains_trans hin hin'⟩

theorem placedIn_ofTree {text : String} {t : Tree} (hcovers : t.Covers 0 text.utf8ByteSize)
    (htext : t.text = text) : (ofTree t).PlacedIn text := by
  have hspan := hcovers.span_eq
  cases t with
  | leaf t =>
    refine ⟨⟨rfl, forestCovers_singleton.2 ?_⟩, [], [], ?_, ?_⟩
    · exact ⟨rfl, rfl⟩
    · rw [List.nil_append, List.append_nil, ← htext]
      simp [Node.text, Node.tree, ofTree, Tree.text, leaves, forestLeaves]
    · exact hcovers.1.symm
  | node k s ts =>
    have hs : s = ⟨0, text.utf8ByteSize⟩ := hspan
    subst hs
    refine ⟨hcovers, [], [], ?_, rfl⟩
    rw [List.nil_append, List.append_nil, ← htext]
    rfl

/-- The nodes below the root of a file stand in its text. -/
theorem placedIn_of_below {text : String} {n : Node}
    (h : Below (ofTree (parseFile text).tree) n) : n.PlacedIn text := by
  have hp := planted_parseFile text
  generalize parseFile text = p at h hp
  exact ((placedIn_ofTree hp.covers hp.lossless.2).below h).1

end Node

end Reshape
