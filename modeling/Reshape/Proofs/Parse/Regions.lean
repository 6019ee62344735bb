import Reshape.Proofs.Parse.Order
import Reshape.Proofs.Syntax.Placement

/-!
# Nodes and the tokens they take

Every node of a sketch takes a run of the tokens: those from where it begins, as many as it has steps
over tokens.

* `Sketch.Each` says that a property holds of every node of a sketch and of the number of tokens before
  it, `OpenNode.Each` says so of what stands before the open nodes.
* `Sketch.Grows` relates a sketch to the tree that it becomes. `Node.grows_of_below` finds the sketch
  of every node below a root.
* `Sketch.Shows` says that a token of a class stands right in a node, and `Sketch.Grows.shows_iff` that it
  does so in the tree.
-/

namespace Reshape

/-! ## Properties of all nodes -/

/-- The kinds of the nodes among the children of a sketch. -/
def Sketch.childKinds : Sketch → List NodeKind
  | .plain _ c => c.kinds
  | .around _ s c => s.kind :: c.kinds

mutual

/-- A property holds of every node of a sketch, and of the number of tokens before it, if there are
`i` before the sketch. -/
def Sketch.Each (p : Nat → Sketch → Prop) (i : Nat) : Sketch → Prop
  | .plain k c => p i (.plain k c) ∧ c.Each p i
  | .around k s c => p i (.around k s c) ∧ s.Each p i ∧ c.Each p (i + s.tokenCount)

/-- A property holds of every node among contents, and of the number of tokens before it. -/
def Contents.Each (p : Nat → Sketch → Prop) (i : Nat) : Contents → Prop
  | .nothing => True
  | .token c => c.Each p i
  | .node c s => c.Each p i ∧ s.Each p (i + c.tokenCount)

end

variable {p q : Nat → Sketch → Prop} {i : Nat}

theorem Sketch.Each.self {s : Sketch} (h : s.Each p i) : p i s := by
  cases s <;> exact h.1

mutual

theorem Sketch.Each.imp (hpq : ∀ i s, p i s → q i s) {i : Nat} :
    (s : Sketch) → s.Each p i → s.Each q i
  | .plain _ c, h => ⟨hpq _ _ h.1, Contents.Each.imp hpq c h.2⟩
  | .around _ s c, h =>
    ⟨hpq _ _ h.1, Sketch.Each.imp hpq s h.2.1, Contents.Each.imp hpq c h.2.2⟩

theorem Contents.Each.imp (hpq : ∀ i s, p i s → q i s) {i : Nat} :
    (c : Contents) → c.Each p i → c.Each q i
  | .nothing, _ => trivial
  | .token c, h => Contents.Each.imp hpq c h
  | .node c s, h => ⟨Contents.Each.imp hpq c h.1, Sketch.Each.imp hpq s h.2⟩

end

@[simp] theorem Contents.each_pad {c : Contents} {n : Nat} : (c.pad n).Each p i ↔ c.Each p i := by
  induction n with
  | zero => rfl
  | succ n ih => exact ih

@[simp] theorem Contents.tokenCount_pad {c : Contents} {n : Nat} :
    (c.pad n).tokenCount = c.tokenCount + n := by
  induction n with
  | zero => rfl
  | succ n ih => rw [pad, tokenCount, ih, Nat.add_assoc]

namespace OpenNode

variable {c : Contents} {f : OpenNode} {fs : List OpenNode} {k : NodeKind}

/-- The finished node that an open node becomes. -/
def sketch (f : OpenNode) (k : NodeKind) (inside : Contents) : Sketch :=
  match f.first with
  | none => .plain k inside
  | some s => .around k s inside

theorem finish_eq : f.finish k c = f.before.node (f.sketch k c) := by
  obtain ⟨before, _ | s⟩ := f <;> rfl

@[simp] theorem kind_sketch : (f.sketch k c).kind = k := by
  obtain ⟨before, _ | s⟩ := f <;> rfl

@[simp] theorem childKinds_sketch : (f.sketch k c).childKinds = childKinds c (f :: fs) := by
  obtain ⟨before, _ | s⟩ := f <;> rfl

/-- The number of tokens before the node that an open node becomes. -/
def place (f : OpenNode) (fs : List OpenNode) : Nat := tokensBefore fs + f.before.tokenCount

theorem place_add_tokenCount_sketch :
    f.place fs + (f.sketch k c).tokenCount = c.tokenCount + tokensBefore (f :: fs) := by
  obtain ⟨before, _ | s⟩ := f <;>
    simp only [place, sketch, tokensBefore, tokenCount, Sketch.tokenCount] <;> omega

/-- A property holds of every finished node before the open ones, and of the number of tokens before
it. -/
def Each (p : Nat → Sketch → Prop) : List OpenNode → Prop
  | [] => True
  | f :: fs => f.before.Each p (tokensBefore fs) ∧ (∀ s ∈ f.first, s.Each p (f.place fs)) ∧ Each p fs

theorem Each.imp (hpq : ∀ i s, p i s → q i s) (h : Each p fs) : Each q fs := by
  induction fs with
  | nil => trivial
  | cons f fs ih =>
    exact ⟨Contents.Each.imp hpq _ h.1, fun s hs => Sketch.Each.imp hpq s (h.2.1 s hs), ih h.2.2⟩

/-- Closing a node adds one, of which the property has to hold. -/
theorem Each.finish (h : Each p (f :: fs)) (hc : c.Each p (tokensBefore (f :: fs)))
    (hp : p (f.place fs) (f.sketch k c)) : (f.finish k c).Each p (tokensBefore fs) := by
  obtain ⟨hbefore, hfirst, -⟩ := h
  rw [finish_eq]
  refine ⟨hbefore, ?_⟩
  obtain ⟨before, _ | s⟩ := f
  · refine ⟨hp, ?_⟩
    rw [tokensBefore, tokenCount, Nat.add_zero, Nat.add_comm] at hc
    exact hc
  · refine ⟨hp, hfirst s rfl, ?_⟩
    rw [tokensBefore, tokenCount, Nat.add_comm, ← Nat.add_assoc] at hc
    exact hc

/-- A node that takes the last node with it changes nothing else. -/
theorem Each.wrapping (hc : c.Each p (tokensBefore fs)) (h : Each p fs) :
    Each p (wrapping c :: fs) := by
  cases c with
  | nothing => exact ⟨hc, by simp [OpenNode.wrapping], h⟩
  | token c => exact ⟨hc, by simp [OpenNode.wrapping], h⟩
  | node c s => exact ⟨hc.1, by simpa [OpenNode.wrapping, place] using hc.2, h⟩

end OpenNode

/-! ## Tokens right in nodes -/

/-- A token of a class stands right in contents that begin behind `i` tokens. -/
def Contents.Shows (p : TokenKind → Bool) (tokens : List Token) (i : Nat) : Contents → Prop
  | .nothing => False
  | .token c => c.Shows p tokens i ∨ ∃ t ∈ tokens[i + c.tokenCount]?, p t.kind = true
  | .node c _ => c.Shows p tokens i

/-- A token of a class stands right in a node that begins behind `i` tokens. -/
def Sketch.Shows (p : TokenKind → Bool) (tokens : List Token) (i : Nat) : Sketch → Prop
  | .plain _ c => c.Shows p tokens i
  | .around _ s c => c.Shows p tokens (i + s.tokenCount)

section

variable {p : TokenKind → Bool} {tokens : List Token} {c : Contents} {n : Nat}

theorem Contents.shows_pad : (c.pad n).Shows p tokens i ↔
    c.Shows p tokens i ∨ ∃ t ∈ (tokens.drop (i + c.tokenCount)).take n, p t.kind = true := by
  induction n with
  | zero => simp [pad]
  | succ n ih =>
    rw [pad, Shows, ih, tokenCount_pad, ← Nat.add_assoc, ← List.getElem?_drop, or_assoc]
    simp [List.take_add_one, or_and_right, exists_or]

theorem OpenNode.shows_sketch {f : OpenNode} {fs : List OpenNode} {k : NodeKind} :
    (f.sketch k c).Shows p tokens (f.place fs) ↔ c.Shows p tokens (tokensBefore (f :: fs)) := by
  obtain ⟨before, _ | s⟩ := f <;>
    simp [sketch, Sketch.Shows, place, tokensBefore, tokenCount, Nat.add_comm, Nat.add_left_comm,
      Nat.add_assoc]

end

/-! ## Trees -/

/-- A tree grew from a sketch that begins behind `i` tokens. -/
def Sketch.Grows (tokens : List Token) (i : Nat) (s : Sketch) (t : Tree) : Prop :=
  ∃ offset, Contiguous offset (tokens.drop i) ∧ t = (s.plant ⟨tokens.drop i, offset⟩).1

namespace Sketch.Grows

variable {tokens : List Token} {s : Sketch} {t : Tree}

theorem leaves_eq (h : s.Grows tokens i t) : t.leaves = (tokens.drop i).take s.tokenCount := by
  obtain ⟨offset, -, rfl⟩ := h
  exact (s.leaves_plant _).1

theorem kind?_eq (h : s.Grows tokens i t) : t.kind? = some s.kind := by
  obtain ⟨offset, -, rfl⟩ := h
  exact s.kind?_plant _

theorem childKinds_eq (h : s.Grows tokens i t) : t.children.filterMap (·.kind?) = s.childKinds := by
  obtain ⟨offset, -, rfl⟩ := h
  cases s with
  | plain k c => exact c.kinds_plant _
  | around k s c =>
    simp [plant, Tree.children, childKinds, s.kind?_plant, c.kinds_plant]

/-- The tokens behind a tree start where it ends. -/
theorem contiguous_stop (h : s.Grows tokens i t) :
    Contiguous t.span.stop (tokens.drop (i + s.tokenCount)) := by
  obtain ⟨offset, hoff, rfl⟩ := h
  obtain ⟨hcovers, hcont⟩ := s.covers_plant ⟨tokens.drop i, offset⟩ hoff
  rw [(s.leaves_plant _).2, List.drop_drop] at hcont
  rwa [hcovers.span_eq]

end Sketch.Grows

section

variable {tokens : List Token} {offset : Nat}

/-- What contents leave of the tokens behind `i` others. -/
theorem Contents.plant_snd (c : Contents) (h : Contiguous offset (tokens.drop i)) :
    ∃ stop, (c.plant ⟨tokens.drop i, offset⟩).2 = ⟨tokens.drop (i + c.tokenCount), stop⟩ ∧
      Contiguous stop (tokens.drop (i + c.tokenCount)) := by
  have hrest := (c.leaves_plant ⟨tokens.drop i, offset⟩).2
  have hcont := (c.covers_plant ⟨tokens.drop i, offset⟩ h).2
  rw [List.drop_drop] at hrest
  rw [hrest] at hcont
  exact ⟨_, by rw [← hrest], hcont⟩

theorem Sketch.plant_snd (s : Sketch) (h : Contiguous offset (tokens.drop i)) :
    ∃ stop, (s.plant ⟨tokens.drop i, offset⟩).2 = ⟨tokens.drop (i + s.tokenCount), stop⟩ ∧
      Contiguous stop (tokens.drop (i + s.tokenCount)) := by
  have hrest := (s.leaves_plant ⟨tokens.drop i, offset⟩).2
  have hcont := (s.covers_plant ⟨tokens.drop i, offset⟩ h).2
  rw [List.drop_drop] at hrest
  rw [hrest] at hcont
  exact ⟨_, by rw [← hrest], hcont⟩

/-- What stands right in contents are the tokens among their trees. -/
theorem Contents.shows_iff {p : TokenKind → Bool} (c : Contents) (offset : Nat) :
    c.Shows p tokens i ↔
      ∃ t, .leaf t ∈ (c.plant ⟨tokens.drop i, offset⟩).1 ∧ p t.kind = true := by
  cases c with
  | nothing => simp [Shows, plant]
  | token c =>
    have hrest := (c.leaves_plant ⟨tokens.drop i, offset⟩).2
    rw [List.drop_drop] at hrest
    rw [Shows, c.shows_iff offset, ← List.head?_drop, ← hrest, plant]
    dsimp only
    split
    · next hnil => simp [hnil]
    · next t ts hcons => simp [hcons, or_and_right, exists_or]
  | node c s =>
    rw [Shows, c.shows_iff offset, plant]
    refine exists_congr fun t => and_congr_left' ?_
    cases s <;> simp [Sketch.plant]

/-- What stands right in a sketch are the tokens among the children of its tree. -/
theorem Sketch.Grows.shows_iff {p : TokenKind → Bool} {s : Sketch} {t : Tree} (h : s.Grows tokens i t) :
    s.Shows p tokens i ↔ ∃ u, .leaf u ∈ t.children ∧ p u.kind = true := by
  obtain ⟨offset, hoff, rfl⟩ := h
  cases s with
  | plain k c => exact c.shows_iff _
  | around k s c =>
    obtain ⟨stop, hsupply, -⟩ := s.plant_snd hoff
    simp only [plant, Tree.children, hsupply, List.mem_cons, Sketch.Shows]
    rw [c.shows_iff stop]
    refine exists_congr fun u => and_congr_left' (or_iff_right fun hfirst => ?_).symm
    cases s <;> simp [Sketch.plant] at hfirst

/-- A tree among those of contents is a token, or grew from one of the nodes. -/
theorem Contents.leaf_or_grows {t : Tree} :
    (c : Contents) → {offset : Nat} → c.Each p i → Contiguous offset (tokens.drop i) →
      t ∈ (c.plant ⟨tokens.drop i, offset⟩).1 →
      (∃ u, t = .leaf u) ∨ ∃ (s : Sketch) (j : Nat), s.Each p j ∧ s.Grows tokens j t
  | .nothing, _, _, _, ht => by simp [plant] at ht
  | .token c, _, hc, hoff, ht => by
    simp only [plant] at ht
    split at ht
    · exact leaf_or_grows c hc hoff ht
    · obtain ht | ht := List.mem_append.1 ht
      · exact leaf_or_grows c hc hoff ht
      · exact .inl ⟨_, List.mem_singleton.1 ht⟩
  | .node c s, _, hc, hoff, ht => by
    obtain ht | ht := List.mem_append.1 ht
    · exact leaf_or_grows c hc.1 hoff ht
    · obtain ⟨stop, hsupply, hcont⟩ := c.plant_snd hoff
      rw [hsupply] at ht
      exact .inr ⟨s, _, hc.2, stop, hcont, List.mem_singleton.1 ht⟩

/-- The trees below one that grew from a sketch are tokens, or grew from sketches in it. -/
theorem Sketch.Grows.leaf_or_grows {s : Sketch} {t u : Tree} (h : s.Grows tokens i t)
    (hs : s.Each p i) (hu : u ∈ t.children) :
    (∃ v, u = .leaf v) ∨ ∃ (s : Sketch) (j : Nat), s.Each p j ∧ s.Grows tokens j u := by
  obtain ⟨offset, hoff, rfl⟩ := h
  cases s with
  | plain k c => exact c.leaf_or_grows hs.2 hoff hu
  | around k s c =>
    obtain rfl | hu := List.mem_cons.1 hu
    · exact .inr ⟨s, i, hs.2.1, offset, hoff, rfl⟩
    · obtain ⟨stop, hsupply, hcont⟩ := s.plant_snd hoff
      rw [hsupply] at hu
      exact c.leaf_or_grows hs.2.2 hcont hu

end

namespace Node

variable {tokens : List Token} {s : Sketch} {n m r : Node}

/-- A child of a node that grew from a sketch grew from one in it. -/
theorem grows_of_mem_children (h : s.Grows tokens i n.tree) (hs : s.Each p i) (hm : m ∈ n.children) :
    ∃ (s : Sketch) (j : Nat), s.Each p j ∧ s.Grows tokens j m.tree := by
  obtain ⟨-, before, behind, helements⟩ := exists_of_mem_children hm
  have hmem : m.tree ∈ n.tree.children := by
    show m.tree ∈ n.elements
    rw [helements]
    simp
  obtain ⟨u, hu⟩ | hgrows := h.leaf_or_grows hs hmem
  · cases hu
  · exact hgrows

/-- The nodes below one whose children grew from sketches grew from sketches in them. -/
theorem grows_of_below (hr : ∀ n ∈ r.children, ∃ (s : Sketch) (j : Nat), s.Each p j ∧
    s.Grows tokens j n.tree) (h : Below r n) (hne : n ≠ r) :
    ∃ (s : Sketch) (j : Nat), s.Each p j ∧ s.Grows tokens j n.tree := by
  induction h with
  | refl => exact absurd rfl hne
  | @child n m hn hm ih =>
    by_cases hnr : n = r
    · exact hr m (hnr ▸ hm)
    · obtain ⟨s, j, hs, hgrows⟩ := ih hnr
      exact grows_of_mem_children hgrows hs hm

end Node

end Reshape
