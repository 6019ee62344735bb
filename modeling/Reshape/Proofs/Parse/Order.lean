import Reshape.Proofs.Grammar.Forms
import Reshape.Proofs.Tree.Covering

/-!
# Children of every file are in order

* `Tree.Ordered` says that the children of every node of a tree are in order.
* `Sketch.ordered_plant` is this for the trees of sketches, `ordered_parseFile` for the trees of
  files, whatever is wrong with their texts.
-/

namespace Reshape

open Reshape.Tree

/-! ## Trees in order -/

/-- The children of every node of a tree are in order. -/
inductive Tree.Ordered : Tree → Prop
  | leaf (t : Token) : Ordered (.leaf t)
  | node {k : NodeKind} {s : Span} {ts : List Tree} : InOrder k (ts.filterMap (·.kind?)) →
    (∀ t ∈ ts, Ordered t) → Ordered (.node k s ts)

theorem Sketch.kind?_plant (s : Sketch) (g : Supply) : (s.plant g).1.kind? = some s.kind := by
  cases s <;> rfl

theorem Contents.kinds_plant (c : Contents) (g : Supply) :
    (c.plant g).1.filterMap (·.kind?) = c.kinds := by
  cases c with
  | nothing => rfl
  | token c =>
    have hc := Contents.kinds_plant c g
    rw [Contents.plant]
    dsimp only
    split
    · exact hc
    · rw [List.filterMap_append, hc]
      simp [Contents.kinds, Tree.kind?]
  | node c s =>
    have hc := Contents.kinds_plant c g
    rw [Contents.plant]
    dsimp only
    rw [List.filterMap_append, hc]
    simp [Contents.kinds, s.kind?_plant]

mutual

/-- The tree of a sketch in order is in order. -/
theorem Sketch.ordered_plant : (s : Sketch) → (g : Supply) → s.Ordered → (s.plant g).1.Ordered
  | .plain k c, g, h => by
    refine .node ?_ (Contents.ordered_plant c g h.2)
    rw [Contents.kinds_plant]
    exact h.1
  | .around k s c, g, h => by
    obtain ⟨hnames, hs, hc⟩ := h
    refine .node ?_ (List.forall_mem_cons.2
      ⟨Sketch.ordered_plant s g hs, Contents.ordered_plant c (s.plant g).2 hc⟩)
    rw [List.filterMap_cons, s.kind?_plant, Contents.kinds_plant]
    exact hnames

/-- The trees of contents in order are in order. -/
theorem Contents.ordered_plant :
    (c : Contents) → (g : Supply) → c.Ordered → ∀ t ∈ (c.plant g).1, t.Ordered
  | .nothing, _, _ => by simp [Contents.plant]
  | .token c, g, h => by
    have hc := Contents.ordered_plant c g h
    rw [Contents.plant]
    dsimp only
    split
    · exact hc
    · exact List.forall_mem_append.2 ⟨hc, List.forall_mem_singleton.2 (.leaf _)⟩
  | .node c s, g, h => by
    have hc := Contents.ordered_plant c g h.1
    have hs := Sketch.ordered_plant s (c.plant g).2 h.2
    exact List.forall_mem_append.2 ⟨hc, List.forall_mem_singleton.2 hs⟩

end

/-! ## Trees of files -/

namespace Grammar

open ParserState

theorem runRule_orders {tokens : List Token} (depth : Nat) (r : Rule) {s : ParserState}
    {listed : Bool} {c : Contents} {fs : List OpenNode} (h : Tidy tokens listed s c fs) :
    ∃ d, Tidy tokens listed (runRule depth r s).2 d fs := by
  induction depth generalizing r s listed c fs with
  | zero => exact ⟨c, h.congr rfl rfl⟩
  | succ depth ih =>
    obtain ⟨d, after, hd, rfl, -⟩ :=
      run_orders (fun r s listed c fs => ih r) r.grammar (r.orders_grammar listed) h
    exact ⟨d, hd⟩

/-- A text that is read as one node has a tree in order. -/
theorem ordered_parseWithin {g : Grammar Unit} (hg : g.Orders false fun _ _ => True) (depth : Nat)
    {k : NodeKind} (hk : k ≠ .nameRef) (hk' : k ≠ .structDef) (text : String) :
    (parseWithin depth (nodeOf k g) text).tree.Ordered := by
  have hopen : Tidy (lexTokens text) false (ParserState.initial text).openNode .nothing
      [⟨.nothing, none⟩] :=
    ⟨(follows_initial text).record_openNode, trivial, by simp [OpenNode.Ordered, Contents.Ordered],
      .nil, fun _ k hk => by cases hk⟩
  obtain ⟨e, after, he, -⟩ :=
    run_orders (fun r s listed c fs => runRule_orders depth r) g hg hopen
  have hnames : NamesFirst e.kinds := by
    simpa [OpenNode.childKinds, OpenNode.firstKinds] using he.names
  have hrun : parserAfter depth (nodeOf k g) text =
      ((g.run (runRule depth) (ParserState.initial text).openNode).2).record (.close k) := rfl
  rw [parseWithin, hrun]
  dsimp only
  rw [treeOfOps_eq (he.follows.record_close k).holds]
  exact Sketch.ordered_plant (.plain k e) _ ⟨⟨hnames, fun hused => absurd hused hk,
    fun hstruct => absurd hstruct hk'⟩, he.ordered⟩

theorem ordered_sourceFile (text : String) (depth : Nat) :
    (parseWithin depth sourceFile text).tree.Ordered := by
  rw [sourceFile]
  refine ordered_parseWithin ?_ depth (by simp) (by simp) text
  rw [orders_bind, orders_innerAttributes, orders_bind]
  exact orders_items (by simp)

end Grammar

theorem ordered_parseFile (text : String) : (parseFile text).tree.Ordered := by
  rw [parseFile, parseWith]
  exact Grammar.ordered_sourceFile text _

end Reshape
