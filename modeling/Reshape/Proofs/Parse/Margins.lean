import Reshape.Proofs.Parse.Abandoned

/-!
# Where nodes begin and end

Trivia before a node belong to the node around it. So every node of a parse begins with a significant
token, and it ends with one too: its place is that of its significant tokens and what is between them.

A node reads the trivia before a child once it opens the child. Where that turns out to be empty, they
are the last thing in the node. This is what an empty bound does to a list of bounds, without any problem
being found; in other forms an empty child comes with a problem at the same place.

* `neat_parseWithin` puts the run lemma to use: all nodes below the root of a parse are neat.
* `Node.EndsInOpenBounds` are the nodes that end with a list of bounds in which another one could follow.
* `margins_of_below` is the result.
-/

namespace Reshape

open Reshape.Tree

/-! ## Neat parses -/

theorem crisp_lexTokens (text : String) : Crisp (lexTokens text) (lexTokens text).length := by
  obtain ⟨ts, hts, -⟩ := exists_lexTokens_eq_concat text
  rw [Crisp, List.take_length, hts, List.getLast?_concat]
  rintro t ⟨⟩
  rfl

namespace Grammar

open ParserState

/-- Before the first token of the root. -/
def start : Standing := ⟨false, false, true, false⟩

/-- A parse in which the parser was not stopped is a sketch of neat nodes. Where no problem was found, no
error is right below its root. -/
theorem neat_parseWithin {text : String} {depth : Nat} {g : Grammar Unit} {k : NodeKind}
    (hg : start ∈ g.wp fun _ => closable k) (hk : k ≠ .blockExpr)
    (hend : (parserAfter depth (nodeOf k g) text).exhausted = false) :
    ∃ e : Contents, (parseWithin depth (nodeOf k g) text).tree =
        ((Sketch.plain k e).plant ⟨lexTokens text, 0⟩).1 ∧
      e.Each (Sketch.Neat (lexTokens text) (parseWithin depth (nodeOf k g) text).problems) 0 ∧
      ((parseWithin depth (nodeOf k g) text).problems = [] →
        lexErrors text = [] ∧ .errorNode ∉ e.kinds) := by
  have hlast := crisp_lexTokens text
  have hrun : parserAfter depth (nodeOf k g) text =
      ((g.run (runRule depth) (ParserState.initial text).openNode).2).record (.close k) := rfl
  have hopen : Stands (lexTokens text) start (ParserState.initial text).openNode .nothing
      [⟨.nothing, none⟩] := by
    refine ⟨(follows_initial text).record_openNode, by simp [openNode], .inl ?_, trivial,
      ⟨trivial, by simp, trivial⟩, ?_, ?_, ?_, ?_⟩
    · simp [Crisp, Contents.tokenCount, OpenNode.tokensBefore, OpenNode.tokenCount]
    · intro hm
      cases hm
    · intro hm
      cases hm
    · intro _ _ hmem
      cases hmem
    · intro hm
      cases hm
  rw [parseWithin, hrun] at *
  obtain ⟨e, m, he, hm⟩ := run_stands hlast (heeds_runRule hlast depth) g hg hopen hend
  have hlater := run_later (runRule_later depth) g (ParserState.initial text).openNode
  generalize (g.run (runRule depth) (ParserState.initial text).openNode).2 = s at *
  have hsub : s.problems ⊆ s.problems.reverse.mergeSort fun p q => p.span.start ≤ q.span.start := by
    intro p hp
    simpa using hp
  refine ⟨e, treeOfOps_eq (he.follows.record_close k).holds _,
    Contents.Each.imp (fun _ _ => Sketch.Neat.mono hsub _ _) e he.inside, fun hnil => ?_⟩
  have hproblems : s.problems = [] := List.subset_nil.1 (hnil ▸ hsub)
  refine ⟨?_, ?_⟩
  · have hinitial : (lexProblems text).reverse = [] := hlater.problems hproblems
    simpa [lexProblems] using hinitial
  · exact he.spotless (hm.2.1.resolve_left hk) hproblems

/-- Files and single expressions are sketches of neat nodes. -/
theorem neat_parse {text : String} {depth : Nat} {g : Grammar Unit}
    (hg : g = sourceFile ∨ g = loneExpr) (hend : (parserAfter depth g text).exhausted = false) :
    ∃ e : Contents, (parseWithin depth g text).tree =
        ((Sketch.plain .sourceFile e).plant ⟨lexTokens text, 0⟩).1 ∧
      e.Each (Sketch.Neat (lexTokens text) (parseWithin depth g text).problems) 0 ∧
      ((parseWithin depth g text).problems = [] → lexErrors text = [] ∧ .errorNode ∉ e.kinds) := by
  obtain rfl | rfl := hg
  · refine neat_parseWithin ?_ (by simp) hend
    simp [start, mem_wp_items]
  · refine neat_parseWithin ?_ (by simp) hend
    rw [mem_wp_bind, mem_wp_expr]
    simp [start]

end Grammar

/-! ## Nodes below the root -/

namespace Node

open Grammar

variable {tokens : List Token} {problems : List Problem} {s : Sketch} {n m : Node} {i : Nat}

/-- The nodes below the root of a tree that grew from a sketch grew from sketches in it. -/
theorem grows_of_below_plant {text : String} {k : NodeKind} {e : Contents} {p : Nat → Sketch → Prop}
    {t : Tree} (ht : t = ((Sketch.plain k e).plant ⟨lexTokens text, 0⟩).1) (he : e.Each p 0)
    (hn : Below (ofTree t) n) (hne : n ≠ ofTree t) :
    ∃ (s : Sketch) (i : Nat), s.Each p i ∧ s.Grows (lexTokens text) i n.tree := by
  refine grows_of_below (fun c hc => ?_) hn hne
  obtain ⟨-, before, behind, helements⟩ := exists_of_mem_children hc
  have hroot : (ofTree t).elements = (e.plant ⟨lexTokens text, 0⟩).1 := by
    rw [ht]
    rfl
  have hmem : c.tree ∈ (e.plant ⟨(lexTokens text).drop 0, 0⟩).1 := by
    rw [List.drop_zero, ← hroot, helements]
    simp
  obtain ⟨u, hu⟩ | hgrows := e.leaf_or_grows he (contiguous_lexTokens text) hmem
  · cases hu
  · exact hgrows

/-- The nodes below the root of a parse are neat. -/
theorem neat_of_below {text : String} {depth : Nat} {g : Grammar Unit}
    (hg : g = sourceFile ∨ g = loneExpr) (hend : (parserAfter depth g text).exhausted = false)
    (hn : Below (ofTree (parseWithin depth g text).tree) n)
    (hne : n ≠ ofTree (parseWithin depth g text).tree) :
    ∃ (s : Sketch) (i : Nat), s.Neat (lexTokens text) (parseWithin depth g text).problems i ∧
      s.Grows (lexTokens text) i n.tree := by
  obtain ⟨e, htree, hneat, -⟩ := neat_parse hg hend
  obtain ⟨s, i, hs, hgrows⟩ := grows_of_below_plant htree hneat hn hne
  exact ⟨s, i, hs.self, hgrows⟩

/-! ## Lists of bounds that may go on -/

/-- A list of bounds whose last significant token is a plus sign, or that has none. -/
def IsOpenBoundList (n : Node) : Prop :=
  n.kind = .typeBoundList ∧ ∀ t ∈ (significant n.tree.leaves).getLast?, t.kind = .plus

/-- A node ends with a list of bounds in which another one could follow. -/
def EndsInOpenBounds (n : Node) : Prop :=
  ∃ b, Below n b ∧ b.span.stop = n.span.stop ∧ b.IsOpenBoundList

theorem EndsInOpenBounds.of_child (hm : m ∈ n.children) (hstop : m.span.stop = n.span.stop)
    (h : m.EndsInOpenBounds) : n.EndsInOpenBounds := by
  obtain ⟨b, hb, hb', hopen⟩ := h
  exact ⟨b, (Below.refl.child hm).trans hb, hb'.trans hstop, hopen⟩

/-- The tree of a sketch that comes last among the trees of a node is that of a child. -/
theorem exists_child_of_append {before behind : List Tree} {t : Tree} {k : NodeKind}
    (hk : t.kind? = some k) (h : n.elements = before ++ t :: behind) :
    ∃ m ∈ n.children, m.tree = t := by
  cases t with
  | leaf t => cases hk
  | node k s es =>
    refine ⟨⟨⟨k, s, es, 0 + before.length⟩, n.toLayer :: n.above⟩, ?_, rfl⟩
    rw [children, h]
    exact mem_nodesAmong_of_eq 0

end Node

theorem Sketch.stop_plant (s : Sketch) (g : Supply) : (s.plant g).1.span.stop = (s.plant g).2.offset := by
  cases s <;> rfl

namespace Node

open Grammar

variable {tokens : List Token} {s : Sketch} {n m : Node} {i : Nat}

/-- The node of a sketch that ends open ends with a list of bounds in which another one could follow. -/
theorem endsInOpenBounds_of_grows (h : s.EndsOpen tokens i) (hn : s.Grows tokens i n.tree) :
    n.EndsInOpenBounds := by
  induction h generalizing n with
  | @list i c hhangs =>
    have hkind : some n.kind = some .typeBoundList := hn.kind?_eq
    refine ⟨n, .refl, rfl, Option.some.inj hkind, ?_⟩
    rw [hn.leaves_eq]
    exact hhangs
  | @plain i k c s hs ih =>
    obtain ⟨offset, hoff, htree⟩ := hn
    obtain ⟨stop, hsupply, hcont⟩ := c.plant_snd hoff
    simp only [tree, Sketch.plant, Contents.plant, hsupply, Tree.node.injEq] at htree
    obtain ⟨-, hspan, helements⟩ := htree
    obtain ⟨m, hm, hmtree⟩ := exists_child_of_append (s.kind?_plant _) helements
    refine .of_child hm ?_ (ih ⟨stop, hcont, hmtree⟩)
    rw [hspan, ← s.stop_plant, ← hmtree]
    rfl
  | @around i k first s c hs ih =>
    obtain ⟨offset, hoff, htree⟩ := hn
    obtain ⟨middle, hfirst, hmiddle⟩ := first.plant_snd hoff
    obtain ⟨stop, hsupply, hcont⟩ := c.plant_snd hmiddle
    simp only [tree, Sketch.plant, Contents.plant, hfirst, hsupply, Tree.node.injEq] at htree
    obtain ⟨-, hspan, helements⟩ := htree
    obtain ⟨m, hm, hmtree⟩ := exists_child_of_append (s.kind?_plant _)
      (helements.trans (List.cons_append ..).symm)
    refine .of_child hm ?_ (ih ⟨stop, hcont, hmtree⟩)
    rw [hspan, ← s.stop_plant, ← hmtree]
    rfl
  | @first i k s hs ih =>
    obtain ⟨offset, hoff, htree⟩ := hn
    simp only [tree, Sketch.plant, Contents.plant, Tree.node.injEq] at htree
    obtain ⟨-, hspan, helements⟩ := htree
    obtain ⟨m, hm, hmtree⟩ := exists_child_of_append (s.kind?_plant _)
      (helements.trans (List.nil_append _).symm)
    refine .of_child hm ?_ (ih ⟨offset, hoff, hmtree⟩)
    rw [hspan, ← s.stop_plant, ← hmtree]
    rfl

theorem above_ofTree (t : Tree) : (ofTree t).above = [] := by
  cases t <;> rfl

theorem isTrivia_head_of_grows {problems : List Problem} (hs : s.Neat tokens problems i)
    (hn : s.Grows tokens i n.tree) : ∀ t ∈ n.tree.leaves.head?, t.isTrivia = false := by
  intro t ht
  rw [hn.leaves_eq, List.head?_take] at ht
  split at ht
  · cases ht
  · obtain ⟨us, hus⟩ := List.head?_eq_some_iff.1 ht
    exact isTrivia_of_fromSignificant (hs.begins.trans hus)

theorem isTrivia_getLast_of_crisp {k : Nat} (h : Crisp tokens (i + k)) :
    ∀ t ∈ ((tokens.drop i).take k).getLast?, t.isTrivia = false := by
  intro t ht
  refine h t ?_
  rw [List.take_add, List.getLast?_append, Option.or_of_isSome (Option.isSome_of_mem ht)]
  exact ht

/-- **Where nodes begin and end.** Below the root of a parse, whatever is wrong with the text, the place
of a node begins with its first token, and that is significant. It ends with its last token. That is
significant too, unless the node ends with a list of bounds in which another one could follow, or a
problem was found where it ends. -/
theorem margins_of_below {text : String} {depth : Nat} {g : Grammar Unit}
    (hg : g = sourceFile ∨ g = loneExpr) (hend : (parserAfter depth g text).exhausted = false)
    {n m : Node} (hn : Below (ofTree (parseWithin depth g text).tree) n) (hm : n.parent? = some m) :
    (∀ t ∈ n.tree.leaves.head?, t.start = n.span.start ∧ t.isTrivia = false) ∧
      ∀ t ∈ n.tree.leaves.getLast?, t.stop = n.span.stop ∧
        (t.isTrivia = false ∨ n.EndsInOpenBounds ∨
          ∃ p ∈ (parseWithin depth g text).problems, p.span.start = n.span.stop) := by
  have hroot : (ofTree (parseWithin depth g text).tree).PlacedIn text := by
    have hplanted : (parseWithin depth g text).Planted text := by
      obtain rfl | rfl := hg
      · exact planted_sourceFile text depth
      · exact planted_loneExpr text depth
    exact placedIn_ofTree hplanted.covers hplanted.lossless.2
  obtain ⟨hfirst, hlast, -⟩ := (hroot.below hn).1.covers.first_last
  have hne : n ≠ ofTree (parseWithin depth g text).tree := by
    rintro rfl
    rw [parent?, above_ofTree] at hm
    cases hm
  obtain ⟨s, i, hneat, hgrows⟩ := neat_of_below hg hend hn hne
  refine ⟨fun t ht => ⟨hfirst t ht, isTrivia_head_of_grows hneat hgrows t ht⟩,
    fun t ht => ⟨hlast t ht, ?_⟩⟩
  obtain hempty | hcrisp | hopen | ⟨p, hp, u, hu, hspan⟩ := hneat.ends
  · rw [hgrows.leaves_eq, hempty] at ht
    cases ht
  · exact .inl (isTrivia_getLast_of_crisp hcrisp t (hgrows.leaves_eq ▸ ht))
  · exact .inr (.inl (endsInOpenBounds_of_grows hopen hgrows))
  · refine .inr (.inr ⟨p, hp, ?_⟩)
    have hstop := hgrows.contiguous_stop
    obtain ⟨us, hus⟩ := List.head?_eq_some_iff.1 hu
    rw [hus] at hstop
    rw [hspan]
    exact hstop.1

set_option maxRecDepth 100000 in
/-- The field of a struct begins and ends with its significant tokens. -/
theorem margins_of_below_recordField : ∃ n m : Node,
    Below (ofTree (parseWithin 100 sourceFile "struct S { f: u8 }").tree) n ∧ n.parent? = some m ∧
      n.kind = .recordField ∧
      (∀ t ∈ n.tree.leaves.head?, t.start = n.span.start ∧ t.isTrivia = false) ∧
      ∀ t ∈ n.tree.leaves.getLast?, t.stop = n.span.stop ∧
        (t.isTrivia = false ∨ n.EndsInOpenBounds ∨
          ∃ p ∈ (parseWithin 100 sourceFile "struct S { f: u8 }").problems,
            p.span.start = n.span.stop) := by
  have hend : (parserAfter 100 sourceFile "struct S { f: u8 }").exhausted = false := by
    decide +kernel
  obtain ⟨n, hn⟩ := Option.isSome_iff_exists.1
    (by decide +kernel :
      ((ofTree (parseWithin 100 sourceFile "struct S { f: u8 }").tree).descendants.find?
        fun n => n.kind == .recordField && n.parent?.isSome).isSome = true)
  have hfound := List.find?_some hn
  rw [Bool.and_eq_true, beq_iff_eq, Option.isSome_iff_exists] at hfound
  obtain ⟨hkind, m, hm⟩ := hfound
  have hbelow := below_of_mem_descendants (List.mem_of_find?_eq_some hn)
  exact ⟨n, m, hbelow, hm, hkind, margins_of_below (.inl rfl) hend hbelow hm⟩

set_option maxRecDepth 100000 in
/-- A where clause without any problem that ends with a comment: it belongs to the bounds, of which there
are none. -/
theorem trivia_ends_whereClause : (parseFile "fn f<T>() where T: /* c */ { }").ok = true ∧
    ∃ n ∈ (ofTree (parseFile "fn f<T>() where T: /* c */ { }").tree).descendants,
      n.kind = .whereClause ∧ n.parent?.isSome = true ∧ (∃ t ∈ n.tree.leaves, t.isTrivia = false) ∧
        ∃ t ∈ n.tree.leaves.getLast?, t.isTrivia = true := by
  decide +kernel

end Node

end Reshape
