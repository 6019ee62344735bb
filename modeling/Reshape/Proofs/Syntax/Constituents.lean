import Reshape.Proofs.Parse.Fitting
import Reshape.Proofs.Syntax.Tokens

/-!
# Parts among the constituents of a node

Where the constituents of a node are known, so are its first child of a class, its tokens and what
stands between them.

* `Node.exists_child?` finds the first child of a class among the constituents, and splits the trees
  of the node there. `Node.child?_eq_none` is the case that there is none.
* `Node.hasToken_iff` is this for tokens.
-/

namespace Reshape

open Reshape.Tree

namespace Tree

theorem constituent?_eq_token {t : Tree} {k : TokenKind} :
    t.constituent? = some (.token k) ↔ ∃ u, t = .leaf u ∧ u.isTrivia = false ∧ u.kind = k := by
  cases t with
  | leaf u => simp [constituent?, Token.constituent?]
  | node l s ts => simp [constituent?]

theorem constituent?_eq_node {t : Tree} {k : NodeKind} :
    t.constituent? = some (.node k) ↔ t.kind? = some k := by
  cases t with
  | leaf u =>
    simp only [constituent?, Token.constituent?, kind?, reduceCtorEq, iff_false]
    split <;> simp
  | node l s ts => simp [constituent?, kind?]

theorem constituent?_eq_none {t : Tree} :
    t.constituent? = none ↔ ∃ u, t = .leaf u ∧ u.isTrivia = true := by
  cases t with
  | leaf u => simp [constituent?, Token.constituent?]
  | node l s ts => simp [constituent?]

/-- Trees that are no constituents are trivia. -/
theorem isTrivia_of_constituents {ts : List Tree} (h : ts.filterMap (·.constituent?) = []) :
    ∀ u ∈ forestLeaves ts, u.isTrivia = true := by
  rw [List.filterMap_eq_nil_iff] at h
  rw [forestLeaves_eq_flatMap]
  intro u hu
  obtain ⟨t, ht, hu⟩ := List.mem_flatMap.1 hu
  obtain ⟨v, rfl, hv⟩ := constituent?_eq_none.1 (h t ht)
  rw [leaves, List.mem_singleton] at hu
  rwa [hu]

end Tree

namespace Node

variable {n m : Node} {p : NodeKind → Bool} {xs ys : List Constituent} {k : NodeKind}

/-- Trees among those of a node are those of a child. -/
theorem nodesAmong_append (above : List Layer) (i : Nat) (ts us : List Tree) :
    nodesAmong above i (ts ++ us) = nodesAmong above i ts ++ nodesAmong above (i + ts.length) us := by
  induction ts generalizing i with
  | nil => rfl
  | cons t ts ih =>
    cases t <;> simp [nodesAmong, ih, Nat.add_comm, Nat.add_left_comm]

theorem node_mem_of_mem_nodesAmong {above : List Layer} {i : Nat} {ts : List Tree}
    (h : m ∈ nodesAmong above i ts) : .node m.kind ∈ ts.filterMap (·.constituent?) := by
  obtain ⟨-, before, behind, rfl⟩ := exists_of_mem_nodesAmong h
  exact List.mem_filterMap.2 ⟨m.tree, by simp, rfl⟩

/-- A child is a constituent. -/
theorem node_mem_constituents (h : m ∈ n.children) : .node m.kind ∈ n.constituents :=
  node_mem_of_mem_nodesAmong h

/-- Where the constituents of a node are split, its trees are. -/
theorem exists_elements {x : Constituent} (h : n.constituents = xs ++ x :: ys) :
    ∃ before t behind, n.elements = before ++ t :: behind ∧
      before.filterMap (·.constituent?) = xs ∧ t.constituent? = some x ∧
      behind.filterMap (·.constituent?) = ys := by
  obtain ⟨before, behind, helements, hbefore, hbehind⟩ := List.filterMap_eq_append_iff.1 h
  obtain ⟨trivia, t, rest, rfl, htrivia, ht, hrest⟩ := List.filterMap_eq_cons_iff.1 hbehind
  refine ⟨before ++ trivia, t, rest, by rw [helements, List.append_assoc], ?_, ht, hrest⟩
  rw [List.filterMap_append, hbefore, List.filterMap_eq_nil_iff.2 htrivia, List.append_nil]

/-- The first child of a class is the first tree of the class. -/
theorem child?_of_elements {before behind : List Tree} {t : Tree}
    (h : n.elements = before ++ t :: behind) (ht : t.kind? = some k) (hk : p k = true)
    (hbefore : ∀ l, .node l ∈ before.filterMap (·.constituent?) → p l = false) :
    ∃ m, n.child? p = some m ∧ m.tree = t ∧ m.kind = k := by
  cases t with
  | leaf u => cases ht
  | node l s es =>
    cases ht
    refine ⟨⟨⟨k, s, es, 0 + before.length⟩, n.toLayer :: n.above⟩, ?_, rfl, rfl⟩
    have hnone : (nodesAmong (n.toLayer :: n.above) 0 before).find? (fun c => p c.kind) = none := by
      rw [List.find?_eq_none]
      intro c hc
      simp [hbefore _ (node_mem_of_mem_nodesAmong hc)]
    rw [child?, children, h, nodesAmong_append, List.find?_append, hnone, Option.none_or, nodesAmong]
    exact List.find?_cons_of_pos hk

/-- The first child of a class is the first constituent of the class. -/
theorem exists_child? (h : n.constituents = xs ++ .node k :: ys) (hk : p k = true)
    (hxs : ∀ l, .node l ∈ xs → p l = false) :
    ∃ m before behind, n.child? p = some m ∧ m.kind = k ∧ n.elements = before ++ m.tree :: behind ∧
      before.filterMap (·.constituent?) = xs ∧ behind.filterMap (·.constituent?) = ys := by
  obtain ⟨before, t, behind, helements, hbefore, ht, hbehind⟩ := exists_elements h
  obtain ⟨m, hm, rfl, hkind⟩ :=
    child?_of_elements helements (constituent?_eq_node.1 ht) hk (by rwa [hbefore])
  exact ⟨m, before, behind, hm, hkind, helements, hbefore, hbehind⟩

theorem child?_eq_none (h : ∀ l, .node l ∈ n.constituents → p l = false) : n.child? p = none := by
  rw [child?, List.find?_eq_none]
  intro c hc
  simp [h _ (node_mem_constituents hc)]

theorem hasToken_iff {k : TokenKind} (hk : k.isTrivia = false) :
    n.hasToken k = true ↔ .token k ∈ n.constituents := by
  rw [hasToken, childToken?, List.find?_isSome, constituents, List.mem_filterMap]
  constructor
  · rintro ⟨u, hu, hkind⟩
    rw [beq_iff_eq] at hkind
    obtain ⟨t, ht, htoken⟩ := List.mem_filterMap.1 hu
    cases t with
    | leaf v =>
      cases htoken
      exact ⟨_, ht, constituent?_eq_token.2 ⟨u, rfl, by rw [Token.isTrivia, hkind, hk], hkind⟩⟩
    | node l s es => cases htoken
  · rintro ⟨t, ht, hconst⟩
    obtain ⟨u, rfl, -, hkind⟩ := constituent?_eq_token.1 hconst
    exact ⟨u, List.mem_filterMap.2 ⟨_, ht, rfl⟩, by rw [hkind]; exact beq_self_eq_true k⟩

/-! ## Fields -/

variable {text : String} {list : Node}

theorem stop_le_size (hn : Below (ofTree (parseFile text).tree) n) :
    n.span.stop ≤ text.utf8ByteSize := by
  obtain ⟨before, behind, htext, -, hstop⟩ := (placedIn_of_below hn).exists_split
  rw [utf8ByteSize_eq_byteLength, htext, byteLength_append, hstop]
  exact Nat.le_add_right _ _

/-- The tokens of a node that the end of the text is behind are not empty. -/
theorem text_ne_empty_of_mem_tokens (hn : Below (ofTree (parseFile text).tree) n)
    (hstop : n.span.stop < text.utf8ByteSize) {u : Token} (hu : u ∈ n.tokens) : u.text ≠ "" := by
  have hin := Span.contains_iff.1 ((placedIn_of_below hn).contains_token hu)
  have hmem := mem_lexTokens_of_below hn hu
  refine text_ne_empty_of_mem_lexTokens hmem fun heof => ?_
  obtain ⟨ts, hts, hne⟩ := exists_lexTokens_eq_concat text
  rw [hts, List.mem_append, List.mem_singleton] at hmem
  obtain hmem | rfl := hmem
  · exact hne u hmem heof
  · exact absurd hin.2 (Nat.not_le.2 hstop)

/-- Behind every node in a list of fields there is the brace that ends the list. -/
theorem stop_lt_size_of_mem_children (h : Faultless text)
    (hlist : Below (ofTree (parseFile text).tree) list) (hkind : list.kind = .recordFieldList)
    (hn : n ∈ list.children) : n.span.stop < text.utf8ByteSize := by
  obtain ⟨first, t, hfits, hinside, -⟩ := fits_of_below h hlist (by simp [hkind])
  have hlast : t.inside.getLast? = some (.token .rBrace) := by
    rw [hkind] at hfits
    exact hfits
  obtain ⟨xs, hxs⟩ := List.getLast?_eq_some_iff.1 (hinside ▸ hlast)
  obtain ⟨before, b, behind, helements, -, hb, hbehind⟩ := exists_elements hxs
  obtain ⟨u, rfl, -, hu⟩ := constituent?_eq_token.1 hb
  have hmem : n.tree ∈ before := by
    have hall := mem_elements_of_mem_children hn
    rw [helements, List.mem_append, List.mem_cons] at hall
    obtain hall | hall | hall := hall
    · exact hall
    · cases hall
    · have hnone := List.filterMap_eq_nil_iff.1 hbehind _ hall
      cases hnone
  have hplaced := placedIn_of_below hlist
  have hpairwise := hplaced.pairwise_elements
  rw [helements, List.pairwise_append] at hpairwise
  have hstart : n.span.stop ≤ u.start := hpairwise.2.2 _ hmem _ List.mem_cons_self
  have htoken : u ∈ list.tokens :=
    List.mem_filterMap.2 ⟨.leaf u, by rw [helements]; simp, rfl⟩
  have hcontains := Span.contains_iff.1 (hplaced.contains_token htoken)
  have hpos := start_lt_stop_of_text_ne_empty
    (text_ne_empty_of_mem_lexTokens (mem_lexTokens_of_below hlist htoken) (by simp [hu]))
  have hsize := stop_le_size hlist
  have hspan : u.span.stop = u.stop := rfl
  omega

end Node

end Reshape
