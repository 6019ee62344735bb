import Reshape.Proofs.Syntax.Siblings

/-!
# Names in files

* `Node.mem_lexTokens_of_below` says that the tokens of the nodes of a file are those of its text,
  and `Node.PlacedIn.contains_token` that they stand in the nodes.
* So a name that is declared is not empty (`Node.nameText?_ne_empty`), and a name that is used takes
  place (`Node.PlacedIn.start_lt_stop`). Two names that are used in one place are the same
  (`Node.eq_of_nameRef`).
-/

namespace Reshape

open Reshape.Tree

namespace Node

variable {text name : String} {r n m : Node} {t : Token}

/-! ## Tokens -/

theorem leaves_of_mem_children (h : m ∈ n.children) : m.tree.leaves ⊆ n.tree.leaves := by
  obtain ⟨-, before, behind, helements⟩ := exists_of_mem_children h
  intro t ht
  rw [tree, leaves, helements, forestLeaves_append, forestLeaves]
  simp [ht]

theorem Below.leaves_subset (h : Below r n) : n.tree.leaves ⊆ r.tree.leaves := by
  induction h with
  | refl => exact List.Subset.refl _
  | child _ hm ih => exact List.Subset.trans (leaves_of_mem_children hm) ih

theorem exists_of_mem_tokens (h : t ∈ n.tokens) :
    ∃ before behind, n.elements = before ++ .leaf t :: behind := by
  obtain ⟨tree, htree, ht⟩ := List.mem_filterMap.1 h
  cases tree with
  | leaf u =>
    cases ht
    exact List.append_of_mem htree
  | node => cases ht

/-- The tokens among the children of a node of a file are tokens of the text. -/
theorem mem_lexTokens_of_below (h : Below (ofTree (parseFile text).tree) n) (ht : t ∈ n.tokens) :
    t ∈ lexTokens text := by
  obtain ⟨before, behind, helements⟩ := exists_of_mem_tokens ht
  have hleaf : t ∈ n.tree.leaves := by
    rw [tree, leaves, helements, forestLeaves_append, forestLeaves]
    simp [leaves]
  have hroot := h.leaves_subset hleaf
  have hp := (planted_parseFile text).lossless.1
  generalize (parseFile text).tree = tree at hroot hp
  rw [← hp]
  cases tree with
  | leaf u => simpa [ofTree, Node.tree, leaves, forestLeaves] using hroot
  | node k s ts => exact hroot

/-- A token among the children of a node stands in the node. -/
theorem PlacedIn.contains_token (h : n.PlacedIn text) (ht : t ∈ n.tokens) :
    n.span.contains t.span = true := by
  obtain ⟨before, behind, helements⟩ := exists_of_mem_tokens ht
  have hforest := h.covers.2
  rw [helements] at hforest
  obtain ⟨i, hbefore, j, ⟨hstart, hstop⟩, hbehind⟩ := forestCovers_append.1 hforest
  have h₁ := hbefore.le
  have h₂ := hbehind.le
  rw [Span.contains_iff]
  simp only [Token.span]
  omega

/-! ## Names -/

/-- A name that a node of a file declares is not empty. -/
theorem nameText?_ne_empty (h : Below (ofTree (parseFile text).tree) n)
    (hname : n.nameText? = some name) : name ≠ "" := by
  obtain ⟨m, hm, htext⟩ := Option.bind_eq_some_iff.1 hname
  obtain ⟨t, ht, rfl⟩ := Option.map_eq_some_iff.1 htext
  have hkind := List.find?_some ht
  refine text_ne_empty_of_mem_lexTokens
    (mem_lexTokens_of_below (h.childOfKind? hm) (List.mem_of_find?_eq_some ht)) ?_
  intro heof
  simp [heof] at hkind

/-- A name that is used takes place. -/
theorem PlacedIn.start_lt_stop (h : n.PlacedIn text) (hname : n.refText? = some name)
    (hne : name ≠ "") : n.span.start < n.span.stop := by
  obtain ⟨t, ht, rfl⟩ := Option.map_eq_some_iff.1 hname
  have hin := Span.contains_iff.1 (h.contains_token (List.mem_of_find?_eq_some ht))
  simp only [Token.span, Token.stop] at hin
  have hpos : t.text.utf8ByteSize ≠ 0 := fun hzero => hne (String.utf8ByteSize_eq_zero_iff.1 hzero)
  omega

/-- The last name of a path is used in a segment of it. -/
theorem exists_of_lastName?_eq_some (h : n.lastName? = some name) :
    ∃ segment ∈ n.children, segment.kind = .pathSegment ∧
      ∃ m, segment.nameRef? = some m ∧ m.refText? = some name := by
  obtain ⟨segment, hsegment, htext⟩ := Option.bind_eq_some_iff.1 h
  obtain ⟨hchild, hkind⟩ := List.mem_filter.1 (List.mem_of_getLast? hsegment)
  obtain ⟨m, hm, hname⟩ := Option.bind_eq_some_iff.1 htext
  exact ⟨segment, hchild, beq_iff_eq.1 hkind, m, hm, hname⟩

theorem kind_of_nameRef? (h : n.nameRef? = some m) : m.kind = .nameRef := by
  simpa using List.find?_some h

theorem mem_children_of_nameRef? (h : n.nameRef? = some m) : m ∈ n.children :=
  List.mem_of_find?_eq_some h

/-- There is no node in a name that is used. -/
theorem eq_of_below_nameRef (h : Below (ofTree (parseFile text).tree) n) (hn : n.kind = .nameRef)
    (hm : Below n m) : m = n := by
  obtain heq | ⟨c, hc, -⟩ := hm.eq_or_child
  · exact heq
  · rw [List.map_eq_nil_iff.1 ((inOrder_of_below h).bare hn)] at hc
    cases hc

/-- Two names that are used in one place are the same. -/
theorem eq_of_nameRef (hn : Below (ofTree (parseFile text).tree) n)
    (hm : Below (ofTree (parseFile text).tree) m) (hnkind : n.kind = .nameRef)
    (hmkind : m.kind = .nameRef) (hin : n.span.contains m.span = true)
    (hpos : m.span.start < m.span.stop) : m = n := by
  have hin := Span.contains_iff.1 hin
  have hroot : (ofTree (parseFile text).tree).PlacedIn text := placedIn_of_below .refl
  obtain hbelow | hbelow | hapart := below_or_apart hroot hn hm
  · exact eq_of_below_nameRef hn hnkind hbelow
  · exact (eq_of_below_nameRef hm hmkind hbelow).symm
  · omega

end Node

end Reshape
