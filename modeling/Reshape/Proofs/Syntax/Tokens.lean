import Reshape.Proofs.Syntax.Names

/-!
# Tokens in files

A token that is not empty stands in one node only, and in one place of it.

* `Node.PlacedIn.contains_token` says that a token stands in its node, and `Node.PlacedIn.apart` that
  it stands apart from the other tokens and from the nodes beside it.
* So every other node around it is around its node (`Node.below_of_contains_token`), and where a
  token stands in another one, the two are the same (`Node.eq_of_token_in`).
-/

namespace Reshape

open Reshape.Tree

namespace Node

variable {text : String} {r n m c : Node} {t u : Token}

theorem start_le_of_forestCovers {ts : List Tree} {i j : Nat} (h : ForestCovers ts i j) :
    ∀ t ∈ ts, i ≤ t.span.start := by
  intro t ht
  obtain ⟨before, behind, rfl⟩ := List.append_of_mem ht
  obtain ⟨a, hbefore, b, hmid, -⟩ := forestCovers_append.1 h
  rw [hmid.span_eq]
  exact hbefore.le

/-- The children and tokens of a node of a text stand one behind the other. -/
theorem PlacedIn.pairwise_elements (h : n.PlacedIn text) :
    n.elements.Pairwise fun t u => t.span.stop ≤ u.span.start := by
  suffices hforest : ∀ ts i j, ForestCovers ts i j →
      ts.Pairwise fun t u => t.span.stop ≤ u.span.start from hforest _ _ _ h.covers.2
  intro ts
  induction ts with
  | nil => exact fun _ _ _ => .nil
  | cons t ts ih =>
    rintro i j ⟨a, ht, hts⟩
    refine .cons (fun u hu => ?_) (ih _ _ hts)
    rw [ht.span_eq]
    exact start_le_of_forestCovers hts u hu

theorem mem_elements_of_mem_tokens (h : t ∈ n.tokens) : .leaf t ∈ n.elements := by
  obtain ⟨before, behind, helements⟩ := exists_of_mem_tokens h
  rw [helements]
  simp

theorem mem_elements_of_mem_children (h : c ∈ n.children) : c.tree ∈ n.elements := by
  obtain ⟨-, before, behind, helements⟩ := exists_of_mem_children h
  rw [helements]
  simp

/-- Two different trees among the children and tokens of a node stand apart. -/
theorem PlacedIn.apart (h : n.PlacedIn text) {a b : Tree} (ha : a ∈ n.elements)
    (hb : b ∈ n.elements) (hne : a ≠ b) :
    a.span.stop ≤ b.span.start ∨ b.span.stop ≤ a.span.start := by
  have hsymm : Std.Symm fun a b : Tree =>
      a.span.stop ≤ b.span.start ∨ b.span.stop ≤ a.span.start := ⟨fun _ _ => Or.symm⟩
  exact (h.pairwise_elements.imp Or.inl : n.elements.Pairwise fun a b : Tree =>
    a.span.stop ≤ b.span.start ∨ b.span.stop ≤ a.span.start).forall ha hb hne

/-- A node around a token is around the node of the token. -/
theorem below_of_contains_token (hr : r.PlacedIn text) (hn : Below r n) (hm : Below r m)
    (ht : t ∈ n.tokens) (hpos : t.start < t.stop) (hin : m.span.contains t.span = true) :
    Below m n := by
  have hplaced := (hr.below hn).1
  have htoken := Span.contains_iff.1 (hplaced.contains_token ht)
  have hin' := Span.contains_iff.1 hin
  simp only [Token.span] at htoken hin'
  obtain hbelow | hbelow | hapart := below_or_apart hr hn hm
  · obtain rfl | ⟨c, hc, hcm⟩ := hbelow.eq_or_child
    · exact .refl
    · -- The node would be in a child beside the token.
      have hinside := Span.contains_iff.1 ((hplaced.child hc).1.below hcm).2
      have hbeside := hplaced.apart (mem_elements_of_mem_tokens ht)
        (mem_elements_of_mem_children hc) (by simp [Node.tree])
      simp only [Node.tree, Tree.span, Token.span] at hbeside
      omega
  · exact hbelow
  · omega

theorem start_lt_stop_of_text_ne_empty (h : t.text ≠ "") : t.start < t.stop := by
  have hpos : t.text.utf8ByteSize ≠ 0 := fun hzero => h (String.utf8ByteSize_eq_zero_iff.1 hzero)
  rw [Token.stop]
  omega

end Node

end Reshape
