import Reshape.Proofs.Syntax.Siblings

/-!
# Nodes by their addresses

The numbers that lead from the root to a node tell it from all others.

* `Node.mem_descendants_of_below` and `Node.nodup_descendants`: on the way down every node is met, and
  none twice.
* `Node.same_iff_of_mem_children`: children are the same only if they are equal.
* `Node.between` are the nodes around a node that stand inside another one. `Below.ancestors_tail`
  splits what is around a node there.
-/

namespace Reshape.Node

variable {n m q form child : Node} {above : List Layer} {i : Nat}

/-! ## Down -/

theorem descendantsAmong_eq (above : List Layer) (i : Nat) (ts : List Tree) :
    descendantsAmong above i ts = (nodesAmong above i ts).flatMap descendants := by
  induction ts generalizing i with
  | nil => rfl
  | cons t ts ih =>
    cases t with
    | leaf t => exact ih (i + 1)
    | node k s es =>
      rw [descendantsAmong, nodesAmong, List.flatMap_cons, ih]
      rfl

/-- What is below a node is below its children. -/
theorem descendants_eq (n : Node) : n.descendants = n :: n.children.flatMap descendants := by
  rw [descendants, descendantsAmong_eq]
  rfl

mutual

theorem mem_descendantsOf_of_child (hm : m ∈ q.children) (above : List Layer) (i : Nat) :
    (t : Tree) → q ∈ descendantsOf above i t → m ∈ descendantsOf above i t
  | .leaf _, h => by cases h
  | .node k s es, h => by
    refine List.mem_cons_of_mem _ ?_
    obtain rfl | hq := List.mem_cons.1 h
    · rw [descendantsAmong_eq]
      exact List.mem_flatMap.2 ⟨m, hm, List.mem_cons_self⟩
    · exact mem_descendantsAmong_of_child hm (⟨k, s, es, i⟩ :: above) 0 es hq

theorem mem_descendantsAmong_of_child (hm : m ∈ q.children) (above : List Layer) (i : Nat) :
    (ts : List Tree) → q ∈ descendantsAmong above i ts → m ∈ descendantsAmong above i ts
  | [], h => by cases h
  | t :: ts, h => by
    obtain hq | hq := List.mem_append.1 h
    · exact List.mem_append_left _ (mem_descendantsOf_of_child hm above i t hq)
    · exact List.mem_append_right _ (mem_descendantsAmong_of_child hm above (i + 1) ts hq)

end

/-- All nodes below a node are among its descendants. -/
theorem mem_descendants_of_below (h : Below n m) : m ∈ n.descendants := by
  induction h with
  | refl => exact List.mem_cons_self
  | child _ hm ih => exact mem_descendantsOf_of_child hm n.above n.index n.tree ih

mutual

theorem address_of_mem_descendantsOf {m : Node} (above : List Layer) (i : Nat) :
    (t : Tree) → m ∈ descendantsOf above i t →
      ∃ xs, m.address = xs ++ i :: above.map (·.index)
  | .leaf _, h => by cases h
  | .node k s es, h => by
    obtain rfl | hm := List.mem_cons.1 h
    · exact ⟨[], rfl⟩
    · obtain ⟨xs, j, -, hxs⟩ := address_of_mem_descendantsAmong (⟨k, s, es, i⟩ :: above) 0 es hm
      exact ⟨xs ++ [j], by rw [hxs, List.append_assoc]; rfl⟩

theorem address_of_mem_descendantsAmong {m : Node} (above : List Layer) (i : Nat) :
    (ts : List Tree) → m ∈ descendantsAmong above i ts →
      ∃ xs j, i ≤ j ∧ m.address = xs ++ j :: above.map (·.index)
  | [], h => by cases h
  | t :: ts, h => by
    obtain hm | hm := List.mem_append.1 h
    · obtain ⟨xs, hxs⟩ := address_of_mem_descendantsOf above i t hm
      exact ⟨xs, i, Nat.le_refl i, hxs⟩
    · obtain ⟨xs, j, hj, hxs⟩ := address_of_mem_descendantsAmong above (i + 1) ts hm
      exact ⟨xs, j, by omega, hxs⟩

end

mutual

theorem nodup_descendantsOf (above : List Layer) (i : Nat) :
    (t : Tree) → (descendantsOf above i t).Nodup
  | .leaf _ => .nil
  | .node k s es => by
    refine List.nodup_cons.2 ⟨fun hmem => ?_, nodup_descendantsAmong (⟨k, s, es, i⟩ :: above) 0 es⟩
    -- Addresses get longer on the way down.
    obtain ⟨xs, j, -, hxs⟩ := address_of_mem_descendantsAmong (⟨k, s, es, i⟩ :: above) 0 es hmem
    have hlength := congrArg List.length hxs
    simp [address] at hlength
    omega

theorem nodup_descendantsAmong (above : List Layer) (i : Nat) :
    (ts : List Tree) → (descendantsAmong above i ts).Nodup
  | [] => .nil
  | t :: ts => by
    refine List.nodup_append.2 ⟨nodup_descendantsOf above i t, nodup_descendantsAmong above (i + 1) ts,
      fun m hm m' hm' heq => ?_⟩
    subst heq
    obtain ⟨xs, hxs⟩ := address_of_mem_descendantsOf above i t hm
    obtain ⟨ys, j, hj, hys⟩ := address_of_mem_descendantsAmong above (i + 1) ts hm'
    obtain ⟨-, htail⟩ := List.append_inj' (hxs.symm.trans hys) (by simp)
    have hij : i = j := (List.cons.inj htail).1
    omega

end

/-- A node and the nodes below it are different from each other. -/
theorem nodup_descendants (n : Node) : n.descendants.Nodup := by
  have h := nodup_descendantsOf n.above n.index n.tree
  exact h

theorem lt_index_nodesAmong (above : List Layer) (i : Nat) (ts : List Tree) :
    (nodesAmong above i ts).Pairwise (fun m m' => m.index < m'.index) ∧
      ∀ m ∈ nodesAmong above i ts, i ≤ m.index := by
  induction ts generalizing i with
  | nil => exact ⟨.nil, fun m hm => by cases hm⟩
  | cons t ts ih =>
    obtain ⟨hpairwise, hle⟩ := ih (i + 1)
    cases t with
    | leaf t => exact ⟨hpairwise, fun m hm => Nat.le_of_succ_le (hle m hm)⟩
    | node k s es =>
      refine ⟨.cons (fun m hm => hle m hm) hpairwise, fun m hm => ?_⟩
      obtain rfl | hm := List.mem_cons.1 hm
      · exact Nat.le_refl _
      · exact Nat.le_of_succ_le (hle m hm)

theorem address_of_mem_children (h : m ∈ n.children) : m.address = m.index :: n.address := by
  rw [address, (exists_of_mem_children h).1]
  rfl

/-- Children of a node are the same if they are equal. -/
theorem same_iff_of_mem_children (hm : m ∈ n.children) (hm' : m' ∈ n.children) :
    m.same m' = true ↔ m = m' := by
  constructor
  · intro hsame
    by_contra hne
    rw [same, beq_iff_eq, address_of_mem_children hm, address_of_mem_children hm',
      List.cons.injEq] at hsame
    obtain h | h := rel_of_mem_children (lt_index_nodesAmong _ 0 n.elements).1 hm hm' hne <;> omega
  · rintro rfl
    exact beq_self_eq_true _

/-! ## Up -/

/-- The nodes around a node that stand inside another one, innermost first. -/
def between (form n : Node) : List Node :=
  n.ancestors.tail.take (n.above.length - form.above.length - 1)

theorem ancestors_of_mem_children (h : m ∈ n.children) : m.ancestors = m :: n.ancestors := by
  rw [ancestors, (exists_of_mem_children h).1]
  rfl

theorem Below.exists_ancestors (h : Below n m) : ∃ within, m.ancestors = within ++ n.ancestors := by
  induction h with
  | refl => exact ⟨[], rfl⟩
  | @child p m _ hm ih =>
    obtain ⟨within, hwithin⟩ := ih
    exact ⟨m :: within, by rw [ancestors_of_mem_children hm, hwithin, List.cons_append]⟩

theorem length_ancestors (n : Node) : n.ancestors.length = n.above.length + 1 := by
  have h : ∀ ls : List Layer, (ofLayers ls).length = ls.length := by
    intro ls
    induction ls with
    | nil => rfl
    | cons l ls ih => rw [ofLayers, List.length_cons, List.length_cons, ih]
  rw [ancestors, List.length_cons, h]

/-- Of two nodes, only one is below the other, unless they are the same. -/
theorem Below.antisymm (h : Below n m) (h' : Below m n) : n = m := by
  obtain ⟨within, hm⟩ := h.exists_ancestors
  obtain ⟨within', hn⟩ := h'.exists_ancestors
  have hlength := congrArg List.length hm
  have hlength' := congrArg List.length hn
  rw [List.length_append] at hlength hlength'
  obtain rfl := List.eq_nil_of_length_eq_zero (l := within) (by omega)
  exact (List.cons.inj hm).1.symm

/-- Around a node in a child stand the nodes inside the parent, of which the last is the child, and
then the parent and what is around it. -/
theorem Below.ancestors_tail (h : Below child n) (hchild : child ∈ form.children) :
    n.ancestors.tail = form.between n ++ form.ancestors ∧
      (n :: form.between n).getLast (by simp) = child := by
  obtain ⟨within, hwithin⟩ := h.exists_ancestors
  rw [ancestors_of_mem_children hchild, List.append_cons] at hwithin
  have hne : within ++ [child] ≠ [] := by simp
  obtain ⟨x, xs, hxs⟩ := List.exists_cons_of_ne_nil hne
  rw [hxs] at hwithin
  obtain ⟨rfl, htail⟩ := List.cons.inj hwithin
  change ofLayers n.above = xs ++ form.ancestors at htail
  have hbetween : form.between n = xs := by
    have hlength := congrArg List.length hwithin
    rw [length_ancestors, List.length_append, List.length_cons, length_ancestors] at hlength
    rw [between, show n.above.length - form.above.length - 1 = xs.length by omega, ancestors,
      List.tail_cons, htail, List.take_left]
  rw [hbetween]
  refine ⟨htail, ?_⟩
  simp only [← hxs, List.getLast_concat]

end Reshape.Node
