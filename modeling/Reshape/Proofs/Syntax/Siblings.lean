import Mathlib.Data.List.Pairwise
import Reshape.Proofs.Parse.Order
import Reshape.Proofs.Syntax.Placement

/-!
# Children side by side

The children of a node stand one behind the other, so that of two nodes of a file one is in the other
unless they stand apart.

* `Node.pairwise_children` and `Node.rel_of_mem_children` say that children do not overlap,
  `Node.below_or_apart` draws the conclusion for all nodes.
* `Node.inOrder_of_below` says that the children of a node of a file are in order. So the name of a
  struct or variant ends before its fields start (`Node.stop_le_of_fieldList?`), and the name and the
  generic parameters of a struct end before its where clause does (`Node.stop_le_of_whereClause?`).
-/

namespace Reshape

open Reshape.Tree

namespace Node

theorem start_le_of_mem_nodesAmong {above : List Layer} {i j l : Nat} {ts : List Tree} {m : Node}
    (h : ForestCovers ts j l) (hm : m ∈ nodesAmong above i ts) : j ≤ m.span.start := by
  obtain ⟨-, before, behind, rfl⟩ := exists_of_mem_nodesAmong hm
  obtain ⟨a, hbefore, b, hmid, -⟩ := forestCovers_append.1 h
  have hspan : m.span = ⟨a, b⟩ := hmid.span_eq
  rw [hspan]
  exact hbefore.le

theorem pairwise_nodesAmong {above : List Layer} {i j l : Nat} {ts : List Tree}
    (h : ForestCovers ts j l) :
    (nodesAmong above i ts).Pairwise fun m n => m.span.stop ≤ n.span.start := by
  induction ts generalizing i j with
  | nil => exact .nil
  | cons t ts ih =>
    obtain ⟨a, ht, hts⟩ := h
    cases t with
    | leaf t => exact ih hts
    | node k s es =>
      have hspan : s = ⟨j, a⟩ := ht.1
      subst hspan
      exact .cons (fun m hm => start_le_of_mem_nodesAmong hts hm) (ih hts)

theorem kinds_nodesAmong (above : List Layer) (i : Nat) (ts : List Tree) :
    (nodesAmong above i ts).map (·.kind) = ts.filterMap (·.kind?) := by
  induction ts generalizing i with
  | nil => rfl
  | cons t ts ih => cases t <;> simp [nodesAmong, Tree.kind?, ih]

variable {text : String} {n m m' : Node}

/-- The children of a node of a text stand one behind the other. -/
theorem PlacedIn.pairwise_children (h : n.PlacedIn text) :
    n.children.Pairwise fun m m' => m.span.stop ≤ m'.span.start :=
  pairwise_nodesAmong h.covers.2

/-- In one order or the other, a relation of earlier to later children holds of any two. -/
theorem rel_of_mem_children {R : Node → Node → Prop} (h : n.children.Pairwise R)
    (hm : m ∈ n.children) (hm' : m' ∈ n.children) (hne : m ≠ m') : R m m' ∨ R m' m := by
  have hsymm : Std.Symm fun m m' => R m m' ∨ R m' m := ⟨fun _ _ => Or.symm⟩
  exact (h.imp Or.inl : n.children.Pairwise fun m m' => R m m' ∨ R m' m).forall hm hm' hne

/-! ## Two nodes of a file -/

theorem Below.eq_or_child (h : Below n m) : m = n ∨ ∃ c ∈ n.children, Below c m := by
  induction h with
  | refl => exact .inl rfl
  | child _ hm ih =>
    obtain rfl | ⟨c, hc, hbelow⟩ := ih
    · exact .inr ⟨_, hm, .refl⟩
    · exact .inr ⟨c, hc, hbelow.child hm⟩

/-- Of two nodes of a text, one is in the other, or they stand apart. -/
theorem below_or_apart {r : Node} (hr : r.PlacedIn text) (hn : Below r n) (hm : Below r m) :
    Below n m ∨ Below m n ∨ n.span.stop ≤ m.span.start ∨ m.span.stop ≤ n.span.start := by
  induction hn with
  | refl => exact .inl hm
  | @child p a hp ha ih =>
    have hplaced := (hr.below hp).1
    have hin := Span.contains_iff.1 (hplaced.child ha).2
    obtain hpm | hmp | hapart := ih
    · obtain rfl | ⟨b, hb, hbm⟩ := hpm.eq_or_child
      · exact .inr (.inl (.child .refl ha))
      by_cases hab : a = b
      · exact .inl (hab ▸ hbm)
      have hinside := Span.contains_iff.1 ((hplaced.child hb).1.below hbm).2
      obtain h | h := rel_of_mem_children hplaced.pairwise_children ha hb hab <;> omega
    · exact .inr (.inl (hmp.child ha))
    · omega

/-! ## Names -/

theorem ordered_of_below {t : Tree} (ht : t.Ordered) (h : Below (ofTree t) n) :
    n.tree.Ordered := by
  induction h with
  | refl =>
    cases ht with
    | leaf t => exact .node ⟨.nil, fun _ => rfl, fun _ => .nil⟩ (List.forall_mem_singleton.2 (.leaf t))
    | node hnames hts => exact .node hnames hts
  | child _ hm ih =>
    obtain ⟨-, before, behind, helements⟩ := exists_of_mem_children hm
    cases ih with
    | node _ hts => exact hts _ (helements ▸ by simp)

/-- The children of a node of a file are in order. -/
theorem inOrder_of_below (h : Below (ofTree (parseFile text).tree) n) :
    InOrder n.kind (n.children.map (·.kind)) := by
  have hordered := ordered_of_below (ordered_parseFile text) h
  cases hordered with
  | node hinside _ =>
    rw [children, kinds_nodesAmong]
    exact hinside

/-- The name of a struct or variant ends before its fields start. -/
theorem stop_le_of_fieldList? (h : Below (ofTree (parseFile text).tree) n)
    (hname : n.name? = some m) (hlist : n.fieldList? = some m') :
    m.span.stop ≤ m'.span.start := by
  have hkind : m.kind = .name := by simpa using List.find?_some hname
  have hfields : m'.kind.isFieldList = true := by
    simpa [NodeKind.isFieldList] using List.find?_some hlist
  have hne : m ≠ m' := by
    rintro rfl
    rw [hkind] at hfields
    cases hfields
  have hnames := List.pairwise_map.1 (inOrder_of_below h).namesFirst
  have hboth := (placedIn_of_below h).pairwise_children.and hnames
  obtain hfirst | hlast := rel_of_mem_children hboth (List.mem_of_find?_eq_some hname)
    (List.mem_of_find?_eq_some hlist) hne
  · exact hfirst.1
  · exact absurd hkind (hlast.2 hfields)

/-- The name and the generic parameters of a struct end before its where clause starts. -/
theorem stop_le_of_whereClause? (h : Below (ofTree (parseFile text).tree) n)
    (hkind : n.kind = .structDef) (hm : m ∈ n.children)
    (hfirst : m.kind = .name ∨ m.kind = .genericParamList) (hclause : n.whereClause? = some m') :
    m.span.stop ≤ m'.span.start := by
  have hwhere : m'.kind = .whereClause := by simpa using List.find?_some hclause
  have hne : m ≠ m' := by
    rintro rfl
    simp [hwhere] at hfirst
  have hkinds := List.pairwise_map.1 ((inOrder_of_below h).clausesLast hkind)
  have hboth := (placedIn_of_below h).pairwise_children.and hkinds
  obtain hbefore | hbehind := rel_of_mem_children hboth hm (List.mem_of_find?_eq_some hclause) hne
  · exact hbefore.1
  · obtain ⟨hname, hparams⟩ := hbehind.2 hwhere
    exact absurd hfirst (not_or.2 ⟨hname, hparams⟩)

end Node

end Reshape
