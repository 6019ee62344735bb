import Reshape.Editor.View
import Reshape.Proofs.Editor.Positions
import Reshape.Proofs.Syntax.Siblings

/-!
# Outlines are nested

The entries of an outline lie in each other as the items do that they stand for, and an editor sees
them lie in each other.

* `Node.Row` says that nodes stand side by side in a span, as children do (`Node.row_children`).
* `Outline.Entry.WellNested` says that the selection of an entry and its children lie in it, the
  children side by side, and that the children are well nested in turn. `Outline.FitIn` says so of
  the entries in a span.
* `Outline.fitIn_entriesAmong` is the induction over the trees. Sorting the items of an impl block or
  trait changes nothing (`Outline.FitIn.inOrder_eq`).
* `Symbol.WellNested` is the same of the ranges that an editor is sent, `wellNested_outline` the
  result for every text.
-/

namespace Reshape

open Reshape.Tree

namespace Node

/-! ## Nodes side by side -/

/-- What the tokens of a node cover is its place. -/
def Covered (n : Node) : Prop := n.tree.Covers n.span.start n.span.stop

/-- Nodes that stand side by side in a span. -/
structure Row (s : Span) (ns : List Node) : Prop where
  apart : ns.Pairwise fun m m' => m.span.stop ≤ m'.span.start
  inside : ∀ m ∈ ns, s.contains m.span = true
  covered : ∀ m ∈ ns, m.Covered

variable {n m : Node} {ns ms : List Node} {s s' : Span}

theorem covered_of_mem_children (h : n.Covered) (hm : m ∈ n.children) :
    m.Covered ∧ n.span.contains m.span = true := by
  obtain ⟨-, before, behind, helements⟩ := exists_of_mem_children hm
  have hforest := h.2
  rw [helements] at hforest
  obtain ⟨i, hbefore, j, hmid, hbehind⟩ := forestCovers_append.1 hforest
  have hspan : m.span = ⟨i, j⟩ := hmid.span_eq
  rw [Covered, hspan]
  exact ⟨hmid, Span.contains_iff.2 ⟨hbefore.le, hbehind.le⟩⟩

theorem row_children (h : n.Covered) : Row n.span n.children where
  apart := pairwise_nodesAmong h.2
  inside _ hm := (covered_of_mem_children h hm).2
  covered _ hm := (covered_of_mem_children h hm).1

namespace Row

theorem sublist (h : Row s ns) (hms : ms.Sublist ns) : Row s ms where
  apart := h.apart.sublist hms
  inside m hm := h.inside m (hms.subset hm)
  covered m hm := h.covered m (hms.subset hm)

/-- The nodes in each of the nodes of a row form a row, one behind the other. -/
theorem flatMap {f : Node → List Node} (h : Row s ns) (hf : ∀ n ∈ ns, Row n.span (f n)) :
    Row s (ns.flatMap f) where
  apart := by
    refine List.pairwise_flatMap.2 ⟨fun n hn => (hf n hn).apart, ?_⟩
    refine h.apart.imp_of_mem fun {a b} ha hb hab x hx y hy => ?_
    have hin := Span.contains_iff.1 ((hf a ha).inside x hx)
    have hin' := Span.contains_iff.1 ((hf b hb).inside y hy)
    omega
  inside m hm := by
    obtain ⟨n, hn, hm⟩ := List.mem_flatMap.1 hm
    exact Span.contains_trans (h.inside n hn) ((hf n hn).inside m hm)
  covered m hm := by
    obtain ⟨n, hn, hm⟩ := List.mem_flatMap.1 hm
    exact (hf n hn).covered m hm

end Row

theorem row_childrenOf (h : n.Covered) (p : NodeKind → Bool) : Row n.span (n.childrenOf p) :=
  (row_children h).sublist List.filter_sublist

theorem row_variants (h : n.Covered) : Row n.span n.variants :=
  (row_childrenOf h _).flatMap fun m hm => row_childrenOf ((row_childrenOf h _).covered m hm) _

end Node

namespace Outline

/-! ## Entries side by side -/

/-- The selection of an entry and its children lie in it, the children side by side, and so on with
the children. -/
inductive Entry.WellNested : Entry → Prop
  | intro {e : Entry} (proper : e.selection.start ≤ e.selection.stop)
      (selected : e.span.contains e.selection = true)
      (apart : e.children.Pairwise fun c d => c.span.stop ≤ d.span.start)
      (inside : ∀ c ∈ e.children, e.span.contains c.span = true)
      (deep : ∀ c ∈ e.children, c.WellNested) : e.WellNested

/-- Well-nested entries that lie side by side in a span. -/
structure FitIn (s : Span) (es : List Entry) : Prop where
  apart : es.Pairwise fun d e => d.span.stop ≤ e.span.start
  inside : ∀ e ∈ es, s.contains e.span = true
  nested : ∀ e ∈ es, e.WellNested

/-- An entry stands for a node: it has the place of the node and is well nested. -/
def Entry.StandsFor (e : Entry) (n : Node) : Prop := e.span = n.span ∧ e.WellNested

variable {s s' : Span} {es ds : List Entry} {e : Entry} {n : Node} {ns : List Node}

theorem Entry.WellNested.start_le (h : e.WellNested) : e.span.start ≤ e.span.stop := by
  obtain ⟨hproper, hselected⟩ := h
  have := Span.contains_iff.1 hselected
  omega

namespace FitIn

theorem nil (s : Span) : FitIn s [] := ⟨.nil, by simp, by simp⟩

theorem mono (h : FitIn s es) (hs : s'.contains s = true) : FitIn s' es :=
  ⟨h.apart, fun e he => Span.contains_trans hs (h.inside e he), h.nested⟩

theorem singleton (h : e.WellNested) : FitIn e.span [e] :=
  ⟨List.pairwise_singleton .., by simp [Span.contains_refl], by simpa using h⟩

theorem append {i m j : Nat} (h : FitIn ⟨i, m⟩ ds) (h' : FitIn ⟨m, j⟩ es) (hi : i ≤ m)
    (hj : m ≤ j) : FitIn ⟨i, j⟩ (ds ++ es) := by
  have hleft : FitIn ⟨i, j⟩ ds := h.mono (Span.contains_iff.2 ⟨Nat.le_refl i, hj⟩)
  have hright : FitIn ⟨i, j⟩ es := h'.mono (Span.contains_iff.2 ⟨hi, Nat.le_refl j⟩)
  refine ⟨List.pairwise_append.2 ⟨h.apart, h'.apart, fun d hd e he => ?_⟩, ?_, ?_⟩
  · exact Nat.le_trans (Span.contains_iff.1 (h.inside d hd)).2 (Span.contains_iff.1 (h'.inside e he)).1
  · exact fun e he => (List.mem_append.1 he).elim (hleft.inside e) (hright.inside e)
  · exact fun e he => (List.mem_append.1 he).elim (h.nested e) (h'.nested e)

/-- Entries for nodes of a row, in the order of the nodes, fit where the row does. -/
theorem of_row (h : Node.Row s ns)
    (hspans : (es.map (·.span)).Sublist (ns.map (·.span))) (hnested : ∀ e ∈ es, e.WellNested) :
    FitIn s es where
  apart := by
    have hns : (ns.map (·.span)).Pairwise fun s s' => s.stop ≤ s'.start :=
      List.pairwise_map.2 h.apart
    exact List.pairwise_map.1 (hns.sublist hspans)
  inside e he := by
    obtain ⟨m, hm, hspan⟩ := List.mem_map.1 (hspans.subset (List.mem_map_of_mem he))
    exact hspan ▸ h.inside m hm
  nested := hnested

theorem filterMap {f : Node → Option Entry} (h : Node.Row s ns)
    (hf : ∀ m ∈ ns, m.Covered → ∀ e, f m = some e → e.StandsFor m) : FitIn s (ns.filterMap f) := by
  have hstands : ∀ m ∈ ns, ∀ e, f m = some e → e.StandsFor m := fun m hm =>
    hf m hm (h.covered m hm)
  clear hf
  refine of_row h ?_ fun e he => ?_
  · clear h
    induction ns with
    | nil => exact .slnil
    | cons m ms ih =>
      have hrest := ih fun a ha => hstands a (List.mem_cons_of_mem _ ha)
      rw [List.filterMap_cons]
      split
      · exact hrest.cons _
      · next e he =>
        rw [List.map_cons, List.map_cons, (hstands m List.mem_cons_self e he).1]
        exact hrest.cons_cons _
  · obtain ⟨m, hm, he⟩ := List.mem_filterMap.1 he
    exact (hstands m hm e he).2

/-- Entries that lie side by side are sorted already. -/
theorem inOrder_eq (h : FitIn s es) : inOrder es = es := by
  refine List.mergeSort_of_pairwise (h.apart.imp_of_mem fun {d e} hd _ hde => ?_)
  have := (h.nested d hd).start_le
  exact decide_eq_true (by omega)

end FitIn

/-! ## Entries of items -/

theorem standsFor_of_named? {kind : Kind} {detail : Option String} (h : n.Covered)
    (hes : FitIn n.span es) (he : named? kind n detail es = some e) : e.StandsFor n := by
  rw [named?] at he
  split at he
  · next name hname =>
    obtain ⟨text, -, rfl⟩ := Option.map_eq_some_iff.1 he
    obtain ⟨hcovered, hin⟩ := Node.covered_of_mem_children h (List.mem_of_find?_eq_some hname)
    exact ⟨rfl, .intro hcovered.le hin hes.apart hes.inside hes.nested⟩
  · cases he

theorem fitIn_fieldEntries (h : n.Covered) : FitIn n.span (fieldEntries n) := by
  rw [fieldEntries]
  split
  · exact .nil _
  · next list hlist =>
    obtain ⟨hcovered, hin⟩ := Node.covered_of_mem_children h (List.mem_of_find?_eq_some hlist)
    refine FitIn.mono ?_ hin
    split
    · exact .filterMap (Node.row_childrenOf hcovered (· == .recordField)) fun m _ hm e he =>
        standsFor_of_named? hm (.nil _) he
    · have hrow := Node.row_childrenOf hcovered (· == .tupleField)
      refine .of_row hrow ?_ fun e he => ?_
      · have hspans : list.tupleFields.zipIdx.map (·.1.span) = list.tupleFields.map (·.span) := by
          conv_rhs => rw [← List.zipIdx_map_fst 0 list.tupleFields, List.map_map]
          rfl
        rw [List.map_map]
        exact hspans.symm ▸ List.Sublist.refl _
      · obtain ⟨⟨f, i⟩, hf, rfl⟩ := List.mem_map.1 he
        have hf := List.fst_mem_of_mem_zipIdx hf
        exact .intro (hrow.covered f hf).le (Span.contains_refl _) .nil (by simp) (by simp)

theorem fitIn_variantEntries (h : n.Covered) : FitIn n.span (variantEntries n) :=
  .filterMap (Node.row_variants h) fun _ _ hm _ he =>
    standsFor_of_named? hm (fitIn_fieldEntries hm) he

theorem standsFor_of_traitEntry? (h : n.Covered) (hes : FitIn n.span es)
    (he : traitEntry? n es = some e) : e.StandsFor n := by
  obtain ⟨d, hd, rfl⟩ := Option.map_eq_some_iff.1 he
  obtain ⟨hspan, hproper, hselected, hapart, hinside, hnested⟩ := standsFor_of_named? h hes hd
  exact ⟨hspan, .intro hproper hselected hapart hinside hnested⟩

theorem standsFor_of_implEntry? (h : n.Covered) (hes : FitIn n.span es)
    (he : implEntry? n es = some e) : e.StandsFor n := by
  obtain ⟨self, hself, rfl⟩ := Option.map_eq_some_iff.1 he
  have hmem : self ∈ n.children := by
    rw [Node.implSelf?] at hself
    split at hself
    · exact List.mem_of_mem_filter (List.mem_of_getElem? hself)
    · exact List.mem_of_find?_eq_some hself
  obtain ⟨hcovered, hin⟩ := Node.covered_of_mem_children h hmem
  exact ⟨rfl, .intro hcovered.le hin hes.apart hes.inside hes.nested⟩

mutual

/-- The entry of an item stands for it. -/
theorem standsFor_of_ofTree? :
    (t : Tree) → {i j : Nat} → t.Covers i j → {e : Entry} → Entry.ofTree? t = some e →
      e.span = ⟨i, j⟩ ∧ e.WellNested
  | .leaf _, _, _, _, _, he => by simp [Entry.ofTree?] at he
  | .node k s ts, i, j, ⟨hs, hts⟩, e, he => by
    subst hs
    have h : (Node.ofTree (.node k ⟨i, j⟩ ts)).Covered := ⟨rfl, hts⟩
    have hassoc := fitIn_entriesIn .assocItemList isAssociated ts hts
    have hitems := fitIn_entriesIn .itemList NodeKind.isItem ts hts
    rw [Entry.ofTree?.eq_def] at he
    dsimp only at he
    split at he
    · exact standsFor_of_named? h (.nil _) he
    · exact standsFor_of_named? h (fitIn_fieldEntries h) he
    · exact standsFor_of_named? h (fitIn_variantEntries h) he
    · exact standsFor_of_traitEntry? h (hassoc.inOrder_eq.symm ▸ hassoc) he
    · exact standsFor_of_implEntry? h (hassoc.inOrder_eq.symm ▸ hassoc) he
    · exact standsFor_of_named? h hitems he
    · exact standsFor_of_named? h (.nil _) he
    · exact standsFor_of_named? h (.nil _) he
    · exact standsFor_of_named? h (.nil _) he
    · cases he

theorem fitIn_entriesAmong (p : NodeKind → Bool) :
    (ts : List Tree) → {i j : Nat} → ForestCovers ts i j → FitIn ⟨i, j⟩ (entriesAmong p ts)
  | [], _, _, _ => .nil _
  | t :: ts, i, j, ⟨m, ht, hts⟩ => by
    have hrest := fitIn_entriesAmong p ts hts
    have hall : FitIn ⟨i, j⟩ ((Entry.ofTree? t).toList ++ entriesAmong p ts) := by
      refine FitIn.append ?_ hrest ht.le hts.le
      cases he : Entry.ofTree? t with
      | none => exact .nil _
      | some e =>
        obtain ⟨hspan, hnested⟩ := standsFor_of_ofTree? t ht he
        exact hspan ▸ FitIn.singleton hnested
    rw [entriesAmong]
    split
    · exact hall
    · exact hrest.mono (Span.contains_iff.2 ⟨ht.le, Nat.le_refl j⟩)

theorem fitIn_entriesIn (list : NodeKind) (p : NodeKind → Bool) :
    (ts : List Tree) → {i j : Nat} → ForestCovers ts i j → FitIn ⟨i, j⟩ (entriesIn list p ts)
  | [], _, _, _ => .nil _
  | .leaf _ :: ts, i, j, ⟨m, ht, hts⟩ => by
    rw [entriesIn]
    exact (fitIn_entriesIn list p ts hts).mono (Span.contains_iff.2 ⟨ht.le, Nat.le_refl j⟩)
  | .node k s es :: ts, i, j, ⟨m, ⟨hs, hes⟩, hts⟩ => by
    have hrest := fitIn_entriesIn list p ts hts
    rw [entriesIn]
    split
    · exact (fitIn_entriesAmong p es hes).append hrest hes.le hts.le
    · exact hrest.mono (Span.contains_iff.2 ⟨hes.le, Nat.le_refl j⟩)

end

end Outline

/-- The entries of the outline of a text lie side by side in it. -/
theorem fitIn_outline (text : String) :
    Outline.FitIn ⟨0, text.utf8ByteSize⟩ (outline (parseFile text).tree) := by
  have hp := planted_parseFile text
  generalize parseFile text = p at hp ⊢
  have hcovers := hp.covers
  cases htree : p.tree with
  | leaf t => exact .nil _
  | node k s ts =>
    rw [htree] at hcovers
    exact Outline.fitIn_entriesAmong _ ts hcovers.2

namespace Editor

/-! ## What an editor is sent -/

/-- A range does not reach out of another. -/
def Range.Contains (r s : Range) : Prop := r.start ≤ s.start ∧ s.stop ≤ r.stop

/-- The selection of a symbol and its children lie in it, the children side by side, and so on with
the children. -/
inductive Symbol.WellNested : Symbol → Prop
  | intro {e : Symbol} (proper : e.selection.start ≤ e.selection.stop)
      (selected : e.range.Contains e.selection)
      (apart : e.children.Pairwise fun c d => c.range.stop ≤ d.range.start)
      (inside : ∀ c ∈ e.children, e.range.Contains c.range)
      (deep : ∀ c ∈ e.children, c.WellNested) : e.WellNested

theorem Range.contains_ofSpan {s s' : Span} (text : String) (h : s.contains s' = true) :
    (Range.ofSpan text s).Contains (.ofSpan text s') :=
  have h := Span.contains_iff.1 h
  ⟨Position.ofOffset_mono text h.1, Position.ofOffset_mono text h.2⟩

theorem symbolsOf_eq_map (text : String) (es : List Outline.Entry) :
    symbolsOf text es = es.map (Symbol.ofEntry text) := by
  induction es with
  | nil => rfl
  | cons e es ih => rw [symbolsOf, List.map_cons, ih]

theorem Symbol.ofEntry_eq (text : String) (e : Outline.Entry) : Symbol.ofEntry text e =
    ⟨e.kind, e.name, e.detail, .ofSpan text e.span, .ofSpan text e.selection,
      e.children.map (Symbol.ofEntry text)⟩ := by
  cases e
  rw [Symbol.ofEntry, symbolsOf_eq_map]

theorem Symbol.pairwise_ofEntry {es : List Outline.Entry} (text : String)
    (h : es.Pairwise fun d e => d.span.stop ≤ e.span.start) :
    (es.map (Symbol.ofEntry text)).Pairwise fun c d => c.range.stop ≤ d.range.start := by
  refine List.pairwise_map.2 (h.imp fun {d e} hde => ?_)
  rw [ofEntry_eq, ofEntry_eq]
  exact Position.ofOffset_mono text hde

theorem Symbol.wellNested_ofEntry (text : String) {e : Outline.Entry} (h : e.WellNested) :
    (Symbol.ofEntry text e).WellNested := by
  induction h with
  | @intro e hproper hselected hapart hinside _ ih =>
    rw [ofEntry_eq]
    refine .intro (Position.ofOffset_mono text hproper) (Range.contains_ofSpan text hselected)
      (pairwise_ofEntry text hapart) (List.forall_mem_map.2 fun c hc => ?_)
      (List.forall_mem_map.2 ih)
    rw [ofEntry_eq]
    exact Range.contains_ofSpan text (hinside c hc)

/-- For every text, the outline is well nested, and so are the ranges that an editor is sent. -/
theorem wellNested_outline (text : String) :
    ((outline (parseFile text).tree).Pairwise fun d e => d.span.stop ≤ e.span.start) ∧
    (∀ e ∈ outline (parseFile text).tree, e.WellNested) ∧
    ((symbolsOf text (outline (parseFile text).tree)).Pairwise fun c d =>
      c.range.stop ≤ d.range.start) ∧
    ∀ c ∈ symbolsOf text (outline (parseFile text).tree), c.WellNested := by
  have h := fitIn_outline text
  rw [symbolsOf_eq_map]
  exact ⟨h.apart, h.nested, Symbol.pairwise_ofEntry text h.apart,
    List.forall_mem_map.2 fun e he => Symbol.wellNested_ofEntry text (h.nested e he)⟩

end Editor

end Reshape
