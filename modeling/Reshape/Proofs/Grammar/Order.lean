import Reshape.Proofs.Grammar.Runs

/-!
# The order of children

A struct or variant is written with its name first and its fields behind it, and the grammar reads
it in that order. The where clause of a struct follows its name and generic parameters. A name that is
used is a single token. So no node of a tree has a name behind a field list among its children, no struct
has a name or generic parameters behind a where clause, and no node stands in a used name, whatever is
wrong with the text.

* `InOrder` is the order of children, `Sketch.Ordered` says that all nodes of a sketch keep it.
* `Grammar.Orders` is a judgement on grammars, by recursion on the term: what is read adds no name to
  a node that may have a field list already, and used names are read by grammars that read no nodes
  (`Grammar.Flat`). A flag stands for "may have a field list".
* `Grammar.Stages` is a judgement for the parts of one node: it follows what is known of the where
  clauses among them, up to a named form, about which nothing is known (`ClauseStage`).
* `Grammar.run_orders` is the soundness of both: runs of such grammars keep the order.
-/

namespace Reshape

/-- Whether nodes of the kind are lists of the fields of a struct or variant. -/
def NodeKind.isFieldList (k : NodeKind) : Bool := k = .recordFieldList ∨ k = .tupleFieldList

/-- No name stands behind a field list. -/
def NamesFirst (ks : List NodeKind) : Prop :=
  ks.Pairwise fun k l => k.isFieldList = true → l ≠ .name

/-- No name and no generic parameters stand behind a where clause. -/
def ClausesLast (ks : List NodeKind) : Prop :=
  ks.Pairwise fun k l => k = .whereClause → l ≠ .name ∧ l ≠ .genericParamList

/-- The children of a node of a kind: names come first, there are none in a used name, and the where
clauses of a struct come last. -/
structure InOrder (k : NodeKind) (ks : List NodeKind) : Prop where
  namesFirst : NamesFirst ks
  bare : k = .nameRef → ks = []
  clausesLast : k = .structDef → ClausesLast ks

/-- There is no field list, unless the flag allows for one. -/
def Unlisted (listed : Bool) (ks : List NodeKind) : Prop :=
  listed = false → ∀ k ∈ ks, k.isFieldList = false

theorem NamesFirst.concat {ks : List NodeKind} {k : NodeKind} {listed : Bool} (h : NamesFirst ks)
    (hlisted : Unlisted listed ks) (hk : k = .name → listed = false) : NamesFirst (ks ++ [k]) := by
  refine List.pairwise_append.2 ⟨h, List.pairwise_singleton _ _, ?_⟩
  intro l hl m hm hlist
  obtain rfl := List.mem_singleton.1 hm
  rintro rfl
  rw [hlisted (hk rfl) l hl] at hlist
  cases hlist

theorem Unlisted.concat {ks : List NodeKind} {listed : Bool} (h : Unlisted listed ks)
    (k : NodeKind) : Unlisted (listed || k.isFieldList) (ks ++ [k]) := by
  intro hfalse l hl
  rw [Bool.or_eq_false_iff] at hfalse
  obtain hl | hl := List.mem_append.1 hl
  · exact h hfalse.1 l hl
  · exact List.mem_singleton.1 hl ▸ hfalse.2

/-- What is known of the where clauses among the children of a node: that there are none, that they are
the last ones, or nothing. -/
inductive ClauseStage
  | before
  | behind
  | unknown

namespace ClauseStage

/-- What a stage says of children. -/
def Holds : ClauseStage → List NodeKind → Prop
  | before, ks => .whereClause ∉ ks
  | behind, ks => ClausesLast ks
  | unknown, _ => True

/-- The stage behind a further child. -/
def add : ClauseStage → NodeKind → ClauseStage
  | before, .whereClause => behind
  | behind, .name | behind, .genericParamList => unknown
  | s, _ => s

variable {s : ClauseStage} {ks : List NodeKind}

/-- Without where clauses there is nothing behind one. -/
theorem clausesLast_of_notMem (h : .whereClause ∉ ks) : ClausesLast ks := by
  induction ks with
  | nil => exact .nil
  | cons k ks ih =>
    rw [List.mem_cons, not_or] at h
    exact .cons (fun _ _ heq => absurd heq.symm h.1) (ih h.2)

theorem Holds.concat (h : s.Holds ks) (k : NodeKind) : (s.add k).Holds (ks ++ [k]) := by
  have hlast {ks : List NodeKind} (h : ClausesLast ks)
      (hk : .whereClause ∈ ks → k ≠ .name ∧ k ≠ .genericParamList) : ClausesLast (ks ++ [k]) := by
    refine List.pairwise_append.2 ⟨h, List.pairwise_singleton _ _, fun l hl m hm heq => ?_⟩
    exact List.mem_singleton.1 hm ▸ hk (heq ▸ hl)
  rw [add.eq_def]
  split
  · exact hlast (clausesLast_of_notMem h) fun hmem => absurd hmem h
  · trivial
  · trivial
  · next hwhere hname hparams =>
    cases s with
    | before =>
      simp only [Holds, List.mem_append, List.mem_singleton, not_or] at h ⊢
      exact ⟨h, fun heq => hwhere rfl heq.symm⟩
    | behind => exact hlast h fun _ => ⟨fun heq => hname rfl heq, fun heq => hparams rfl heq⟩
    | unknown => trivial

/-- The where clauses are the last ones wherever something is known. -/
theorem Holds.clausesLast (h : s.Holds ks) (hs : s ≠ unknown) : ClausesLast ks := by
  cases s with
  | before => exact clausesLast_of_notMem h
  | behind => exact h
  | unknown => exact absurd rfl hs

end ClauseStage

/-! ## Sketches in order -/

/-- The kind of the outermost node of a sketch. -/
def Sketch.kind : Sketch → NodeKind
  | .plain k _ | .around k _ _ => k

/-- The kinds of the nodes among contents, in order. -/
def Contents.kinds : Contents → List NodeKind
  | .nothing => []
  | .token c => c.kinds
  | .node c s => c.kinds ++ [s.kind]

mutual

/-- The children of every node of a sketch are in order. -/
def Sketch.Ordered : Sketch → Prop
  | .plain k c => InOrder k c.kinds ∧ c.Ordered
  | .around k s c => InOrder k (s.kind :: c.kinds) ∧ s.Ordered ∧ c.Ordered

/-- The children of every node among contents are in order. -/
def Contents.Ordered : Contents → Prop
  | .nothing => True
  | .token c => c.Ordered
  | .node c s => c.Ordered ∧ s.Ordered

end

@[simp] theorem Contents.kinds_pad (c : Contents) (n : Nat) : (c.pad n).kinds = c.kinds := by
  induction n with
  | zero => rfl
  | succ n ih => exact ih

theorem Contents.Ordered.pad {c : Contents} (h : c.Ordered) (n : Nat) : (c.pad n).Ordered := by
  induction n with
  | zero => exact h
  | succ n ih => exact ih

namespace OpenNode

/-- The kinds of the nodes that an open node had among its children from the start. -/
def firstKinds (f : OpenNode) : List NodeKind := f.first.toList.map (·.kind)

/-- The kinds of the children of the innermost open node, given what was recorded in it. -/
def childKinds (inside : Contents) : List OpenNode → List NodeKind
  | [] => inside.kinds
  | f :: _ => f.firstKinds ++ inside.kinds

/-- What stands before an open node is in order. -/
def Ordered (f : OpenNode) : Prop := f.before.Ordered ∧ ∀ s ∈ f.first, s.Ordered

end OpenNode

/-! ## A judgement on grammars -/

namespace Grammar

/-- The grammar takes tokens, but reads no nodes. -/
def Flat : {α : Type} → Grammar α → Prop
  | _, .pure _ | _, .ahead | _, .advance | _, .report _ | _, .reportFrom _ _ _ => True
  | _, .bind g f => g.Flat ∧ ∀ a, (f a).Flat
  | _, .node _ | _, .wrap _ | _, .iterate _ _ | _, .call _ => False

/-- Read in a node of whose where clauses a stage is known, the property holds of the value and of the
stage at the end. -/
def Stages : {α : Type} → Grammar α → ClauseStage → (α → ClauseStage → Prop) → Prop
  | _, .pure a, s, P => P a s
  | _, .bind g f, s, P => g.Stages s fun a s => (f a).Stages s P
  | _, .ahead, s, P => ∀ ts, P ts s
  | _, .advance, s, P | _, .report _, s, P | _, .reportFrom _ _ _, s, P => P () s
  | _, .node body, s, P => body.Stages .before fun x _ => P x.2 (x.1.elim s s.add)
  | _, .wrap _, _, P => P () .unknown
  | _, .iterate _ body, s, P =>
      ((∀ x, (body x).Stages s fun _ after => after = s) ∧ ∀ x, P x s) ∨ ∀ x, P x .unknown
  | _, .call _, _, P => ∀ found, P found .unknown

/-- Read in a node that has a field list only if `listed` allows for one, the grammar puts no name
behind a field list and no node in a used name, nor names or generic parameters behind the where clause
of a struct, and neither do the nodes inside. The property holds of its value and of whether there may
be a field list then. -/
def Orders : {α : Type} → Grammar α → (listed : Bool) → (α → Bool → Prop) → Prop
  | _, .pure a, listed, P => P a listed
  | _, .bind g f, listed, P => g.Orders listed fun a listed => (f a).Orders listed P
  | _, .ahead, listed, P => ∀ ts, P ts listed
  | _, .advance, listed, P | _, .report _, listed, P | _, .reportFrom _ _ _, listed, P => P () listed
  | _, .node body, listed, P => body.Orders false fun (k?, a) _ =>
      (k? = some .name → listed = false) ∧ (k? = some .nameRef → body.Flat) ∧
        (k? = some .structDef →
          body.Stages .before fun x s => x.1 = some .structDef → s ≠ .unknown) ∧
        P a (listed || k?.any (·.isFieldList))
  | _, .wrap body, listed, P => body.Orders listed fun k _ =>
      (k = .name → listed = false) ∧ k ≠ .nameRef ∧ k ≠ .structDef ∧ P () (listed || k.isFieldList)
  | _, .iterate _ body, listed, P =>
      (∀ x, (body x).Orders listed fun _ after => after = listed) ∧ ∀ x, P x listed
  | _, .call _, listed, P => ∀ found, P found listed

theorem Stages.mono {α : Type} {g : Grammar α} {s : ClauseStage} {P P' : α → ClauseStage → Prop}
    (h : g.Stages s P) (hP : ∀ a after, P a after → P' a after) : g.Stages s P' := by
  induction g generalizing s with
  | pure a => exact hP _ _ h
  | bind g f ihg ihf => exact ihg h fun a after hf => ihf a hf hP
  | ahead => exact fun ts => hP _ _ (h ts)
  | advance => exact hP _ _ h
  | report fault => exact hP _ _ h
  | reportFrom fault origin note => exact hP _ _ h
  | node body ih => exact ih h fun x _ => hP _ _
  | wrap body ih => exact hP _ _ h
  | iterate init body ih =>
    exact h.imp (fun h => ⟨h.1, fun x => hP _ _ (h.2 x)⟩) fun h x => hP _ _ (h x)
  | call r => exact fun found => hP _ _ (h found)

theorem Orders.mono {α : Type} {g : Grammar α} {listed : Bool} {P P' : α → Bool → Prop}
    (h : g.Orders listed P) (hP : ∀ a after, P a after → P' a after) : g.Orders listed P' := by
  induction g generalizing listed with
  | pure a => exact hP _ _ h
  | bind g f ihg ihf => exact ihg h fun a after hf => ihf a hf hP
  | ahead => exact fun ts => hP _ _ (h ts)
  | advance => exact hP _ _ h
  | report fault => exact hP _ _ h
  | reportFrom fault origin note => exact hP _ _ h
  | node body ih => exact ih h fun x _ hx => ⟨hx.1, hx.2.1, hx.2.2.1, hP _ _ hx.2.2.2⟩
  | wrap body ih => exact ih h fun k _ hk => ⟨hk.1, hk.2.1, hk.2.2.1, hP _ _ hk.2.2.2⟩
  | iterate init body ih => exact ⟨h.1, fun x => hP _ _ (h.2 x)⟩
  | call r => exact fun found => hP _ _ (h found)

end Grammar

namespace ParserState

open OpenNode

variable {tokens : List Token} {s : ParserState} {listed : Bool} {c : Contents} {f : OpenNode}
  {fs : List OpenNode}

/-- What a parser has recorded is in order, and the innermost open node has no field list, unless the
flag allows for one. -/
structure Tidy (tokens : List Token) (listed : Bool) (s : ParserState) (c : Contents)
    (fs : List OpenNode) : Prop where
  follows : s.Follows tokens c fs
  ordered : c.Ordered
  opened : ∀ f ∈ fs, f.Ordered
  names : NamesFirst (childKinds c fs)
  unlisted : Unlisted listed (childKinds c fs)

namespace Tidy

theorem congr {t : ParserState} (h : Tidy tokens listed s c fs) (hops : t.ops = s.ops)
    (hrest : t.rest = s.rest) : Tidy tokens listed t c fs :=
  ⟨h.follows.congr hops hrest, h.ordered, h.opened, h.names, h.unlisted⟩

theorem childKinds_pad (n : Nat) : childKinds (c.pad n) fs = childKinds c fs := by
  cases fs <;> simp [childKinds]

theorem advance (h : Tidy tokens listed s c fs) :
    ∃ n, Tidy tokens listed s.advance (c.pad n) fs := by
  obtain ⟨n, hn⟩ := h.follows.advance
  refine ⟨n, hn, h.ordered.pad n, h.opened, ?_, ?_⟩
  · rw [childKinds_pad]
    exact h.names
  · rw [childKinds_pad]
    exact h.unlisted

/-- What stands before an open node, and the kinds it was opened among. -/
theorem childKinds_finish (k : NodeKind) : childKinds (f.finish k c) fs =
    childKinds f.before fs ++ [k] := by
  obtain ⟨before, _ | first⟩ := f <;> cases fs <;>
    simp [OpenNode.finish, childKinds, Contents.kinds, Sketch.kind]

/-- Closing a node adds its kind to the node around it. -/
theorem close {inner : Bool} (h : Tidy tokens inner s c (f :: fs)) {k : NodeKind}
    (hnames : NamesFirst (childKinds f.before fs)) (hunlisted : Unlisted listed (childKinds f.before fs))
    (hk : k = .name → listed = false) (hbare : k = .nameRef → childKinds c (f :: fs) = [])
    (hlast : k = .structDef → ClausesLast (childKinds c (f :: fs))) :
    Tidy tokens (listed || k.isFieldList) (s.record (.close k)) (f.finish k c) fs where
  follows := h.follows.record_close k
  ordered := by
    obtain ⟨hbefore, hfirst⟩ := h.opened f List.mem_cons_self
    have hinside : InOrder k (childKinds c (f :: fs)) := ⟨h.names, hbare, hlast⟩
    obtain ⟨before, _ | first⟩ := f
    · exact ⟨hbefore, by simpa [childKinds, firstKinds] using hinside, h.ordered⟩
    · exact ⟨hbefore, by simpa [childKinds, firstKinds] using hinside, hfirst first rfl, h.ordered⟩
  opened := fun g hg => h.opened g (List.mem_cons_of_mem _ hg)
  names := by
    rw [childKinds_finish]
    exact hnames.concat hunlisted hk
  unlisted := by
    rw [childKinds_finish]
    exact hunlisted.concat k

theorem openNode (h : Tidy tokens listed s c fs) :
    ∃ n, Tidy tokens false s.openNode .nothing (⟨c.pad n, none⟩ :: fs) := by
  obtain ⟨n, hn⟩ := h.follows.openNode
  refine ⟨n, hn, trivial, ?_, .nil, ?_⟩
  · intro f hf
    obtain rfl | hf := List.mem_cons.1 hf
    · exact ⟨h.ordered.pad n, by simp⟩
    · exact h.opened f hf
  · intro _ k hk
    cases hk

/-- An abandoned node leaves nothing behind, or an error. -/
theorem abandon {inner : Bool} {before : Contents}
    (h : Tidy tokens inner s c (⟨before, none⟩ :: fs)) (hnames : NamesFirst (childKinds before fs))
    (hunlisted : Unlisted listed (childKinds before fs)) :
    ∃ d, Tidy tokens listed (s.record .abandon) d fs ∧
      (childKinds d fs = childKinds before fs ∨ childKinds d fs = childKinds before fs ++ [.errorNode]) := by
  have hfollows := h.follows.record_abandon
  have hbefore := (h.opened _ List.mem_cons_self).1
  have hopened : ∀ f ∈ fs, f.Ordered := fun f hf => h.opened f (List.mem_cons_of_mem _ hf)
  split at hfollows
  · exact ⟨before, ⟨hfollows, hbefore, hopened, hnames, hunlisted⟩, .inl rfl⟩
  · have hinside : InOrder .errorNode (childKinds c (⟨before, none⟩ :: fs)) :=
      ⟨h.names, by simp, by simp⟩
    have hkinds : childKinds (before.node (.plain .errorNode c)) fs =
        childKinds before fs ++ [.errorNode] := by
      cases fs <;> simp [childKinds, Contents.kinds, Sketch.kind]
    refine ⟨_, ⟨hfollows, ⟨hbefore, by simpa [childKinds, firstKinds] using hinside, h.ordered⟩,
      hopened, ?_, ?_⟩, .inr hkinds⟩
    · rw [hkinds]
      exact hnames.concat hunlisted (by simp)
    · have herror : NodeKind.isFieldList .errorNode = false := rfl
      have hlast := hunlisted.concat .errorNode
      rw [herror, Bool.or_false] at hlast
      rw [hkinds]
      exact hlast

/-- A node that takes the last node with it has that as its first child. -/
theorem wrap (h : Tidy tokens listed s c fs) :
    Tidy tokens listed (s.record .wrap) .nothing (.wrapping c :: fs) ∧
      (childKinds (OpenNode.wrapping c).before fs).Sublist (childKinds c fs) := by
  have hordered := h.ordered
  have hunlisted := h.unlisted
  refine ⟨⟨h.follows.record_wrap, trivial, ?_, ?_, ?_⟩, ?_⟩
  · intro f hf
    obtain rfl | hf := List.mem_cons.1 hf
    · cases c with
      | nothing => exact ⟨hordered, by simp [wrapping]⟩
      | token c => exact ⟨hordered, by simp [wrapping]⟩
      | node c last => exact ⟨hordered.1, by simpa [wrapping] using hordered.2⟩
    · exact h.opened f hf
  · cases c <;> simp [childKinds, wrapping, firstKinds, Contents.kinds, NamesFirst]
  · intro hlisted k hk
    cases c with
    | nothing => simp [childKinds, wrapping, firstKinds, Contents.kinds] at hk
    | token c => simp [childKinds, wrapping, firstKinds, Contents.kinds] at hk
    | node c last =>
      have hlast : last.kind ∈ childKinds (c.node last) fs := by
        cases fs <;> simp [childKinds, Contents.kinds]
      simp only [childKinds, wrapping, firstKinds, Contents.kinds, Option.toList_some,
        List.map_cons, List.map_nil, List.append_nil, List.mem_singleton] at hk
      exact hk ▸ hunlisted hlisted _ hlast
  · cases c <;> cases fs <;> simp [childKinds, wrapping, Contents.kinds]

end Tidy

end ParserState

/-! ## Runs -/

namespace Grammar

open ParserState

variable {tokens : List Token} {call : Rule → ParserState → Bool × ParserState}

/-- The second children are known as well as the first ones at all stages that a repeated grammar keeps. -/
def KeepsStages {σ : Type} (body : σ → Grammar (σ × Bool)) (ks ls : List NodeKind) : Prop :=
  ∀ s : ClauseStage, (∀ x, (body x).Stages s fun _ after => after = s) → s.Holds ks → s.Holds ls

theorem repeatStep_orders {σ : Type} {step : σ → ParserState → (σ × Bool) × ParserState}
    {listed : Bool} {body : σ → Grammar (σ × Bool)} (hstep : ∀ x s c fs, Tidy tokens listed s c fs →
      ∃ d, Tidy tokens listed (step x s).2 d fs ∧
        KeepsStages body (OpenNode.childKinds c fs) (OpenNode.childKinds d fs))
    (n : Nat) (x : σ) {s : ParserState} {c : Contents} {fs : List OpenNode}
    (h : Tidy tokens listed s c fs) :
    ∃ d, Tidy tokens listed (repeatStep step n x s).2 d fs ∧
      KeepsStages body (OpenNode.childKinds c fs) (OpenNode.childKinds d fs) := by
  refine repeatStep_keeps (I := fun _ t => ∃ d, Tidy tokens listed t d fs ∧
    KeepsStages body (OpenNode.childKinds c fs) (OpenNode.childKinds d fs)) ?_ ?_ n x
    ⟨c, h, fun _ _ hs => hs⟩
  · rintro x t ⟨d, hd, hkeeps⟩
    obtain ⟨e, he, hkeeps'⟩ := hstep x t d fs hd
    exact ⟨e, he, fun st hst hs => hkeeps' st hst (hkeeps st hst hs)⟩
  · rintro _ _ ⟨d, hd, hkeeps⟩
    exact ⟨d, hd.congr rfl rfl, hkeeps⟩

/-- Runs of grammars that keep children in order keep what was recorded in order. Flat ones add no nodes,
and what a grammar says of where clauses holds of its runs. -/
theorem run_orders
    (hcall : ∀ r s listed c fs, Tidy tokens listed s c fs →
      ∃ d, Tidy tokens listed (call r s).2 d fs)
    {α : Type} (g : Grammar α) {P : α → Bool → Prop} {listed : Bool} (hg : g.Orders listed P)
    {s : ParserState} {c : Contents} {fs : List OpenNode} (h : Tidy tokens listed s c fs) :
    ∃ d after, Tidy tokens after (g.run call s).2 d fs ∧ P (g.run call s).1 after ∧
      (g.Flat → d.kinds = c.kinds) ∧
      ∀ (st : ClauseStage) (Q : α → ClauseStage → Prop), g.Stages st Q →
        st.Holds (OpenNode.childKinds c fs) →
        ∃ st', st'.Holds (OpenNode.childKinds d fs) ∧ Q (g.run call s).1 st' := by
  induction g generalizing listed s c fs with
  | pure a => exact ⟨c, listed, h, hg, fun _ => rfl, fun st Q hQ hst => ⟨st, hst, hQ⟩⟩
  | bind g f ihg ihf =>
    obtain ⟨d, after, hd, hf, hflat, hstages⟩ := ihg hg h
    obtain ⟨e, last, he, hP, hflat', hstages'⟩ := ihf _ hf hd
    refine ⟨e, last, he, hP, fun hgf => (hflat' (hgf.2 _)).trans (hflat hgf.1), fun st Q hQ hst => ?_⟩
    obtain ⟨st', hst', hQ'⟩ := hstages st _ hQ hst
    exact hstages' st' Q hQ' hst'
  | ahead => exact ⟨c, listed, h, hg _, fun _ => rfl, fun st Q hQ hst => ⟨st, hst, hQ _⟩⟩
  | advance =>
    obtain ⟨n, hn⟩ := h.advance
    refine ⟨c.pad n, listed, hn, hg, fun _ => c.kinds_pad n, fun st Q hQ hst => ⟨st, ?_, hQ⟩⟩
    rw [Tidy.childKinds_pad]
    exact hst
  | report fault =>
    refine ⟨c, listed, ?_, hg, fun _ => rfl, fun st Q hQ hst => ⟨st, hst, hQ⟩⟩
    simp only [run, ParserState.report]
    split
    · exact h
    · exact h.congr rfl rfl
  | reportFrom fault origin note =>
    exact ⟨c, listed, h.congr rfl rfl, hg, fun _ => rfl, fun st Q hQ hst => ⟨st, hst, hQ⟩⟩
  | node body ih =>
    obtain ⟨n, hn⟩ := h.openNode
    obtain ⟨e, inner, he, ⟨hname, hused, hstruct, hP⟩, hflat, hstages⟩ := ih hg hn
    have hpad : OpenNode.childKinds (c.pad n) fs = OpenNode.childKinds c fs := Tidy.childKinds_pad n
    have hnames : NamesFirst (OpenNode.childKinds (c.pad n) fs) := hpad ▸ h.names
    have hunlisted : Unlisted listed (OpenNode.childKinds (c.pad n) fs) := hpad ▸ h.unlisted
    have hnothing : ClauseStage.before.Holds
        (OpenNode.childKinds .nothing (⟨c.pad n, none⟩ :: fs)) := List.not_mem_nil
    rw [run]
    split
    · next k a s' heq =>
      rw [heq] at he hname hused hstruct hP hstages
      have hbare (hk : k = .nameRef) : OpenNode.childKinds e (⟨c.pad n, none⟩ :: fs) = [] :=
        hflat (hused (congrArg some hk))
      have hlast (hk : k = .structDef) :
          ClausesLast (OpenNode.childKinds e (⟨c.pad n, none⟩ :: fs)) := by
        obtain ⟨st, hst, hknown⟩ := hstages _ _ (hstruct (congrArg some hk)) hnothing
        exact hst.clausesLast (hknown (congrArg some hk))
      refine ⟨_, _, he.close hnames hunlisted (fun hk => hname (congrArg some hk)) hbare hlast, hP,
        False.elim, fun st Q hQ hst => ?_⟩
      obtain ⟨-, -, hQ'⟩ := hstages _ _ hQ hnothing
      refine ⟨st.add k, ?_, hQ'⟩
      rw [Tidy.childKinds_finish, hpad]
      exact hst.concat k
    · next a s' heq =>
      rw [heq] at he hP hstages
      obtain ⟨d, hd, hkinds⟩ := he.abandon hnames hunlisted
      rw [Option.any_none, Bool.or_false] at hP
      refine ⟨d, listed, hd, hP, False.elim, fun st Q hQ hst => ?_⟩
      obtain ⟨-, -, hQ'⟩ := hstages _ _ hQ hnothing
      have herror : st.add .errorNode = st := by cases st <;> rfl
      have hlater := herror ▸ hst.concat .errorNode
      rw [hpad] at hkinds
      exact ⟨st, hkinds.elim (fun heq => heq ▸ hst) (fun heq => heq ▸ hlater), hQ'⟩
  | wrap body ih =>
    obtain ⟨hw, hsub⟩ := h.wrap
    obtain ⟨e, inner, he, ⟨hname, hused, hstruct, hP⟩, -⟩ := ih hg hw
    exact ⟨_, _, he.close (h.names.sublist hsub) (fun hl k hk => h.unlisted hl k (hsub.mem hk)) hname
      (fun hk => absurd hk hused) (fun hk => absurd hk hstruct), hP, False.elim,
      fun st Q hQ _ => ⟨.unknown, trivial, hQ⟩⟩
  | iterate init body ih =>
    have hround (x : _) (s : ParserState) (c : Contents) (fs : List OpenNode) (hs : Tidy tokens listed s c fs) :
        ∃ d, Tidy tokens listed (run call (body x) s).2 d fs ∧
          KeepsStages body (OpenNode.childKinds c fs) (OpenNode.childKinds d fs) := by
      obtain ⟨d, after, hd, rfl, -, hstages⟩ := ih x (hg.1 x) hs
      refine ⟨d, hd, fun st hst hc => ?_⟩
      obtain ⟨st', hst', rfl⟩ := hstages st _ (hst x) hc
      exact hst'
    obtain ⟨d, hd, hkeeps⟩ := repeatStep_orders hround _ init h
    refine ⟨d, listed, hd, hg.2 _, False.elim, fun st Q hQ hst => ?_⟩
    obtain ⟨hround, hQ⟩ | hQ := hQ
    · exact ⟨st, hkeeps st hround hst, hQ _⟩
    · exact ⟨.unknown, trivial, hQ _⟩
  | call r =>
    obtain ⟨d, hd⟩ := hcall r s listed c fs h
    exact ⟨d, listed, hd, hg _, False.elim, fun st Q hQ _ => ⟨.unknown, trivial, hQ _⟩⟩

end Grammar

end Reshape
