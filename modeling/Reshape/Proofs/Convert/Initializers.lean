import Mathlib.Data.List.Nodup
import Reshape.Proofs.Convert.Layout
import Reshape.Proofs.Reordering

/-!
# What literals become

A literal that gives values by the names of fields becomes a call if it gives each of them once and
nothing else. Any other literal keeps its braces, and gives values by places.

* `Literal` is a literal as it is written, and `Node.literal?` reads it from a node.
* `Literal.Positional` says how it is written for positional fields, by names and places alone.
* `isComplete_iff` and `listed_byField` say what the two decisions come to: whether the literal is
  complete, and in which order its values stand. `positional_literalOf` puts them together.
* `Construction` is a literal of a file that can be rewritten. `Construction.exists_positional` is the
  result.
-/

namespace Reshape

/-! ## Literals as they are written -/

/-- A literal as it is written: the path in front, the values with the names of their fields in the order
of the text, and the value behind two dots. -/
structure Literal where
  path : String
  given : List (String × String)
  base : Option String
deriving DecidableEq

/-- What a field of a literal gives, if parts of the text are copied like that. A lone name is the value
of the field of that name. -/
def Node.initializer (copy : Span → String) (f : Node) : String × String :=
  let name := f.exprFieldName?.getD ""
  (name, if f.isShorthand then name else (f.expr?.map fun e => copy e.span).getD "")

/-- The literal that a node is, if parts of the text are copied like that. -/
def Node.literal? (copy : Span → String) (n : Node) : Option Literal :=
  match n.path?, n.exprFieldList? with
  | some path, some list => some
      { path := path.text
        given := list.exprFields.map (Node.initializer copy)
        base := if list.hasToken .dotDot then list.expr?.map fun e => copy e.span else none }
  | _, _ => none

namespace Literal

/-- The values with the places that their fields are declared at. -/
def placed (plan : Plan) (l : Literal) : List (Nat × String) :=
  l.given.map (Prod.map plan.fieldNames.idxOf id)

/-- Nothing is behind two dots, and every field has exactly one value. -/
def Complete (plan : Plan) (l : Literal) : Prop :=
  l.base = none ∧ (l.given.map (·.1)).Perm plan.fieldNames

/-- Values in the order of their places: each of them once, and those with one place as they were. -/
structure Listed (values listed : List (Nat × String)) : Prop where
  perm : listed.Perm values
  sorted : listed.Pairwise fun v w => v.1 ≤ w.1
  stable : ∀ i, (listed.filter fun v => v.1 == i) = values.filter fun v => v.1 == i

/-- How a literal is written for positional fields. -/
inductive Positional (plan : Plan) (l : Literal) : String → Prop
  | call (values : List String) : l.Complete plan → values.length = plan.size →
      l.given.Perm (plan.fieldNames.zip values) →
        Positional plan l (l.path ++ "(" ++ ", ".intercalate values ++ ")")
  | braces (listed : List (Nat × String)) : ¬ l.Complete plan → Listed (l.placed plan) listed →
      Positional plan l (l.path ++ " \x7b " ++ ", ".intercalate
        (listed.map (fun (i, value) => toString i ++ ": " ++ value) ++ l.base.toList.map (".." ++ ·)) ++
          " \x7d")

end Literal

/-! ## Values by place -/

section Values

variable {values values' : List (Nat × String)}

theorem byField_perm (values : List (Nat × String)) : (byField values).Perm values :=
  List.mergeSort_perm _ _

theorem pairwise_byField (values : List (Nat × String)) :
    (byField values).Pairwise fun v w => v.1 ≤ w.1 := by
  refine (List.pairwise_mergeSort (fun u v w => ?_) (fun v w => ?_) values).imp of_decide_eq_true
  · simp only [decide_eq_true_eq]
    exact Nat.le_trans
  · simp only [Bool.or_eq_true, decide_eq_true_eq]
    exact Nat.le_total _ _

/-- Values of one place keep their order. -/
theorem filter_byField (values : List (Nat × String)) (i : Nat) :
    ((byField values).filter fun v => v.1 == i) = values.filter fun v => v.1 == i := by
  have hsame : (values.filter fun v => v.1 == i).Pairwise fun v w => decide (v.1 ≤ w.1) = true := by
    refine List.pairwise_of_forall_mem_list fun v hv w hw => decide_eq_true ?_
    rw [beq_iff_eq.1 (List.mem_filter.1 hv).2, beq_iff_eq.1 (List.mem_filter.1 hw).2]
  rw [byField, filter_mergeSort (fun u v w => ?_) (fun v w => ?_), List.mergeSort_of_pairwise hsame]
  · simp only [decide_eq_true_eq]
    exact Nat.le_trans
  · simp only [Bool.or_eq_true, decide_eq_true_eq]
    exact Nat.le_total _ _

theorem listed_byField (values : List (Nat × String)) : Literal.Listed values (byField values) :=
  ⟨byField_perm values, pairwise_byField values, filter_byField values⟩

/-- Values with different places are put in the same order however they are given. -/
theorem byField_eq_of_perm (hperm : values'.Perm values) (hnodup : (values.map (·.1)).Nodup) :
    byField values' = byField values := by
  have hboth : (byField values').Perm (byField values) :=
    ((byField_perm values').trans hperm).trans (byField_perm values).symm
  refine hboth.eq_of_pairwise (fun v w hv hw hvw hwv => ?_) (pairwise_byField values')
    (pairwise_byField values)
  exact List.inj_on_of_nodup_map hnodup (hperm.mem_iff.1 ((byField_perm values').mem_iff.1 hv))
    ((byField_perm values).mem_iff.1 hw) (Nat.le_antisymm hvw hwv)

/-- Values are complete if their places are all places. -/
theorem isComplete_iff {count : Nat} :
    isComplete count values = true ↔ (values.map (·.1)).Perm (List.range count) := by
  have hany : isComplete count values = true ↔
      values.length = count ∧ ∀ i < count, i ∈ values.map (·.1) := by
    simp [isComplete]
  rw [hany]
  constructor
  · rintro ⟨hlength, hall⟩
    have hsub : (List.range count).Subperm (values.map (·.1)) :=
      List.subperm_of_subset List.nodup_range fun i hi => hall i (List.mem_range.1 hi)
    exact (hsub.perm_of_length_le (by simp [hlength])).symm
  · intro h
    refine ⟨by simpa using h.length_eq, fun i hi => h.mem_iff.2 (List.mem_range.2 hi)⟩

/-- Complete values in the order of their places have one place after the other. -/
theorem byField_eq_zip {count : Nat} (h : (values.map (·.1)).Perm (List.range count)) :
    byField values = (List.range count).zip ((byField values).map (·.2)) := by
  have hkeys : (byField values).map (·.1) = List.range count := by
    have hperm : ((byField values).map (·.1)).Perm (List.range count) :=
      ((byField_perm values).map _).trans h
    refine hperm.eq_of_pairwise (fun i j _ _ => Nat.le_antisymm)
      (List.pairwise_map.2 (pairwise_byField values)) ?_
    exact List.pairwise_lt_range.imp Nat.le_of_lt
  exact List.zip_of_prod hkeys rfl

end Values

/-! ## Names and places -/

/-- What can be told from its image is given once if its image is. -/
theorem perm_of_map_perm {α β : Type} {f : α → β} (g : β → Option α) {l l' : List α}
    (hl : ∀ a ∈ l, g (f a) = some a) (hl' : ∀ a ∈ l', g (f a) = some a)
    (h : (l.map f).Perm (l'.map f)) : l.Perm l' := by
  have hback {m : List α} (hm : ∀ a ∈ m, g (f a) = some a) : (m.map f).filterMap g = m := by
    rw [List.filterMap_map, List.filterMap_congr (f := g ∘ f) (g := some) hm, List.filterMap_some]
  have hperm := h.filterMap g
  rwa [hback hl, hback hl'] at hperm

namespace Literal

variable {plan : Plan} {l : Literal}

/-- Different names stand at all the places, in order. -/
theorem map_idxOf_fieldNames (hnames : plan.fieldNames.Nodup) :
    plan.fieldNames.map plan.fieldNames.idxOf = List.range plan.size := by
  refine List.ext_getElem (by simp [Plan.fieldNames, Plan.size]) fun i hi _ => ?_
  rw [List.getElem_map, hnames.idxOf_getElem, List.getElem_range]

theorem map_fst_placed (plan : Plan) (l : Literal) :
    (l.placed plan).map (·.1) = (l.given.map (·.1)).map plan.fieldNames.idxOf := by
  simp [placed]

/-- A literal is complete if it has no base, and its places are all places. -/
theorem complete_iff (hnames : plan.fieldNames.Nodup)
    (hgiven : ∀ g ∈ l.given, g.1 ∈ plan.fieldNames) :
    l.Complete plan ↔
      l.base = none ∧ ((l.placed plan).map (·.1)).Perm (List.range plan.size) := by
  rw [Complete, map_fst_placed, ← map_idxOf_fieldNames hnames]
  refine and_congr_right fun _ => ⟨fun h => h.map _, fun h => ?_⟩
  refine perm_of_map_perm (fun i => plan.fieldNames[i]?) ?_ (fun _ => List.getElem?_idxOf) h
  exact List.forall_mem_map.2 fun g hg => List.getElem?_idxOf (hgiven g hg)

/-- A literal is written for positional fields as it should be. -/
theorem positional_literalOf (hnames : plan.fieldNames.Nodup)
    (hgiven : ∀ g ∈ l.given, g.1 ∈ plan.fieldNames) :
    l.Positional plan (literalOf plan l.path (l.placed plan) l.base) := by
  have hcomplete : (l.base.isNone && isComplete plan.size (byField (l.placed plan))) = true ↔
      l.Complete plan := by
    rw [complete_iff hnames hgiven, Bool.and_eq_true, Option.isNone_iff_eq_none, isComplete_iff]
    exact and_congr_right fun _ =>
      ⟨((byField_perm _).map _).symm.trans, ((byField_perm _).map _).trans⟩
  rw [literalOf]
  split
  · next h =>
    have hcall := hcomplete.1 h
    have hkeys := ((complete_iff hnames hgiven).1 hcall).2
    have hlength : ((byField (l.placed plan)).map (·.2)).length = plan.size := by
      simpa using ((byField_perm (l.placed plan)).map (·.1)).trans hkeys |>.length_eq
    refine .call _ hcall hlength ?_
    -- Names are told from their places, so the values stand with the names that they were given for.
    refine perm_of_map_perm (f := Prod.map plan.fieldNames.idxOf id)
      (fun v => plan.fieldNames[v.1]?.map fun name => (name, v.2)) ?_ ?_ ?_
    · intro g hg
      simp [List.getElem?_idxOf (hgiven g hg)]
    · intro g hg
      simp [List.getElem?_idxOf (List.of_mem_zip hg).1]
    · have hzip := byField_eq_zip hkeys
      rw [← map_idxOf_fieldNames hnames, List.zip_map_left] at hzip
      rw [← hzip]
      exact (byField_perm _).symm
  · next h =>
    exact .braces _ (fun hcall => h (hcomplete.2 hcall)) (listed_byField _)

/-- The order in which values are given for different fields does not matter. -/
theorem literalOf_eq_of_perm {l' : Literal} (hpath : l'.path = l.path) (hbase : l'.base = l.base)
    (hperm : l'.given.Perm l.given) (hnodup : (l.given.map (·.1)).Nodup)
    (hgiven : ∀ g ∈ l.given, g.1 ∈ plan.fieldNames) :
    literalOf plan l'.path (l'.placed plan) l'.base = literalOf plan l.path (l.placed plan) l.base := by
  have hplaces : ((l.placed plan).map (·.1)).Nodup := by
    rw [map_fst_placed]
    refine hnodup.map_on fun x hx y hy hxy => ?_
    obtain ⟨g, hg, rfl⟩ := List.mem_map.1 hx
    exact (List.idxOf_inj (hgiven g hg)).1 hxy
  have hsame : byField (l'.placed plan) = byField (l.placed plan) :=
    byField_eq_of_perm (hperm.map _) hplaces
  rw [literalOf, literalOf, hpath, hbase, hsame]

end Literal

/-! ## Literals in files -/

section Reading

variable {shape : Shape} {plan : Plan} {file : FileId} {f list : Node} {copy : Span → String}

/-- A field of a literal is read as the place of its name, and the value that it gives. -/
theorem literalField_eq (hplan : Plan.ofShape shape = .ok plan) {value : Nat × FieldValue}
    (h : Site.literalField file plan f = .ok value) :
    (f.initializer copy).1 ∈ plan.fieldNames ∧
      (value.1, value.2.copied copy) = Prod.map plan.fieldNames.idxOf id (f.initializer copy) := by
  simp only [Site.literalField] at h
  split at h
  · cases h
  · split at h
    · cases h
    · next i hi =>
      have hmem := Plan.mem_fieldNames_of_indexOf? hi
      rw [Plan.indexOf?_eq hplan, if_pos hmem, Option.some.injEq] at hi
      subst hi
      refine ⟨hmem, ?_⟩
      split at h
      · next hshorthand =>
        cases h
        simp [Node.initializer, hshorthand, FieldValue.copied]
      · next hshorthand =>
        split at h
        · next e he =>
          cases h
          simp [Node.initializer, hshorthand, he, FieldValue.copied]
        · cases h

theorem literalBase_eq {base : Option Span} (h : Site.literalBase file list = .ok base) :
    base.map copy = if list.hasToken .dotDot then list.expr?.map fun e => copy e.span else none := by
  rw [Site.literalBase] at h
  split at h
  · next hdots =>
    cases h
    simp [Node.hasToken, hdots]
  · next e hdots he =>
    cases h
    simp [Node.hasToken, hdots, he]
  · cases h

end Reading

/-- A literal of a file that can be rewritten, and the site that it is. -/
structure Construction (plan : Plan) where
  workspace : Workspace
  file : FileId
  source : SourceFile
  node : Node
  site : Site
  file?_eq : workspace.file? file = some source
  holds : workspace.Holds file node
  ofLiteral_eq : Site.ofLiteral file plan node = .ok site

namespace Construction

variable {shape : Shape} {plan : Plan} {es : List TextEdit}

/-- The literal with copies of its parts in which the edits are made that are finished. -/
def literal? (c : Construction plan) (es : List TextEdit) : Option Literal :=
  c.node.literal? fun part => weave c.source.text part es

/-- The finished edits once the literal is rewritten. -/
def rewrite (c : Construction plan) (config : Config) (es : List TextEdit) :
    Except ConversionError (List TextEdit) :=
  ((rewriteSite c.source.text plan config c.site).run es).map (·.2)

/-- The edits that are finished in no part of the literal, and one that puts a text in its place. -/
def finished (c : Construction plan) (es : List TextEdit) (out : String) : List TextEdit :=
  outside c.site.kind.parts es ++ [⟨c.node.span, out⟩]

/-- A literal of a file that is alone in its workspace. -/
def ofText (text : String) (node : Node) (site : Site)
    (hnode : node ∈ (Node.ofTree (parseFile text).tree).descendants)
    (hsite : Site.ofLiteral 0 plan node = .ok site) : Construction plan where
  workspace := .ofFiles [("a.rs", text)]
  file := 0
  source := .ofText "a.rs" text
  node := node
  site := site
  file?_eq := rfl
  holds := ⟨_, rfl, Node.below_of_mem_descendants hnode⟩
  ofLiteral_eq := hsite

/-- A literal reads as names of fields with values, and it becomes what is written for them. -/
theorem exists_literal? (hplan : Plan.ofShape shape = .ok plan) (c : Construction plan)
    (copy : Span → String) : ∃ l, c.node.literal? copy = some l ∧
      (∀ g ∈ l.given, g.1 ∈ plan.fieldNames) ∧ c.site.span = c.node.span ∧ c.site.kind ≠ .mention ∧
      ∀ config, c.site.becomes c.source.text plan config copy =
        literalOf plan l.path (l.placed plan) l.base := by
  obtain ⟨w, file, source, node, site, hfile, hn, hsite⟩ := c
  rw [Site.ofLiteral] at hsite
  split at hsite
  · next path list hpath hlist =>
    obtain ⟨fields, hfields, hsite⟩ := bind_eq_ok.1 hsite
    obtain ⟨base, hbase, hsite⟩ := bind_eq_ok.1 hsite
    cases hsite
    refine ⟨_, by simp only [Node.literal?, hpath, hlist]; rfl, ?_, rfl, by simp, fun config => ?_⟩
    · refine List.forall_mem_map.2 fun f hf => ?_
      obtain ⟨value, hvalue⟩ := exists_ok_of_mapM_eq_ok hfields hf
      exact (literalField_eq hplan hvalue).1
    · have hplaced := ((hn.below (Node.Below.refl.childOfKind? hpath)).placedIn hfile).sliceText_eq
      have hvalues := map_eq_of_mapM_eq_ok (g := fun v => (v.1, v.2.copied copy))
        (k := fun f => Prod.map plan.fieldNames.idxOf id (f.initializer copy)) hfields
        fun f value hvalue => (literalField_eq hplan hvalue).2
      simp only [Site.becomes, literalText, Literal.placed, hplaced, hvalues, literalBase_eq hbase,
        List.map_map, Function.comp_def]
  · cases hsite

/-- A literal is rewritten if the finished edits in each of its parts can be made. -/
theorem rewrite_eq (hplan : Plan.ofShape shape = .ok plan) (c : Construction plan) (config : Config)
    (hes : Placed c.source.text es) (hclear : ClearIn c.site.kind.parts es) {l : Literal}
    (hl : c.literal? es = some l) :
    c.rewrite config es = .ok (c.finished es (literalOf plan l.path (l.placed plan) l.base)) := by
  obtain ⟨l', hl', -, hspan, hkind, hbecomes⟩ :=
    c.exists_literal? hplan fun part => weave c.source.text part es
  obtain rfl : l' = l := Option.some.inj (hl'.symm.trans hl)
  rw [rewrite, rewriteSite_eq plan config hkind (Site.fits_ofLiteral c.holds c.file?_eq c.ofLiteral_eq)
    hes hclear fun part _ => rfl, hbecomes, hspan]
  rfl

/-- A literal that can be rewritten reads as names of fields with values, and it is written as it should be
for positional fields: if it is complete, as a call with the values in the order of the declaration, and
otherwise in braces, with each value once and by its place. The values are copied with the edits made that are
finished, which is possible unless two of them get in each other's way. The order in which a literal gives
values for different fields does not matter. -/
theorem exists_positional (hplan : Plan.ofShape shape = .ok plan) (hnames : plan.fieldNames.Nodup)
    (c : Construction plan) (config : Config) (hes : Placed c.source.text es) :
    ∃ l, c.literal? es = some l ∧ (∀ g ∈ l.given, g.1 ∈ plan.fieldNames) ∧
      (ClearIn c.site.kind.parts es → ∃ out, l.Positional plan out ∧
        c.rewrite config es = .ok (c.finished es out) ∧
        ∀ (c' : Construction plan) (config' : Config) es' l', Placed c'.source.text es' →
          ClearIn c'.site.kind.parts es' → c'.literal? es' = some l' → l'.path = l.path →
          l'.base = l.base → l'.given.Perm l.given → (l.given.map (·.1)).Nodup →
            c'.rewrite config' es' = .ok (c'.finished es' out)) ∧
      (¬ ClearIn c.site.kind.parts es → c.rewrite config es = .error .overlappingEdits) := by
  obtain ⟨l, hl, hgiven, -, hkind, -⟩ :=
    c.exists_literal? hplan fun part => weave c.source.text part es
  refine ⟨l, hl, hgiven, fun hclear => ?_, fun hclash => ?_⟩
  · refine ⟨_, Literal.positional_literalOf hnames hgiven, c.rewrite_eq hplan config hes hclear hl, ?_⟩
    intro c' config' es' l' hes' hclear' hl' hpath hbase hperm hnodup
    rw [c'.rewrite_eq hplan config' hes' hclear' hl',
      Literal.literalOf_eq_of_perm hpath hbase hperm hnodup hgiven]
  · obtain ⟨hclear, -⟩ | ⟨-, hfails⟩ := rewriteSite_outcome plan config hkind
      (Site.fits_ofLiteral c.holds c.file?_eq c.ofLiteral_eq) hes
    · exact absurd hclear hclash
    · rw [rewrite, hfails]
      rfl

set_option maxRecDepth 100000 in
/-- Two orders of the fields of a literal, with a literal in it that is rewritten already. -/
theorem exists_positional_two_orders :
    let shape : Shape :=
      { name := "A", style := .record, isUnion := false
        fields := [⟨some "x", "T", none, none, [], []⟩, ⟨some "y", "T", none, none, [], []⟩] }
    let plan : Plan := ⟨"A", [⟨"x", 0, "T", none, [], []⟩, ⟨"y", 1, "T", none, [], []⟩]⟩
    Plan.ofShape shape = .ok plan ∧ plan.fieldNames.Nodup ∧ ∃ c c' : Construction plan,
      c.source.text = "fn f() { A { y: 2, x: A { y, x: 0 } } }" ∧
      c'.source.text = "fn f() { A { x: A { y, x: 0 }, y: 2 } }" ∧
      Placed c.source.text [⟨⟨22, 35⟩, "A(0, y)"⟩] ∧
      c.rewrite {} [⟨⟨22, 35⟩, "A(0, y)"⟩] = .ok [⟨⟨9, 37⟩, "A(A(0, y), 2)"⟩] ∧
      c'.rewrite {} [⟨⟨16, 29⟩, "A(0, y)"⟩] = .ok [⟨⟨9, 37⟩, "A(A(0, y), 2)"⟩] := by
  intro shape plan
  let text := "fn f() { A { y: 2, x: A { y, x: 0 } } }"
  let text' := "fn f() { A { x: A { y, x: 0 }, y: 2 } }"
  let site : Site := ⟨0, ⟨9, 37⟩, .construction ⟨9, 10⟩ [(1, .expr ⟨16, 17⟩), (0, .expr ⟨22, 35⟩)] none⟩
  let site' : Site := ⟨0, ⟨9, 37⟩, .construction ⟨9, 10⟩ [(0, .expr ⟨16, 29⟩), (1, .expr ⟨34, 35⟩)] none⟩
  have hread : ((Node.ofTree (parseFile text).tree).descendants.find? (·.kind == .recordExpr)).map
      (fun n => (n.span, (Site.ofLiteral 0 plan n).toOption,
        n.literal? fun part => weave text part [⟨⟨22, 35⟩, "A(0, y)"⟩])) =
      some (⟨9, 37⟩, some site, some ⟨"A", [("y", "2"), ("x", "A(0, y)")], none⟩) := by
    decide +kernel
  have hread' : ((Node.ofTree (parseFile text').tree).descendants.find? (·.kind == .recordExpr)).map
      (fun n => (n.span, (Site.ofLiteral 0 plan n).toOption,
        n.literal? fun part => weave text' part [⟨⟨16, 29⟩, "A(0, y)"⟩])) =
      some (⟨9, 37⟩, some site', some ⟨"A", [("x", "A(0, y)"), ("y", "2")], none⟩) := by
    decide +kernel
  obtain ⟨n, hn, heq⟩ := Option.map_eq_some_iff.1 hread
  obtain ⟨n', hn', heq'⟩ := Option.map_eq_some_iff.1 hread'
  obtain ⟨hspan, hsite, hliteral⟩ : n.span = ⟨9, 37⟩ ∧ _ ∧ _ := by simpa only [Prod.mk.injEq] using heq
  obtain ⟨hspan', hsite', hliteral'⟩ : n'.span = ⟨9, 37⟩ ∧ _ ∧ _ := by
    simpa only [Prod.mk.injEq] using heq'
  let c := ofText text n site (List.mem_of_find?_eq_some hn) (toOption_eq_some.1 hsite)
  let c' := ofText text' n' site' (List.mem_of_find?_eq_some hn') (toOption_eq_some.1 hsite')
  have hplan : Plan.ofShape shape = .ok plan := rfl
  have hnames : plan.fieldNames.Nodup := by decide
  have hplaced : Placed text [⟨⟨22, 35⟩, "A(0, y)"⟩] := ⟨by decide, by decide⟩
  have hplaced' : Placed text' [⟨⟨16, 29⟩, "A(0, y)"⟩] := ⟨by decide, by decide⟩
  obtain ⟨l, hl, -, hok, -⟩ := c.exists_positional hplan hnames {} hplaced
  obtain ⟨out, -, hrun, hany⟩ := hok fun _ _ => (List.pairwise_singleton _ _).filter _
  obtain rfl := Option.some.inj (hl.symm.trans hliteral)
  have hout : out = "A(A(0, y), 2)" := by
    have hmade := c.rewrite_eq hplan {} hplaced (fun _ _ => (List.pairwise_singleton _ _).filter _) hl
    have hfinished := Except.ok.inj (hrun.symm.trans hmade)
    have hwritten : literalOf plan "A"
        (Literal.placed plan ⟨"A", [("y", "2"), ("x", "A(0, y)")], none⟩) none = "A(A(0, y), 2)" := by
      have hvalues : byField (Literal.placed plan ⟨"A", [("y", "2"), ("x", "A(0, y)")], none⟩) =
          [(0, "A(0, y)"), (1, "2")] :=
        (byField_eq_of_perm (.swap _ _ _) (by decide)).trans (List.mergeSort_of_pairwise (by decide))
      rw [literalOf, hvalues]
      decide +kernel
    rw [← hwritten]
    simpa [finished] using hfinished
  subst hout
  have hrun' := hany c' {} _ _ hplaced' (fun _ _ => (List.pairwise_singleton _ _).filter _)
    hliteral' rfl rfl (List.Perm.swap _ _ _) (by decide)
  have hfinished : c.finished [⟨⟨22, 35⟩, "A(0, y)"⟩] "A(A(0, y), 2)" =
      [⟨⟨9, 37⟩, "A(A(0, y), 2)"⟩] := congrArg (fun s => [TextEdit.mk s _]) hspan
  have hfinished' : c'.finished [⟨⟨16, 29⟩, "A(0, y)"⟩] "A(A(0, y), 2)" =
      [⟨⟨9, 37⟩, "A(A(0, y), 2)"⟩] := congrArg (fun s => [TextEdit.mk s _]) hspan'
  exact ⟨hplan, hnames, c, c', rfl, rfl, hplaced, hfinished ▸ hrun, hfinished' ▸ hrun'⟩

end Construction

end Reshape
