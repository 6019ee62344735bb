import Mathlib.Data.List.Find
import Reshape.Proofs.Syntax.Constituents

/-!
# The values of forms

A `let`, an arm of a match, a `for` loop, a constant and a static have a value, an expression that stands
behind a mark of the form: an equals sign, an arrow or the word `in`. What is taken for the value is the
first expression among the children. A macro call counts as an expression where it stands for a pattern
or a type, so that such a call before the mark is taken instead.

* `NodeKind.mark?` is the mark of a form, `Node.valueBehind?` the expression behind it, `Node.callBefore?`
  the first macro call before it, and `Node.value?` what is taken.
* `Node.Divided` says which children stand before a mark and which behind it. Of these, each of the two
  searches only looks at one part.
* `Node.valued_of_below` is the result for the forms of a file.
-/

namespace Reshape

open Reshape.Tree

/-- The kind of the token that the value of a form stands behind. -/
def NodeKind.mark? : NodeKind → Option TokenKind
  | .letStmt | .letExpr | .constItem | .staticItem => some .eq
  | .matchArm => some .fatArrow
  | .forExpr => some (.keyword .inKw)
  | _ => none

/-- Whether a form may go without a value. -/
def NodeKind.mayLackValue : NodeKind → Bool
  | .letStmt | .constItem | .staticItem => true
  | _ => false

namespace Node

variable {text : String} {n m : Node} {mark : TokenKind} {u : Token} {before behind : List Tree}

/-- What is taken for the value of a form. -/
def value? (n : Node) : Option Node :=
  match n.kind with
  | .letStmt => n.initializer?
  | .matchArm => n.armBody?
  | .forExpr => n.iterable?
  | _ => n.expr?

/-- The first expression behind a mark. -/
def valueBehind? (n : Node) (mark : TokenKind) : Option Node :=
  (n.childToken? mark).bind fun t =>
    n.children.find? fun c => c.kind.isExpr && decide (t.stop ≤ c.span.start)

/-- The first macro call before a mark, or anywhere if there is none. -/
def callBefore? (n : Node) (mark : TokenKind) : Option Node :=
  n.children.find? fun c => c.kind == .macroCall &&
    (n.childToken? mark).all fun t => c.span.stop ≤ t.start

theorem value?_eq (n : Node) : n.value? = n.children.find? fun c => c.kind.isExpr := by
  rw [value?]
  split <;> rfl

/-- The children of a node that stand before a mark and those that stand behind it. -/
structure Divided (n : Node) (u : Token) (cs ds : List Node) : Prop where
  children_eq : n.children = cs ++ ds
  childToken?_eq : n.childToken? u.kind = some u
  start_lt_stop : u.start < u.stop
  start_le_stop : ∀ {c}, c ∈ n.children → c.span.start ≤ c.span.stop
  before : ∀ {c}, c ∈ cs → c.span.stop ≤ u.start
  behind : ∀ {d}, d ∈ ds → u.stop ≤ d.span.start

namespace Divided

variable {cs ds : List Node}

theorem callBefore?_eq (h : n.Divided u cs ds) :
    n.callBefore? u.kind = cs.find? fun c => c.kind == .macroCall := by
  have hnone : ds.find? (fun c => c.kind == .macroCall && decide (c.span.stop ≤ u.start)) = none := by
    rw [List.find?_eq_none]
    intro d hd hfound
    have hstart := h.behind hd
    have hstop := h.start_le_stop (h.children_eq ▸ List.mem_append_right _ hd)
    have hlt := h.start_lt_stop
    simp only [Bool.and_eq_true, decide_eq_true_eq] at hfound
    omega
  rw [callBefore?, h.childToken?_eq, h.children_eq, List.find?_append]
  simp only [Option.all_some]
  rw [hnone, Option.or_none]
  exact List.find?_congr fun c hc => by rw [decide_eq_true (h.before hc), Bool.and_true]

theorem valueBehind?_eq (h : n.Divided u cs ds) :
    n.valueBehind? u.kind = ds.find? fun c => c.kind.isExpr := by
  have hnone : cs.find? (fun c => c.kind.isExpr && decide (u.stop ≤ c.span.start)) = none := by
    rw [List.find?_eq_none]
    intro c hc hfound
    have hstop := h.before hc
    have hstart := h.start_le_stop (h.children_eq ▸ List.mem_append_left _ hc)
    have hlt := h.start_lt_stop
    simp only [Bool.and_eq_true, decide_eq_true_eq] at hfound
    omega
  rw [valueBehind?, h.childToken?_eq, Option.bind_some, h.children_eq, List.find?_append, hnone,
    Option.none_or]
  exact List.find?_congr fun d hd => by rw [decide_eq_true (h.behind hd), Bool.and_true]

/-- No child stands both before the mark and behind it. -/
theorem callBefore?_ne {c : Node} (h : n.Divided u cs ds) (hcall : n.callBefore? u.kind = some c) :
    n.valueBehind? u.kind ≠ some c := by
  rw [h.callBefore?_eq] at hcall
  rw [h.valueBehind?_eq]
  intro hvalue
  have hc := List.mem_of_find?_eq_some hcall
  have hstop := h.before hc
  have hstart := h.behind (List.mem_of_find?_eq_some hvalue)
  have hle := h.start_le_stop (h.children_eq ▸ List.mem_append_left _ hc)
  have hlt := h.start_lt_stop
  omega

end Divided

/-- The children stand before and behind a token. -/
theorem PlacedIn.exists_children_split (h : n.PlacedIn text)
    (helements : n.elements = before ++ .leaf u :: behind) :
    ∃ cs ds, n.children = cs ++ ds ∧
      (∀ c ∈ cs, .node c.kind ∈ before.filterMap (·.constituent?) ∧ c.span.stop ≤ u.start) ∧
      (∀ d ∈ ds, u.stop ≤ d.span.start) ∧ ds.map (·.kind) = behind.filterMap (·.kind?) := by
  have hpairwise := h.pairwise_elements
  rw [helements, List.pairwise_append, List.pairwise_cons] at hpairwise
  obtain ⟨-, ⟨hbehind, -⟩, hbefore⟩ := hpairwise
  have mem {above : List Layer} {i : Nat} {ts : List Tree} {c : Node} (hc : c ∈ nodesAmong above i ts) :
      c.tree ∈ ts := by
    obtain ⟨-, xs, ys, rfl⟩ := exists_of_mem_nodesAmong hc
    simp
  exact ⟨_, _, by rw [children, helements, nodesAmong_append, nodesAmong],
    fun c hc => ⟨node_mem_of_mem_nodesAmong hc, hbefore _ (mem hc) _ List.mem_cons_self⟩,
    fun d hd => hbehind _ (mem hd), kinds_nodesAmong ..⟩

theorem childToken?_of_elements (helements : n.elements = before ++ .leaf u :: behind)
    (hu : u.kind = mark) (hmark : mark.isTrivia = false)
    (hbefore : .token mark ∉ before.filterMap (·.constituent?)) : n.childToken? mark = some u := by
  have hnone : (before.filterMap (·.token?)).find? (fun t => t.kind == mark) = none := by
    rw [List.find?_eq_none]
    intro t ht hkind
    obtain ⟨v, hv, htoken⟩ := List.mem_filterMap.1 ht
    cases v with
    | node k s es => cases htoken
    | leaf v =>
      cases htoken
      rw [beq_iff_eq] at hkind
      refine hbefore (List.mem_filterMap.2 ⟨_, hv, constituent?_eq_token.2 ⟨t, rfl, ?_, hkind⟩⟩)
      rw [Token.isTrivia, hkind, hmark]
  rw [childToken?, tokens, helements, List.filterMap_append, List.find?_append, hnone, Option.none_or]
  exact List.find?_cons_of_pos (by simpa using hu)

theorem isExpr_of_precedes {k : NodeKind} (h : (Constituent.node k).precedes mark = true) :
    k.isExpr = (k == .macroCall) := by
  rw [Constituent.precedes, Bool.or_eq_true, beq_iff_eq, Bool.not_eq_true'] at h
  obtain rfl | h := h
  · rfl
  · rw [h, eq_comm, beq_eq_false_iff_ne]
    rintro rfl
    cases h

/-- What is taken for the value of a form is the first macro call before its mark, or else the expression
behind it, so that it is right exactly if there is no such call. The expression is there if the mark is. -/
structure Valued (n : Node) (mark : TokenKind) : Prop where
  value?_eq : n.value? = (n.callBefore? mark).or (n.valueBehind? mark)
  value?_iff : n.value? = n.valueBehind? mark ↔ n.callBefore? mark = none
  isSome_eq : (n.valueBehind? mark).isSome = n.hasToken mark

theorem Valued.of_ne (h : n.value? = (n.callBefore? mark).or (n.valueBehind? mark))
    (hne : ∀ c, n.callBefore? mark = some c → n.valueBehind? mark ≠ some c)
    (hsome : (n.valueBehind? mark).isSome = n.hasToken mark) : n.Valued mark := by
  refine ⟨h, ?_, hsome⟩
  rw [h]
  cases hcall : n.callBefore? mark with
  | none => simp
  | some c => simpa using (hne c hcall).symm

/-- The mark of a form divides its children: only macro calls and what is no expression stand before it,
and an expression behind it. -/
theorem exists_divided (hn : Below (ofTree (parseFile text).tree) n) (hmark : mark.isTrivia = false)
    (heof : mark ≠ .eof) (h : IsValued mark n.constituents) :
    ∃ u cs ds, u.kind = mark ∧ n.Divided u cs ds ∧
      (∀ c ∈ cs, c.kind.isExpr = (c.kind == .macroCall)) ∧ ∃ d ∈ ds, d.kind.isExpr = true := by
  obtain ⟨pre, k, post, hpre, hk, hconstituents⟩ := h
  obtain ⟨before, t, behind, helements, rfl, ht, hbehind⟩ := exists_elements hconstituents
  obtain ⟨u, rfl, -, rfl⟩ := constituent?_eq_token.1 ht
  have hplaced := placedIn_of_below hn
  have htoken : n.childToken? u.kind = some u := by
    refine childToken?_of_elements helements rfl hmark fun hmem => ?_
    simpa [Constituent.precedes] using hpre _ hmem
  obtain ⟨cs, ds, hchildren, hcs, hds, hkinds⟩ := hplaced.exists_children_split helements
  refine ⟨u, cs, ds, rfl, {
    children_eq := hchildren
    childToken?_eq := htoken
    start_lt_stop := start_lt_stop_of_text_ne_empty (text_ne_empty_of_mem_lexTokens
      (mem_lexTokens_of_below hn (List.mem_of_find?_eq_some htoken)) heof)
    start_le_stop := fun hc => (hplaced.child hc).1.le
    before := fun hc => (hcs _ hc).2
    behind := hds _ }, fun c hc => isExpr_of_precedes (hpre _ (hcs c hc).1), ?_⟩
  have hmem : .node k ∈ behind.filterMap (·.constituent?) := by simp [hbehind]
  obtain ⟨t, ht, hconstituent⟩ := List.mem_filterMap.1 hmem
  have hkind : k ∈ ds.map (·.kind) :=
    hkinds ▸ List.mem_filterMap.2 ⟨t, ht, constituent?_eq_node.1 hconstituent⟩
  obtain ⟨d, hd, rfl⟩ := List.mem_map.1 hkind
  exact ⟨d, hd, hk⟩

/-- A form with a value behind its mark. -/
theorem valued_of_isValued (hn : Below (ofTree (parseFile text).tree) n) (hmark : mark.isTrivia = false)
    (heof : mark ≠ .eof) (h : IsValued mark n.constituents) :
    n.Valued mark ∧ n.hasToken mark = true := by
  have hhas : n.hasToken mark = true := by
    obtain ⟨pre, k, post, -, -, hconstituents⟩ := h
    exact (hasToken_iff hmark).2 (by simp [hconstituents])
  obtain ⟨u, cs, ds, rfl, hdivided, hcs, hds⟩ := exists_divided hn hmark heof h
  refine ⟨.of_ne ?_ (fun c => hdivided.callBefore?_ne) ?_, hhas⟩
  · rw [n.value?_eq, hdivided.children_eq, List.find?_append, hdivided.callBefore?_eq,
      hdivided.valueBehind?_eq, List.find?_congr hcs]
  · rw [hdivided.valueBehind?_eq, hhas]
    exact List.find?_isSome.2 hds

/-- A form without a mark. -/
theorem valued_of_precedes (hmark : mark.isTrivia = false)
    (h : ∀ x ∈ n.constituents, x.precedes mark = true) : n.Valued mark := by
  have hhas : n.hasToken mark = false := by
    rw [Bool.eq_false_iff, ne_eq, hasToken_iff hmark]
    exact fun hmem => by simpa [Constituent.precedes] using h _ hmem
  have htoken : n.childToken? mark = none := by simpa [hasToken] using hhas
  have hvalue : n.valueBehind? mark = none := by rw [valueBehind?, htoken, Option.bind_none]
  refine .of_ne ?_ (fun c _ => by simp [hvalue]) (by rw [hvalue, hhas]; rfl)
  rw [n.value?_eq, hvalue, Option.or_none, callBefore?, htoken]
  exact List.find?_congr fun c hc => by
    rw [isExpr_of_precedes (h _ (node_mem_constituents hc)), Option.all_none, Bool.and_true]

/-- The forms that fit. -/
theorem isValued_or_of_fits {k : NodeKind} {first : TokenKind} {t : Stage} (hk : k.mark? = some mark)
    (h : Fits k first t) : IsValued mark t.inside ∨
      k.mayLackValue = true ∧ ∀ x ∈ t.inside, x.precedes mark = true := by
  unfold NodeKind.mark? at hk
  split at hk <;> cases hk
  case h_1 | h_3 | h_4 => exact Or.imp_right (And.intro rfl) h
  all_goals exact .inl h

/-- **The values of forms.** In a faultless file, the value of a form is taken right unless a macro call
stands before its mark. Where the form needs a value, the mark is there. -/
theorem valued_of_below (h : Faultless text) (hn : Below (ofTree (parseFile text).tree) n)
    (hkind : n.kind.mark? = some mark) :
    n.Valued mark ∧ (n.kind.mayLackValue = false → n.hasToken mark = true) := by
  have hmark : mark.isTrivia = false ∧ mark ≠ .eof := by
    unfold NodeKind.mark? at hkind
    split at hkind <;> cases hkind <;> exact ⟨rfl, by simp⟩
  have hroot : n.kind ≠ .sourceFile := by
    intro hroot
    rw [hroot] at hkind
    cases hkind
  obtain ⟨first, t, hfits, hinside, -⟩ := fits_of_below h hn hroot
  obtain hvalued | ⟨hmay, hlacks⟩ := hinside ▸ isValued_or_of_fits hkind hfits
  · obtain ⟨hvalued, hhas⟩ := valued_of_isValued hn hmark.1 hmark.2 hvalued
    exact ⟨hvalued, fun _ => hhas⟩
  · refine ⟨valued_of_precedes hmark.1 hlacks, fun hneeds => ?_⟩
    rw [hmay] at hneeds
    cases hneeds

set_option maxRecDepth 100000 in
/-- An arm whose pattern is a macro call. -/
theorem valued_of_below_arm : ∃ n : Node,
    Below (ofTree (parseFile "fn f()\x7bmatch x\x7bm!()=>s\x7d\x7d").tree) n ∧ n.kind = .matchArm ∧
      n.Valued .fatArrow ∧ n.hasToken .fatArrow = true := by
  have h : Faultless "fn f()\x7bmatch x\x7bm!()=>s\x7d\x7d" := ⟨by decide +kernel, by decide +kernel⟩
  obtain ⟨n, hn⟩ := Option.isSome_iff_exists.1
    (by decide +kernel :
      ((ofTree (parseFile "fn f()\x7bmatch x\x7bm!()=>s\x7d\x7d").tree).descendants.find?
        fun n => n.kind == .matchArm).isSome = true)
  have hkind : n.kind = .matchArm := by simpa using List.find?_some hn
  have hbelow := below_of_mem_descendants (List.mem_of_find?_eq_some hn)
  obtain ⟨hvalued, hhas⟩ := valued_of_below h hbelow (by rw [hkind]; rfl : _ = some .fatArrow)
  exact ⟨n, hbelow, hkind, hvalued, hhas (by rw [hkind]; rfl)⟩

set_option maxRecDepth 100000 in
/-- Nothing is wrong with these statements, and yet a type is taken for their initializer: before the
equals sign of the first, and without one in the second. -/
theorem initializer_before_mark :
    (parseFile "fn f()\x7blet x:m!()=e;let y:m!();\x7d").ok = true ∧
      (∃ n ∈ (ofTree (parseFile "fn f()\x7blet x:m!()=e;let y:m!();\x7d").tree).descendants,
        n.kind = .letStmt ∧ n.initializer?.map (·.text) = some "m!()" ∧
          (n.valueBehind? .eq).map (·.text) = some "e") ∧
      ∃ n ∈ (ofTree (parseFile "fn f()\x7blet x:m!()=e;let y:m!();\x7d").tree).descendants,
        n.kind = .letStmt ∧ n.initializer?.map (·.text) = some "m!()" ∧ n.hasToken .eq = false := by
  decide +kernel

end Node

end Reshape
