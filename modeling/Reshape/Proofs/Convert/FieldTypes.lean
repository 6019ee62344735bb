import Reshape.Proofs.Convert.Plans
import Reshape.Proofs.Syntax.Constituents

/-!
# Types in plans

A plan carries the text of the type of every field. That is the first child of the field that is a type.
A macro call is none, and a binder of lifetimes stands before the type that it binds them for.

* `Node.behindColon` is the text of a field behind its colon.
* `FieldParts` are the trees of a field by their role. `FieldParts.of_below` finds them for the fields
  of faultless files.
* `Node.typeText_eq_iff` says for one field when the planned type is all that stands behind the colon.
* `typeTexts_planned` says so for all fields of a plan. `typeTexts_lost` are plans that lose something.
-/

namespace Reshape

open Reshape.Tree

namespace Node

/-- What stands behind the colon of a field, from the first significant token on. -/
def behindColon (n : Node) : String :=
  tokensText (fromSignificant (forestLeaves
    (n.elements.dropWhile fun t => t.token?.all (·.kind ≠ .colon)).tail))

/-- The text of the type of a field, as it is planned. -/
def typeText (n : Node) : String := (n.type?.map (·.text)).getD ""

end Node

/-! ## The parts of a field -/

theorem mem_binders {b : Nat} {x : Constituent} (hx : x ∈ binders b) :
    b ≠ 0 ∧ (x = .token (.keyword .forKw) ∨ x = .node .genericParamList) := by
  induction b with
  | zero => cases hx
  | succ b ih =>
    rw [binders, List.mem_cons, List.mem_cons] at hx
    obtain rfl | rfl | hx := hx
    · exact ⟨Nat.succ_ne_zero b, .inl rfl⟩
    · exact ⟨Nat.succ_ne_zero b, .inr rfl⟩
    · exact ⟨Nat.succ_ne_zero b, (ih hx).2⟩

/-- The trees of a field: those before the colon, the colon, binders of lifetimes, and the type or macro
call that ends the field. -/
structure FieldParts (n : Node) where
  before : List Tree
  colon : Token
  lead : List Tree
  last : Tree
  count : Nat
  kind : NodeKind
  elements_eq : n.elements = before ++ .leaf colon :: (lead ++ [last])
  before_mem : ∀ x ∈ before.filterMap (·.constituent?),
    x = .node .attr ∨ x = .node .visibility ∨ x = .node .name
  colon_eq : colon.kind = .colon
  lead_eq : lead.filterMap (·.constituent?) = binders count
  last_eq : last.kind? = some kind
  isType_or : kind.isType = true ∨ kind = .macroCall

namespace FieldParts

variable {text : String} {n : Node}

/-- The fields of faultless files have their parts. -/
theorem of_below (h : Faultless text) (hn : Node.Below (.ofTree (parseFile text).tree) n)
    (hkind : n.kind = .recordField) : Nonempty (FieldParts n) := by
  obtain ⟨first, stage, hfits, hinside, hflush, -⟩ := Node.fits_of_below h hn (by simp [hkind])
  obtain ⟨hstage, hfield⟩ : stage.flush = true ∧ IsField stage.inside := by
    rw [hkind] at hfits
    exact hfits
  obtain ⟨as, v, ty, has, hv, ⟨b, k, hk, rfl⟩, hconst⟩ := hfield
  have hsplit : n.constituents =
      (as ++ v ++ [.node .name]) ++ .token .colon :: (binders b ++ [.node k]) := by
    rw [← hinside, hconst]
    simp
  obtain ⟨before, c, behind, helements, hbefore, hc, hbehind⟩ := Node.exists_elements hsplit
  obtain ⟨colon, rfl, -, hcolon⟩ := constituent?_eq_token.1 hc
  -- No trivia stand behind the type.
  obtain rfl | ⟨lead, t, rfl⟩ := List.eq_nil_or_concat behind
  · simp at hbehind
  rw [List.concat_eq_append] at helements hbehind
  have hlast := hflush hstage t (by
    rw [helements, ← List.cons_append, ← List.append_assoc, List.getLast?_concat]
    rfl)
  obtain ⟨x, hx⟩ : ∃ x, t.constituent? = some x := by
    cases t with
    | leaf u =>
      have hu : u.isTrivia = false := by simpa [token?] using hlast
      exact ⟨.token u.kind, constituent?_eq_token.2 ⟨u, rfl, hu, rfl⟩⟩
    | node l s es => exact ⟨_, rfl⟩
  rw [List.filterMap_append, List.filterMap_cons_some hx, List.filterMap_nil] at hbehind
  obtain ⟨hlead, hxk⟩ := List.append_inj' hbehind rfl
  cases hxk
  refine ⟨⟨before, colon, lead, t, b, k, helements, fun x hx => ?_, hcolon, hlead,
    constituent?_eq_node.1 hx, hk⟩⟩
  rw [hbefore, List.mem_append, List.mem_append, List.mem_singleton] at hx
  obtain (hx | hx) | hx := hx
  · exact .inl (has x hx)
  · obtain rfl | rfl := hv
    · cases hx
    · exact .inr (.inl (List.mem_singleton.1 hx))
  · exact .inr (.inr hx)

variable (p : FieldParts n)

theorem constituents_init : (p.before ++ .leaf p.colon :: p.lead).filterMap (·.constituent?) =
    p.before.filterMap (·.constituent?) ++ .token .colon :: binders p.count := by
  have hcolon : (leaf p.colon).constituent? = some (.token .colon) :=
    constituent?_eq_token.2 ⟨p.colon, rfl, by rw [Token.isTrivia, p.colon_eq]; rfl, p.colon_eq⟩
  rw [List.filterMap_append, List.filterMap_cons_some hcolon, p.lead_eq]

theorem constituents_eq : n.constituents =
    p.before.filterMap (·.constituent?) ++ .token .colon :: binders p.count ++ [.node p.kind] := by
  rw [Node.constituents, p.elements_eq, ← List.cons_append, ← List.append_assoc, List.filterMap_append,
    p.constituents_init, List.filterMap_cons_some (constituent?_eq_node.2 p.last_eq),
    List.filterMap_nil]

/-- Before the last tree there is neither a type nor a macro call. -/
theorem not_isType_of_mem {l : NodeKind}
    (hl : .node l ∈ (p.before ++ .leaf p.colon :: p.lead).filterMap (·.constituent?)) :
    l.isType = false ∧ l ≠ .macroCall := by
  rw [p.constituents_init, List.mem_append, List.mem_cons] at hl
  obtain hl | hl | hl := hl
  · obtain hl | hl | hl := p.before_mem _ hl <;> cases hl <;> exact ⟨rfl, by simp⟩
  · cases hl
  · obtain hl | hl := (mem_binders hl).2 <;> cases hl
    exact ⟨rfl, by simp⟩

/-- Before the last tree there is nothing of a class of types and macro calls. -/
theorem eq_false_of_mem {q : NodeKind → Bool} (hq : ∀ l, q l = true → l.isType = true ∨ l = .macroCall)
    {l : NodeKind} (hl : .node l ∈ (p.before ++ .leaf p.colon :: p.lead).filterMap (·.constituent?)) :
    q l = false := by
  obtain ⟨htype, hmacroCall⟩ := p.not_isType_of_mem hl
  by_contra hne
  obtain h | h := hq l (by simpa using hne)
  · rw [h] at htype
    cases htype
  · exact hmacroCall h

/-- The last tree is the only child of its class. -/
theorem child?_last {q : NodeKind → Bool} (hq : ∀ l, q l = true → l.isType = true ∨ l = .macroCall)
    (hkind : q p.kind = true) : ∃ m, n.child? q = some m ∧ m.tree = p.last ∧ m.kind = p.kind := by
  have hsplit : n.elements = (p.before ++ .leaf p.colon :: p.lead) ++ p.last :: [] := by
    rw [p.elements_eq, List.append_assoc, List.cons_append]
  exact Node.child?_of_elements hsplit p.last_eq hkind fun l hl => p.eq_false_of_mem hq hl

theorem child?_eq_none {q : NodeKind → Bool} (hq : ∀ l, q l = true → l.isType = true ∨ l = .macroCall)
    (hkind : q p.kind = false) : n.child? q = none := by
  refine Node.child?_eq_none fun l hl => ?_
  rw [p.constituents_eq, ← p.constituents_init, List.mem_append, List.mem_singleton] at hl
  obtain hl | hl := hl
  · exact p.eq_false_of_mem hq hl
  · cases hl
    exact hkind

/-- The word `for` is in a field if there are binders. -/
theorem hasToken_for : n.hasToken (.keyword .forKw) = true ↔ p.count ≠ 0 := by
  rw [Node.hasToken_iff rfl, p.constituents_eq]
  constructor
  · intro hmem
    rw [List.mem_append, List.mem_append, List.mem_cons, List.mem_singleton] at hmem
    obtain (hmem | hmem | hmem) | hmem := hmem
    · simpa using p.before_mem _ hmem
    · cases hmem
    · exact (mem_binders hmem).1
    · cases hmem
  · intro hne
    obtain ⟨b, hb⟩ := Nat.exists_eq_succ_of_ne_zero hne
    simp [hb, binders]

theorem behindColon_eq : n.behindColon =
    tokensText (fromSignificant (forestLeaves (p.lead ++ [p.last]))) := by
  have hskip : ∀ t ∈ p.before, t.token?.all (·.kind ≠ .colon) = true := by
    intro t ht
    cases t with
    | leaf u =>
      by_contra hu
      have hkind : u.kind = .colon := by simpa [token?] using hu
      have htrivia : u.isTrivia = false := by rw [Token.isTrivia, hkind]; rfl
      have hmem := p.before_mem _
        (List.mem_filterMap.2 ⟨_, ht, constituent?_eq_token.2 ⟨u, rfl, htrivia, hkind⟩⟩)
      simp at hmem
    | node l s es => rfl
  rw [Node.behindColon, p.elements_eq, List.dropWhile_append_of_pos hskip,
    List.dropWhile_cons_of_neg (by simp [token?, p.colon_eq]), List.tail_cons]

/-- Without binders, the last tree is all that stands behind the colon. -/
theorem behindColon_of_count_eq_zero (hcount : p.count = 0)
    (hhead : ∀ t ∈ p.last.leaves.head?, t.isTrivia = false) : n.behindColon = p.last.text := by
  have hlead := p.lead_eq
  rw [hcount] at hlead
  rw [p.behindColon_eq, forestLeaves_append, fromSignificant,
    List.dropWhile_append_of_pos (isTrivia_of_constituents hlead), forestLeaves, forestLeaves,
    List.append_nil, Tree.text]
  cases hleaves : p.last.leaves with
  | nil => rfl
  | cons t ts => rw [List.dropWhile_cons_of_neg (by simp [hhead t (by rw [hleaves]; rfl)])]

/-- With binders, more than the last tree stands behind the colon. -/
theorem size_lt_size_behindColon (hcount : p.count ≠ 0)
    (htext : ∀ u ∈ n.tokens, u.isTrivia = false → u.text ≠ "") :
    p.last.text.utf8ByteSize < n.behindColon.utf8ByteSize := by
  obtain ⟨b, hb⟩ := Nat.exists_eq_succ_of_ne_zero hcount
  have hlead := p.lead_eq
  rw [hb, Nat.succ_eq_add_one, binders] at hlead
  obtain ⟨trivia, w, rest, heq, htrivia, hw, -⟩ := List.filterMap_eq_cons_iff.1 hlead
  obtain ⟨u, rfl, hu, -⟩ := constituent?_eq_token.1 hw
  have hmem : u ∈ n.tokens := List.mem_filterMap.2 ⟨.leaf u, by rw [p.elements_eq, heq]; simp, rfl⟩
  have hpos : u.text.utf8ByteSize ≠ 0 := fun hzero =>
    htext u hmem hu (String.utf8ByteSize_eq_zero_iff.1 hzero)
  have hall := isTrivia_of_constituents (List.filterMap_eq_nil_iff.2 htrivia)
  rw [p.behindColon_eq, heq, List.append_assoc, forestLeaves_append, fromSignificant,
    List.dropWhile_append_of_pos hall, List.cons_append, forestLeaves, leaves, List.singleton_append,
    List.dropWhile_cons_of_neg (by simp [hu]), tokensText_cons, forestLeaves_append, tokensText_append]
  simp only [String.utf8ByteSize_append, forestLeaves, List.append_nil, Tree.text]
  omega

end FieldParts

namespace Node

variable {text : String} {list n : Node}

/-- A macro call is not empty. -/
theorem text_ne_empty_of_macroCall (h : Faultless text)
    (hn : Below (ofTree (parseFile text).tree) n) (hkind : n.kind = .macroCall)
    (hstop : n.span.stop < text.utf8ByteSize) : n.text ≠ "" := by
  obtain ⟨first, stage, hfits, hinside, -⟩ := fits_of_below h hn (by simp [hkind])
  obtain ⟨k, hk⟩ : ∃ k, .token k ∈ stage.inside := by
    rw [hkind] at hfits
    exact hfits
  rw [hinside] at hk
  obtain ⟨t, ht, htoken⟩ := List.mem_filterMap.1 hk
  obtain ⟨u, rfl, -, -⟩ := constituent?_eq_token.1 htoken
  have hu : u ∈ n.tokens := List.mem_filterMap.2 ⟨_, ht, rfl⟩
  have hne := text_ne_empty_of_mem_tokens hn hstop hu
  have hin := Span.contains_iff.1 ((placedIn_of_below hn).contains_token hu)
  simp only [Token.span, Token.stop] at hin
  obtain ⟨before, behind, -, hstart, hend⟩ := (placedIn_of_below hn).exists_split
  intro hempty
  rw [hempty, String.toList_empty, List.append_nil, hstart] at hend
  have hzero : u.text.utf8ByteSize = 0 := by omega
  exact hne (String.utf8ByteSize_eq_zero_iff.1 hzero)

/-- **The planned type of a field** is what stands behind the colon of the field, unless that is a
macro call or begins with a binder of lifetimes. -/
theorem typeText_eq_iff (h : Faultless text) (hlist : Below (ofTree (parseFile text).tree) list)
    (hlistKind : list.kind = .recordFieldList) (hn : n ∈ list.children) (hkind : n.kind = .recordField) :
    n.typeText = n.behindColon ↔
      n.childOfKind? .macroCall = none ∧ n.hasToken (.keyword .forKw) = false := by
  have hbelow := hlist.child hn
  have hstop := stop_lt_size_of_mem_children h hlist hlistKind hn
  obtain ⟨p⟩ := FieldParts.of_below h hbelow hkind
  have hfor : n.hasToken (.keyword .forKw) = false ↔ p.count = 0 := by
    rw [← Bool.not_eq_true, p.hasToken_for, not_not]
  have htext : ∀ u ∈ n.tokens, u.isTrivia = false → u.text ≠ "" :=
    fun u hu _ => text_ne_empty_of_mem_tokens hbelow hstop hu
  rw [hfor]
  obtain hk | hk := p.isType_or
  · obtain ⟨m, hm, hmtree, hmkind⟩ := p.child?_last (q := NodeKind.isType) (fun l hl => .inl hl) hk
    have hmacroCall : n.childOfKind? .macroCall = none := by
      refine p.child?_eq_none (fun l hl => .inr (beq_iff_eq.1 hl)) (beq_eq_false_iff_ne.2 ?_)
      rintro hmacroCall
      rw [hmacroCall] at hk
      cases hk
    have hplanned : n.typeText = p.last.text := by rw [typeText, type?, hm, ← hmtree]; rfl
    have hhead := isTrivia_head_of_below h (hbelow.child? hm) (by
      rintro hroot
      rw [← hmkind, hroot] at hk
      cases hk)
    rw [hmtree] at hhead
    rw [hplanned]
    constructor
    · intro heq
      refine ⟨hmacroCall, by_contra fun hcount => ?_⟩
      exact (p.size_lt_size_behindColon hcount htext).ne (congrArg String.utf8ByteSize heq)
    · rintro ⟨-, hcount⟩
      exact (p.behindColon_of_count_eq_zero hcount hhead).symm
  · obtain ⟨m, hm, hmtree, hmkind⟩ := p.child?_last (q := (· == .macroCall))
      (fun l hl => .inr (beq_iff_eq.1 hl)) (beq_iff_eq.2 hk)
    have hplanned : n.typeText = "" := by
      rw [typeText, type?, p.child?_eq_none (fun l hl => .inl hl) (by rw [hk]; rfl)]
      rfl
    have hchild : n.childOfKind? .macroCall = some m := hm
    have hmbelow := hbelow.child? hm
    have hmstop : m.span.stop ≤ n.span.stop :=
      (Span.contains_iff.1 ((placedIn_of_below hbelow).child (List.mem_of_find?_eq_some hm)).2).2
    have hne := text_ne_empty_of_macroCall h hmbelow (hmkind.trans hk) (by omega)
    have hhead := isTrivia_head_of_below h hmbelow (by simp [hmkind, hk])
    rw [hmtree] at hhead
    rw [hplanned, hchild]
    refine iff_of_false (fun heq => ?_) (by simp)
    by_cases hcount : p.count = 0
    · rw [p.behindColon_of_count_eq_zero hcount hhead, ← hmtree] at heq
      exact hne heq.symm
    · have hlt := p.size_lt_size_behindColon hcount htext
      rw [← heq] at hlt
      exact Nat.not_lt_zero _ hlt

end Node

/-! ## Plans -/

/-- **What a plan keeps of types.** In a faultless file, the planned type of a field is all that stands
behind the colon of the field, for the fields whose type is no macro call and has no binder of lifetimes
before it, and only for them. -/
theorem typeTexts_planned {w : Workspace} (hw : w.Coherent) {target : Target} {decl : Decl}
    {source : SourceFile} {shape : Shape} {plan : Plan}
    (hdecl : (Decls.ofWorkspace w).decl? target.owner = some decl)
    (hfile : w.file? decl.file = some source) (h : Faultless source.text)
    (hshape : Shape.ofTarget? (.ofWorkspace w) target = some shape)
    (hplan : Plan.ofShape shape = .ok plan) :
    ∃ n list, target.node? (.ofWorkspace w) = some n ∧ n.fieldList? = some list ∧
      List.Forall₂ (fun (f : Node) (p : PlannedField) => p.typeText = f.behindColon ↔
        f.childOfKind? .macroCall = none ∧ f.hasToken (.keyword .forKw) = false)
        list.recordFields plan.fields := by
  obtain ⟨n, list, hn, hbelow, hlist, hkind, hfields⟩ :=
    Plan.exists_of_ofTarget? hw hdecl hfile hshape hplan
  obtain ⟨hlength, hof⟩ := List.forall₂_iff_zip.1 hfields
  refine ⟨n, list, hn, hlist, List.forall₂_iff_zip.2 ⟨hlength, fun {f p} hmem => ?_⟩⟩
  obtain ⟨hchild, hfieldKind⟩ := List.mem_filter.1 (List.of_mem_zip hmem).1
  rw [(hof hmem).typeText_eq]
  exact Node.typeText_eq_iff h (hbelow.child? hlist) hkind hchild (beq_iff_eq.1 hfieldKind)

/-- The workspace with a single file. -/
def Workspace.ofText (text : String) : Workspace := .ofFiles [("a.rs", text)]

/-- The plan for the first declaration of a file. -/
def planOfFirst (text : String) : Option Plan :=
  (Shape.ofTarget? (.ofWorkspace (.ofText text)) (.decl 0)).bind fun shape =>
    (Plan.ofShape shape).toOption

/-- The named fields of the first declaration of a file. -/
def fieldsOfFirst (text : String) : List Node :=
  (((Target.decl 0).node? (.ofWorkspace (.ofText text))).bind (·.fieldList?)).elim [] (·.recordFields)

theorem exists_shape_of_planOfFirst {text : String} {plan : Plan} (h : planOfFirst text = some plan) :
    ∃ shape, Shape.ofTarget? (.ofWorkspace (.ofText text)) (.decl 0) = some shape ∧
      Plan.ofShape shape = .ok plan := by
  obtain ⟨shape, hshape, hplan⟩ := Option.bind_eq_some_iff.1 h
  refine ⟨shape, hshape, ?_⟩
  cases hresult : Plan.ofShape shape with
  | ok result =>
    rw [hresult] at hplan
    exact congrArg Except.ok (Option.some.inj hplan)
  | error e =>
    rw [hresult] at hplan
    cases hplan

set_option maxRecDepth 100000 in
/-- A struct with a field whose type is kept, and one whose type is lost. -/
theorem typeTexts_planned_pair : ∃ (n list : Node) (plan : Plan),
    (Target.decl 0).node? (.ofWorkspace (.ofText "struct S\x7ba:u8,b:m!(u8)\x7d")) = some n ∧
      n.fieldList? = some list ∧ plan.fields.map (·.typeText) = ["u8", ""] ∧
      List.Forall₂ (fun (f : Node) (p : PlannedField) => p.typeText = f.behindColon ↔
        f.childOfKind? .macroCall = none ∧ f.hasToken (.keyword .forKw) = false)
        list.recordFields plan.fields := by
  obtain ⟨plan, hplan, htypes⟩ := Option.map_eq_some_iff.1
    (by decide +kernel : (planOfFirst "struct S\x7ba:u8,b:m!(u8)\x7d").map (·.fields.map (·.typeText)) =
      some ["u8", ""])
  obtain ⟨decl, hdecl, hdeclFile⟩ := Option.map_eq_some_iff.1
    (by decide +kernel :
      ((Decls.ofWorkspace (.ofText "struct S\x7ba:u8,b:m!(u8)\x7d")).decl? 0).map (·.file) = some 0)
  obtain ⟨source, hfile, htext⟩ := Option.map_eq_some_iff.1
    (by decide +kernel : ((Workspace.ofText "struct S\x7ba:u8,b:m!(u8)\x7d").file? 0).map (·.text) =
      some "struct S\x7ba:u8,b:m!(u8)\x7d")
  obtain ⟨shape, hshape, hok⟩ := exists_shape_of_planOfFirst hplan
  have h : Faultless source.text := by
    rw [htext]
    exact ⟨by decide +kernel, by decide +kernel⟩
  obtain ⟨n, list, hn, hlist, hfields⟩ :=
    @typeTexts_planned _ (Workspace.reachable_ofFiles _).coherent (.decl 0) _ _ _ _ hdecl
      (hdeclFile ▸ hfile) h hshape hok
  exact ⟨n, list, plan, hn, hlist, htypes, hfields⟩

set_option maxRecDepth 100000 in
/-- The type of a field that is a macro call is lost, and so is a binder of lifetimes. -/
theorem typeTexts_lost :
    (Faultless "struct S\x7ba:m!(u8)\x7d" ∧
      (planOfFirst "struct S\x7ba:m!(u8)\x7d").map (·.fields.map (·.typeText)) = some [""] ∧
      (fieldsOfFirst "struct S\x7ba:m!(u8)\x7d").map (·.behindColon) = ["m!(u8)"]) ∧
    Faultless "struct S\x7bf:for<'a> fn(&'a u8)\x7d" ∧
      (planOfFirst "struct S\x7bf:for<'a> fn(&'a u8)\x7d").map (·.fields.map (·.typeText)) =
        some ["fn(&'a u8)"] ∧
      (fieldsOfFirst "struct S\x7bf:for<'a> fn(&'a u8)\x7d").map (·.behindColon) =
        ["for<'a> fn(&'a u8)"] :=
  ⟨⟨⟨by decide +kernel, by decide +kernel⟩, by decide +kernel, by decide +kernel⟩,
    ⟨by decide +kernel, by decide +kernel⟩, by decide +kernel, by decide +kernel⟩

end Reshape
