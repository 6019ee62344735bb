import Mathlib.Data.List.Flatten
import Mathlib.Data.List.Perm.Subperm
import Reshape.Proofs.Syntax.Addresses
import Reshape.Resolve.Expr

/-!
# What the `let`s of a condition bind

The condition of an `if` or `while` is a chain of conjuncts, some of which may be `let`s.

* `Node.Conjuncts` takes a condition apart, `Node.guarded?` is the block that it guards.
* `View.conjunctBinding?` is the scoping rule for that block: the last `let` among the conjuncts
  whose pattern binds the name.
* `View.findBinding?_append` cuts the search for a name at a form around it.
* `View.typeOfLocal?_of_condition` is the result: the block sees what the rule says, and neither the
  condition nor the other branch sees anything.
-/

namespace Reshape

/-! ## Conditions -/

namespace Node

variable {form c b e n : Node} {cs : List Node}

/-- Whether an expression is a conjunction. -/
def isConjunction (n : Node) : Bool := n.kind == .binExpr && n.operatorText == "&&"

/-- An expression is the chain of some conjuncts, none of which is a conjunction itself. -/
inductive Conjuncts : Node → List Node → Prop
  | one {c : Node} : c.isConjunction = false → Conjuncts c [c]
  | and {c l r : Node} {ls rs : List Node} : c.isConjunction = true → c.expr? = some l →
      c.secondExpr? = some r → Conjuncts l ls → Conjuncts r rs → Conjuncts c (ls ++ rs)

/-- The block that a condition guards: the first branch of an `if`, the body of a `while`. -/
def guarded? (form : Node) : Option Node :=
  match form.kind with
  | .ifExpr => form.thenBranch?
  | .whileExpr => form.lastBlock?
  | _ => none

theorem mem_children_of_child? {p : NodeKind → Bool} (h : form.child? p = some n) :
    n ∈ form.children :=
  List.mem_of_find?_eq_some h

theorem mem_children_of_exprs (h : n ∈ form.exprs) : n ∈ form.children := (List.mem_filter.1 h).1

theorem mem_children_of_guarded? (h : form.guarded? = some b) : b ∈ form.children := by
  unfold guarded? at h
  split at h
  · unfold thenBranch? at h
    split at h
    · next hb =>
      obtain ⟨-, h⟩ := Option.ite_none_right_eq_some.1 h
      exact mem_children_of_exprs (List.mem_of_getElem? (h ▸ hb))
    · cases h
  · exact (List.mem_filter.1 (List.mem_of_getLast? h)).1
  · cases h

theorem mem_children_of_elseBranch? (h : form.elseBranch? = some e) : e ∈ form.children := by
  unfold elseBranch? at h
  split at h
  · exact mem_children_of_exprs (List.mem_of_find?_eq_some h)
  · cases h

/-- The first two expressions among the children come one after the other. -/
theorem sublist_children {l r : Node} (hl : c.expr? = some l) (hr : c.secondExpr? = some r) :
    [l, r].Sublist c.children := by
  have hexprs : [l, r].Sublist c.exprs := by
    rw [expr?, child?, ← List.head?_filter] at hl
    change c.exprs.head? = some l at hl
    change c.exprs[1]? = some r at hr
    match hes : c.exprs with
    | [] => simp [hes] at hl
    | [_] => simp [hes] at hr
    | l' :: r' :: es =>
      rw [hes] at hl hr
      obtain rfl := Option.some.inj hl
      obtain rfl := Option.some.inj hr
      simp
  exact hexprs.trans List.filter_sublist

/-- The conjuncts are met in their order on the way down. -/
theorem Conjuncts.sublist (h : c.Conjuncts cs) : cs.Sublist c.descendants := by
  induction h with
  | one _ => exact List.singleton_sublist.2 List.mem_cons_self
  | @and c l r ls rs _ hl hr _ _ ihl ihr =>
    have hboth : (ls ++ rs).Sublist ([l, r].flatMap descendants) := by
      simpa using ihl.append ihr
    rw [descendants_eq]
    exact (hboth.trans ((sublist_children hl hr).flatMap _)).cons c

theorem Conjuncts.below_of_mem (h : c.Conjuncts cs) (hn : n ∈ cs) : Below c n :=
  below_of_mem_descendants (h.sublist.subset hn)

end Node

/-! ## Searching through the forms around a node -/

namespace View

variable {v : View} {infer : Node → Option Ty} {name : String}

/-- What an expression binds a name to if it is a `let` whose pattern binds it: the type that the
pattern gives to the name when it matches the value of the `let`. -/
def letBinding? (v : View) (infer : Node → Option Ty) (name : String) (l : Node) :
    Option (Option Ty) :=
  if l.kind = .letExpr then
    l.pattern?.bind fun p =>
      if p.binds name then some (v.patternType? p name (l.expr?.bind infer)) else none
  else none

/-- What the last `let` among conjuncts whose pattern binds a name binds it to. -/
def conjunctBinding? (v : View) (infer : Node → Option Ty) (conjuncts : List Node) (name : String) :
    Option (Option Ty) :=
  conjuncts.reverse.findSome? (v.letBinding? infer name)

theorem findBinding?_cons (child form : Node) (outer : List Node) (h : form.kind ≠ .fnDef) :
    v.findBinding? infer name child (form :: outer) =
      (v.bindingIn? infer form child name).or (v.findBinding? infer name form outer) := by
  rw [findBinding?]
  cases v.bindingIn? infer form child name with
  | none => simp [h]
  | some t => rfl

/-- Forms further out are asked if those further in bind nothing. -/
theorem findBinding?_append {within : List Node} (outer : List Node)
    (h : ∀ form ∈ within, form.kind ≠ .fnDef) (n : Node) :
    v.findBinding? infer name n (within ++ outer) = (v.findBinding? infer name n within).or
      (v.findBinding? infer name ((n :: within).getLast (by simp)) outer) := by
  induction within generalizing n with
  | nil => simp [findBinding?]
  | cons form within ih =>
    have hform := h form List.mem_cons_self
    rw [List.cons_append, findBinding?_cons _ _ _ hform, findBinding?_cons _ _ _ hform,
      ih (fun form' hform' => h form' (List.mem_cons_of_mem _ hform')) form, Option.or_assoc]
    rfl

/-- The search ends at a function. -/
theorem findBinding?_append_of_fnDef {within : List Node} (outer : List Node)
    (h : ∃ form ∈ within, form.kind = .fnDef) (n : Node) :
    v.findBinding? infer name n (within ++ outer) = v.findBinding? infer name n within := by
  induction within generalizing n with
  | nil =>
    obtain ⟨form, hform, -⟩ := h
    cases hform
  | cons form within ih =>
    by_cases hform : form.kind = .fnDef
    · rw [List.cons_append, findBinding?, findBinding?]
      simp only [hform, if_true]
    · rw [List.cons_append, findBinding?_cons _ _ _ hform, findBinding?_cons _ _ _ hform, ih ?_ form]
      obtain ⟨form', hform', hkind⟩ := h
      obtain rfl | hform' := List.mem_cons.1 hform'
      · exact absurd hkind hform
      · exact ⟨form', hform', hkind⟩

theorem localType?_eq (v : View) (infer : Node → Option Ty) (name : String) (n : Node) :
    v.localType? infer name n =
      (v.findBinding? infer name n n.ancestors.tail).getD (v.constantType? name) := by
  rw [localType?]
  cases v.findBinding? infer name n n.ancestors.tail <;> rfl

/-! ## Conditions and what they guard -/

variable {form c b : Node} {cs : List Node}

/-- In the block that it guards, a condition binds what its `let`s bind. -/
theorem bindingIn?_guarded (hbody : form.guarded? = some b) (hcond : form.condition? = some c) :
    v.bindingIn? infer form b name = v.conditionBinding? infer c name := by
  have hsame : b.same b = true := beq_self_eq_true _
  unfold Node.guarded? at hbody
  unfold bindingIn?
  split at hbody
  · next hkind => simp [hkind, hbody, hcond, hsame]
  · next hkind => simp [hkind, hbody, hcond, hsame]
  · cases hbody

/-- In all other children of the form, it binds nothing. -/
theorem bindingIn?_unguarded (hbody : form.guarded? = some b) {child : Node}
    (hchild : child ∈ form.children) (hne : child ≠ b) : v.bindingIn? infer form child name = none := by
  have hsame : b.same child = false := by
    rw [← Bool.not_eq_true, Node.same_iff_of_mem_children (Node.mem_children_of_guarded? hbody) hchild]
    exact hne.symm
  unfold Node.guarded? at hbody
  unfold bindingIn?
  split at hbody
  · next hkind => simp [hkind, hbody, hsame]
  · next hkind => simp [hkind, hbody, hsame]
  · cases hbody

theorem ne_fnDef_of_guarded? (hbody : form.guarded? = some b) : form.kind ≠ .fnDef := by
  intro hkind
  simp [Node.guarded?, hkind] at hbody

/-- What is passed over anyway can be left out of a search. -/
theorem findSome?_filter_of {α β : Type} {f : α → Option β} {q : α → Bool}
    (h : ∀ x, q x = false → f x = none) (xs : List α) :
    (xs.filter q).findSome? f = xs.findSome? f := by
  induction xs with
  | nil => rfl
  | cons x xs ih =>
    by_cases hx : q x = true
    · rw [List.filter_cons_of_pos hx, List.findSome?_cons, List.findSome?_cons, ih]
    · rw [List.filter_cons_of_neg hx, List.findSome?_cons, h x (by simpa using hx), ih]

/-- A sublist of a list without repetitions that has all elements of a kind has them in the same
order. -/
theorem filter_eq_of_sublist {α : Type} {q : α → Bool} {xs ys : List α} (hsub : xs.Sublist ys)
    (hys : ys.Nodup) (h : ∀ y ∈ ys, q y = true → y ∈ xs) : xs.filter q = ys.filter q := by
  have hsubset : ys.filter q ⊆ xs.filter q := fun y hy => by
    obtain ⟨hmem, hq⟩ := List.mem_filter.1 hy
    exact List.mem_filter.2 ⟨h y hmem hq, hq⟩
  exact (hsub.filter q).eq_of_length_le (List.subperm_of_subset (hys.filter q) hsubset).length_le

/-- If no other `let` in a condition binds the name, its conjuncts say what it binds. -/
theorem conditionBinding?_eq (hcs : c.Conjuncts cs)
    (hnested : ∀ l ∈ c.descendants, l.kind = .letExpr → l.pattern?.any (·.binds name) = true →
      l ∈ cs) :
    v.conditionBinding? infer c name = v.conjunctBinding? infer cs name := by
  let q : Node → Bool := fun l => l.kind == .letExpr && l.pattern?.any (·.binds name)
  have hskip : ∀ l, q l = false → v.letBinding? infer name l = none := by
    intro l hl
    cases hp : l.pattern? with
    | none => simp [letBinding?, hp]
    | some p =>
      by_cases hkind : l.kind = .letExpr
      · have hbinds : p.binds name = false := by simpa [q, hkind, hp] using hl
        simp [letBinding?, hp, hbinds]
      · simp [letBinding?, hkind]
  have hlets : ∀ ls : List Node, (∀ l ∈ ls, l.kind = .letExpr) →
      (ls.findSome? fun l => l.pattern?.bind fun p => v.bind? p name fun _ => l.expr?.bind infer) =
        ls.findSome? (v.letBinding? infer name) := by
    intro ls hls
    induction ls with
    | nil => rfl
    | cons l ls ih =>
      have hhead : v.letBinding? infer name l =
          l.pattern?.bind fun p => v.bind? p name fun _ => l.expr?.bind infer :=
        if_pos (hls l List.mem_cons_self)
      rw [List.findSome?_cons, List.findSome?_cons, hhead,
        ih fun l' hl' => hls l' (List.mem_cons_of_mem l hl')]
  have hfilter : cs.filter q = c.descendants.filter q :=
    filter_eq_of_sublist hcs.sublist (Node.nodup_descendants c) fun l hl hq => by
      simp only [q, Bool.and_eq_true, beq_iff_eq] at hq
      exact hnested l hl hq.1 hq.2
  calc v.conditionBinding? infer c name
      = (c.descendants.filter (·.kind == .letExpr)).reverse.findSome? (v.letBinding? infer name) :=
        hlets _ fun l hl => by simpa using (List.mem_filter.1 (List.mem_reverse.1 hl)).2
    _ = c.descendants.reverse.findSome? (v.letBinding? infer name) := by
        rw [← List.filter_reverse]
        exact findSome?_filter_of (fun l hl => if_neg (by simpa using hl)) _
    _ = (c.descendants.filter q).reverse.findSome? (v.letBinding? infer name) := by
        rw [← List.filter_reverse, findSome?_filter_of hskip]
    _ = v.conjunctBinding? infer cs name := by
        rw [← hfilter, ← List.filter_reverse, findSome?_filter_of hskip, conjunctBinding?]

/-- A use of a name in a child of a form is looked for between the two, and then in the form. -/
theorem localType?_of_below (v : View) (infer : Node → Option Ty) (name : String)
    {child n : Node} (hchild : child ∈ form.children)
    (hform : form.kind ≠ .fnDef) (hn : Node.Below child n)
    (hfn : ∀ a ∈ form.between n, a.kind ≠ .fnDef) :
    v.localType? infer name n = (v.findBinding? infer name n (form.between n)).getD
      ((v.bindingIn? infer form child name).getD (v.localType? infer name form)) := by
  obtain ⟨htail, hlast⟩ := hn.ancestors_tail hchild
  rw [localType?_eq, htail, findBinding?_append _ hfn, hlast, Node.ancestors,
    findBinding?_cons _ _ _ hform, Option.getD_or, Option.getD_or, localType?_eq]
  rfl

/-- **What the `let`s of a condition bind.** A name in the block that a condition guards has the type
that the forms between the two give to it; if they do not bind it, the type that the last `let` among the
conjuncts binds it to, as long as no other `let` in the condition binds it; and if none does, its type at
the form. A name in a conjunct, or in the branch behind `else`, has the type that the forms between give to
it, or else its type at the form. Inside a function that stands in the form, forms around that function
do not count. -/
theorem typeOfLocal?_of_condition (v : View) {form c b : Node} {cs : List Node}
    (hbody : form.guarded? = some b) (hcond : form.condition? = some c) (hne : c ≠ b)
    (hcs : c.Conjuncts cs) (name : String) (n : Node) :
    (b.Below n → (∀ a ∈ form.between n, a.kind ≠ .fnDef) →
      (∀ l ∈ c.descendants, l.kind = .letExpr → l.pattern?.any (·.binds name) = true → l ∈ cs) →
      v.typeOfLocal? name n = (v.findBinding? v.typeOf? name n (form.between n)).getD
        ((v.conjunctBinding? v.typeOf? cs name).getD (v.typeOfLocal? name form))) ∧
    (((∃ cj ∈ cs, cj.Below n) ∨ ∃ e, form.elseBranch? = some e ∧ e ≠ b ∧ e.Below n) →
      (∀ a ∈ form.between n, a.kind ≠ .fnDef) →
      v.typeOfLocal? name n = (v.findBinding? v.typeOf? name n (form.between n)).getD
        (v.typeOfLocal? name form)) ∧
    ((∃ child ∈ form.children, child.Below n) → (∃ a ∈ form.between n, a.kind = .fnDef) →
      v.typeOfLocal? name n = (v.findBinding? v.typeOf? name n (form.between n)).getD
        (v.constantType? name)) := by
  have hform := ne_fnDef_of_guarded? hbody
  refine ⟨fun hn hfn hnested => ?_, fun hn hfn => ?_, fun ⟨child, hchild, hn⟩ hfn => ?_⟩
  · have huse := localType?_of_below v v.typeOf? name
      (Node.mem_children_of_guarded? hbody) hform hn hfn
    rwa [bindingIn?_guarded hbody hcond, conditionBinding?_eq hcs hnested] at huse
  · -- The conjuncts are in the condition, so that in both cases it is another child than the block.
    obtain ⟨child, hchild, hcb, hn⟩ : ∃ child ∈ form.children, child ≠ b ∧ child.Below n := by
      obtain ⟨cj, hcj, hn⟩ | ⟨e, he, heb, hn⟩ := hn
      · exact ⟨c, Node.mem_children_of_child? hcond, hne, (hcs.below_of_mem hcj).trans hn⟩
      · exact ⟨e, Node.mem_children_of_elseBranch? he, heb, hn⟩
    have huse := localType?_of_below v v.typeOf? name hchild hform hn hfn
    rwa [bindingIn?_unguarded hbody hchild hcb, Option.getD_none] at huse
  · have huse := localType?_eq v v.typeOf? name n
    rwa [(hn.ancestors_tail hchild).1, findBinding?_append_of_fnDef _ hfn] at huse

/-- Of two `let`s of one name, the block sees the second one. -/
theorem typeOfLocal?_of_condition_last :
    let v : View := ⟨.ofWorkspace (.ofFiles [("a.rs",
      "struct A{f:u8}struct B{f:u8}fn g(a:A,b:B){if let x=a && let x=b {x.f;}}")]), 0⟩
    ∃ form b l r n : Node, form.guarded? = some b ∧ b.Below n ∧
      v.typeOfLocal? "x" n =
        (v.conjunctBinding? v.typeOf? [l, r] "x").getD (v.typeOfLocal? "x" form) ∧
      (v.typeOfLocal? "x" n).any (· == .nominal 1 [] []) = true := by
  intro v
  have hfound : ((v.decls.root? 0).any fun root => root.descendants.any fun form =>
      form.guarded?.any fun b => form.condition?.any fun c => c.expr?.any fun l =>
        c.secondExpr?.any fun r => c.isConjunction && (l.kind == .letExpr && r.kind == .letExpr) &&
          (b.kind == .blockExpr && c.kind == .binExpr) &&
          (c.descendants.filter (·.kind == .letExpr)).length == 2 &&
          b.descendants.any fun n => (form.between n).all (·.kind != .fnDef) &&
            (v.findBinding? v.typeOf? "x" n (form.between n)).isNone &&
            (v.typeOfLocal? "x" n).any (· == .nominal 1 [] [])) = true := by
    decide +kernel
  simp only [Option.any_eq_true, List.any_eq_true, List.all_eq_true, Bool.and_eq_true, beq_iff_eq,
    bne_iff_ne, Option.isNone_iff_eq_none] at hfound
  obtain ⟨root, -, form, -, b, hbody, c, hcond, l, hl, r, hr, ⟨⟨⟨hand, hlkind, hrkind⟩, hbkind, hckind⟩,
    hlength⟩, n, hn, ⟨hfn, hfree⟩, t, htype, ht⟩ := hfound
  have hne : c ≠ b := by
    rintro rfl
    rw [hckind] at hbkind
    cases hbkind
  have hcs : c.Conjuncts [l, r] :=
    .and hand hl hr (.one (by simp [Node.isConjunction, hlkind]))
      (.one (by simp [Node.isConjunction, hrkind]))
  have hlets : [l, r] = c.descendants.filter (·.kind == .letExpr) := by
    have hsub := hcs.sublist.filter (·.kind == .letExpr)
    rw [show [l, r].filter (·.kind == .letExpr) = [l, r] by simp [hlkind, hrkind]] at hsub
    exact hsub.eq_of_length_le (Nat.le_of_eq hlength)
  have hbelow := Node.below_of_mem_descendants hn
  have huse := (typeOfLocal?_of_condition v hbody hcond hne hcs "x" n).1 hbelow hfn
    fun m hm hkind _ => hlets ▸ List.mem_filter.2 ⟨hm, by simp [hkind]⟩
  rw [hfree, Option.getD_none] at huse
  exact ⟨form, b, l, r, n, hbody, hbelow, huse, (Option.any_eq_true _ _).2 ⟨t, htype, ht⟩⟩

/-- A name in a later conjunct does not see an earlier `let`: it has the type of the parameter. -/
theorem typeOfLocal?_in_later_conjunct :
    let v : View := ⟨.ofWorkspace (.ofFiles [("a.rs",
      "struct A{f:u8}struct B{f:u8}fn g(a:A,x:B){if let x=a && x.f==1{}}")]), 0⟩
    ((v.decls.root? 0).any fun root => root.descendants.any fun form =>
      form.condition?.any fun c => c.isConjunction && c.expr?.any fun l =>
        ((v.letBinding? v.typeOf? "x" l).join.any (· == .nominal 0 [] [])) &&
          c.secondExpr?.any fun r => r.descendants.any fun n => n.kind == .pathExpr &&
            n.text == "x" && (v.typeOfLocal? "x" n).any (· == .nominal 1 [] [])) = true := by
  decide +kernel

end View

end Reshape
