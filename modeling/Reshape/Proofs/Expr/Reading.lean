import Reshape.Proofs.Expr.Forms

/-!
# Reading terms

The grammar of expressions reads what was written of a term as that term, wherever it may stand.

* `Term.EndsBefore` says that operators which follow a term are not taken by its own, and
  `Term.ReadsBack` that it is read as itself before everything it ends before.
* `ReadsAs.enclosed` puts a term into a place, in parentheses or without; `ReadsAs.postfixed` and
  `Term.ReadsBack.binary` are the terms that have operators behind their first part.
* `Term.readsBack` is the result for all terms, by induction on the term.
-/

namespace Reshape

open Grammar

variable {p front : Nat} {m : Mark} {ms us : List Mark} {xs : List Skeleton} {x y : Skeleton}
  {ended b : Bool} {e l r : Term}

namespace Term

/-! ## The ends of terms -/

/-- The operators of a term end before marks. Before an opening parenthesis a field is a method. -/
def EndsBefore (e : Term) (ms : List Mark) : Prop :=
  stopPower ms ≤ e.tail ∧ (e.isField = true → markKind 0 ms ≠ .lParen)

theorem EndsBefore.of_stopPower (h : stopPower ms ≤ e.tail) (hms : stopPower ms ≤ postfixPower) :
    e.EndsBefore ms := by
  refine ⟨h, fun _ hparen => markKind_not_mem_postfixKinds hms ?_⟩
  rw [hparen]
  decide

/-- Every term ends before what ends all expressions. -/
theorem EndsBefore.of_eq_zero (h : stopPower ms = 0) : e.EndsBefore ms :=
  .of_stopPower (h.trans_le (Nat.zero_le _)) (h.trans_le (Nat.zero_le _))

/-- A term is read as itself before everything it ends before. -/
def ReadsBack (e : Term) : Prop :=
  ∀ ms, e.EndsBefore ms → ReadsAs (e.marks true) e.skeleton e.front ms

/-- What is written of a term starts as terms do. -/
theorem opens (callees : Bool) (e : Term) : Opens (e.marks callees) := by
  cases e with
  | name n =>
    show TokenKind.ident ∈ openerKinds
    decide
  | unary op e =>
    refine Opens.append ?_ _
    cases op <;> (unfold Opens; decide)
  | binary op l r => exact (opens_enclosed (opens callees l) _).append _
  | field e n => exact (opens_enclosed (opens callees e) _).append _
  | call f args => exact (opens_enclosed (opens callees f) _).append _
  | index e i => exact (opens_enclosed (opens callees e) _).append _
  | question e => exact (opens_enclosed (opens callees e) _).append _
where
  /-- Parentheses start as terms do. -/
  opens_enclosed {us : List Mark} (h : Opens us) (b : Bool) : Opens (enclosed b us) := by
    cases b with
    | false => exact h
    | true =>
      show TokenKind.lParen ∈ openerKinds
      decide

/-! ## Powers at the ends -/

/-- What may stand to the left of an infix operator binds at least as strongly at its front. -/
theorem left_le_front {op : BinOp} (h : op.power.left < e.tail) : op.power.left ≤ e.front := by
  cases e with
  | binary op' l r =>
    have hop := op.power_sides
    have hop' := op'.power_sides
    rw [tail] at h
    rw [front]
    omega
  | _ => exact (op.left_lt_prefixPower.trans (show prefixPower < postfixPower + 1 by decide)).le

/-- What binds at its front as strongly as the place behind an operator asks for binds so at its end.
No operator asks for the power 2. -/
theorem le_tail_of_le_front (h : p ≤ e.front) (hp : p ≤ prefixPower) (hne : p ≠ 2) :
    p ≤ e.tail := by
  cases e with
  | binary op l r =>
    have hop := op.power_sides
    rw [front] at h
    rw [tail]
    omega
  | unary op e => exact hp
  | _ => exact hp.trans (show prefixPower ≤ postfixPower + 1 by decide)

/-- What a postfix operator may be applied to has no operators around it. -/
theorem front_eq_of_tail (h : postfixPower < e.tail) : e.front = postfixPower + 1 := by
  cases e with
  | binary op l r =>
    have hright := op.right_lt_prefixPower.trans (show prefixPower < postfixPower by decide)
    exact absurd h hright.not_gt
  | _ => rfl

end Term

/-! ## Arguments -/

/-- The arguments of a call, up to the closing parenthesis. -/
theorem reads_exprList (es : List Term) (h : ∀ e ∈ es, e.ReadsBack) (xs : List Skeleton)
    (ended : Bool) :
    Reads (exprList .rParen) ⟨Term.argMarks true es ++ .rParen :: ms, xs, ended⟩ ()
      ⟨.rParen :: ms, xs ++ Term.argSkeletons es, false⟩ := by
  induction es generalizing xs ended with
  | nil =>
    refine .loop_last (reads_isAt_bind.2 (reads_isAt_bind.2 ?_))
    rw [if_pos (by simp [Term.argMarks, Mark.rParen]), Term.argSkeletons, List.append_nil]
    exact (Reads.pure _ _).forget
  | cons e es ih =>
    have hrest := ih fun e' he' => h e' (List.mem_cons_of_mem e he')
    have he := h e List.mem_cons_self
    cases es with
    | nil =>
      rw [Term.argMarks_singleton, Term.argSkeletons_singleton]
      rw [Term.argSkeletons] at hrest
      refine reads_exprList_cons (he _ (.of_eq_zero rfl)) (e.opens true) rfl
        (reads_isAt_bind.2 (.pure _ _)) ?_
      simpa [Term.argMarks] using hrest (xs ++ [e.skeleton]) true
    | cons e' es =>
      rw [Term.argMarks_cons_cons, Term.argSkeletons_cons_cons, List.append_assoc]
      refine reads_exprList_cons (he _ (.of_eq_zero rfl)) (e.opens true) rfl
        (reads_isAt_bind.2 .expect) ?_
      simpa using hrest (xs ++ [e.skeleton] ++ [Mark.comma.skeleton]) false

/-- The arguments of a call behind an operand. -/
theorem reads_call (es : List Term) (h : ∀ e ∈ es, e.ReadsBack) :
    Reads postfixOp ⟨.lParen :: (Term.argMarks true es ++ .rParen :: ms), xs ++ [x], true⟩ true
      ⟨ms, xs ++ [.node .callExpr [x, .node .argList
        (Mark.lParen.skeleton :: (Term.argSkeletons es ++ [Mark.rParen.skeleton]))]], true⟩ := by
  have hargs : Reads argList ⟨.lParen :: (Term.argMarks true es ++ .rParen :: ms), [x], false⟩ ()
      ⟨ms, [x, .node .argList
        (Mark.lParen.skeleton :: (Term.argSkeletons es ++ [Mark.rParen.skeleton]))], true⟩ := by
    refine .nodeOf .argList (.bind .advance ?_)
    exact .bind (reads_exprList es h _ _) (.bind .expect (.pure _ _))
  refine reads_peek_bind.2 (.thenReturn (.wrap (k := .callExpr) ?_) true)
  exact hargs.bind (Reads.pure _ _).forget

/-! ## Places -/

/-- A term in its place, in parentheses or without. -/
theorem ReadsAs.enclosed (he : e.ReadsBack) (h : b = false → e.EndsBefore ms ∧ front ≤ e.front) :
    ReadsAs (enclosed b (e.marks true)) e.skeleton front ms := by
  cases b with
  | false =>
    intro p xs ended v' hp hfront
    exact he ms (h rfl).1 p xs ended v' hp (hfront.trans (h rfl).2)
  | true =>
    refine .of_leftSide (fun xs ended => ?_) front
    simpa [Reshape.enclosed] using reads_paren (he _ (.of_eq_zero rfl)) (e.opens true) xs ended

/-- A term with a postfix operator behind it. -/
theorem ReadsAs.postfixed (he : e.ReadsBack) (hm : m.kind ∈ postfixKinds)
    (hb : b = false → postfixPower < e.tail ∧ (e.isField = true → m.kind ≠ .lParen))
    (hop : ∀ xs, Reads postfixOp ⟨m :: us ++ ms, xs ++ [e.skeleton], true⟩ true
      ⟨ms, xs ++ [y], true⟩) :
    ReadsAs (Reshape.enclosed b (e.marks true) ++ m :: us) y (postfixPower + 1) ms := by
  intro p xs ended v' hp _ hops
  have hstop : stopPower (m :: us ++ ms) = postfixPower + 1 := by
    have hother : ∀ k ∈ postfixKinds, k ∉ closingKinds := by decide
    rw [stopPower, List.cons_append, markKind_cons_zero, if_neg (hother _ hm), if_pos hm]
  have hplace : ReadsAs (Reshape.enclosed b (e.marks true)) e.skeleton p (m :: us ++ ms) := by
    refine .enclosed he fun hfalse => ?_
    obtain ⟨htail, hfield⟩ := hb hfalse
    refine ⟨⟨hstop.trans_le htail, hfield⟩, ?_⟩
    rw [Term.front_eq_of_tail htail]
    omega
  rw [List.append_assoc]
  exact hplace p xs ended v' hp le_rfl (reads_operators_of_postfixOp hp (hop xs) hops)

/-- An infix operator between terms. -/
theorem Term.ReadsBack.binary (op : BinOp) (hl : l.ReadsBack) (hr : r.ReadsBack) :
    (Term.binary op l r).ReadsBack := by
  intro ms h
  have hstop : stopPower ms ≤ op.power.right := h.1
  have hright := op.right_lt_prefixPower
  have hle : prefixPower ≤ postfixPower := by decide
  have hplace : ReadsAs (Reshape.enclosed (r.parensRight op) (r.marks true)) r.skeleton
      op.power.right ms := by
    refine .enclosed hr fun hfalse => ?_
    have hfront := Term.parensRight_eq_false.1 hfalse
    have hne : op.power.right ≠ 2 := by
      have hsides := op.power_sides
      omega
    have htail := Term.le_tail_of_le_front hfront hright.le hne
    exact ⟨.of_stopPower (hstop.trans htail) (by omega), hfront⟩
  intro p xs ended v' hp hfront hops
  have hahead := infixAhead_marks op (Reshape.enclosed (r.parensRight op) (r.marks true) ++ ms)
  obtain ⟨-, hkind, -⟩ := markKind_not_mem_of_infixAhead hahead
  rw [Term.marks, List.append_assoc, List.append_assoc]
  -- The left operand is read for the same place; the operator is one round behind it.
  refine ReadsAs.enclosed hl (fun hfalse => ?_) p xs ended v' hp le_rfl
    (reads_operators_of_binaryOp hp hkind (reads_binaryOp op hfront fun ys => ?_) hops)
  · have htail := Term.parensLeft_eq_false.1 hfalse
    refine ⟨⟨(stopPower_of_infixAhead hahead).trans_le htail, fun _ hparen => hkind ?_⟩,
      hfront.trans (Term.left_le_front htail)⟩
    rw [hparen]
    decide
  · exact hplace.whole (by omega) le_rfl hstop ys false

/-! ## Terms -/

namespace Term

mutual

/-- **What is written of a term is read as that term**, wherever its own operators end. -/
theorem readsBack : (e : Term) → e.ReadsBack
  | name n => fun _ h =>
    .of_leftSide (fun _ _ => reads_name n (markKind_not_mem_foreignKinds h.1)) _
  | unary op e => fun ms h => by
    have hstop : stopPower ms ≤ prefixPower := h.1
    have hplace : ReadsAs (enclosed e.parensOperand (e.marks true)) e.skeleton prefixPower ms := by
      refine .enclosed (readsBack e) fun hfalse => ?_
      have hfront := parensOperand_eq_false.1 hfalse
      have htail := le_tail_of_le_front hfront le_rfl (by decide)
      exact ⟨.of_stopPower (hstop.trans htail) (hstop.trans (by decide)), hfront⟩
    refine .of_leftSide (fun xs ended => ?_) _
    rw [marks, List.append_assoc]
    exact reads_unary op hplace (opens.opens_enclosed (e.opens true) _) le_rfl hstop xs ended
  | binary op l r => .binary op (readsBack l) (readsBack r)
  | field e n => fun ms h => by
    have hkind := markKind_not_mem_foreignKinds h.1
    simp only [foreignKinds, List.mem_cons, not_or] at hkind
    refine .postfixed (readsBack e) (by decide) (fun hfalse => ?_) fun xs => ?_
    · exact ⟨parensBase_eq_false.1 hfalse, fun _ => by decide⟩
    · exact reads_field n (h.2 rfl) hkind.1
  | call f args => fun ms h => by
    refine .postfixed (readsBack f) (by decide) (fun hfalse => ?_) fun xs => ?_
    · obtain ⟨hbase, hfield⟩ : f.parensBase = false ∧ f.isField = false := by
        simpa using hfalse
      exact ⟨parensBase_eq_false.1 hbase, fun hf => by rw [hf] at hfield; cases hfield⟩
    · simpa [skeleton] using reads_call args (argsReadBack args)
  | index e i => fun ms h => by
    refine .postfixed (readsBack e) (by decide) (fun hfalse => ?_) fun xs => ?_
    · exact ⟨parensBase_eq_false.1 hfalse, fun _ => by decide⟩
    · simpa [skeleton] using reads_index (readsBack i _ (.of_eq_zero rfl))
  | question e => fun ms h => by
    refine .postfixed (readsBack e) (by decide) (fun hfalse => ?_) fun xs => ?_
    · exact ⟨parensBase_eq_false.1 hfalse, fun _ => by decide⟩
    · exact reads_question

theorem argsReadBack : (es : List Term) → ∀ e ∈ es, e.ReadsBack
  | [] => by simp
  | e :: es => List.forall_mem_cons.2 ⟨readsBack e, argsReadBack es⟩

end

end Term

end Reshape
