import Reshape.Proofs.Expr.Term

/-!
# Reading the forms of expressions

What the grammar of expressions does to marks, one lemma for each form: infix operators, names,
parentheses, operators before an operand, fields, indices, question marks and arguments.

* `stopPower` is the least power with which an expression ends before marks. `reads_operators_none`
  is the end of the repetition of operators, `reads_operators_of_postfixOp` and
  `reads_operators_of_binaryOp` are its rounds.
* `ReadsAs` says that marks are read as an expression with a given skeleton, and that what is behind
  them is read as if the skeleton had been there. An operand need only be read by itself
  (`ReadsAs.of_leftSide`).
-/

namespace Reshape

open Grammar

variable {p : Nat} {m : Mark} {ms ms' us : List Mark} {xs : List Skeleton} {x y : Skeleton}
  {ended : Bool} {v v' : Prospect}

/-! ## Where expressions end -/

/-- The kinds of tokens that end every expression. -/
def closingKinds : List TokenKind := [.eof, .rParen, .rBracket, .comma]

/-- The kinds of tokens that postfix operators start with. -/
def postfixKinds : List TokenKind := [.lParen, .dot, .lBracket, .question]

/-- The kinds of tokens that stand behind a name or operand in other forms only. -/
def foreignKinds : List TokenKind :=
  [.colonColon, .bang, .lBrace, .keyword .moveKw, .keyword .asKw, .dotDot, .dotDotEq]

/-- The least power with which an expression ends before marks. -/
def stopPower (ms : List Mark) : Nat :=
  if markKind 0 ms ∈ closingKinds then 0
  else if markKind 0 ms ∈ postfixKinds then postfixPower + 1
  else match infixAhead (layout 0 ms) with
    | some op => op.left + 1
    | none => postfixPower + 2

theorem touching_eq_false {first second : TokenKind} (h : markKind 0 ms ≠ first) :
    touching first second ms = false := by
  cases ms with
  | nil => rfl
  | cons m ms => simp_all [touching]

/-- No token of the given kinds starts an infix operator. -/
theorem infixAhead_eq_none (h : markKind 0 ms ∈ closingKinds ++ (postfixKinds ++ foreignKinds)) :
    infixAhead (layout 0 ms) = none := by
  have hne : ∀ k ∈ closingKinds ++ (postfixKinds ++ foreignKinds), k ≠ .lt ∧ k ≠ .gt := by decide
  obtain ⟨hlt, hgt⟩ := hne _ h
  simp only [infixAhead, jointAhead_layout, ne_eq, reduceCtorEq, not_false_eq_true,
    touching_eq_false hlt, touching_eq_false hgt, kindAt_layout]
  generalize markKind 0 ms = k at h
  revert k
  decide

theorem markKind_not_mem_foreignKinds (h : stopPower ms ≤ postfixPower + 1) :
    markKind 0 ms ∉ foreignKinds := by
  intro hmem
  have hother : ∀ k ∈ foreignKinds, k ∉ closingKinds ∧ k ∉ postfixKinds := by decide
  rw [stopPower, if_neg (hother _ hmem).1, if_neg (hother _ hmem).2,
    infixAhead_eq_none (by simp [hmem])] at h
  exact absurd h (Nat.lt_irrefl (postfixPower + 1))

theorem markKind_not_mem_postfixKinds (h : stopPower ms ≤ postfixPower) :
    markKind 0 ms ∉ postfixKinds := by
  intro hmem
  have hother : ∀ k ∈ postfixKinds, k ∉ closingKinds := by decide
  rw [stopPower, if_neg (hother _ hmem), if_pos hmem] at h
  exact absurd h (Nat.lt_irrefl postfixPower)

/-- What starts an infix operator does nothing else behind an operand. -/
theorem markKind_not_mem_of_infixAhead {op : InfixOp}
    (h : infixAhead (layout 0 ms) = some op) :
    markKind 0 ms ∉ closingKinds ∧ markKind 0 ms ∉ postfixKinds ∧
      markKind 0 ms ∉ foreignKinds := by
  rw [← not_or, ← not_or, ← List.mem_append, ← List.mem_append]
  intro hmem
  rw [infixAhead_eq_none hmem] at h
  cases h

theorem stopPower_of_infixAhead {op : InfixOp} (h : infixAhead (layout 0 ms) = some op) :
    stopPower ms = op.left + 1 := by
  obtain ⟨hclosing, hbehind, -⟩ := markKind_not_mem_of_infixAhead h
  rw [stopPower, if_neg hclosing, if_neg hbehind, h]

/-! ## Operators -/

/-- An infix operator is recognised by its tokens, whatever follows it. -/
theorem infixAhead_marks (op : BinOp) (ms : List Mark) :
    infixAhead (layout 0 (op.marks ++ ms)) = some op.power := by
  cases op <;> simp [infixAhead, jointAhead_layout, touching, BinOp.marks, BinOp.power]

/-- Nothing is read where no postfix operator starts. -/
theorem reads_postfixOp_none (h : markKind 0 v.ahead ∉ postfixKinds) :
    Reads postfixOp v false v := by
  rw [postfixOp, reads_peek_bind]
  split
  case h_5 => exact .pure _ _
  all_goals
    next hk => exact absurd hk (fun hk => h (by simp [hk, postfixKinds]))

theorem infixAhead_of_fromSignificant {ts : List Token} {i : Nat}
    (h : fromSignificant ts = layout i ms) : infixAhead ts = infixAhead (layout 0 ms) := by
  rw [← infixAhead_layout i, ← h, infixAhead_congr (fromSignificant_idem ts)]

/-- No other operator is read where none is ahead that binds strongly enough. -/
theorem reads_binaryOp_none (hkind : markKind 0 v.ahead ∉ foreignKinds)
    (h : ∀ op ∈ infixAhead (layout 0 v.ahead), op.left < p) :
    Reads (binaryOp p false) v false v := by
  simp only [foreignKinds, List.mem_cons, not_or] at hkind
  rw [binaryOp, reads_peek_bind, if_neg hkind.2.2.2.2.1, if_neg (by simp [hkind])]
  refine (reads_ahead_bind fun ts i hi => by rw [infixAhead_of_fromSignificant hi]).2 ?_
  split
  · exact .pure _ _
  · next op heq =>
    rw [if_pos (h op heq)]
    exact .pure _ _

/-- An expression ends where no operator binds strongly enough. -/
theorem reads_operators_none (hp : p ≤ postfixPower) (h : stopPower v.ahead ≤ p) :
    Reads (operators p false) v () v := by
  refine .loop_last ?_
  rw [if_pos hp]
  refine .bind (reads_postfixOp_none (markKind_not_mem_postfixKinds (h.trans hp))) ?_
  exact reads_binaryOp_none (markKind_not_mem_foreignKinds (by omega))
    fun op hop => (stopPower_of_infixAhead hop).symm.trans_le h

/-- Behind an operator the others are read. -/
theorem reads_operators_of_postfixOp (hp : p ≤ postfixPower) (h : Reads postfixOp v true v')
    {w : Prospect} (hrest : Reads (operators p false) v' () w) :
    Reads (operators p false) v () w := by
  refine .loop_again ?_ hrest
  rw [if_pos hp]
  exact h.bind (.pure _ _)

theorem reads_operators_of_binaryOp (hp : p ≤ postfixPower)
    (hkind : markKind 0 v.ahead ∉ postfixKinds) (h : Reads (binaryOp p false) v true v') {w : Prospect}
    (hrest : Reads (operators p false) v' () w) : Reads (operators p false) v () w := by
  refine .loop_again ?_ hrest
  rw [if_pos hp]
  exact (reads_postfixOp_none hkind).bind h

/-- An infix operator and its right operand. -/
theorem reads_binaryOp (op : BinOp) (hp : p ≤ op.power.left)
    (h : ∀ ys, Reads (exprBody op.power.right false) ⟨ms, ys, false⟩ true
      ⟨ms', ys ++ [y], true⟩) :
    Reads (binaryOp p false) ⟨op.marks ++ ms, xs ++ [x], true⟩ true
      ⟨ms', xs ++ [.node .binExpr (x :: (op.marks.map Mark.skeleton ++ [y]))], true⟩ := by
  obtain ⟨-, -, hkind⟩ := markKind_not_mem_of_infixAhead (infixAhead_marks op ms)
  simp only [foreignKinds, List.mem_cons, not_or] at hkind
  rw [binaryOp, reads_peek_bind, if_neg hkind.2.2.2.2.1, if_neg (by simp [hkind])]
  refine (reads_ahead_bind fun ts i hi => by rw [infixAhead_of_fromSignificant hi]).2 ?_
  rw [infixAhead_marks op ms]
  dsimp only
  rw [if_neg (by omega)]
  have hoperand (ys : List Skeleton) :
      Reads (call (.expr op.power.right false)) ⟨ms, ys, false⟩ true ⟨ms', ys ++ [y], false⟩ :=
    .call (h ys).forget
  refine .thenReturn (.wrap (k := .binExpr) ?_) true
  obtain ⟨m, hm, htokens⟩ | ⟨m, u, hm, htokens⟩ := op.marks_cases
  · rw [hm, if_neg (by omega)]
    exact .bind .advance ((hoperand _).bind (.pure _ _))
  · rw [hm, if_pos htokens]
    exact .bind .advance (.bind .advance ((hoperand _).bind (.pure _ _)))

/-! ## Names -/

theorem reads_nameRef (n : Ident) :
    Reads nameRef ⟨n.mark :: ms, xs, ended⟩ () ⟨ms, xs ++ [n.skeleton], true⟩ :=
  .nodeOf .nameRef .advance

/-- A name is read as a path of one segment. -/
theorem reads_path (n : Ident) (h : markKind 0 ms ≠ .colonColon) :
    Reads (path .inExpr) ⟨n.mark :: ms, xs, ended⟩ ()
      ⟨ms, xs ++ [.node .path [.node .pathSegment [n.skeleton]]], true⟩ := by
  have hsegment : Reads (pathSegment .inExpr) ⟨n.mark :: ms, [], false⟩ ()
      ⟨ms, [.node .pathSegment [n.skeleton]], true⟩ := by
    refine .nodeOf .pathSegment (reads_peek_bind.2 ?_)
    refine .bind (reads_nameRef n) (reads_peek_bind.2 (reads_peek_bind.2 ?_))
    rw [if_neg (by simp [h])]
    exact (Reads.pure _ _).forget
  refine .nodeOf .path ?_
  refine (reads_eat_bind_of_ne (by simp [Ident.mark])).2 (.bind hsegment (.loop_last ?_))
  refine reads_peek_bind.2 (reads_peek_bind.2 ?_)
  rw [if_neg (by simp [h])]
  exact (Reads.pure _ _).forget

theorem Ident.text_ne_underscore (n : Ident) : n.text ≠ "_" := by
  have hname := n.isName_eq
  unfold isName at hname
  split at hname
  · cases hname
  · simp only [Bool.and_eq_true, bne_iff_ne] at hname
    exact hname.2

theorem asyncBlockAhead_congr {ts us : List Token} (h : fromSignificant us = fromSignificant ts) :
    asyncBlockAhead us = asyncBlockAhead ts := by
  rw [asyncBlockAhead, asyncBlockAhead, contextualAhead_congr h, kindAt_congr h]

/-- A name by itself is an operand. -/
theorem reads_name (n : Ident) (h : markKind 0 ms ∉ foreignKinds) :
    Reads (leftSide false) ⟨n.mark :: ms, xs, ended⟩ true
      ⟨ms, xs ++ [(Term.name n).skeleton], true⟩ := by
  simp only [foreignKinds, List.mem_cons, not_or] at h
  obtain ⟨hcolons, hbang, hbrace, hmove, -⟩ := h
  have hunderscore (i : Nat) : contextualAhead "_" (layout i (n.mark :: ms)) = false := by
    simp [contextualAhead, Ident.mark, n.text_ne_underscore]
  have hasync (i : Nat) : asyncBlockAhead (layout i (n.mark :: ms)) = false := by
    simp [asyncBlockAhead, hbrace, hmove]
  have hmacro (i : Nat) : macroAhead (layout i (n.mark :: ms)) = false :=
    macroAhead_layout rfl hcolons hbang
  have hpath : Reads (pathExpr false) ⟨n.mark :: ms, xs, ended⟩ ()
      ⟨ms, xs ++ [(Term.name n).skeleton], true⟩ := by
    refine .nodeBy (k := .pathExpr) ((reads_test_bind (fun _ _ => macroAhead_congr) hmacro).2 ?_)
    refine .bind (reads_path n hcolons) (reads_peek_bind.2 ?_)
    rw [if_neg (by simp [hbrace])]
    exact (Reads.pure _ _).forget
  refine reads_peek_bind.2 (.call (reads_peek_bind.2 ?_))
  refine (reads_test_bind (fun _ _ h => contextualAhead_congr h "_") hunderscore).2 ?_
  refine (reads_test_bind (fun _ _ h => asyncBlockAhead_congr h) hasync).2 ?_
  exact hpath.thenReturn true

/-! ## Places -/

/-- Marks are read as an expression of a given skeleton in front of others, in places that ask for no
more than the power `front`. Operators behind them are read as if the skeleton had been there. -/
def ReadsAs (us : List Mark) (x : Skeleton) (front : Nat) (ms : List Mark) : Prop :=
  ∀ p xs ended v', p ≤ postfixPower → p ≤ front →
    Reads (operators p false) ⟨ms, xs ++ [x], true⟩ () v' →
    Reads (exprBody p false) ⟨us ++ ms, xs, ended⟩ true v'

namespace ReadsAs

variable {front : Nat}

/-- An operand is read wherever an expression may stand. -/
theorem of_leftSide (h : ∀ xs ended, Reads (leftSide false) ⟨us ++ ms, xs, ended⟩ true
    ⟨ms, xs ++ [x], true⟩) (front : Nat) : ReadsAs us x front ms :=
  fun _ xs ended _ _ _ hops => .bind (h xs ended) (hops.thenReturn true)

/-- An expression is read up to where it ends. -/
theorem whole (h : ReadsAs us x front ms) (hp : p ≤ postfixPower) (hfront : p ≤ front)
    (hstop : stopPower ms ≤ p) (xs : List Skeleton) (ended : Bool) :
    Reads (exprBody p false) ⟨us ++ ms, xs, ended⟩ true ⟨ms, xs ++ [x], true⟩ :=
  h p xs ended _ hp hfront (reads_operators_none hp hstop)

theorem expr (h : ReadsAs us x front ms) (hstop : stopPower ms = 0) (xs : List Skeleton)
    (ended : Bool) : Reads expr ⟨us ++ ms, xs, ended⟩ true ⟨ms, xs ++ [x], true⟩ :=
  .call (h.whole (Nat.zero_le _) (Nat.zero_le _) hstop.le xs ended)

end ReadsAs

/-- The kinds of tokens that terms start with. -/
def openerKinds : List TokenKind := [.ident, .lParen, .minus, .bang, .star, .amp]

/-- Marks start as terms do. -/
def Opens (us : List Mark) : Prop := markKind 0 us ∈ openerKinds

theorem Opens.ne_nil (h : Opens us) : us ≠ [] := by
  rintro rfl
  exact absurd h (by unfold Opens; decide)

theorem Opens.append (h : Opens us) (ms : List Mark) : Opens (us ++ ms) := by
  cases us with
  | nil => exact absurd rfl h.ne_nil
  | cons u us => exact h

theorem Opens.markKind_not_mem (h : Opens us) : markKind 0 us ∉ closingKinds := by
  have hall : ∀ k ∈ openerKinds, k ∉ closingKinds := by decide
  exact hall _ h

/-- An expression in parentheses is an operand. -/
theorem reads_paren {front : Nat} (h : ReadsAs us x front (.rParen :: ms)) (hus : Opens us)
    (xs : List Skeleton) (ended : Bool) :
    Reads (leftSide false) ⟨.lParen :: (us ++ .rParen :: ms), xs, ended⟩ true
      ⟨ms, xs ++ [x], true⟩ := by
  have hkind := (hus.append (.rParen :: ms)).markKind_not_mem
  simp only [closingKinds, List.mem_cons, not_or] at hkind
  have hlt : width (.rParen :: ms) < width (us ++ .rParen :: ms) :=
    width_lt_width_append hus.ne_nil
  have hnode : Reads parenOrTuple ⟨.lParen :: (us ++ .rParen :: ms), xs, ended⟩ ()
      ⟨ms, xs ++ [.ofNode .parenExpr [Mark.lParen.skeleton, x, Mark.rParen.skeleton]], true⟩ := by
    refine .nodeBy (.bind .advance ?_)
    refine .bind (w := ⟨.rParen :: ms, [Mark.lParen.skeleton, x], false⟩) (a := (1, false)) ?_
      (.bind .expect (.pure _ _))
    -- One round reads the expression; there is no comma behind it, so it is the last one.
    refine .last (reads_isAt_bind.2 (reads_isAt_bind.2 ?_))
    rw [if_neg (by simp [hkind])]
    refine reads_remaining_bind.2 (.bind (h.expr rfl _ _) (reads_remaining_bind.2 ?_))
    rw [if_neg hlt.ne]
    refine (reads_eat_bind_of_ne (by simp [Mark.rParen])).2 ?_
    exact (Reads.pure _ _).forget
  refine reads_peek_bind.2 (.call (reads_peek_bind.2 ?_))
  exact hnode.thenReturn true

/-! ## Operators before and behind an operand -/

theorem reads_operand {front : Nat} (h : ReadsAs us x front ms) (hfront : prefixPower ≤ front)
    (hstop : stopPower ms ≤ prefixPower) (xs : List Skeleton) :
    Reads (operand false) ⟨us ++ ms, xs, false⟩ () ⟨ms, xs ++ [x], false⟩ :=
  .bind (.call (h.whole (by decide) hfront hstop xs false)) (Reads.pure _ _).forget

/-- An operator and the operand behind it are an operand. -/
theorem reads_unary (op : UnOp) {front : Nat} (h : ReadsAs us x front ms) (hus : Opens us)
    (hfront : prefixPower ≤ front) (hstop : stopPower ms ≤ prefixPower) (xs : List Skeleton)
    (ended : Bool) :
    Reads (leftSide false) ⟨op.marks ++ (us ++ ms), xs, ended⟩ true
      ⟨ms, xs ++ [.node op.nodeKind (op.marks.map Mark.skeleton ++ [x])], true⟩ := by
  have hoperand := reads_operand h hfront hstop
  cases op
  case neg | not | deref =>
    refine reads_peek_bind.2 (.thenReturn (.nodeOf .prefixExpr ?_) true)
    exact .bind .advance (hoperand _)
  case ref =>
    have hmut : markKind 0 (us ++ ms) ≠ .keyword .mutKw := by
      intro hmut
      have hopens : markKind 0 (us ++ ms) ∈ openerKinds := hus.append ms
      rw [hmut] at hopens
      exact absurd hopens (by decide)
    refine reads_peek_bind.2 (.thenReturn (.nodeOf .refExpr ?_) true)
    exact .bind .advance ((reads_eat_bind_of_ne hmut).2 (hoperand _))
  case refMut =>
    refine reads_peek_bind.2 (.thenReturn (.nodeOf .refExpr ?_) true)
    exact .bind .advance (.bind .eat (hoperand _))

/-- A dot and a name behind an operand, which is not called. -/
theorem reads_field (n : Ident) (hcall : markKind 0 ms ≠ .lParen)
    (hcolons : markKind 0 ms ≠ .colonColon) :
    Reads postfixOp ⟨.dot :: n.mark :: ms, xs ++ [x], true⟩ true
      ⟨ms, xs ++ [.node .fieldExpr [x, Mark.dot.skeleton, n.skeleton]], true⟩ := by
  refine reads_peek_bind.2 (.thenReturn (.wrap (k := .fieldExpr) ?_) true)
  refine .bind .advance (reads_peek_bind.2 ?_)
  refine reads_peek_bind.2 (reads_peek_bind.2 (reads_peek_bind.2 ?_))
  rw [if_neg (by simp [hcall, hcolons])]
  exact .bind (reads_nameRef n) (Reads.pure _ _).forget

theorem reads_question :
    Reads postfixOp ⟨.question :: ms, xs ++ [x], true⟩ true
      ⟨ms, xs ++ [.node .tryExpr [x, Mark.question.skeleton]], true⟩ := by
  refine reads_peek_bind.2 (.thenReturn (.wrap (k := .tryExpr) ?_) true)
  exact .bind .advance (.pure _ _)

/-- An expression in brackets behind an operand. -/
theorem reads_index {front : Nat} (h : ReadsAs us y front (.rBracket :: ms)) :
    Reads postfixOp ⟨.lBracket :: (us ++ .rBracket :: ms), xs ++ [x], true⟩ true
      ⟨ms, xs ++ [.node .indexExpr
        [x, Mark.lBracket.skeleton, y, Mark.rBracket.skeleton]], true⟩ := by
  refine reads_peek_bind.2 (.thenReturn (.wrap (k := .indexExpr) ?_) true)
  exact .bind .advance (.bind (h.expr rfl _ _) (.bind .expect (.pure _ _)))

/-- An argument, and a comma unless the closing parenthesis follows. -/
theorem reads_exprList_cons {front : Nat} (h : ReadsAs us x front ms) (hus : Opens us)
    (hstop : stopPower ms = 0) {w : Prospect}
    (hcomma : Reads (do if ← isAt .rParen then return true else expect .comma)
      ⟨ms, xs ++ [x], true⟩ true w)
    (hrest : Reads (exprList .rParen) w () v') :
    Reads (exprList .rParen) ⟨us ++ ms, xs, ended⟩ () v' := by
  have hkind := (hus.append ms).markKind_not_mem
  simp only [closingKinds, List.mem_cons, not_or] at hkind
  have hlt : width ms < width (us ++ ms) := width_lt_width_append hus.ne_nil
  refine .loop_again (reads_isAt_bind.2 (reads_isAt_bind.2 ?_)) hrest
  rw [if_neg (by simp [hkind])]
  refine reads_remaining_bind.2 (.bind (.bind (h.expr hstop xs ended) (.pure _ _)) ?_)
  refine reads_remaining_bind.2 ?_
  rw [if_neg (by simpa using hlt.ne)]
  exact hcomma

end Reshape
