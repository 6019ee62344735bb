import Reshape.Proofs.Grammar.Standing
import Reshape.Proofs.Parse.Lossless

/-!
# Where the forms leave a node

One lemma for each grammar says what `Grammar.wp` comes to for it: in which standings it may start,
given what is to hold behind it. A form that reads a node leaves the node around it `closed`, a form
that may read none leaves it as it was or `blamed`. Where a form has several outcomes one of which
knows least, the lemma asks for that one. `Rule.wp_grammar` is what comes of it for the named forms.
-/

namespace Reshape

open Standing

namespace Grammar

variable {α β σ : Type} {m n : Standing} {P P' : α → UpperSet Standing} {Q : Unit → UpperSet Standing}
  {R : Bool → UpperSet Standing}

/-! ## Terms -/

attribute [simp] Standing.le_def Bool.le_true UpperSet.mem_Ici_iff

attribute [local simp] mem_wp_call Rule.after

@[simp] theorem mem_closable {k : NodeKind} : m ∈ closable k ↔ m.settled = true ∧
    (k = .blockExpr ∨ m.spotless = true) ∧ (k = .errorNode → m.reported = true) :=
  ⟨id, id⟩

/-- Both kinds of tokens may be ahead, one that is asked for and another. -/
@[simp] theorem forall_kindAt {A B : Prop} {k : TokenKind} (hw : k ≠ .whitespace)
    (hc : k ≠ .comment) :
    (∀ ts, if kindAt 0 ts = k then A else B) ↔ A ∧ B := by
  refine ⟨fun h => ⟨?_, ?_⟩, fun h ts => ?_⟩
  · have hk : k.isTrivia ≠ true := by cases k <;> simp_all [TokenKind.isTrivia]
    have hat : kindAt 0 [⟨k, 0, ""⟩] = k := by simp [kindAt, tokenAt?, Token.isTrivia, hk]
    exact (if_pos hat).mp (h [⟨k, 0, ""⟩])
  · by_cases heof : k = .eof
    · subst heof
      exact h [⟨.error, 0, ""⟩]
    · exact (if_neg (Ne.symm heof)).mp (h [])
  · split
    · exact h.1
    · exact h.2

/-- More may hold behind a grammar than is asked for. -/
theorem wp_mono {g : Grammar α} (hP : ∀ a n, n ∈ P a → n ∈ P' a) (h : m ∈ g.wp P) :
    m ∈ g.wp P' := by
  induction g generalizing m with
  | pure a => exact hP a m h
  | bind g f ihg ihf => exact ihg (fun a n hn => ihf a hP hn) h
  | ahead => exact mem_wp_ahead.2 fun ts => hP ts m (mem_wp_ahead.1 h ts)
  | advance => exact hP () _ h
  | report fault => exact hP () _ h
  | reportFrom fault origin note => exact hP () _ h
  | node body ih =>
    rw [mem_wp_node] at h ⊢
    exact ⟨h.1, fun a => hP a _ (h.2 a)⟩
  | wrap body ih =>
    rw [mem_wp_wrap] at h ⊢
    exact ⟨h.1, h.2.1, hP () _ h.2.2⟩
  | iterate init body ih =>
    obtain ⟨i, hi, hround, h⟩ := h
    exact ⟨i, hi, hround, fun x => hP x i (h x)⟩
  | call r => exact mem_wp_call.2 fun found => hP found _ (mem_wp_call.1 h found)

@[simp] theorem taken_taken : m.taken.taken = m.taken := (rfl)
@[simp] theorem taken_closed : m.taken.closed = m.closed := (rfl)
@[simp] theorem closed_taken : m.closed.taken = m.taken := (rfl)
@[simp] theorem closed_closed : m.closed.closed = m.closed := (rfl)
@[simp] theorem taken_blamed : m.taken.blamed = m.blamed.taken := (rfl)
@[simp] theorem closed_blamed : m.closed.blamed = m.blamed.closed := (rfl)
@[simp] theorem blamed_blamed : m.blamed.blamed = m.blamed := (rfl)

@[simp] theorem closed_mem {U : UpperSet Standing} (h : m.taken ∈ U) : m.closed ∈ U :=
  U.upper (by simp) h

@[simp] theorem blamed_mem {U : UpperSet Standing} (h : m.taken ∈ U) : m.blamed ∈ U :=
  U.upper (by simp) h

@[simp] theorem blamed_taken_mem {U : UpperSet Standing} (h : m.taken ∈ U) : m.blamed.taken ∈ U :=
  U.upper (by simp) h

@[simp] theorem wp_pure_eq {a : α} : (Grammar.pure a).wp P = P a := (rfl)

@[simp] theorem wp_pure {a : α} : (Pure.pure a : Grammar α).wp P = P a := (rfl)

@[simp] theorem wp_bind {g : Grammar β} {f : β → Grammar α} :
    (g >>= f).wp P = g.wp fun b => (f b).wp P :=
  (rfl)

@[simp] theorem wp_ite {p : Prop} [Decidable p] {g h : Grammar α} :
    (if p then g else h).wp P = if p then g.wp P else h.wp P := by
  split <;> rfl

@[simp] theorem mem_ite {p : Prop} [Decidable p] {U V : UpperSet Standing} :
    (m ∈ if p then U else V) ↔ if p then m ∈ U else m ∈ V := by
  split <;> rfl

/-! ## Common grammars -/

@[simp] theorem mem_wp_peek {n : Nat} {P : TokenKind → UpperSet Standing} :
    m ∈ (peek n).wp P ↔ ∀ ts, m ∈ P (kindAt n ts) := by
  simp [peek]

@[simp] theorem mem_wp_test {p : List Token → Bool} : m ∈ (test p).wp R ↔ ∀ ts, m ∈ R (p ts) := by
  simp [test]

@[simp] theorem mem_wp_isAt {k : TokenKind} :
    m ∈ (isAt k).wp R ↔ ∀ ts, m ∈ R (kindAt 0 ts == k) := by
  simp [isAt]

@[simp] theorem mem_wp_isAtAny {ks : List TokenKind} :
    m ∈ (isAtAny ks).wp R ↔ ∀ ts, m ∈ R (ks.contains (kindAt 0 ts)) := by
  simp [isAtAny]

@[simp] theorem mem_wp_remaining {P : Nat → UpperSet Standing} :
    m ∈ remaining.wp P ↔ ∀ ts, m ∈ P (fromSignificant ts).length := by
  simp [remaining]

@[simp] theorem mem_wp_nextSpan {P : Span → UpperSet Standing} :
    m ∈ nextSpan.wp P ↔ ∀ ts, m ∈ P (((nextToken? ts).map (·.span)).getD (.empty 0)) := by
  simp [nextSpan]

@[simp] theorem mem_wp_eat {k : TokenKind} (hw : k ≠ .whitespace)
    (hc : k ≠ .comment) :
    m ∈ (eat k).wp R ↔ m.taken ∈ R true ∧ m ∈ R false := by
  simp [eat, hw, hc]

@[simp] theorem mem_wp_expect {k : TokenKind} (hw : k ≠ .whitespace)
    (hc : k ≠ .comment) :
    m ∈ (expect k).wp R ↔ m.taken ∈ R true ∧ m.blamed ∈ R false := by
  simp [expect, hw, hc]

theorem mem_wp_nodeOf {k : NodeKind} {body : Grammar Unit}
    (h : m.opened ∈ body.wp fun _ => closable k) :
    m ∈ (nodeOf k body).wp Q ↔ m.closed ∈ Q () := by
  rw [nodeOf, mem_wp_node]
  exact (and_iff_right h).trans ⟨fun h => h (), fun h _ => h⟩

theorem mem_wp_nodeBy {body : Grammar NodeKind} (h : m.opened ∈ body.wp closable) :
    m ∈ (nodeBy body).wp Q ↔ m.closed ∈ Q () := by
  rw [nodeBy, mem_wp_node]
  exact (and_iff_right h).trans ⟨fun h => h (), fun h _ => h⟩

/-- An error is read where something was reported. -/
@[simp] theorem mem_wp_skipFaulty {fault : Fault} :
    m ∈ (skipFaulty fault).wp Q ↔ m.blamed.closed ∈ Q () := by
  rw [skipFaulty, mem_wp_bind, mem_wp_report]
  exact mem_wp_nodeOf (by simp)

theorem mem_wp_loop {body : Grammar Bool} (h : m ∈ body.wp fun _ => UpperSet.Ici m) :
    m ∈ (loop body).wp Q ↔ m ∈ Q () := by
  rw [loop, mem_wp_iterate]
  · exact ⟨fun h => h (), fun h _ => h⟩
  · exact fun _ => h

theorem mem_wp_loopUntil {closer : TokenKind} {body : Grammar Bool}
    (h : m ∈ body.wp fun _ => UpperSet.Ici m) :
    m ∈ (loopUntil closer body).wp Q ↔ m ∈ Q () := by
  refine mem_wp_loop ?_
  rw [mem_wp_bind, mem_wp_isAt]
  intro ts
  rw [mem_wp_bind, mem_wp_isAt]
  intro ts
  rw [mem_wp_ite]
  split
  · exact le_refl m
  · exact h

/-- A list goes on behind a comma, or where something is missing. -/
theorem mem_wp_commaOrEnd {closer : TokenKind} {before : Nat} {U : UpperSet Standing} (h : m ∈ U)
    (ht : m.taken ∈ U) : m ∈ (commaOrEnd closer before).wp fun _ => U := by
  simp [commaOrEnd, h, ht]

theorem mem_wp_commaList {closer : TokenKind} {element : Grammar Unit} (hm : m.ended ≠ true)
    (h : m ∈ element.wp fun _ => UpperSet.Ici m) :
    m ∈ (commaList closer element).wp Q ↔ m ∈ Q () := by
  refine mem_wp_loopUntil ?_
  rw [mem_wp_bind, mem_wp_remaining]
  intro ts
  rw [mem_wp_bind]
  refine wp_mono (fun _ n hn => UpperSet.upper _ hn (mem_wp_commaOrEnd (le_refl m) ?_)) h
  simp [hm]

/-! ## Parts of many forms -/

@[simp] theorem mem_wp_type : m ∈ type.wp Q ↔ m.taken ∈ Q () := by
  simp [type]

@[simp] theorem mem_wp_expr : m ∈ expr.wp R ↔ m.closed ∈ R true ∧ m.blamed ∈ R false := by
  simp [expr, and_comm]

@[simp] theorem mem_wp_headExpr : m ∈ headExpr.wp Q ↔ m.closed ∈ Q () ∧ m.blamed ∈ Q () := by
  simp [headExpr, and_comm]

@[simp] theorem mem_wp_delimited : m ∈ delimited.wp Q ↔ m.taken ∈ Q () := by
  simp [delimited]

@[simp] theorem mem_wp_bounds : m ∈ bounds.wp Q ↔ m.closed ∈ Q () := by
  simp [bounds]

@[simp] theorem mem_wp_block : m ∈ block.wp Q ↔ m.closed ∈ Q () := by
  simp [block]

@[simp] theorem mem_wp_singlePattern :
    m ∈ singlePattern.wp R ↔ m.closed ∈ R true ∧ m.blamed ∈ R false := by
  simp [singlePattern, and_comm]

/-! ## Token trees, names and attributes -/

theorem mem_wp_tokenTree (h : m.taken ∈ Q ()) : m ∈ tokenTree.wp Q := by
  have hclosed : m.closed ∈ Q () := UpperSet.upper _ (by simp) h
  have hblamed : m.blamed ∈ Q () := UpperSet.upper _ (by simp) h
  simp only [tokenTree, mem_wp_bind, mem_wp_peek]
  intro ts
  split
  · exact hblamed
  · rw [mem_wp_bind, mem_wp_nextSpan]
    intro ts
    rw [mem_wp_nodeOf]
    · exact hclosed
    · rw [mem_wp_bind, mem_wp_advance, mem_wp_loop] <;> simp

@[simp] theorem mem_wp_nameRef : m ∈ nameRef.wp Q ↔ m.closed ∈ Q () :=
  mem_wp_nodeOf (by simp)

@[simp] theorem mem_wp_name : m ∈ name.wp Q ↔ m.closed ∈ Q () ∧ m.blamed ∈ Q () := by
  simp [name, mem_wp_nodeOf]

@[simp] theorem mem_wp_outerAttributes : m ∈ outerAttributes.wp R ↔ ∀ any, m ∈ R any := by
  exact mem_wp_iterate fun any => by simp [mem_wp_nodeOf]

@[simp] theorem mem_wp_innerAttributes : m ∈ innerAttributes.wp Q ↔ m ∈ Q () := by
  exact mem_wp_loop (by simp [mem_wp_nodeOf])

@[simp] theorem mem_wp_lifetimeBounds (hm : m.ended ≠ true) :
    m ∈ optGenericParams.lifetimeBounds.wp Q ↔ m ∈ Q () := by
  exact mem_wp_loop (by simp [hm])

theorem mem_wp_literalOrNegated (h : m.taken ∈ Q ()) : m ∈ literalOrNegated.wp Q := by
  simp [literalOrNegated, h]

/-! ## Paths -/

@[simp] theorem mem_wp_constArg : m ∈ optGenericParams.constArg.wp Q ↔ m.closed ∈ Q () := by
  simp [optGenericParams.constArg, mem_wp_nodeOf, mem_wp_literalOrNegated]

@[simp] theorem mem_wp_optGenericParams :
    m ∈ optGenericParams.wp Q ↔ m.closed ∈ Q () ∧ m ∈ Q () := by
  simp only [optGenericParams, mem_wp_bind, mem_wp_isAt, mem_wp_ite]
  rw [mem_wp_nodeOf]
  · simp
  · rw [mem_wp_bind, mem_wp_advance, mem_wp_bind, mem_wp_loopUntil]
    · simp
    · simp only [mem_wp_bind, mem_wp_remaining, mem_wp_outerAttributes, mem_wp_peek]
      intro _ _ _
      split <;> simp [mem_wp_nodeOf, mem_wp_commaOrEnd]

theorem mem_wp_optForBinder (h : m ∈ Q ()) (ht : m.taken ∈ Q ()) : m ∈ optForBinder.wp Q := by
  simp [optForBinder, h, ht]

@[simp] theorem mem_wp_retType : m ∈ retType.wp Q ↔ m.closed ∈ Q () :=
  mem_wp_nodeOf (by simp)

theorem mem_wp_genericArg (h : m.closed ∈ Q ()) : m ∈ genericArg.wp Q := by
  simp only [genericArg, mem_wp_bind, mem_wp_peek]
  intro ts
  split <;> simp [h, mem_wp_nodeOf]

@[simp] theorem mem_wp_genericArgList {joined : Bool} :
    m ∈ (genericArgList joined).wp Q ↔ m.closed ∈ Q () :=
  mem_wp_nodeOf (by simp [mem_wp_commaList, mem_wp_genericArg])

theorem mem_wp_segmentArgs {place : PathPlace} (h : m.closed ∈ Q ()) (hm : m ∈ Q ()) :
    m ∈ (segmentArgs place).wp Q := by
  cases place <;> simp [segmentArgs, mem_wp_nodeOf, mem_wp_commaList, h, hm]

@[simp] theorem mem_wp_pathSegment {place : PathPlace} :
    m ∈ (pathSegment place).wp Q ↔ m.closed ∈ Q () :=
  mem_wp_nodeOf (by simp [mem_wp_segmentArgs])

@[simp] theorem mem_wp_path {place : PathPlace} : m ∈ (path place).wp Q ↔ m.closed ∈ Q () :=
  mem_wp_nodeOf (by simp [mem_wp_loop])

@[simp] theorem mem_wp_pathType : m ∈ pathType.wp Q ↔ m.closed ∈ Q () :=
  mem_wp_nodeOf (by simp)

@[simp] theorem mem_wp_macroBody : m ∈ macroBody.wp Q ↔ m.taken ∈ Q () := by
  simp [macroBody]

/-! ## Visibilities and where clauses -/

@[simp] theorem mem_wp_optVisibility :
    m ∈ optVisibility.wp R ↔ m.closed ∈ R true ∧ m ∈ R false := by
  simp only [optVisibility, mem_wp_bind, mem_wp_isAt, mem_wp_ite]
  rw [mem_wp_nodeOf]
  · simp
  · rw [mem_wp_bind, mem_wp_advance, mem_wp_bind, mem_wp_isAt]
    intro ts
    rw [mem_wp_ite]
    split
    · rw [mem_wp_bind, mem_wp_peek]
      intro ts
      split <;> simp
    · simp

@[simp] theorem mem_wp_optWhereClause :
    m ∈ optWhereClause.wp Q ↔ m.closed ∈ Q () ∧ m ∈ Q () := by
  have hpred : m.opened.taken.opened ∈ (do
      if ← isAt .lifetime then
        advance
        let _ ← expect .colon
        optGenericParams.lifetimeBounds
      else
        optForBinder
        type
        let _ ← expect .colon
        bounds : Grammar Unit).wp fun _ => closable .wherePred := by
    simp [mem_wp_optForBinder, mem_wp_lifetimeBounds]
  simp only [optWhereClause, mem_wp_bind, mem_wp_isAt, mem_wp_ite]
  rw [mem_wp_nodeOf]
  · simp
  · rw [mem_wp_bind, mem_wp_advance, mem_wp_loop]
    · simp
    · simp [mem_wp_nodeOf hpred]

/-! ## Types -/

@[simp] theorem mem_wp_pointerParams : m ∈ pointerParams.wp Q ↔ m.closed ∈ Q () :=
  mem_wp_nodeOf (by simp [mem_wp_commaList, mem_wp_nodeOf])

@[simp] theorem mem_wp_fnPtrType : m ∈ fnPtrType.wp Q ↔ m.closed ∈ Q () :=
  mem_wp_nodeOf (by simp)

@[simp] theorem mem_wp_ptrType : m ∈ ptrType.wp Q ↔ m.closed ∈ Q () :=
  mem_wp_nodeOf (by simp)

@[simp] theorem mem_wp_sliceOrArrayType : m ∈ sliceOrArrayType.wp Q ↔ m.closed ∈ Q () :=
  mem_wp_nodeBy (by simp)

@[simp] theorem mem_wp_pathOrMacroType : m ∈ pathOrMacroType.wp Q ↔ m.closed ∈ Q () := by
  simp [pathOrMacroType, mem_wp_nodeOf]

theorem mem_wp_typeBody (h : m.taken ∈ Q ()) : m ∈ typeBody.wp Q := by
  simp only [typeBody, mem_wp_bind, mem_wp_peek]
  intro ts
  split <;> simp [h, mem_wp_nodeOf, mem_wp_commaList, mem_wp_optForBinder]

/-! ## Patterns -/

theorem mem_wp_barredPatterns (hm : m.settled = true) (h : m.taken ∈ Q ()) :
    m ∈ barredPatterns.wp Q := by
  have hle : m.taken ≤ m := by simp [hm]
  refine UpperSet.upper _ hle ((mem_wp_loop ?_).2 h)
  simp

@[simp] theorem mem_wp_patternAlternatives :
    m ∈ patternAlternatives.wp Q ↔ m.closed ∈ Q () ∧ m.blamed ∈ Q () := by
  simp [patternAlternatives, mem_wp_nodeOf, mem_wp_wrap, mem_wp_barredPatterns]

@[simp] theorem mem_wp_identPattern : m ∈ identPattern.wp Q ↔ m.closed ∈ Q () :=
  mem_wp_nodeOf (by simp [mem_wp_nodeOf])

@[simp] theorem mem_wp_literalPattern : m ∈ literalPattern.wp Q ↔ m.closed ∈ Q () := by
  simp [literalPattern, mem_wp_nodeOf, mem_wp_wrap, mem_wp_literalOrNegated]

@[simp] theorem mem_wp_recordPatternField :
    m ∈ recordPatternField.wp Q ↔ m.closed ∈ Q () := by
  simp [recordPatternField, mem_wp_nodeOf]

@[simp] theorem mem_wp_recordPatternFields :
    m ∈ recordPatternFields.wp Q ↔ m.closed ∈ Q () :=
  mem_wp_nodeOf (by simp [mem_wp_loopUntil])

@[simp] theorem mem_wp_pathPattern : m ∈ pathPattern.wp Q ↔ m.closed ∈ Q () := by
  refine mem_wp_nodeBy ?_
  rw [mem_wp_bind, mem_wp_test]
  intro ts
  rw [mem_wp_ite]
  split
  · simp
  · rw [mem_wp_bind, mem_wp_path, mem_wp_bind, mem_wp_peek]
    intro ts
    split <;> simp [mem_wp_commaList]

@[simp] theorem mem_wp_parenPattern : m ∈ parenPattern.wp Q ↔ m.closed ∈ Q () := by
  refine mem_wp_nodeBy ?_
  rw [mem_wp_bind, mem_wp_advance, mem_wp_bind, mem_wp_iterate]
  · simp only [mem_wp_bind]
    rintro ⟨elements, trailing⟩
    simp
    split <;> simp
  · simp

theorem mem_wp_singlePatternBody (h : m.closed ∈ R true) (hm : m.blamed ∈ R false) :
    m ∈ singlePatternBody.wp R := by
  simp only [singlePatternBody, mem_wp_bind, mem_wp_peek]
  intro ts
  split <;> simp [h, hm, mem_wp_nodeOf, mem_wp_commaList, singlePatternBody.isAtPath]

/-! ## Expressions -/

theorem mem_wp_exprList {closer : TokenKind} (hm : m.ended ≠ true) :
    m ∈ (exprList closer).wp Q ↔ m ∈ Q () :=
  mem_wp_commaList hm (by simp [hm])

@[simp] theorem mem_wp_argList : m ∈ argList.wp Q ↔ m.closed ∈ Q () :=
  mem_wp_nodeOf (by simp [mem_wp_exprList])

@[simp] theorem mem_wp_parenOrTuple : m ∈ parenOrTuple.wp Q ↔ m.closed ∈ Q () := by
  refine mem_wp_nodeBy ?_
  rw [mem_wp_bind, mem_wp_advance, mem_wp_bind, mem_wp_iterate]
  · simp only [mem_wp_bind]
    rintro ⟨elements, comma⟩
    simp
    split <;> simp
  · simp

@[simp] theorem mem_wp_arrayExpr : m ∈ arrayExpr.wp Q ↔ m.closed ∈ Q () :=
  mem_wp_nodeOf (by simp [mem_wp_exprList])

@[simp] theorem mem_wp_recordField : m ∈ recordField.wp Q ↔ m.closed ∈ Q () :=
  mem_wp_nodeOf (by simp)

@[simp] theorem mem_wp_recordFields : m ∈ recordFields.wp Q ↔ m.closed ∈ Q () :=
  mem_wp_nodeOf (by simp [mem_wp_loopUntil])

@[simp] theorem mem_wp_pathExpr {noRecord : Bool} :
    m ∈ (pathExpr noRecord).wp Q ↔ m.closed ∈ Q () :=
  mem_wp_nodeBy (by simp)

@[simp] theorem mem_wp_closureParams : m ∈ closureParams.wp Q ↔ m.closed ∈ Q () := by
  have hparam (n : Standing) : n.opened ∈ (do
      let _ ← singlePattern
      if ← eat .colon then type : Grammar Unit).wp fun _ => closable .param := by
    simp
  exact mem_wp_nodeOf (by simp [mem_wp_commaList, mem_wp_nodeOf (hparam _)])

@[simp] theorem mem_wp_closureExpr {noRecord : Bool} :
    m ∈ (closureExpr noRecord).wp Q ↔ m.closed ∈ Q () :=
  mem_wp_nodeOf (by simp)

theorem mem_wp_ifBody : m ∈ ifBody.wp Q ↔ m.closed ∈ Q () := by
  refine mem_wp_nodeOf ?_
  simp only [mem_wp_bind, mem_wp_advance, mem_wp_headExpr, mem_wp_isAt]
  simp
  constructor <;>
  · intro ts
    split <;> simp

@[simp] theorem mem_wp_matchArm : m ∈ matchArm.wp Q ↔ m.closed ∈ Q () :=
  mem_wp_nodeOf (by simp [mem_wp_nodeOf])

@[simp] theorem mem_wp_matchArms : m ∈ matchArms.wp Q ↔ m.closed ∈ Q () := by
  simp [matchArms, mem_wp_nodeOf, mem_wp_loopUntil]

@[simp] theorem mem_wp_matchExpr : m ∈ matchExpr.wp Q ↔ m.closed ∈ Q () :=
  mem_wp_nodeOf (by simp)

/-! ## Operators -/

theorem mem_wp_dotPostfix (hm : m.ended = true) : m ∈ dotPostfix.wp Q ↔ m.closed ∈ Q () := by
  rw [dotPostfix, mem_wp_wrap]
  simp only [hm, true_and]
  refine and_iff_right ?_
  rw [mem_wp_bind, mem_wp_advance, mem_wp_bind, mem_wp_peek]
  intro ts
  split <;> simp

theorem mem_wp_postfixOp (hm : m.ended = true) (h : m.closed ∈ R true) (h' : m ∈ R false) :
    m ∈ postfixOp.wp R := by
  rw [postfixOp, mem_wp_bind, mem_wp_peek]
  intro ts
  split <;> simp [hm, h, h', mem_wp_wrap, mem_wp_dotPostfix]

theorem mem_wp_rangeEnd {noRecord : Bool} (h : m ∈ Q ()) (hc : m.closed ∈ Q ()) :
    m ∈ (rangeEnd noRecord).wp Q := by
  have hb : m.blamed ∈ Q () := UpperSet.upper _ (by simp) h
  simp [rangeEnd, h, hc, hb]

theorem mem_wp_binaryOp {power : Nat} {noRecord : Bool}  (hm : m.ended = true)
    (h : m.closed ∈ R true) (h' : m ∈ R false) :
    m ∈ (binaryOp power noRecord).wp R := by
  rw [binaryOp, mem_wp_bind, mem_wp_peek]
  intro ts
  split
  · simp [hm, h, h', mem_wp_wrap]
  · split
    · simp [hm, h, h', mem_wp_wrap, mem_wp_rangeEnd]
    · rw [mem_wp_bind, mem_wp_ahead]
      intro ts
      split <;> simp [hm, h, h', mem_wp_wrap]

theorem mem_wp_operators {power : Nat} {noRecord : Bool} (hm : m.ended = true) :
    m ∈ (operators power noRecord).wp Q ↔ m ∈ Q () := by
  refine mem_wp_loop ?_
  simp [mem_wp_postfixOp, mem_wp_binaryOp, hm]

@[simp] theorem mem_wp_operand {noRecord : Bool} :
    m ∈ (operand noRecord).wp Q ↔ m.closed ∈ Q () ∧ m.blamed.blamed ∈ Q () := by
  simp [operand, and_comm]

theorem mem_wp_leftSide {noRecord : Bool} (h : m.closed ∈ R true) (hb : m.blamed ∈ R false) :
    m ∈ (leftSide noRecord).wp R := by
  rw [leftSide, mem_wp_bind, mem_wp_peek]
  intro ts
  split <;> simp [mem_wp_nodeOf, mem_wp_rangeEnd, h, hb]

theorem mem_wp_exprBody {power : Nat} {noRecord : Bool} (h : m.closed ∈ R true)
    (hb : m.blamed ∈ R false) : m ∈ (exprBody power noRecord).wp R := by
  rw [exprBody, mem_wp_bind]
  refine mem_wp_leftSide ?_ ?_ <;> simp [mem_wp_operators, h, hb]

/-! ## Statements -/

@[simp] theorem mem_wp_letStatement : m ∈ letStatement.wp Q ↔ m.closed ∈ Q () :=
  mem_wp_nodeOf (by simp [mem_wp_nodeOf])

theorem mem_wp_statementEnd {needsSemicolon : Bool} (hm : m.ended = true) (h : m.closed ∈ Q ())
    (h' : m ∈ Q ()) : m ∈ (statementEnd needsSemicolon).wp Q := by
  have hb : m.blamed.closed ∈ Q () := UpperSet.upper _ (by simp) h
  simp only [statementEnd, mem_wp_bind, mem_wp_peek]
  intro ts
  split <;> simp [mem_wp_wrap, hm, h, h', hb]

theorem mem_wp_exprStatement (h : m.closed ∈ Q ()) (hb : m.blamed ∈ Q ()) :
    m ∈ exprStatement.wp Q := by
  simp [exprStatement, mem_wp_operators, mem_wp_statementEnd, h, hb]

theorem mem_wp_statement (h : m.unsure ∈ Q ()) : m ∈ statement.wp Q := by
  have htaken : m.taken ∈ Q () := UpperSet.upper _ (by simp) h
  have hclosed : m.closed ∈ Q () := UpperSet.upper _ (by simp) h
  have hblamed : m.blamed ∈ Q () := UpperSet.upper _ (by simp) h
  simp [statement, mem_wp_exprStatement, h, htaken, hclosed, hblamed]

/-- An item that was abandoned among the statements may leave an error behind. -/
theorem mem_wp_blockBody (h : m.unsure.taken ∈ Q ()) : m ∈ (blockBody statement).wp Q := by
  have hblamed : m.blamed ∈ Q () := UpperSet.upper _ (by simp) h
  have hunsure : m.unsure ≤ m.taken := by simp
  simp only [blockBody, mem_wp_bind, mem_wp_nextSpan]
  intro ts
  rw [mem_wp_expect (by simp) (by simp)]
  refine ⟨?_, by simpa using hblamed⟩
  rw [mem_wp_ite, if_pos rfl, mem_wp_bind, mem_wp_innerAttributes, mem_wp_bind]
  -- From here on the standing is the one behind an abandoned item.
  refine UpperSet.upper _ hunsure ((mem_wp_loopUntil ?_).2 ?_)
  · simp [mem_wp_statement]
  · have hend : m.unsure.blamed ∈ Q () := UpperSet.upper _ (by simp) h
    simp [h, hend]

@[simp] theorem mem_wp_blockExpr : m ∈ blockExpr.wp Q ↔ m.closed ∈ Q () :=
  mem_wp_nodeOf (mem_wp_blockBody (by simp))

@[simp] theorem mem_wp_body : m ∈ labeledLoop.body.wp Q ↔ m.closed ∈ Q () ∧ m.blamed ∈ Q () := by
  simp [labeledLoop.body]

@[simp] theorem mem_wp_labeledLoop : m ∈ labeledLoop.wp Q ↔ m.closed ∈ Q () := by
  refine mem_wp_nodeBy ?_
  simp [mem_wp_nodeOf]
  constructor <;>
  · intro ts
    split <;> simp [mem_wp_blockBody]

@[simp] theorem mem_wp_letExpr {noRecord : Bool} :
    m ∈ (letExpr noRecord).wp Q ↔ m.closed ∈ Q () :=
  mem_wp_nodeOf (by simp)

theorem mem_wp_optValue {noRecord : Bool} (h : m ∈ Q ()) (hc : m.closed ∈ Q ()) :
    m ∈ (optValue noRecord).wp Q := by
  have hb : m.blamed ∈ Q () := UpperSet.upper _ (by simp) h
  simp [optValue, h, hc, hb]

@[simp] theorem mem_wp_asyncBlock : m ∈ asyncBlock.wp Q ↔ m.closed ∈ Q () :=
  mem_wp_nodeOf (by simp [mem_wp_blockBody])

theorem mem_wp_atomBody {noRecord : Bool} (h : m.closed ∈ R true) (hb : m.blamed ∈ R false) :
    m ∈ (atomBody noRecord).wp R := by
  rw [atomBody, mem_wp_bind, mem_wp_peek]
  intro ts
  split <;> simp [h, hb, mem_wp_nodeOf, mem_wp_blockBody, mem_wp_optValue]

/-! ## Items -/

theorem mem_wp_items {closer : TokenKind} (hm : m.ended ≠ true) :
    m ∈ (items closer).wp Q ↔ m ∈ Q () := by
  refine mem_wp_loopUntil ?_
  simp [hm]

@[simp] theorem mem_wp_bracedItems : m ∈ bracedItems.wp Q ↔ m.taken ∈ Q () ∧ m.blamed.taken ∈ Q () := by
  simp [bracedItems, mem_wp_items]

@[simp] theorem mem_wp_receiver (h : m.taken ∈ Q ()) : m ∈ receiver.wp Q := by
  simp [receiver, h]

@[simp] theorem mem_wp_parameter {first : Bool} :
    m ∈ (parameter first).wp Q ↔ m.closed ∈ Q () :=
  mem_wp_nodeBy (by simp [mem_wp_receiver])

@[simp] theorem mem_wp_parameters : m ∈ parameters.wp Q ↔ m.closed ∈ Q () :=
  mem_wp_nodeOf (by simp [mem_wp_iterate])

theorem mem_wp_braceListGoesOn {before : Nat} {fault : Fault} {starts : List TokenKind}
   {U : UpperSet Standing} (h : m ∈ U) (ht : m.taken ∈ U) :
    m ∈ (braceListGoesOn before fault starts).wp fun _ => U := by
  simp [braceListGoesOn, h, ht]

@[simp] theorem mem_wp_recordFieldList : m ∈ recordFieldList.wp Q ↔ m.closed ∈ Q () := by
  have hfield (n : Standing) : n.opened ∈ (do
      let _ ← outerAttributes
      let _ ← optVisibility
      name
      let _ ← expect .colon
      type : Grammar Unit).wp fun _ => closable .recordField := by
    simp
  exact mem_wp_nodeOf (by
    simp [mem_wp_loopUntil, mem_wp_nodeOf (hfield _), mem_wp_braceListGoesOn])

@[simp] theorem mem_wp_tupleFieldList : m ∈ tupleFieldList.wp Q ↔ m.closed ∈ Q () :=
  mem_wp_nodeOf (by simp [mem_wp_loopUntil, mem_wp_nodeOf])

@[simp] theorem mem_wp_variantList : m ∈ variantList.wp Q ↔ m.closed ∈ Q () := by
  refine mem_wp_nodeOf ?_
  rw [mem_wp_bind, mem_wp_advance, mem_wp_bind, mem_wp_loopUntil]
  · simp
  · rw [mem_wp_bind, mem_wp_remaining]
    intro ts
    rw [mem_wp_bind, mem_wp_nodeOf]
    · simp [mem_wp_braceListGoesOn]
    · simp only [mem_wp_bind, mem_wp_outerAttributes, mem_wp_optVisibility, mem_wp_name,
        mem_wp_peek]
      intro any
      refine ⟨⟨?_, ?_⟩, ?_, ?_⟩ <;>
      · intro ts
        split <;> simp

section

variable {P : NodeKind → UpperSet Standing}

theorem mem_wp_fnDef (h : m.taken ∈ P .fnDef) : m ∈ fnDef.wp P := by
  simp [fnDef, h]

theorem mem_wp_structDef (h : m.taken ∈ P .structDef) : m ∈ structDef.wp P := by
  simp only [structDef, mem_wp_bind, mem_wp_advance, mem_wp_name, mem_wp_optGenericParams,
    mem_wp_peek]
  refine ⟨⟨?_, ?_⟩, ?_, ?_⟩ <;>
  · intro ts
    split <;> simp [h]

theorem mem_wp_enumDef (h : m.taken ∈ P .enumDef) : m ∈ enumDef.wp P := by
  simp [enumDef, h]

@[simp] theorem mem_wp_assocItems : m ∈ assocItems.wp Q ↔ m.closed ∈ Q () ∧ m.blamed ∈ Q () := by
  simp [assocItems, mem_wp_nodeOf]

theorem mem_wp_implDef (h : m.taken ∈ P .implDef) : m ∈ implDef.wp P := by
  simp [implDef, h]

theorem mem_wp_traitDef (h : m.taken ∈ P .traitDef) : m ∈ traitDef.wp P := by
  simp [traitDef, h]

theorem mem_wp_modItem (h : m.taken ∈ P .modItem) : m ∈ modItem.wp P := by
  simp [modItem, h, mem_wp_nodeOf]

@[simp] theorem mem_wp_nameOrUnderscore (h : m.taken ∈ Q ()) : m ∈ nameOrUnderscore.wp Q := by
  simp [nameOrUnderscore, h]

theorem mem_wp_useTreeEnd (h : m.taken ∈ Q ()) : m ∈ useTreeEnd.wp Q := by
  simp only [useTreeEnd, mem_wp_bind, mem_wp_peek]
  intro ts
  split
  · exact h
  · rw [mem_wp_nodeOf]
    · exact closed_mem h
    · simp [mem_wp_loopUntil]
  · exact blamed_mem h

theorem mem_wp_useTreeBody : m ∈ useTreeBody.wp Q ↔ m.closed ∈ Q () := by
  refine mem_wp_nodeOf ?_
  rw [mem_wp_bind, mem_wp_peek]
  intro ts
  split <;> simp [mem_wp_useTreeEnd, mem_wp_nodeOf, mem_wp_nameOrUnderscore]

theorem mem_wp_useItem (h : m.taken ∈ P .useItem) : m ∈ useItem.wp P := by
  simp [useItem, h]

theorem mem_wp_valueItem {kind : NodeKind} (h : m.taken ∈ P kind) :
    m ∈ (valueItem kind).wp P := by
  rw [valueItem, mem_wp_bind, mem_wp_advance, mem_wp_bind, mem_wp_eat (by simp) (by simp)]
  refine ⟨mem_wp_nameOrUnderscore ?_, mem_wp_nameOrUnderscore ?_⟩ <;> simp [h]

theorem mem_wp_typeAlias (h : m.taken ∈ P .typeAlias) : m ∈ typeAlias.wp P := by
  simp [typeAlias, h]

theorem mem_wp_macroItem (h : m.taken ∈ P .macroCall) : m ∈ macroItem.wp P := by
  simp [macroItem, h]

end

theorem mem_wp_qualifiers (hm : m.ended ≠ true) : m ∈ qualifiers.wp Q ↔ m ∈ Q () :=
  mem_wp_loop (by simp [hm])

theorem mem_wp_bareItem? {P : Option NodeKind → UpperSet Standing} (hnone : m ∈ P none)
    (hsome : ∀ k : NodeKind, k ≠ .errorNode → m.taken ∈ P (some k)) : m ∈ bareItem?.wp P := by
  simp only [bareItem?, mem_wp_bind, mem_wp_peek]
  intro ts
  split
  · exact mem_wp_fnDef (hsome _ (by simp))
  · exact mem_wp_structDef (hsome _ (by simp))
  · exact mem_wp_enumDef (hsome _ (by simp))
  · exact mem_wp_implDef (hsome _ (by simp))
  · exact mem_wp_traitDef (hsome _ (by simp))
  · exact mem_wp_useItem (hsome _ (by simp))
  · exact mem_wp_modItem (hsome _ (by simp))
  · exact mem_wp_valueItem (hsome _ (by simp))
  · exact mem_wp_valueItem (hsome _ (by simp))
  · exact mem_wp_typeAlias (hsome _ (by simp))
  · rw [mem_wp_bind, mem_wp_peek]
    intro ts
    split
    · exact mem_wp_implDef (hsome _ (by simp))
    · exact mem_wp_traitDef (hsome _ (by simp))
    · exact hnone
  · rw [mem_wp_bind, mem_wp_test]
    intro ts
    rw [mem_wp_bind, mem_wp_peek]
    intro ts
    rw [mem_wp_ite]
    split
    · exact mem_wp_structDef (hsome _ (by simp))
    · rw [mem_wp_bind, mem_wp_test]
      intro ts
      rw [mem_wp_ite]
      split
      · exact mem_wp_macroItem (hsome _ (by simp))
      · exact hnone

@[simp] theorem mem_wp_skipToEnd {fault : Fault} :
    m ∈ (sourceFile.skipToEnd fault).wp Q ↔ m ∈ Q () :=
  mem_wp_loop (by simp)

end Grammar

open Grammar in
/-- Each named form ends in the standing that is said of it, apart from the two that may leave a node
behind that was abandoned. -/
theorem Rule.wp_grammar {m : Standing} {r : Rule} (hbounds : r ≠ .bounds) (hitem : r ≠ .item) :
    m ∈ r.grammar.wp fun found => UpperSet.Ici (r.after found m) := by
  cases r with
  | type => exact mem_wp_typeBody (le_refl m.taken)
  | bounds => exact absurd rfl hbounds
  | expr power noRecord => exact mem_wp_exprBody (le_refl m.closed) (le_refl m.blamed)
  | atom noRecord => exact mem_wp_atomBody (le_refl m.closed) (le_refl m.blamed)
  | pattern => exact mem_wp_singlePatternBody (le_refl m.closed) (le_refl m.blamed)
  | block => exact mem_wp_blockExpr.2 (le_refl m.closed)
  | ifExpr => exact mem_wp_ifBody.2 (le_refl m.closed)
  | item => exact absurd rfl hitem
  | tokenTree => exact mem_wp_tokenTree (le_refl m.taken)
  | useTree => exact mem_wp_useTreeBody.2 (le_refl m.closed)
  | pathType => exact mem_wp_pathType.2 (le_refl m.closed)

end Reshape
