import Reshape.Grammar.Rules
import Reshape.Proofs.Grammar.Order

/-!
# The forms keep names first

One lemma for each grammar says what `Grammar.Orders` comes to for it. A grammar that adds neither
a name nor a field list leaves the flag alone, so that all depends on what follows it; a name may be
added only while there is no field list. `orders_grammar` is what comes of it for the named forms.

A list of tokens decides which way a grammar goes. Where the ways differ in more than their answer,
the lemma looks at the empty list for one direction and at all ways for the other.
-/

namespace Reshape

namespace Grammar

variable {α β σ : Type} {listed : Bool} {P : α → Bool → Prop} {Q : Unit → Bool → Prop}
  {R : Bool → Bool → Prop}

/-! ## Terms -/

@[simp] theorem orders_pure {a : α} : (Pure.pure a : Grammar α).Orders listed P ↔ P a listed :=
  Iff.rfl

@[simp] theorem pure_eq (a : α) : Grammar.pure a = Pure.pure a := rfl

@[simp] theorem orders_bind {g : Grammar β} {f : β → Grammar α} :
    (g >>= f).Orders listed P ↔ g.Orders listed fun b listed => (f b).Orders listed P :=
  Iff.rfl

@[simp] theorem orders_ite {p : Prop} [Decidable p] {g h : Grammar α} :
    (if p then g else h).Orders listed P ↔ if p then g.Orders listed P else h.Orders listed P := by
  split <;> rfl

@[simp] theorem orders_advance : advance.Orders listed Q ↔ Q () listed := Iff.rfl

@[simp] theorem orders_report {fault : Fault} : (report fault).Orders listed Q ↔ Q () listed :=
  Iff.rfl

@[simp] theorem orders_reportFrom {fault : Fault} {origin : Span} {note : String} :
    (reportFrom fault origin note).Orders listed Q ↔ Q () listed :=
  Iff.rfl

@[simp] theorem orders_node {body : Grammar (Option NodeKind × α)} :
    (node body).Orders listed P ↔ body.Orders false fun (k?, a) _ =>
      (k? = some .name → listed = false) ∧ (k? = some .nameRef → body.Flat) ∧
        (k? = some .structDef →
          body.Stages .before fun x s => x.1 = some .structDef → s ≠ .unknown) ∧
        P a (listed || k?.any (·.isFieldList)) :=
  Iff.rfl

/-- What is asked of the where clauses of a node does not depend on a run. -/
theorem orders_node_of {body : Grammar (Option NodeKind × α)}
    (hstages : body.Stages .before fun x s => x.1 = some .structDef → s ≠ .unknown)
    (h : body.Orders false fun (k?, a) _ => (k? = some .name → listed = false) ∧
      (k? = some .nameRef → body.Flat) ∧ P a (listed || k?.any (·.isFieldList))) :
    (node body).Orders listed P :=
  h.mono fun _ _ hx => ⟨hx.1, hx.2.1, fun _ => hstages, hx.2.2⟩

@[simp] theorem orders_wrap {body : Grammar NodeKind} :
    (wrap body).Orders listed Q ↔ body.Orders listed fun k _ =>
      (k = .name → listed = false) ∧ k ≠ .nameRef ∧ k ≠ .structDef ∧ Q () (listed || k.isFieldList) :=
  Iff.rfl

@[simp] theorem orders_iterate {init : σ} {body : σ → Grammar (σ × Bool)} {P : σ → Bool → Prop} :
    (iterate init body).Orders listed P ↔
      (∀ x, (body x).Orders listed fun _ after => after = listed) ∧ ∀ x, P x listed :=
  Iff.rfl

@[simp] theorem orders_call {r : Rule} : (call r).Orders listed R ↔ ∀ found, R found listed :=
  Iff.rfl

@[simp] theorem stages_pure {a : α} {s : ClauseStage} {P : α → ClauseStage → Prop} :
    (Pure.pure a : Grammar α).Stages s P ↔ P a s :=
  Iff.rfl

@[simp] theorem stages_bind {g : Grammar β} {f : β → Grammar α} {s : ClauseStage}
    {P : α → ClauseStage → Prop} :
    (g >>= f).Stages s P ↔ g.Stages s fun b s => (f b).Stages s P :=
  Iff.rfl

@[simp] theorem flat_pure {a : α} : (Pure.pure a : Grammar α).Flat ↔ True := Iff.rfl

@[simp] theorem flat_bind {g : Grammar β} {f : β → Grammar α} :
    (g >>= f).Flat ↔ g.Flat ∧ ∀ b, (f b).Flat :=
  Iff.rfl

@[simp] theorem flat_advance : advance.Flat ↔ True := Iff.rfl

/-! ## Common grammars -/

@[simp] theorem orders_ahead {P : List Token → Bool → Prop} :
    ahead.Orders listed P ↔ ∀ ts, P ts listed :=
  Iff.rfl

@[simp] theorem orders_peek {n : Nat} {P : TokenKind → Bool → Prop} :
    (peek n).Orders listed P ↔ ∀ ts, P (kindAt n ts) listed :=
  Iff.rfl

@[simp] theorem orders_test {p : List Token → Bool} :
    (test p).Orders listed R ↔ ∀ ts, R (p ts) listed :=
  Iff.rfl

@[simp] theorem orders_isAt {k : TokenKind} :
    (isAt k).Orders listed R ↔ ∀ ts, R (kindAt 0 ts == k) listed :=
  Iff.rfl

@[simp] theorem orders_isAtAny {ks : List TokenKind} :
    (isAtAny ks).Orders listed R ↔ ∀ ts, R (ks.contains (kindAt 0 ts)) listed :=
  Iff.rfl

@[simp] theorem orders_remaining {P : Nat → Bool → Prop} :
    remaining.Orders listed P ↔ ∀ ts, P (fromSignificant ts).length listed :=
  Iff.rfl

@[simp] theorem orders_nextSpan {P : Span → Bool → Prop} :
    nextSpan.Orders listed P ↔
      ∀ ts, P (((nextToken? ts).map (·.span)).getD (.empty 0)) listed :=
  Iff.rfl

@[simp] theorem orders_eat {k : TokenKind} :
    (eat k).Orders listed R ↔
      ∀ ts, if kindAt 0 ts = k then R true listed else R false listed := by
  simp [eat]

@[simp] theorem orders_expect {k : TokenKind} :
    (expect k).Orders listed R ↔
      ∀ ts, if kindAt 0 ts = k then R true listed else R false listed := by
  simp [expect]

@[simp] theorem orders_nodeOf {k : NodeKind} {body : Grammar Unit} :
    (nodeOf k body).Orders listed Q ↔ body.Orders false fun _ _ =>
      (k = .name → listed = false) ∧ (k = .nameRef → body.Flat) ∧
        (k = .structDef → body.Stages .before fun _ s => k = .structDef → s ≠ .unknown) ∧
        Q () (listed || k.isFieldList) := by
  simp [nodeOf]

@[simp] theorem orders_nodeBy {body : Grammar NodeKind} :
    (nodeBy body).Orders listed Q ↔ body.Orders false fun k _ =>
      (k = .name → listed = false) ∧ (k = .nameRef → body.Flat) ∧
        (k = .structDef → body.Stages .before fun k s => k = .structDef → s ≠ .unknown) ∧
        Q () (listed || k.isFieldList) := by
  simp [nodeBy]

@[simp] theorem orders_skipFaulty {fault : Fault} :
    (skipFaulty fault).Orders listed Q ↔ Q () listed := by
  simp [skipFaulty, NodeKind.isFieldList]

@[simp] theorem orders_loop {body : Grammar Bool} :
    (loop body).Orders listed Q ↔
      (body.Orders listed fun _ after => after = listed) ∧ Q () listed := by
  simp only [loop, orders_iterate, orders_bind, orders_pure, forall_const]
  exact and_congr_right fun _ => ⟨fun h => h (), fun h _ => h⟩

@[simp] theorem orders_loopUntil {closer : TokenKind} {body : Grammar Bool}
    (h : body.Orders listed fun _ after => after = listed) :
    (loopUntil closer body).Orders listed Q ↔ Q () listed := by
  simp [loopUntil, h]

@[simp] theorem orders_commaOrEnd {closer : TokenKind} {before : Nat} :
    (commaOrEnd closer before).Orders listed fun _ after => after = listed := by
  simp [commaOrEnd]

@[simp] theorem orders_commaList {closer : TokenKind} {element : Grammar Unit}
    (h : ∀ P : Bool → Prop, element.Orders listed (fun _ after => P after) ↔ P listed) :
    (commaList closer element).Orders listed Q ↔ Q () listed := by
  simp [commaList, h]

/-! ## Parts of many forms -/

attribute [local simp] type expr headExpr delimited bounds block singlePattern NodeKind.isFieldList

theorem orders_tokenTree (h : Q () listed) : tokenTree.Orders listed Q := by
  simp only [tokenTree, orders_bind, orders_peek]
  intro ts
  split <;> simp [h]

@[simp] theorem orders_name : name.Orders false Q ↔ Q () false := by
  simp [name]

@[simp] theorem orders_nameRef : nameRef.Orders listed Q ↔ Q () listed := by
  simp [nameRef]

@[simp] theorem orders_outerAttributes :
    outerAttributes.Orders listed R ↔ ∀ any, R any listed := by
  simp [outerAttributes]

@[simp] theorem orders_innerAttributes : innerAttributes.Orders listed Q ↔ Q () listed := by
  simp [innerAttributes]

@[simp] theorem orders_literalOrNegated : literalOrNegated.Orders listed Q ↔ Q () listed := by
  simp [literalOrNegated]

@[simp] theorem orders_lifetimeBounds :
    optGenericParams.lifetimeBounds.Orders listed Q ↔ Q () listed := by
  simp [optGenericParams.lifetimeBounds]

@[simp] theorem orders_constArg : optGenericParams.constArg.Orders listed Q ↔ Q () listed := by
  simp [optGenericParams.constArg]

@[simp] theorem orders_optGenericParams : optGenericParams.Orders listed Q ↔ Q () listed := by
  simp only [optGenericParams, orders_bind, orders_isAt]
  refine ⟨fun h => by simpa [kindAt, tokenAt?] using h [], fun h ts => ?_⟩
  rw [orders_ite]
  split
  · rw [orders_nodeOf, orders_bind, orders_advance, orders_bind, orders_loopUntil]
    · simpa using h
    · simp only [orders_bind, orders_remaining, orders_outerAttributes, orders_peek]
      intro _ _ _
      split <;> simp
  · exact h

@[simp] theorem orders_optForBinder : optForBinder.Orders listed Q ↔ Q () listed := by
  simp [optForBinder]

@[simp] theorem orders_retType : retType.Orders listed Q ↔ Q () listed := by
  simp [retType]

@[simp] theorem orders_genericArg : genericArg.Orders listed Q ↔ Q () listed := by
  simp only [genericArg, orders_bind, orders_peek]
  refine ⟨fun h => by simpa [kindAt, tokenAt?] using h [], fun h ts => ?_⟩
  split <;> simp [h]

@[simp] theorem orders_genericArgList {joined : Bool} :
    (genericArgList joined).Orders listed Q ↔ Q () listed := by
  simp [genericArgList]

@[simp] theorem orders_segmentArgs {place : PathPlace} :
    (segmentArgs place).Orders listed Q ↔ Q () listed := by
  cases place <;> simp [segmentArgs]

@[simp] theorem orders_pathSegment {place : PathPlace} :
    (pathSegment place).Orders listed Q ↔ Q () listed := by
  simp [pathSegment]

@[simp] theorem orders_path {place : PathPlace} :
    (path place).Orders listed Q ↔ Q () listed := by
  simp [path]

@[simp] theorem orders_pathType : pathType.Orders listed Q ↔ Q () listed := by
  simp [pathType]

@[simp] theorem orders_macroBody : macroBody.Orders listed Q ↔ Q () listed := by
  simp [macroBody]

@[simp] theorem orders_optVisibility (h : ∀ found, R found listed) : optVisibility.Orders listed R := by
  simp only [optVisibility, orders_bind, orders_isAt]
  intro ts
  rw [orders_ite]
  split
  · rw [orders_bind, orders_nodeOf, orders_bind, orders_advance, orders_bind, orders_isAt]
    intro ts
    rw [orders_ite]
    split
    · rw [orders_bind, orders_peek]
      intro ts
      split <;> simp [h]
    · simp [h]
  · exact h _

@[simp] theorem orders_optWhereClause : optWhereClause.Orders listed Q ↔ Q () listed := by
  simp [optWhereClause]

/-! ## Types and bounds -/

theorem orders_bound (h : ∀ found, R found listed) : bound.Orders listed R := by
  rw [bound, orders_node, orders_bind, orders_peek]
  intro ts
  split <;> simp [h]

@[simp] theorem orders_boundsBody : boundsBody.Orders listed Q ↔ Q () listed := by
  have hloop : (do if ← bound then eat .plus else return false : Grammar Bool).Orders false
      fun _ after => after = false := by
    rw [orders_bind]
    exact orders_bound (by simp)
  simp [boundsBody, hloop]

@[simp] theorem orders_pointerParams : pointerParams.Orders listed Q ↔ Q () listed := by
  simp [pointerParams]

@[simp] theorem orders_fnPtrType : fnPtrType.Orders listed Q ↔ Q () listed := by
  simp [fnPtrType]

@[simp] theorem orders_ptrType : ptrType.Orders listed Q ↔ Q () listed := by
  simp [ptrType]

@[simp] theorem orders_sliceOrArrayType : sliceOrArrayType.Orders listed Q ↔ Q () listed := by
  simp [sliceOrArrayType]

@[simp] theorem orders_pathOrMacroType : pathOrMacroType.Orders listed Q ↔ Q () listed := by
  simp [pathOrMacroType]

theorem orders_typeBody (h : Q () listed) : typeBody.Orders listed Q := by
  simp only [typeBody, orders_bind, orders_peek]
  intro ts
  split <;> simp [h]

/-! ## Patterns -/

@[simp] theorem orders_barredPatterns : barredPatterns.Orders listed Q ↔ Q () listed := by
  simp [barredPatterns]

@[simp] theorem orders_patternAlternatives :
    patternAlternatives.Orders listed Q ↔ Q () listed := by
  simp [patternAlternatives]

@[simp] theorem orders_identPattern : identPattern.Orders listed Q ↔ Q () listed := by
  simp [identPattern]

@[simp] theorem orders_literalPattern : literalPattern.Orders listed Q ↔ Q () listed := by
  simp [literalPattern]

@[simp] theorem orders_recordPatternField :
    recordPatternField.Orders listed Q ↔ Q () listed := by
  simp [recordPatternField]

@[simp] theorem orders_recordPatternFields :
    recordPatternFields.Orders listed Q ↔ Q () listed := by
  simp [recordPatternFields]

@[simp] theorem orders_pathPattern (h : Q () listed) : pathPattern.Orders listed Q := by
  rw [pathPattern, orders_nodeBy, orders_bind, orders_test]
  intro ts
  split
  · simp [h]
  · rw [orders_bind, orders_path, orders_bind, orders_peek]
    intro ts
    split <;> simp [h]

/-- The kind depends on what was read, but it is neither that of a name nor of a field list. -/
@[simp] theorem orders_parenPattern (h : Q () listed) : parenPattern.Orders listed Q := by
  have hkind (p : Prop) [Decidable p] :
      (if p then NodeKind.parenPat else .tuplePat) ≠ .name ∧
        (if p then NodeKind.parenPat else .tuplePat) ≠ .nameRef ∧
        (if p then NodeKind.parenPat else .tuplePat) ≠ .structDef ∧
        (if p then NodeKind.parenPat else .tuplePat) ≠ .recordFieldList ∧
        (if p then NodeKind.parenPat else .tuplePat) ≠ .tupleFieldList := by
    split <;> simp
  simp [parenPattern, hkind, h]

theorem orders_singlePatternBody (h : ∀ found, R found listed) :
    singlePatternBody.Orders listed R := by
  simp only [singlePatternBody, orders_bind, orders_peek]
  intro ts
  split <;> simp [h, singlePatternBody.isAtPath]

/-! ## Expressions and statements -/

@[simp] theorem orders_exprList {closer : TokenKind} :
    (exprList closer).Orders listed Q ↔ Q () listed := by
  simp [exprList]

@[simp] theorem orders_argList : argList.Orders listed Q ↔ Q () listed := by
  simp [argList]

@[simp] theorem orders_parenOrTuple (h : Q () listed) : parenOrTuple.Orders listed Q := by
  have hkind (p : Prop) [Decidable p] :
      (if p then NodeKind.parenExpr else .tupleExpr) ≠ .name ∧
        (if p then NodeKind.parenExpr else .tupleExpr) ≠ .nameRef ∧
        (if p then NodeKind.parenExpr else .tupleExpr) ≠ .structDef ∧
        (if p then NodeKind.parenExpr else .tupleExpr) ≠ .recordFieldList ∧
        (if p then NodeKind.parenExpr else .tupleExpr) ≠ .tupleFieldList := by
    split <;> simp
  simp [parenOrTuple, hkind, h]

@[simp] theorem orders_arrayExpr : arrayExpr.Orders listed Q ↔ Q () listed := by
  simp [arrayExpr]

@[simp] theorem orders_recordField : recordField.Orders listed Q ↔ Q () listed := by
  simp [recordField]

@[simp] theorem orders_recordFields : recordFields.Orders listed Q ↔ Q () listed := by
  simp [recordFields]

@[simp] theorem orders_pathExpr {noRecord : Bool} :
    (pathExpr noRecord).Orders listed Q ↔ Q () listed := by
  simp [pathExpr]

@[simp] theorem orders_closureParams : closureParams.Orders listed Q ↔ Q () listed := by
  simp [closureParams]

@[simp] theorem orders_closureExpr {noRecord : Bool} :
    (closureExpr noRecord).Orders listed Q ↔ Q () listed := by
  simp [closureExpr]

theorem orders_ifBody (h : Q () listed) : ifBody.Orders listed Q := by
  simp only [ifBody, headExpr, block, orders_nodeOf, reduceCtorEq, false_implies,
    NodeKind.isFieldList, or_self, decide_false, Bool.or_false, h, and_self, orders_bind, orders_ite,
    orders_peek, orders_pure, if_true_right, orders_eat, forall_const, Bool.false_eq_true,
    orders_call, orders_report, ite_self, orders_isAt, orders_advance]
  intro ts _ ts
  split <;> simp

@[simp] theorem orders_matchArm : matchArm.Orders listed Q ↔ Q () listed := by
  simp [matchArm]

@[simp] theorem orders_matchArms : matchArms.Orders listed Q ↔ Q () listed := by
  simp [matchArms]

@[simp] theorem orders_matchExpr : matchExpr.Orders listed Q ↔ Q () listed := by
  simp [matchExpr]

@[simp] theorem orders_blockBody {statement : Grammar Unit}
    (h : ∀ P : Bool → Prop, statement.Orders listed (fun _ after => P after) ↔ P listed) :
    (blockBody statement).Orders listed Q ↔ Q () listed := by
  simp [blockBody, h]

@[simp] theorem orders_dotPostfix (h : Q () listed) : dotPostfix.Orders listed Q := by
  rw [dotPostfix, orders_wrap, orders_bind, orders_advance, orders_bind, orders_peek]
  intro ts
  split <;> simp [h]

@[simp] theorem orders_postfixOp (h : ∀ found, R found listed) : postfixOp.Orders listed R := by
  rw [postfixOp, orders_bind, orders_peek]
  intro ts
  split <;> simp [h]

@[simp] theorem orders_rangeEnd {noRecord : Bool} :
    (rangeEnd noRecord).Orders listed Q ↔ Q () listed := by
  simp [rangeEnd]

@[simp] theorem orders_binaryOp {power : Nat} {noRecord : Bool} (h : ∀ found, R found listed) :
    (binaryOp power noRecord).Orders listed R := by
  rw [binaryOp, orders_bind, orders_peek]
  intro ts
  split
  · simp [h]
  · split
    · simp [h]
    · rw [orders_bind, orders_ahead]
      intro ts
      split <;> simp [h]

@[simp] theorem orders_operators {power : Nat} {noRecord : Bool} :
    (operators power noRecord).Orders listed Q ↔ Q () listed := by
  simp [operators]

@[simp] theorem orders_operand {noRecord : Bool} :
    (operand noRecord).Orders listed Q ↔ Q () listed := by
  simp [operand]

@[simp] theorem orders_leftSide {noRecord : Bool} (h : ∀ found, R found listed) :
    (leftSide noRecord).Orders listed R := by
  rw [leftSide, orders_bind, orders_peek]
  intro ts
  split <;> simp [h]

theorem orders_exprBody {power : Nat} {noRecord : Bool} (h : ∀ found, R found listed) :
    (exprBody power noRecord).Orders listed R := by
  simp [exprBody, h]

@[simp] theorem orders_letStatement : letStatement.Orders listed Q ↔ Q () listed := by
  simp [letStatement]

@[simp] theorem orders_statementEnd {needsSemicolon : Bool} :
    (statementEnd needsSemicolon).Orders listed Q ↔ Q () listed := by
  simp only [statementEnd, orders_bind, orders_peek]
  refine ⟨fun h => by simpa [kindAt, tokenAt?] using h [], fun h ts => ?_⟩
  split <;> simp [h]

@[simp] theorem orders_exprStatement : exprStatement.Orders listed Q ↔ Q () listed := by
  simp [exprStatement]

@[simp] theorem orders_statement : statement.Orders listed Q ↔ Q () listed := by
  simp [statement]

@[simp] theorem orders_blockExpr : blockExpr.Orders listed Q ↔ Q () listed := by
  simp [blockExpr]

@[simp] theorem orders_body : labeledLoop.body.Orders listed Q ↔ Q () listed := by
  simp [labeledLoop.body]

@[simp] theorem orders_labeledLoop (h : Q () listed) : labeledLoop.Orders listed Q := by
  simp only [labeledLoop, headExpr, orders_nodeBy, orders_bind, orders_ite, orders_peek,
    orders_nodeOf, reduceCtorEq, false_implies, NodeKind.isFieldList, or_self, decide_false,
    Bool.or_false, true_and, orders_pure, orders_expect, ite_self, forall_const, orders_advance,
    orders_isAt]
  intro ts
  split <;> simp [h]

@[simp] theorem orders_letExpr {noRecord : Bool} :
    (letExpr noRecord).Orders listed Q ↔ Q () listed := by
  simp [letExpr]

@[simp] theorem orders_optValue {noRecord : Bool} :
    (optValue noRecord).Orders listed Q ↔ Q () listed := by
  simp [optValue]

@[simp] theorem orders_asyncBlock : asyncBlock.Orders listed Q ↔ Q () listed := by
  simp [asyncBlock]

theorem orders_atomBody {noRecord : Bool} (h : ∀ found, R found listed) :
    (atomBody noRecord).Orders listed R := by
  rw [atomBody, orders_bind, orders_peek]
  intro ts
  split <;> simp [h]

/-! ## Items -/

theorem orders_items {closer : TokenKind} (h : Q () listed) : (items closer).Orders listed Q := by
  simp [items, h]

@[simp] theorem orders_bracedItems : bracedItems.Orders listed Q ↔ Q () listed := by
  simp [bracedItems, items]

@[simp] theorem orders_receiver : receiver.Orders listed Q ↔ Q () listed := by
  simp [receiver]

@[simp] theorem orders_parameter {first : Bool} :
    (parameter first).Orders listed Q ↔ Q () listed := by
  simp [parameter]

@[simp] theorem orders_parameters : parameters.Orders listed Q ↔ Q () listed := by
  simp [parameters]

@[simp] theorem orders_braceListGoesOn {before : Nat} {fault : Fault} {starts : List TokenKind} :
    (braceListGoesOn before fault starts).Orders listed fun _ after => after = listed := by
  simp [braceListGoesOn]

@[simp] theorem orders_recordFieldList : recordFieldList.Orders listed Q ↔ Q () true := by
  simp [recordFieldList]

@[simp] theorem orders_tupleFieldList : tupleFieldList.Orders listed Q ↔ Q () true := by
  simp [tupleFieldList]

/-- The name of a variant is read before its fields, and none behind them. -/
@[simp] theorem orders_variantList (h : Q () listed) : variantList.Orders listed Q := by
  rw [variantList, orders_nodeOf, orders_bind, orders_advance, orders_bind, orders_loopUntil]
  · simp [h]
  · rw [orders_bind, orders_remaining]
    intro ts
    rw [orders_bind, orders_nodeOf, orders_bind, orders_outerAttributes]
    intro _
    rw [orders_bind]
    refine orders_optVisibility fun _ => ?_
    rw [orders_bind, orders_name, orders_bind, orders_peek]
    intro ts
    split <;> simp

/-! Items are read in a node whose kind they yield, so that the flag is of no use behind them. -/

section

variable {P : NodeKind → Prop}

theorem orders_fnDef (h : P .fnDef) : fnDef.Orders false fun k _ => P k := by
  simp [fnDef, h]

theorem orders_structDef (h : P .structDef) : structDef.Orders false fun k _ => P k := by
  simp only [structDef, orders_bind, orders_advance, orders_name, orders_optGenericParams,
    orders_peek]
  intro ts
  split <;> simp [h]

theorem orders_enumDef (h : P .enumDef) : enumDef.Orders false fun k _ => P k := by
  simp [enumDef, h]

@[simp] theorem orders_assocItems : assocItems.Orders listed Q ↔ Q () listed := by
  simp [assocItems]

theorem orders_implDef (h : P .implDef) : implDef.Orders false fun k _ => P k := by
  simp [implDef, h]

theorem orders_traitDef (h : P .traitDef) : traitDef.Orders false fun k _ => P k := by
  simp [traitDef, h]

theorem orders_modItem (h : P .modItem) : modItem.Orders false fun k _ => P k := by
  simp [modItem, h]

@[simp] theorem orders_nameOrUnderscore : nameOrUnderscore.Orders false Q ↔ Q () false := by
  simp [nameOrUnderscore]

@[simp] theorem orders_useTreeEnd : useTreeEnd.Orders listed Q ↔ Q () listed := by
  simp only [useTreeEnd, orders_bind, orders_peek]
  refine ⟨fun h => by simpa [kindAt, tokenAt?] using h [], fun h ts => ?_⟩
  split <;> simp [h]

theorem orders_useTreeBody (h : Q () listed) : useTreeBody.Orders listed Q := by
  simp only [useTreeBody, orders_nodeOf, orders_bind, orders_peek]
  intro ts
  split <;> simp [h]

theorem orders_useItem (h : P .useItem) : useItem.Orders false fun k _ => P k := by
  simp [useItem, h]

theorem orders_valueItem {kind : NodeKind} (h : P kind) :
    (valueItem kind).Orders false fun k _ => P k := by
  simp [valueItem, h]

theorem orders_typeAlias (h : P .typeAlias) : typeAlias.Orders false fun k _ => P k := by
  simp [typeAlias, h]

theorem orders_macroItem (h : P .macroCall) : macroItem.Orders false fun k _ => P k := by
  simp [macroItem, h]

end

@[simp] theorem orders_qualifiers : qualifiers.Orders listed Q ↔ Q () listed := by
  simp [qualifiers]

theorem orders_bareItem? {P : Option NodeKind → Prop} (hnone : P none)
    (hsome : ∀ k : NodeKind, k ≠ .name ∧ k ≠ .nameRef ∧ k.isFieldList = false → P (some k)) :
    bareItem?.Orders false fun k? _ => P k? := by
  simp only [bareItem?, orders_bind, orders_peek]
  intro ts
  split
  · exact orders_fnDef (hsome _ (by simp))
  · exact orders_structDef (hsome _ (by simp))
  · exact orders_enumDef (hsome _ (by simp))
  · exact orders_implDef (hsome _ (by simp))
  · exact orders_traitDef (hsome _ (by simp))
  · exact orders_useItem (hsome _ (by simp))
  · exact orders_modItem (hsome _ (by simp))
  · exact orders_valueItem (hsome _ (by simp))
  · exact orders_valueItem (hsome _ (by simp))
  · exact orders_typeAlias (hsome _ (by simp))
  · rw [orders_bind, orders_peek]
    intro ts
    split
    · exact orders_implDef (hsome _ (by simp))
    · exact orders_traitDef (hsome _ (by simp))
    · exact hnone
  · rw [orders_bind, orders_test]
    intro ts
    rw [orders_bind, orders_peek]
    intro ts
    rw [orders_ite]
    split
    · exact orders_structDef (hsome _ (by simp))
    · rw [orders_bind, orders_test]
      intro ts
      rw [orders_ite]
      split
      · exact orders_macroItem (hsome _ (by simp))
      · exact hnone

/-! ### Where clauses

The parts of a struct are read by grammars that add one node to it, or none. -/

section

variable {s : ClauseStage} {P : α → ClauseStage → Prop} {Q : Unit → ClauseStage → Prop}
  {R : Bool → ClauseStage → Prop}

@[simp] theorem stages_ite {p : Prop} [Decidable p] {g h : Grammar α} :
    (if p then g else h).Stages s P ↔ if p then g.Stages s P else h.Stages s P := by
  split <;> rfl

@[simp] theorem stages_advance : advance.Stages s Q ↔ Q () s := Iff.rfl

@[simp] theorem stages_report {fault : Fault} : (report fault).Stages s Q ↔ Q () s := Iff.rfl

/-- What is asked of the value and the stage does not depend on them. -/
@[simp] theorem stages_const {g : Grammar α} {p : Prop} : (g.Stages s fun _ _ => p) ↔ p := by
  induction g generalizing s with
  | pure a => exact Iff.rfl
  | bind g f ihg ihf => simp only [Stages, ihg, ihf]
  | ahead => exact ⟨fun h => h [], fun h _ => h⟩
  | advance => exact Iff.rfl
  | report fault => exact Iff.rfl
  | reportFrom fault origin note => exact Iff.rfl
  | node body ih => exact ih
  | wrap body ih => exact Iff.rfl
  | iterate init body ih => exact ⟨fun h => h.elim (fun h => h.2 init) fun h => h init, fun h => .inr fun _ => h⟩
  | call r => exact ⟨fun h => h true, fun h _ => h⟩

@[simp] theorem stages_nodeOf {k : NodeKind} {body : Grammar Unit} :
    (nodeOf k body).Stages s Q ↔ Q () (s.add k) :=
  stages_const

@[simp] theorem stages_peek {n : Nat} {P : TokenKind → ClauseStage → Prop} :
    (peek n).Stages s P ↔ ∀ ts, P (kindAt n ts) s :=
  Iff.rfl

@[simp] theorem stages_test {p : List Token → Bool} :
    (test p).Stages s R ↔ ∀ ts, R (p ts) s :=
  Iff.rfl

@[simp] theorem stages_isAt {k : TokenKind} :
    (isAt k).Stages s R ↔ ∀ ts, R (kindAt 0 ts == k) s :=
  Iff.rfl

@[simp] theorem stages_eat {k : TokenKind} :
    (eat k).Stages s R ↔ ∀ ts, if kindAt 0 ts = k then R true s else R false s := by
  simp [eat]

@[simp] theorem stages_expect {k : TokenKind} :
    (expect k).Stages s R ↔ ∀ ts, if kindAt 0 ts = k then R true s else R false s := by
  simp [expect]

/-- A repetition that keeps the stage. -/
theorem stages_iterate {init : σ} {body : σ → Grammar (σ × Bool)} {P : σ → ClauseStage → Prop}
    (hround : ∀ x, (body x).Stages s fun _ after => after = s) (h : ∀ x, P x s) :
    (iterate init body).Stages s P :=
  .inl ⟨hround, h⟩

theorem stages_outerAttributes (h : ∀ any, R any .before) : outerAttributes.Stages .before R :=
  stages_iterate (by simp [ClauseStage.add]) h

theorem stages_optVisibility (h : ∀ found, R found .before) : optVisibility.Stages .before R := by
  simp [optVisibility, ClauseStage.add, h]

theorem stages_qualifiers (h : Q () .before) : qualifiers.Stages .before Q :=
  stages_iterate (by simp) fun _ => h

@[simp] theorem stages_name : name.Stages .before Q ↔ Q () .before := by
  simp [name, ClauseStage.add]

@[simp] theorem stages_optGenericParams : optGenericParams.Stages .before Q ↔ Q () .before := by
  simp [optGenericParams, ClauseStage.add]

theorem stages_optWhereClause (hbefore : Q () .before) (hbehind : Q () .behind) :
    optWhereClause.Stages .before Q := by
  simp [optWhereClause, ClauseStage.add, hbefore, hbehind]

theorem stages_structDef {P : NodeKind → ClauseStage → Prop} (hbefore : P .structDef .before)
    (hbehind : P .structDef .behind) : structDef.Stages .before P := by
  simp only [structDef, stages_bind, stages_advance, stages_name, stages_optGenericParams, stages_peek]
  intro ts
  split
  · refine stages_optWhereClause ?_ ?_ <;> simp [recordFieldList, ClauseStage.add, hbefore, hbehind]
  · refine stages_optWhereClause ?_ ?_ <;> simp [recordFieldList, ClauseStage.add, hbefore, hbehind]
  · simp only [tupleFieldList, stages_bind, stages_nodeOf, ClauseStage.add]
    refine stages_optWhereClause ?_ ?_ <;> simp [hbefore, hbehind]
  · simp [hbefore]
  · simp [hbefore]

end

/-- Of the items only a struct is asked for the stage. -/
theorem stages_bareItem? :
    bareItem?.Stages .before fun k? s => k? = some .structDef → s ≠ .unknown := by
  simp only [bareItem?, stages_bind, stages_peek]
  intro ts
  split
  · simp [fnDef]
  · exact stages_structDef (by simp) (by simp)
  · simp [enumDef]
  · simp [implDef]
  · simp [traitDef]
  · simp [useItem]
  · simp [modItem]
  · simp [valueItem]
  · simp [valueItem]
  · simp [typeAlias]
  · rw [stages_bind, stages_peek]
    intro ts
    split
    · simp [implDef]
    · simp [traitDef]
    · simp
  · rw [stages_bind, stages_test]
    intro ts
    rw [stages_bind, stages_peek]
    intro ts
    rw [stages_ite]
    split
    · exact stages_structDef (by simp) (by simp)
    · rw [stages_bind, stages_test]
      intro ts
      rw [stages_ite]
      split
      · simp [macroItem]
      · simp

/-- Where an item is a struct, its where clause comes last among its parts. -/
theorem stages_item {rest : Bool → Bool → Option NodeKind → Grammar (Option NodeKind × Bool)}
    (hrest : ∀ attributed visible k? s, (k? = some .structDef → s ≠ .unknown) →
      (rest attributed visible k?).Stages s fun x s => x.1 = some .structDef → s ≠ .unknown) :
    (do
      let attributed ← outerAttributes
      let visible ← optVisibility
      qualifiers
      let k? ← bareItem?
      rest attributed visible k? : Grammar (Option NodeKind × Bool)).Stages .before
        fun x s => x.1 = some .structDef → s ≠ .unknown := by
  rw [stages_bind]
  refine stages_outerAttributes fun attributed => ?_
  rw [stages_bind]
  refine stages_optVisibility fun visible => ?_
  rw [stages_bind]
  refine stages_qualifiers ?_
  rw [stages_bind]
  exact stages_bareItem?.mono fun k? s hs => hrest _ _ _ _ hs

theorem orders_itemBody (h : ∀ found, R found listed) : itemBody.Orders listed R := by
  refine orders_node_of (stages_item fun attributed visible k? s hs => ?_) ?_
  · split
    · simpa using hs
    · simp
  rw [orders_bind, orders_outerAttributes]
  intro attributed
  rw [orders_bind]
  refine orders_optVisibility fun visible => ?_
  rw [orders_bind, orders_qualifiers, orders_bind]
  have hitem : bareItem?.Orders false fun k? _ =>
      k? ≠ some .name ∧ k? ≠ some .nameRef ∧ k?.any (·.isFieldList) = false :=
    orders_bareItem? (by simp) fun k hk => by simpa using hk
  refine hitem.mono fun k? after hk => ?_
  cases k? with
  | some k => simp_all
  | none => simp [h]

@[simp] theorem orders_skipToEnd {fault : Fault} :
    (sourceFile.skipToEnd fault).Orders listed Q ↔ Q () listed := by
  simp [sourceFile.skipToEnd]

end Grammar

/-! ## The named forms -/

open Grammar

theorem Rule.orders_grammar (r : Rule) (listed : Bool) :
    r.grammar.Orders listed fun _ after => after = listed := by
  cases r with
  | type => exact orders_typeBody rfl
  | bounds => simp [Rule.grammar]
  | expr power noRecord => exact orders_exprBody fun _ => rfl
  | atom noRecord => exact orders_atomBody fun _ => rfl
  | pattern => exact orders_singlePatternBody fun _ => rfl
  | block => simp [Rule.grammar]
  | ifExpr => exact orders_ifBody (Q := fun _ after => after = listed) rfl
  | item => exact orders_itemBody fun _ => rfl
  | tokenTree => exact orders_tokenTree rfl
  | useTree => exact orders_useTreeBody (Q := fun _ after => after = listed) rfl
  | pathType => simp [Rule.grammar]

end Reshape
