import Reshape.Decl.Scope
import Reshape.Proofs.Grammar.Heads

/-!
# The words that items are known by

A function, struct, enum or impl block begins with a word of its own. The node that is read takes that word
and does not leave it to a node inside, whatever is wrong with the rest.

* A `Footing` is a place in a run: what is ahead, and whether a token with text was stepped over right in
  the innermost open node.
* `Grammar.Anchors` is a judgement on grammars, by recursion on the term: wherever such an item is closed,
  its node has a token of its own.
* `Grammar.Spares` is for the many grammars that close no such items. `Spares.anchors` leads from there to
  the judgement.
* `Rule.anchors_grammar` is what comes of it for the named forms.
-/

namespace Reshape

/-- A place in a run: the tokens ahead, and whether a token with text was stepped over right in the
innermost open node. -/
structure Footing where
  ahead : List Token
  held : Bool

namespace Footing

/-- The kind of the next token. -/
abbrev next (s : Footing) : TokenKind := kindAt 0 s.ahead

/-- Behind the next token. Only the end of the text has no text. -/
def take (s : Footing) : Footing := ⟨(fromSignificant s.ahead).tail, s.held || s.next != .eof⟩

/-- At the start of a node. -/
def enter (s : Footing) : Footing := ⟨fromSignificant s.ahead, false⟩

end Footing

namespace Grammar

/-! ## A judgement on grammars -/

/-- From a footing, no item that can have generic parameters is closed without a token of its own, and the
property holds of the value and of the footing at the end. -/
def Anchors : {α : Type} → Grammar α → Footing → (α → Footing → Prop) → Prop
  | _, .pure a, s, P => P a s
  | _, .bind g f, s, P => g.Anchors s fun b t => (f b).Anchors t P
  | _, .ahead, s, P => P s.ahead s
  | _, .advance, s, P => P () s.take
  | _, .report _, s, P | _, .reportFrom _ _ _, s, P => P () s
  | _, .node body, s, P => body.Anchors s.enter fun x t =>
      (∀ k ∈ x.1, Scope.isGeneric k = true → t.held = true) ∧ P x.2 ⟨t.ahead, s.held⟩
  | _, .wrap body, s, P => body.Anchors ⟨s.ahead, false⟩ fun k t =>
      Scope.isGeneric k = false ∧ P () ⟨t.ahead, s.held⟩
  | _, .iterate init body, s, P => ∃ I : _ → Footing → Prop, I init s ∧
      (∀ x s, I x s → (body x).Anchors s fun y => I y.1) ∧ ∀ x s, I x s → P x s
  | _, .call _, s, P => ∀ found ts, P found ⟨ts, s.held⟩

/-- Whatever is ahead, the grammar closes no item that can have generic parameters by itself. -/
def Spares : {α : Type} → Grammar α → Prop
  | _, .pure _ | _, .ahead | _, .advance | _, .report _ | _, .reportFrom _ _ _ | _, .call _ => True
  | _, .bind g f => g.Spares ∧ ∀ a, (f a).Spares
  | _, .node body => body.Spares ∧ body.Yields fun x => ∀ k ∈ x.1, Scope.isGeneric k = false
  | _, .wrap body => body.Spares ∧ body.Yields (Scope.isGeneric · = false)
  | _, .iterate _ body => ∀ x, (body x).Spares

variable {α β σ : Type} {g : Grammar α} {s : Footing} {P P' : α → Footing → Prop} {noRecord : Bool}

theorem Anchors.mono (h : g.Anchors s P) (hP : ∀ a t, P a t → P' a t) : g.Anchors s P' := by
  induction g generalizing s with
  | pure a => exact hP a s h
  | bind g f ihg ihf => exact ihg h fun a t hf => ihf a hf hP
  | ahead => exact hP _ s h
  | advance => exact hP () _ h
  | report fault => exact hP () s h
  | reportFrom fault origin note => exact hP () s h
  | node body ih => exact ih h fun x t hx => ⟨hx.1, hP _ _ hx.2⟩
  | wrap body ih => exact ih h fun k t hk => ⟨hk.1, hP _ _ hk.2⟩
  | iterate init body ih =>
    obtain ⟨I, hI, hround, hend⟩ := h
    exact ⟨I, hI, hround, fun x t hx => hP x t (hend x t hx)⟩
  | call r => exact fun found ts => hP _ _ (h found ts)

/-- What a grammar yields is known where it anchors as well. -/
theorem Anchors.and_yields {Q : α → Prop} (h : g.Anchors s P) (hQ : g.Yields Q) :
    g.Anchors s fun a t => P a t ∧ Q a := by
  induction g generalizing s with
  | pure a => exact ⟨h, hQ⟩
  | bind g f ihg ihf => exact (ihg h hQ).mono fun b t hb => ihf b hb.1 hb.2
  | ahead => exact ⟨h, hQ s.ahead⟩
  | advance => exact ⟨h, hQ⟩
  | report fault => exact ⟨h, hQ⟩
  | reportFrom fault origin note => exact ⟨h, hQ⟩
  | node body ih => exact (ih h hQ).mono fun x t hx => ⟨hx.1.1, hx.1.2, hx.2⟩
  | wrap body ih => exact Anchors.mono (g := body) h fun k t hk => ⟨hk.1, hk.2, hQ⟩
  | iterate init body ih =>
    obtain ⟨I, hI, hround, hend⟩ := h
    exact ⟨I, hI, hround, fun x t hx => ⟨hend x t hx, hQ x⟩⟩
  | call r => exact fun found ts => ⟨h found ts, hQ found⟩

/-- What closes no such items anchors them, and what was stepped over stays so. -/
theorem Spares.anchors (h : g.Spares) : g.Anchors s fun _ t => s.held = true → t.held = true := by
  induction g generalizing s with
  | pure a => exact id
  | bind g f ihg ihf =>
    exact (ihg h.1).mono fun a t ht => (ihf a (h.2 a)).mono fun b u hu hs => hu (ht hs)
  | ahead => exact id
  | advance => exact fun hs => by simp [Footing.take, hs]
  | report fault => exact id
  | reportFrom fault origin note => exact id
  | node body ih =>
    refine ((ih h.1).and_yields h.2).mono fun x t hx => ⟨fun k hk hgeneric => ?_, id⟩
    exact absurd hgeneric (by simp [hx.2 k hk])
  | wrap body ih => exact ((ih h.1).and_yields h.2).mono fun k t hk => ⟨hk.2, id⟩
  | iterate init body ih =>
    refine ⟨fun _ t => s.held = true → t.held = true, id, fun x t ht => ?_, fun x t ht => ht⟩
    exact (ih x (h x)).mono fun y u hu hs => hu (ht hs)
  | call r => exact fun _ _ => id

/-! ### Terms -/

@[simp] theorem anchors_bind {g : Grammar β} {f : β → Grammar α} :
    (g >>= f).Anchors s P ↔ g.Anchors s fun b t => (f b).Anchors t P :=
  Iff.rfl

@[simp] theorem anchors_peek {n : Nat} {P : TokenKind → Footing → Prop} :
    (peek n).Anchors s P ↔ P (kindAt n s.ahead) s :=
  Iff.rfl

@[simp] theorem anchors_test {p : List Token → Bool} {P : Bool → Footing → Prop} :
    (test p).Anchors s P ↔ P (p s.ahead) s :=
  Iff.rfl

@[simp] theorem spares_pure {a : α} : (Pure.pure a : Grammar α).Spares := trivial

@[simp] theorem spares_bind {g : Grammar β} {f : β → Grammar α} :
    (g >>= f).Spares ↔ g.Spares ∧ ∀ b, (f b).Spares :=
  Iff.rfl

@[simp] theorem spares_ite {p : Prop} [Decidable p] {g h : Grammar α} :
    (if p then g else h).Spares ↔ if p then g.Spares else h.Spares := by
  split <;> rfl

@[simp] theorem spares_advance : advance.Spares := trivial

@[simp] theorem spares_report {fault : Fault} : (report fault).Spares := trivial

@[simp] theorem spares_reportFrom {fault : Fault} {origin : Span} {note : String} :
    (reportFrom fault origin note).Spares :=
  trivial

@[simp] theorem spares_node {body : Grammar (Option NodeKind × α)} :
    (node body).Spares ↔
      body.Spares ∧ body.Yields fun x => ∀ k ∈ x.1, Scope.isGeneric k = false :=
  Iff.rfl

@[simp] theorem spares_wrap {body : Grammar NodeKind} :
    (wrap body).Spares ↔ body.Spares ∧ body.Yields (Scope.isGeneric · = false) :=
  Iff.rfl

@[simp] theorem spares_iterate {init : σ} {body : σ → Grammar (σ × Bool)} :
    (iterate init body).Spares ↔ ∀ x, (body x).Spares :=
  Iff.rfl

@[simp] theorem spares_call {r : Rule} : (call r).Spares := trivial

/-! ### Common grammars -/

@[simp] theorem spares_ahead : ahead.Spares := trivial

@[simp] theorem spares_peek {n : Nat} : (peek n).Spares := by simp [peek]

@[simp] theorem spares_test {p : List Token → Bool} : (test p).Spares := by simp [test]

@[simp] theorem spares_isAt {k : TokenKind} : (isAt k).Spares := by simp [isAt]

@[simp] theorem spares_isAtAny {ks : List TokenKind} : (isAtAny ks).Spares := by simp [isAtAny]

@[simp] theorem spares_remaining : remaining.Spares := by simp [remaining]

@[simp] theorem spares_nextSpan : nextSpan.Spares := by simp [nextSpan]

@[simp] theorem spares_eat {k : TokenKind} : (eat k).Spares := by simp [eat]

@[simp] theorem spares_expect {k : TokenKind} : (expect k).Spares := by simp [expect]

@[simp] theorem spares_nodeOf {k : NodeKind} {body : Grammar Unit} :
    (nodeOf k body).Spares ↔ body.Spares ∧ Scope.isGeneric k = false := by
  simp [nodeOf]

@[simp] theorem spares_nodeBy {body : Grammar NodeKind} :
    (nodeBy body).Spares ↔ body.Spares ∧ body.Yields (Scope.isGeneric · = false) := by
  simp [nodeBy]

@[simp] theorem spares_skipFaulty {fault : Fault} : (skipFaulty fault).Spares := by
  simp [skipFaulty, Scope.isGeneric]

@[simp] theorem spares_loop {body : Grammar Bool} :
    (loop body).Spares ↔ body.Spares := by
  simp [loop]

@[simp] theorem spares_loopUntil {closer : TokenKind} {body : Grammar Bool} :
    (loopUntil closer body).Spares ↔ body.Spares := by
  simp [loopUntil]

@[simp] theorem spares_commaOrEnd {closer : TokenKind} {before : Nat} :
    (commaOrEnd closer before).Spares := by
  simp [commaOrEnd]

@[simp] theorem spares_commaList {closer : TokenKind} {element : Grammar Unit} :
    (commaList closer element).Spares ↔ element.Spares := by
  simp [commaList]

/-! ### Parts of many forms

One lemma for each form. -/

attribute [local simp] type expr headExpr delimited bounds block singlePattern Scope.isGeneric


@[simp] theorem spares_tokenTree : tokenTree.Spares := by
  simp only [tokenTree, spares_bind, spares_peek, true_and]
  intro k
  split <;> simp

@[simp] theorem spares_nameRef : nameRef.Spares := by simp [nameRef]

@[simp] theorem spares_name : name.Spares := by simp [name]

@[simp] theorem spares_outerAttributes : outerAttributes.Spares := by simp [outerAttributes]

@[simp] theorem spares_innerAttributes : innerAttributes.Spares := by simp [innerAttributes]

@[simp] theorem spares_literalOrNegated : literalOrNegated.Spares := by simp [literalOrNegated]

@[simp] theorem spares_lifetimeBounds : optGenericParams.lifetimeBounds.Spares := by
  simp [optGenericParams.lifetimeBounds]

@[simp] theorem spares_constArg : optGenericParams.constArg.Spares := by
  simp [optGenericParams.constArg]

@[simp] theorem spares_optGenericParams : optGenericParams.Spares := by
  simp only [optGenericParams, spares_bind, spares_isAt, true_and, spares_ite, spares_nodeOf, spares_advance,
    spares_loopUntil, spares_remaining, spares_outerAttributes, spares_peek]
  intro found
  split
  · refine ⟨fun _ => ⟨fun _ _ k => ?_, by simp⟩, by simp⟩
    split <;> simp
  · simp

@[simp] theorem spares_optForBinder : optForBinder.Spares := by simp [optForBinder]

@[simp] theorem spares_retType : retType.Spares := by simp [retType]

@[simp] theorem spares_genericArg : genericArg.Spares := by
  simp only [genericArg, spares_bind, spares_peek, true_and]
  intro k
  split <;> simp

@[simp] theorem spares_genericArgList {joined : Bool} : (genericArgList joined).Spares := by
  simp [genericArgList]

@[simp] theorem spares_segmentArgs {place : PathPlace} : (segmentArgs place).Spares := by
  cases place <;> simp [segmentArgs]

@[simp] theorem spares_pathSegment {place : PathPlace} : (pathSegment place).Spares := by
  simp [pathSegment]

@[simp] theorem spares_path {place : PathPlace} : (path place).Spares := by simp [path]

@[simp] theorem spares_pathType : pathType.Spares := by simp [pathType]

@[simp] theorem spares_macroBody : macroBody.Spares := by simp [macroBody]

@[simp] theorem spares_optVisibility : optVisibility.Spares := by
  simp only [optVisibility, spares_bind, spares_isAt, true_and, spares_ite, spares_nodeOf, spares_advance,
    spares_peek]
  intro found
  split
  · refine ⟨⟨fun _ paren => ?_, by simp⟩, by simp⟩
    split
    · intro k
      split <;> simp
    · simp
  · simp

@[simp] theorem spares_optWhereClause : optWhereClause.Spares := by simp [optWhereClause]

/-! ### Types and bounds -/

@[simp] theorem spares_bound : bound.Spares := by
  simp only [bound, spares_node, spares_bind, spares_peek, true_and, yields_bind, yields_peek]
  refine ⟨fun k => ?_, fun ts => ?_⟩ <;> split <;> simp

@[simp] theorem spares_boundsBody : boundsBody.Spares := by simp [boundsBody]

@[simp] theorem spares_pointerParams : pointerParams.Spares := by simp [pointerParams]

@[simp] theorem spares_fnPtrType : fnPtrType.Spares := by simp [fnPtrType]

@[simp] theorem spares_ptrType : ptrType.Spares := by simp [ptrType]

@[simp] theorem spares_pathOrMacroType : pathOrMacroType.Spares := by simp [pathOrMacroType]

@[simp] theorem spares_sliceOrArrayType : sliceOrArrayType.Spares := by
  refine spares_nodeBy.2 ⟨by simp, yields_of_forall fun _ => yields_of_forall fun _ => by simp⟩

theorem spares_typeBody : typeBody.Spares := by
  simp only [typeBody, spares_bind, spares_peek, true_and]
  intro k
  split <;> simp

/-! ### Patterns -/

@[simp] theorem spares_barredPatterns : barredPatterns.Spares := by simp [barredPatterns]

@[simp] theorem spares_patternAlternatives : patternAlternatives.Spares := by
  simp [patternAlternatives]

@[simp] theorem spares_identPattern : identPattern.Spares := by simp [identPattern]

@[simp] theorem spares_literalPattern : literalPattern.Spares := by simp [literalPattern]

@[simp] theorem spares_recordPatternField : recordPatternField.Spares := by
  simp [recordPatternField]

@[simp] theorem spares_recordPatternFields : recordPatternFields.Spares := by
  simp [recordPatternFields]

@[simp] theorem spares_pathPattern : pathPattern.Spares := by
  refine spares_nodeBy.2 ⟨?_, yields_of_forall fun found => ?_⟩
  · rw [spares_bind]
    refine ⟨spares_test, fun found => ?_⟩
    split
    · simp
    · simp only [spares_bind, spares_path, spares_peek, true_and]
      intro _ k
      split <;> simp
  · split
    · simp
    · refine yields_of_forall fun _ => yields_of_forall fun k => ?_
      split <;> simp

@[simp] theorem spares_parenPattern : parenPattern.Spares := by
  have hkind (p : Prop) [Decidable p] :
      Scope.isGeneric (if p then .parenPat else .tuplePat) = false := by
    split <;> simp
  refine spares_nodeBy.2 ⟨by simp, ?_⟩
  exact yields_of_forall fun _ => yields_of_forall fun _ => yields_of_forall fun _ => hkind _

@[simp] theorem spares_singlePatternBody : singlePatternBody.Spares := by
  simp only [singlePatternBody, spares_bind, spares_peek, true_and]
  intro k
  split <;> simp [singlePatternBody.isAtPath]

/-! ### Expressions and statements -/

@[simp] theorem spares_exprList {closer : TokenKind} : (exprList closer).Spares := by
  simp [exprList]

@[simp] theorem spares_argList : argList.Spares := by simp [argList]

@[simp] theorem spares_recordField : recordField.Spares := by simp [recordField]

@[simp] theorem spares_recordFields : recordFields.Spares := by simp [recordFields]

@[simp] theorem spares_pathExpr : (pathExpr noRecord).Spares := by
  cases noRecord <;> simp [pathExpr]

@[simp] theorem spares_closureParams : closureParams.Spares := by simp [closureParams]

@[simp] theorem spares_closureExpr : (closureExpr noRecord).Spares := by simp [closureExpr]

@[simp] theorem spares_parenOrTuple : parenOrTuple.Spares := by
  have hkind (p : Prop) [Decidable p] :
      Scope.isGeneric (if p then .parenExpr else .tupleExpr) = false := by
    split <;> simp
  refine spares_nodeBy.2 ⟨by simp, ?_⟩
  exact yields_of_forall fun _ => yields_of_forall fun _ => yields_of_forall fun _ => hkind _

@[simp] theorem spares_arrayExpr : arrayExpr.Spares := by simp [arrayExpr]

@[simp] theorem spares_ifBody : ifBody.Spares := by
  simp only [ifBody, headExpr, block, spares_nodeOf, spares_bind, spares_advance, spares_call,
    spares_isAt, spares_ite, spares_eat, spares_peek, spares_pure, spares_report, true_and, and_true,
    Scope.isGeneric, forall_const, ite_self, if_true_right]
  refine ⟨fun _ _ k => ?_, rfl⟩
  split <;> simp

@[simp] theorem spares_matchArm : matchArm.Spares := by simp [matchArm]

@[simp] theorem spares_matchArms : matchArms.Spares := by simp [matchArms]

@[simp] theorem spares_matchExpr : matchExpr.Spares := by simp [matchExpr]

@[simp] theorem spares_blockBody {statement : Grammar Unit} :
    (blockBody statement).Spares ↔ statement.Spares := by
  simp [blockBody]

@[simp] theorem spares_dotPostfix : dotPostfix.Spares := by
  simp only [dotPostfix, spares_wrap, spares_bind, spares_advance, spares_peek, true_and]
  refine ⟨fun _ k => ?_, yields_of_forall fun _ => yields_of_forall fun k => ?_⟩ <;> split <;> simp

@[simp] theorem spares_postfixOp : postfixOp.Spares := by
  simp only [postfixOp, spares_bind, spares_peek, true_and]
  intro k
  split <;> simp

@[simp] theorem spares_rangeEnd : (rangeEnd noRecord).Spares := by simp [rangeEnd]

@[simp] theorem spares_binaryOp {power : Nat} : (binaryOp power noRecord).Spares := by
  simp only [binaryOp, spares_bind, spares_peek, true_and]
  intro k
  split
  · simp
  · split
    · simp
    · rw [spares_bind]
      refine ⟨spares_ahead, fun ts => ?_⟩
      split <;> simp

@[simp] theorem spares_operators {power : Nat} : (operators power noRecord).Spares := by
  simp [operators]

@[simp] theorem spares_operand : (operand noRecord).Spares := by simp [operand]

@[simp] theorem spares_leftSide : (leftSide noRecord).Spares := by
  simp only [leftSide, spares_bind, spares_peek, true_and]
  intro k
  split <;> simp

@[simp] theorem spares_letStatement : letStatement.Spares := by simp [letStatement]

@[simp] theorem spares_statementEnd {needsSemicolon : Bool} :
    (statementEnd needsSemicolon).Spares := by
  simp only [statementEnd, spares_bind, spares_peek, true_and]
  intro k
  split <;> simp

@[simp] theorem spares_exprStatement : exprStatement.Spares := by simp [exprStatement]

@[simp] theorem spares_statement : statement.Spares := by simp [statement]

@[simp] theorem spares_letExpr : (letExpr noRecord).Spares := by simp [letExpr]

@[simp] theorem spares_optValue : (optValue noRecord).Spares := by simp [optValue]

@[simp] theorem spares_exprBody {power : Nat} : (exprBody power noRecord).Spares := by simp [exprBody]

@[simp] theorem spares_blockExpr : blockExpr.Spares := by simp [blockExpr]

@[simp] theorem spares_asyncBlock : asyncBlock.Spares := by simp [asyncBlock]

@[simp] theorem spares_body : labeledLoop.body.Spares := by simp [labeledLoop.body]

@[simp] theorem spares_labeledLoop : labeledLoop.Spares := by
  refine spares_nodeBy.2 ⟨?_, yields_of_forall fun label => ?_⟩
  · simp only [spares_bind, spares_isAt, spares_ite, spares_nodeOf, spares_advance, spares_expect,
      spares_pure, spares_peek, true_and, forall_const, Scope.isGeneric]
    intro label
    split
    · refine ⟨rfl, fun k => ?_⟩
      split <;> simp
    · intro k
      split <;> simp
  · rw [yields_ite]
    split
    · refine yields_of_forall fun _ => yields_of_forall fun k => ?_
      split <;> simp
    · refine yields_of_forall fun k => ?_
      split <;> simp

theorem spares_atomBody : (atomBody noRecord).Spares := by
  simp only [atomBody, spares_bind, spares_peek, true_and]
  intro k
  split <;> simp

/-! ### Items -/

@[simp] theorem spares_items {closer : TokenKind} : (items closer).Spares := by simp [items]

@[simp] theorem spares_bracedItems : bracedItems.Spares := by simp [bracedItems]

@[simp] theorem spares_receiver : receiver.Spares := by simp [receiver]

@[simp] theorem spares_parameter {first : Bool} : (parameter first).Spares := by
  simp [parameter]

@[simp] theorem spares_parameters : parameters.Spares := by simp [parameters]

@[simp] theorem spares_braceListGoesOn {before : Nat} {fault : Fault} {starts : List TokenKind} :
    (braceListGoesOn before fault starts).Spares := by
  simp [braceListGoesOn]

@[simp] theorem spares_recordFieldList : recordFieldList.Spares := by simp [recordFieldList]

@[simp] theorem spares_tupleFieldList : tupleFieldList.Spares := by simp [tupleFieldList]

@[simp] theorem spares_variantList : variantList.Spares := by
  simp only [variantList, spares_nodeOf, spares_bind, spares_advance, spares_loopUntil, spares_remaining,
    spares_outerAttributes, spares_optVisibility, spares_name, spares_peek, spares_braceListGoesOn, true_and]
  refine ⟨fun _ => ⟨fun _ => ⟨⟨fun _ _ _ k => ?_, by simp⟩, by simp⟩, by simp⟩, by simp⟩
  split <;> simp

@[simp] theorem spares_assocItems : assocItems.Spares := by simp [assocItems]

@[simp] theorem spares_nameOrUnderscore : nameOrUnderscore.Spares := by simp [nameOrUnderscore]

@[simp] theorem spares_useTreeEnd : useTreeEnd.Spares := by
  simp only [useTreeEnd, spares_bind, spares_peek, true_and]
  intro k
  split <;> simp

@[simp] theorem spares_useTreeBody : useTreeBody.Spares := by
  simp only [useTreeBody, spares_nodeOf, spares_bind, spares_peek, true_and]
  refine ⟨fun k => ?_, by simp⟩
  split <;> simp

@[simp] theorem spares_valueItem {kind : NodeKind} : (valueItem kind).Spares := by simp [valueItem]

@[simp] theorem spares_qualifiers : qualifiers.Spares := by simp [qualifiers]

@[simp] theorem spares_fnDef : fnDef.Spares := by simp [fnDef]

@[simp] theorem spares_structDef : structDef.Spares := by
  simp only [structDef, spares_bind, spares_advance, spares_name, spares_optGenericParams, spares_peek,
    true_and]
  intro _ _ _ k
  split <;> simp

@[simp] theorem spares_enumDef : enumDef.Spares := by simp [enumDef]

@[simp] theorem spares_implDef : implDef.Spares := by simp [implDef]

@[simp] theorem spares_traitDef : traitDef.Spares := by simp [traitDef]

@[simp] theorem spares_modItem : modItem.Spares := by simp [modItem]

@[simp] theorem spares_useItem : useItem.Spares := by simp [useItem]

@[simp] theorem spares_typeAlias : typeAlias.Spares := by simp [typeAlias]

@[simp] theorem spares_macroItem : macroItem.Spares := by simp [macroItem]

@[simp] theorem spares_skipToEnd {fault : Fault} : (sourceFile.skipToEnd fault).Spares := by
  simp [sourceFile.skipToEnd]

/-! ## Items

The word that an item is known by is next where the item is read. -/

/-- Behind a part that closes no such items. -/
theorem Spares.bind {g : Grammar β} {f : β → Grammar α} (hg : g.Spares)
    (hf : ∀ b t, (f b).Anchors t P) : (g >>= f).Anchors s P :=
  Anchors.mono (g := g) hg.anchors fun b t _ => hf b t

/-- A form that begins with a token that has text takes that token. -/
theorem anchors_advance {f : Unit → Grammar α} (hnext : s.next ≠ .eof) (h : (advance >>= f).Spares) :
    (advance >>= f).Anchors s fun _ t => t.held = true :=
  Anchors.mono (g := f ()) (h.2 ()).anchors fun _ _ ht => ht (by simp [Footing.take, hnext])

/-- If an item was read that can have generic parameters, a token of its own was stepped over. -/
abbrev Backed (k? : Option NodeKind) (t : Footing) : Prop :=
  ∀ k ∈ k?, Scope.isGeneric k = true → t.held = true

theorem anchors_some {g : Grammar NodeKind} (h : g.Anchors s fun _ t => t.held = true) :
    (do return some (← g) : Grammar (Option NodeKind)).Anchors s Backed :=
  Anchors.mono (g := g) h fun _ _ ht _ _ _ => ht

theorem anchors_other {g : Grammar NodeKind} (h : g.Spares) (hk : g.Yields (Scope.isGeneric · = false)) :
    (do return some (← g) : Grammar (Option NodeKind)).Anchors s Backed := by
  refine Anchors.mono (g := g) (h.anchors.and_yields hk) fun k t hkt l hl hgeneric => ?_
  cases hl
  rw [hkt.2] at hgeneric
  cases hgeneric

theorem next_ne_eof_of_contextualAhead {word : String} {ts : List Token}
    (h : contextualAhead word ts = true) : kindAt 0 ts ≠ .eof := by
  rw [contextualAhead, Bool.and_eq_true, beq_iff_eq] at h
  simp [h.1]

theorem anchors_bareItem? : bareItem?.Anchors s Backed := by
  rw [bareItem?, anchors_bind, anchors_peek]
  have hword {k : TokenKind} (h : kindAt 0 s.ahead = k) (hk : k ≠ .eof) : s.next ≠ .eof := by
    rwa [Footing.next, h]
  split
  case h_1 h => exact anchors_some (anchors_advance (hword h (by simp)) spares_fnDef)
  case h_2 h => exact anchors_some (anchors_advance (hword h (by simp)) spares_structDef)
  case h_3 h => exact anchors_some (anchors_advance (hword h (by simp)) spares_enumDef)
  case h_4 h => exact anchors_some (anchors_advance (hword h (by simp)) spares_implDef)
  case h_11 h =>
    rw [anchors_bind, anchors_peek]
    split
    · exact (anchors_advance (hword h (by simp)) (by simp)).mono fun _ _ ht _ _ _ => ht
    · exact (anchors_advance (hword h (by simp)) (by simp)).mono fun _ _ ht _ _ _ => ht
    · exact fun k hk => by cases hk
  case h_12 =>
    rw [anchors_bind, anchors_test, anchors_bind, anchors_peek]
    split
    · next hunion =>
      rw [Bool.and_eq_true] at hunion
      exact anchors_some
        (anchors_advance (next_ne_eof_of_contextualAhead hunion.1) spares_structDef)
    · rw [anchors_bind, anchors_test]
      split
      · exact anchors_other (by simp) (by simp [Scope.isGeneric])
      · exact fun k hk => by cases hk
  all_goals exact anchors_other (by simp) (by simp)

theorem anchors_itemBody : itemBody.Anchors s fun _ t => t.held = s.held := by
  refine Spares.bind spares_outerAttributes fun attributed t => ?_
  refine Spares.bind spares_optVisibility fun visible u => ?_
  refine Spares.bind spares_qualifiers fun _ v => ?_
  refine Anchors.mono (g := bareItem?) anchors_bareItem? fun k? w hk => ?_
  cases k? with
  | some k => split <;> exact ⟨hk, rfl⟩
  | none =>
    split
    · refine ⟨fun k hk hgeneric => ?_, rfl⟩
      cases hk
      cases hgeneric
    · refine ⟨fun k hk => ?_, rfl⟩
      cases hk

end Grammar

open Grammar

/-- Read from any footing, a named form anchors the items in it. -/
theorem Rule.anchors_grammar (r : Rule) (s : Footing) :
    r.grammar.Anchors s fun _ t => s.held = true → t.held = true := by
  cases r with
  | type => exact Spares.anchors (g := do typeBody; return true) (by simp [spares_typeBody])
  | bounds => exact Spares.anchors (g := do boundsBody; return true) (by simp)
  | expr power noRecord => exact Spares.anchors spares_exprBody
  | atom noRecord => exact Spares.anchors spares_atomBody
  | pattern => exact Spares.anchors spares_singlePatternBody
  | block => exact Spares.anchors (g := do blockExpr; return true) (by simp)
  | ifExpr => exact Spares.anchors (g := do ifBody; return true) (by simp)
  | item => exact anchors_itemBody.mono fun _ _ ht hs => ht.trans hs
  | tokenTree => exact Spares.anchors (g := do Grammar.tokenTree; return true) (by simp)
  | useTree => exact Spares.anchors (g := do useTreeBody; return true) (by simp)
  | pathType => exact Spares.anchors (g := do Grammar.pathType; return true) (by simp)

end Reshape
