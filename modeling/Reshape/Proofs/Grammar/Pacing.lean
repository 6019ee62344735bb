import Reshape.Proofs.Grammar.Idle

/-!
# The pace of the forms

One or two lemmas for each grammar say what it does before it reads. `steady_` is that its
repetitions stop behind a round that reads nothing; `idle_` is what `Grammar.Idle` comes to for it:
what is left to show if it has read nothing. Where a token that the grammar asks for is next, there
is nothing to show. Mostly this is so by the look at the next token with which a form begins.

The forms that lists are made of may well read nothing. Their repetitions are steady as they compare
what is left before and behind an element; so all that is asked of an element is that it is steady
itself (`idle_of_steady`).

`Rule.paced` is what comes of it for the named forms, `steady_sourceFile` and `steady_loneExpr` for
whole texts.
-/

namespace Reshape

namespace Grammar

/-! ## Terms -/

section

variable {ρ : Nat} {ts : List Token} {α β σ : Type} {P : α → Prop} {Q : Unit → Prop}
  {R : Bool → Prop}

@[simp] theorem idle_pure {a : α} : (Pure.pure a : Grammar α).Idle ρ ts P ↔ P a := .rfl

@[simp] theorem idle_then {g : Grammar β} {f : β → Grammar α} :
    (g >>= f).Idle ρ ts P ↔ g.Idle ρ ts fun a => (f a).Idle ρ ts P :=
  .rfl

@[simp] theorem idle_ite {p : Prop} [Decidable p] {g h : Grammar α} :
    (if p then g else h).Idle ρ ts P ↔
      if p then g.Idle ρ ts P else h.Idle ρ ts P := by
  split <;> rfl

@[simp] theorem idle_advance : advance.Idle ρ ts Q ↔ (kindAt 0 ts = .eof → Q ()) := .rfl

@[simp] theorem idle_report {fault : Fault} : (report fault).Idle ρ ts Q ↔ Q () := .rfl

@[simp] theorem idle_reportFrom {fault : Fault} {origin : Span} {note : String} :
    (reportFrom fault origin note).Idle ρ ts Q ↔ Q () :=
  .rfl

@[simp] theorem idle_node {body : Grammar (Option NodeKind × α)} :
    (node body).Idle ρ ts P ↔ body.Idle ρ ts fun x => P x.2 :=
  .rfl

@[simp] theorem idle_wrap {body : Grammar NodeKind} :
    (wrap body).Idle ρ ts Q ↔ body.Idle ρ ts fun _ => Q () :=
  .rfl

@[simp] theorem idle_iterate {x : σ} {body : σ → Grammar (σ × Bool)} {P : σ → Prop} :
    (iterate x body).Idle ρ ts P ↔ (body x).Idle ρ ts fun y => y.2 = false ∧ P y.1 :=
  .rfl

@[simp] theorem idle_call {r : Rule} :
    (call r).Idle ρ ts R ↔ r.rank ts < ρ ∧ (¬ r.Moves ts → ∀ found, R found) :=
  .rfl

@[simp] theorem idle_peek {n : Nat} {P : TokenKind → Prop} :
    (peek n).Idle ρ ts P ↔ P (kindAt n ts) := by
  constructor
  · exact fun h => h ts rfl
  · intro h us hus
    show P (kindAt n us)
    rwa [kindAt_congr hus]

@[simp] theorem idle_isAt {k : TokenKind} :
    (isAt k).Idle ρ ts R ↔ R (kindAt 0 ts == k) := by
  simp [isAt]

@[simp] theorem idle_test {p : List Token → Bool} : (test p).Idle ρ ts R ↔
    ∀ us, fromSignificant us = fromSignificant ts → R (p us) :=
  .rfl

@[simp] theorem idle_remaining {P : Nat → Prop} :
    remaining.Idle ρ ts P ↔ P (fromSignificant ts).length := by
  constructor
  · exact fun h => h ts rfl
  · intro h us hus
    show P (fromSignificant us).length
    rwa [hus]

theorem idle_nextSpan {P : Span → Prop} (h : ∀ origin, P origin) :
    nextSpan.Idle ρ ts P :=
  fun _ _ => h _

@[simp] theorem idle_eat {k : TokenKind} (hk : k ≠ .eof) :
    (eat k).Idle ρ ts R ↔ (kindAt 0 ts ≠ k → R false) := by
  rw [eat, idle_then, idle_isAt, idle_ite]
  by_cases h : kindAt 0 ts = k
  · simp [h, hk]
  · simp [h]

@[simp] theorem idle_expect {k : TokenKind} (hk : k ≠ .eof) :
    (expect k).Idle ρ ts R ↔ (kindAt 0 ts ≠ k → R false) := by
  simp [expect, hk]

@[simp] theorem idle_nodeOf {k : NodeKind} {body : Grammar Unit} :
    (nodeOf k body).Idle ρ ts Q ↔ body.Idle ρ ts Q :=
  .rfl

@[simp] theorem idle_nodeBy {body : Grammar NodeKind} :
    (nodeBy body).Idle ρ ts Q ↔ body.Idle ρ ts fun _ => Q () :=
  .rfl

@[simp] theorem idle_skipFaulty {fault : Fault} :
    (skipFaulty fault).Idle ρ ts Q ↔ (kindAt 0 ts = .eof → Q ()) :=
  .rfl

@[simp] theorem idle_loop {body : Grammar Bool} :
    (loop body).Idle ρ ts Q ↔ body.Idle ρ ts fun goesOn => goesOn = false ∧ Q () :=
  .rfl

@[simp] theorem idle_loopUntil {closer : TokenKind} {body : Grammar Bool} :
    (loopUntil closer body).Idle ρ ts Q ↔
      if kindAt 0 ts = closer ∨ kindAt 0 ts = .eof then Q ()
      else body.Idle ρ ts fun goesOn => goesOn = false ∧ Q () := by
  simp [loopUntil]

@[simp] theorem idle_commaOrEnd {closer : TokenKind} :
    (commaOrEnd closer (fromSignificant ts).length).Idle ρ ts R ↔ R false := by
  simp [commaOrEnd]

/-! ### Steady terms -/

@[simp] theorem steady_pure {a : α} : (Pure.pure a : Grammar α).Steady := trivial

@[simp] theorem steady_pure' {a : α} : (Grammar.pure a).Steady := trivial

@[simp] theorem steady_bind {g : Grammar β} {f : β → Grammar α} :
    (g >>= f).Steady ↔ g.Steady ∧ ∀ b, (f b).Steady :=
  .rfl

@[simp] theorem steady_ite {p : Prop} [Decidable p] {g h : Grammar α} :
    (if p then g else h).Steady ↔ (p → g.Steady) ∧ (¬ p → h.Steady) := by
  split <;> simp_all

@[simp] theorem steady_ahead : ahead.Steady := trivial
@[simp] theorem steady_advance : advance.Steady := trivial
@[simp] theorem steady_report {fault : Fault} : (report fault).Steady := trivial
@[simp] theorem steady_reportFrom {fault : Fault} {origin : Span} {note : String} :
    (reportFrom fault origin note).Steady := trivial
@[simp] theorem steady_node {body : Grammar (Option NodeKind × α)} :
    (node body).Steady ↔ body.Steady := .rfl
@[simp] theorem steady_wrap {body : Grammar NodeKind} : (wrap body).Steady ↔ body.Steady := .rfl
@[simp] theorem steady_iterate {x : σ} {body : σ → Grammar (σ × Bool)} :
    (iterate x body).Steady ↔
      (∀ x, (body x).Steady) ∧ ∀ x ts, (body x).Idle 4 ts fun y => y.2 = false := .rfl
@[simp] theorem steady_call {r : Rule} : (call r).Steady := trivial

@[simp] theorem steady_peek {n : Nat} : (peek n).Steady := by simp [peek]
@[simp] theorem steady_test {p : List Token → Bool} : (test p).Steady := by simp [test]
@[simp] theorem steady_isAt {k : TokenKind} : (isAt k).Steady := by simp [isAt]
@[simp] theorem steady_isAtAny {ks : List TokenKind} : (isAtAny ks).Steady := by simp [isAtAny]
@[simp] theorem steady_remaining : remaining.Steady := by simp [remaining]
@[simp] theorem steady_nextSpan : nextSpan.Steady := by simp [nextSpan]
@[simp] theorem steady_eat {k : TokenKind} : (eat k).Steady := by simp [eat]
@[simp] theorem steady_expect {k : TokenKind} : (expect k).Steady := by simp [expect]
@[simp] theorem steady_nodeOf {k : NodeKind} {body : Grammar Unit} :
    (nodeOf k body).Steady ↔ body.Steady := by simp [nodeOf]
@[simp] theorem steady_nodeBy {body : Grammar NodeKind} : (nodeBy body).Steady ↔ body.Steady := by
  simp [nodeBy]
@[simp] theorem steady_skipFaulty {fault : Fault} : (skipFaulty fault).Steady := by simp [skipFaulty]
theorem steady_loop {body : Grammar Bool} (hbody : body.Steady)
    (hidle : ∀ ts, body.Idle 4 ts fun goesOn => goesOn = false) : (loop body).Steady := by
  simpa [loop, hbody] using hidle
theorem steady_loopUntil {closer : TokenKind} {body : Grammar Bool} (hbody : body.Steady)
    (hidle : ∀ ts, kindAt 0 ts ≠ closer → kindAt 0 ts ≠ .eof →
      body.Idle 4 ts fun goesOn => goesOn = false) : (loopUntil closer body).Steady := by
  refine steady_loop (by simp [hbody]) fun ts => ?_
  rw [idle_then, idle_isAt, idle_then, idle_isAt, idle_ite]
  split
  · rfl
  · next h => exact hidle ts (by grind) (by grind)

@[simp] theorem steady_commaOrEnd {closer : TokenKind} {before : Nat} :
    (commaOrEnd closer before).Steady := by
  simp [commaOrEnd]

@[simp] theorem steady_commaList {closer : TokenKind} {element : Grammar Unit}
    (h : element.Steady) : (commaList closer element).Steady := by
  refine steady_loopUntil (by simp [h]) fun ts _ _ => ?_
  simp only [idle_then, idle_remaining, idle_commaOrEnd]
  exact (h.idle ts).mono fun _ _ => trivial

end

variable {ρ : Nat} {ts : List Token} {Q : Unit → Prop} {R : Bool → Prop}

/-! ## Parts of many forms -/

@[simp] theorem steady_type : type.Steady := by simp [type]
@[simp] theorem steady_expr : expr.Steady := by simp [expr]
@[simp] theorem steady_headExpr : headExpr.Steady := by simp [headExpr]
@[simp] theorem steady_delimited : delimited.Steady := by simp [delimited]
@[simp] theorem steady_bounds : bounds.Steady := by simp [bounds]
@[simp] theorem steady_block : block.Steady := by simp [block]
@[simp] theorem steady_singlePattern : singlePattern.Steady := by simp [singlePattern]

@[simp] theorem idle_type :
    type.Idle ρ ts Q ↔ 0 < ρ ∧ (¬ BareFor ts → Q ()) := by
  simp [type, Rule.rank, Rule.Moves]

@[simp] theorem idle_expr : expr.Idle ρ ts R ↔ 2 < ρ ∧ ∀ found, R found := by
  simp [expr, Rule.rank, Rule.Moves]

@[simp] theorem idle_headExpr : headExpr.Idle ρ ts Q ↔ 2 < ρ ∧ Q () := by
  simp [headExpr, Rule.rank, Rule.Moves]

@[simp] theorem idle_delimited :
    delimited.Idle ρ ts Q ↔ 0 < ρ ∧ (closerOf? (kindAt 0 ts) = none → Q ()) := by
  simp [delimited, Rule.rank, Rule.Moves]

@[simp] theorem idle_bounds : bounds.Idle ρ ts Q ↔ 0 < ρ ∧ Q () := by
  simp [bounds, Rule.rank, Rule.Moves]

@[simp] theorem idle_block : block.Idle ρ ts Q ↔ 0 < ρ ∧ Q () := by
  simp [block, Rule.rank, Rule.Moves]

/-! ### Token trees, names and attributes -/

theorem steady_tokenTree : tokenTree.Steady := by
  rw [tokenTree, steady_bind]
  refine ⟨steady_peek, fun k => ?_⟩
  split
  · exact steady_report
  · simp only [steady_bind, steady_nextSpan, steady_nodeOf, steady_advance, true_and]
    exact fun _ _ => steady_loop (by simp) fun ts => by simp; grind

theorem idle_tokenTree (h : closerOf? (kindAt 0 ts) = none → Q ()) : tokenTree.Idle ρ ts Q := by
  simp only [tokenTree, idle_then, idle_peek]
  split
  · next hcloser => exact h hcloser
  · next closer hcloser =>
    refine idle_nextSpan fun origin heof => ?_
    rw [heof] at hcloser
    cases hcloser

@[simp] theorem steady_nameRef : nameRef.Steady := by simp [nameRef]

@[simp] theorem steady_name : name.Steady := by simp [name]

@[simp] theorem idle_nameRef : nameRef.Idle ρ ts Q ↔ (kindAt 0 ts = .eof → Q ()) := .rfl

@[simp] theorem idle_name : name.Idle ρ ts Q ↔ (kindAt 0 ts ≠ .ident → Q ()) := by
  by_cases h : kindAt 0 ts = .ident <;> simp [name, h]

@[simp] theorem steady_outerAttributes : outerAttributes.Steady := by
  simp [outerAttributes]
  grind

@[simp] theorem idle_outerAttributes : outerAttributes.Idle ρ ts R ↔
    (¬ (kindAt 0 ts = .pound ∧ kindAt 1 ts = .lBracket) → R false) := by
  simp [outerAttributes]
  grind

@[simp] theorem steady_innerAttributes : innerAttributes.Steady :=
  steady_loop (by simp) fun ts => by simp; grind

@[simp] theorem steady_literalOrNegated : literalOrNegated.Steady := by simp [literalOrNegated]

/-! ### Paths -/

@[simp] theorem steady_lifetimeBounds : optGenericParams.lifetimeBounds.Steady :=
  steady_loop (by simp) fun ts => by simp

@[simp] theorem steady_constArg : optGenericParams.constArg.Steady := by
  simp [optGenericParams.constArg]

@[simp] theorem steady_optGenericParams : optGenericParams.Steady := by
  simp [optGenericParams]
  refine steady_loopUntil ?_ fun ts hgt heof => ?_
  · simp
    intro _ k
    split <;> simp
  · simp
    intro _
    split <;> simp_all

@[simp] theorem steady_optForBinder : optForBinder.Steady := by simp [optForBinder]

@[simp] theorem idle_optForBinder : optForBinder.Idle ρ ts Q ↔
    (¬ (kindAt 0 ts = .keyword .forKw ∧ kindAt 1 ts = .lt) → Q ()) := by
  simp [optForBinder]
  grind

@[simp] theorem steady_retType : retType.Steady := by simp [retType]

@[simp] theorem steady_genericArg : genericArg.Steady := by
  simp [genericArg]
  intro k
  split <;> simp

@[simp] theorem steady_genericArgList {joined : Bool} : (genericArgList joined).Steady := by
  simp [genericArgList]

@[simp] theorem steady_segmentArgs {place : PathPlace} : (segmentArgs place).Steady := by
  cases place <;> simp [segmentArgs]

theorem idle_segmentArgs {place : PathPlace} (h : Q ()) :
    (segmentArgs place).Idle ρ ts Q := by
  cases place <;> simp [segmentArgs, genericArgList] <;> grind

@[simp] theorem steady_pathSegment {place : PathPlace} : (pathSegment place).Steady := by
  simp [pathSegment]

/-- A segment is read where one can start. -/
theorem idle_pathSegment {place : PathPlace} (h : (kindAt 0 ts).isPathWord = false →
    ¬ (kindAt 0 ts = .lt ∧ place ≠ .inUse) → Q ()) : (pathSegment place).Idle ρ ts Q := by
  simp only [pathSegment, idle_nodeOf, idle_then, idle_peek, idle_ite]
  split
  · next hword => simp [ne_eof_of_isPathWord hword]
  · split
    · next hlt => simp [hlt.1]
    · next hword hlt => exact idle_segmentArgs (h (by simpa using hword) hlt)

@[simp] theorem steady_path {place : PathPlace} : (path place).Steady := by
  simp [path]
  refine steady_loop (by simp) fun ts => ?_
  simp
  grind

/-- A path is read where one can start: at two colons, at a name, or at the sign `<` in front of a
type, but not in an import. -/
theorem idle_path {place : PathPlace} (h : kindAt 0 ts ≠ .colonColon →
    (kindAt 0 ts).isPathWord = false → ¬ (kindAt 0 ts = .lt ∧ place ≠ .inUse) → Q ()) :
    (path place).Idle ρ ts Q := by
  simp only [path, idle_nodeOf, idle_then]
  rw [idle_eat (by simp)]
  intro hcolon
  refine idle_pathSegment fun hword hlt => ?_
  simp [hcolon, h hcolon hword hlt]

theorem idle_path_of_starts {place : PathPlace} (hplace : place ≠ .inUse)
    (h : startsPath (kindAt 0 ts) = true) : (path place).Idle ρ ts Q := by
  refine idle_path fun hcolon hword hlt => ?_
  simp_all [startsPath]

@[simp] theorem steady_pathType : pathType.Steady := by simp [pathType]

@[simp] theorem steady_macroBody : macroBody.Steady := by simp [macroBody]

theorem idle_of_steady {α : Type} {g : Grammar α} {P : α → Prop} (hg : g.Steady) (h : ∀ a, P a) :
    g.Idle 4 ts P :=
  (hg.idle ts).mono fun a _ => h a

/-! ### Visibilities and where clauses -/

@[simp] theorem steady_optVisibility : optVisibility.Steady := by
  simp [optVisibility]
  intro k
  split <;> simp

@[simp] theorem idle_optVisibility : optVisibility.Idle ρ ts R ↔
    (kindAt 0 ts ≠ .keyword .pubKw → R false) := by
  by_cases h : kindAt 0 ts = .keyword .pubKw <;> simp [optVisibility, h]

@[simp] theorem steady_optWhereClause : optWhereClause.Steady := by
  simp [optWhereClause]
  refine steady_loop (by simp) fun ts => ?_
  simp
  grind

/-! ## Types -/

@[simp] theorem steady_bound : bound.Steady := by
  simp [bound]
  intro k
  split <;> simp

theorem idle_bound (h : ∀ found, R found) : bound.Idle ρ ts R := by
  simp only [bound, idle_node, idle_then, idle_peek]
  split
  · next hk => simp [hk]
  · next hk => simp [hk]
  · next hk => simp [hk]
  · next hk =>
    rw [idle_then, idle_optForBinder]
    exact fun _ => idle_path fun _ _ _ => h true
  · rw [idle_then, idle_test]
    intro us hus
    rw [pathAhead_congr hus, idle_ite]
    split
    · next hpath => exact idle_path_of_starts (by simp) (startsPath_of_pathAhead hpath)
    · exact h false

@[simp] theorem steady_boundsBody : boundsBody.Steady := by
  simp [boundsBody]
  refine steady_loop (by simp) fun ts => ?_
  rw [idle_then]
  exact idle_bound (by simp)

theorem idle_boundsBody (h : Q ()) : boundsBody.Idle ρ ts Q := by
  simp [boundsBody]
  exact idle_bound (by simp [h])

@[simp] theorem steady_pointerParams : pointerParams.Steady := by
  simp [pointerParams]

@[simp] theorem steady_fnPtrType : fnPtrType.Steady := by
  simp [fnPtrType]

@[simp] theorem steady_ptrType : ptrType.Steady := by
  simp [ptrType]

@[simp] theorem steady_sliceOrArrayType : sliceOrArrayType.Steady := by
  simp [sliceOrArrayType]

@[simp] theorem steady_pathOrMacroType : pathOrMacroType.Steady := by
  simp [pathOrMacroType]

theorem idle_pathOrMacroType (h : startsPath (kindAt 0 ts) = true) :
    pathOrMacroType.Idle ρ ts Q := by
  simp only [pathOrMacroType, idle_then, idle_test, idle_ite]
  intro us hus
  split <;> exact idle_path_of_starts (by simp) h

@[simp] theorem steady_typeBody : typeBody.Steady := by
  simp [typeBody]
  intro k
  split <;> simp

theorem idle_typeBody (hbare : BareFor ts → 0 < ρ) (h : ¬ BareFor ts → Q ()) :
    typeBody.Idle ρ ts Q := by
  simp only [typeBody, idle_then, idle_peek]
  -- A token of its own is read at once; there remain `for`, names and paths.
  split <;> try simp [*, ptrType, sliceOrArrayType, fnPtrType]
  · next hk =>
    intro hlt
    have hfor : BareFor ts := ⟨hk, hlt⟩
    exact ⟨hbare hfor, fun hnot => absurd hfor hnot⟩
  · next hk =>
    have hnotBare : ¬ BareFor ts := by simp [BareFor, hk]
    have hpath : startsPath (kindAt 0 ts) = true := by rw [hk]; rfl
    intro us _ _ us _
    split
    · exact fun _ _ _ => h hnotBare
    · exact idle_pathOrMacroType hpath
  · next hfor _ =>
    intro us hus
    rw [pathAhead_congr hus]
    split
    · next hpath => exact idle_pathOrMacroType (startsPath_of_pathAhead hpath)
    · exact h fun hbare => hfor hbare.1

/-! ## Patterns -/

@[simp] theorem steady_barredPatterns : barredPatterns.Steady :=
  steady_loop (by simp) fun ts => by simp

@[simp] theorem steady_patternAlternatives : patternAlternatives.Steady := by
  simp [patternAlternatives]

@[simp] theorem steady_identPattern : identPattern.Steady := by
  simp [identPattern]

@[simp] theorem steady_literalPattern : literalPattern.Steady := by
  simp [literalPattern]

@[simp] theorem steady_recordPatternField : recordPatternField.Steady := by
  simp [recordPatternField]

@[simp] theorem steady_recordPatternFields : recordPatternFields.Steady := by
  simp [recordPatternFields]
  refine steady_loopUntil (by simp) fun ts hend heof => ?_
  simp
  intro _
  refine idle_of_steady (by simp) ?_
  simp [heof]

@[simp] theorem steady_pathPattern : pathPattern.Steady := by
  simp [pathPattern]
  intro k
  split <;> simp

theorem idle_pathPattern (h : startsPath (kindAt 0 ts) = true) : pathPattern.Idle ρ ts Q := by
  simp only [pathPattern, idle_nodeBy, idle_then, idle_test, idle_ite]
  intro us hus
  split <;> exact idle_path_of_starts (by simp) h

@[simp] theorem steady_parenPattern : parenPattern.Steady := by
  simp [parenPattern]
  intro ts _ _
  exact idle_of_steady (by simp) (by simp)

@[simp] theorem steady_singlePatternBody : singlePatternBody.Steady := by
  simp [singlePatternBody]
  intro k
  split <;> simp [singlePatternBody.isAtPath]

theorem idle_singlePatternBody (h : R false) : singlePatternBody.Idle ρ ts R := by
  simp only [singlePatternBody, idle_then, idle_peek]
  -- All but names and paths start with a token of their own.
  split <;> try simp [*, parenPattern, identPattern, literalPattern, literalOrNegated,
    TokenKind.isLiteral]
  case h_15 hk =>
    intro us _ _
    rw [singlePatternBody.isAtPath, idle_then, idle_peek]
    exact fun _ => idle_pathPattern (by rw [hk]; rfl)
  all_goals
    next hk => exact idle_pathPattern (by rw [hk]; rfl)

/-! ## Expressions -/

@[simp] theorem steady_exprList {closer : TokenKind} : (exprList closer).Steady := by
  simp [exprList]

@[simp] theorem steady_argList : argList.Steady := by
  simp [argList]

@[simp] theorem steady_parenOrTuple : parenOrTuple.Steady := by
  simp [parenOrTuple]

@[simp] theorem steady_arrayExpr : arrayExpr.Steady := by
  simp [arrayExpr]

@[simp] theorem steady_recordField : recordField.Steady := by
  simp [recordField]

@[simp] theorem steady_recordFields : recordFields.Steady := by
  simp [recordFields]
  refine steady_loopUntil (by simp) fun ts hend heof => ?_
  simp
  intro _
  refine idle_of_steady (by simp) ?_
  simp [heof]

@[simp] theorem steady_pathExpr {noRecord : Bool} : (pathExpr noRecord).Steady := by
  simp [pathExpr]

theorem idle_pathExpr {noRecord : Bool} (h : startsPath (kindAt 0 ts) = true) :
    (pathExpr noRecord).Idle ρ ts Q := by
  simp only [pathExpr, idle_nodeBy, idle_then, idle_test, idle_ite]
  intro us hus
  split <;> exact idle_path_of_starts (by simp) h

@[simp] theorem steady_closureParams : closureParams.Steady := by
  simp [closureParams]

@[simp] theorem steady_closureExpr {noRecord : Bool} : (closureExpr noRecord).Steady := by
  simp [closureExpr]

@[simp] theorem steady_ifBody : ifBody.Steady := by
  simp [ifBody]
  intro k
  split <;> simp

@[simp] theorem steady_matchArm : matchArm.Steady := by
  simp [matchArm]

@[simp] theorem steady_matchArms : matchArms.Steady := by
  simp [matchArms]
  refine steady_loopUntil (by simp) fun ts hend heof => ?_
  simp
  refine idle_of_steady (by simp) ?_
  simp [heof]

@[simp] theorem steady_matchExpr : matchExpr.Steady := by
  simp [matchExpr]

theorem steady_blockBody {statement : Grammar Unit} (h : statement.Steady) :
    (blockBody statement).Steady := by
  simp [blockBody]
  refine steady_loopUntil (by simp [h]) fun ts hend heof => ?_
  simp
  refine idle_of_steady h ?_
  simp [heof]

/-! ### Operators -/

@[simp] theorem steady_dotPostfix : dotPostfix.Steady := by
  simp [dotPostfix]
  intro k
  split <;> simp

@[simp] theorem steady_postfixOp : postfixOp.Steady := by
  simp [postfixOp]
  intro k
  split <;> simp

theorem idle_postfixOp (h : R false) : postfixOp.Idle ρ ts R := by
  simp only [postfixOp, idle_then, idle_peek]
  split <;> simp [*, argList, dotPostfix]

@[simp] theorem steady_rangeEnd {noRecord : Bool} : (rangeEnd noRecord).Steady := by
  simp [rangeEnd]

@[simp] theorem steady_binaryOp {power : Nat} {noRecord : Bool} :
    (binaryOp power noRecord).Steady := by
  simp [binaryOp]
  intro _ _ _ _ ts
  split <;> simp

theorem idle_binaryOp {power : Nat} {noRecord : Bool} (h : R false) :
    (binaryOp power noRecord).Idle ρ ts R := by
  simp only [binaryOp, idle_then, idle_peek, idle_ite]
  split
  · next hk => simp [hk, h]
  · split
    · next hk => obtain hk | hk := hk <;> simp [hk, h]
    · intro us hus
      split
      · exact h
      · next op hop =>
        have hk := kindAt_ne_eof_of_infixAhead hop
        rw [kindAt_congr hus] at hk
        simp [hk, h]

@[simp] theorem steady_operators {power : Nat} {noRecord : Bool} :
    (operators power noRecord).Steady := by
  refine steady_loop (by simp) fun ts => ?_
  rw [idle_ite]
  split
  · exact idle_postfixOp (idle_binaryOp rfl)
  · exact idle_binaryOp rfl

theorem idle_operators {power : Nat} {noRecord : Bool} (h : Q ()) :
    (operators power noRecord).Idle ρ ts Q := by
  rw [operators, idle_loop, idle_ite]
  split
  · exact idle_postfixOp (idle_binaryOp ⟨rfl, h⟩)
  · exact idle_binaryOp ⟨rfl, h⟩

@[simp] theorem steady_operand {noRecord : Bool} : (operand noRecord).Steady := by
  simp [operand]

@[simp] theorem steady_leftSide {noRecord : Bool} : (leftSide noRecord).Steady := by
  simp [leftSide]
  intro k
  split <;> simp

@[simp] theorem steady_exprBody {power : Nat} {noRecord : Bool} :
    (exprBody power noRecord).Steady := by
  simp [exprBody]

theorem idle_exprBody {power : Nat} {noRecord : Bool} (hρ : 1 < ρ) (h : ∀ found, R found) :
    (exprBody power noRecord).Idle ρ ts R := by
  simp only [exprBody, leftSide, idle_then, idle_peek]
  split <;> try simp [*]
  refine ⟨hρ, fun _ => ?_⟩
  exact idle_operators trivial

/-! ### Statements -/

@[simp] theorem steady_letStatement : letStatement.Steady := by
  simp [letStatement]

@[simp] theorem steady_statementEnd {needsSemicolon : Bool} :
    (statementEnd needsSemicolon).Steady := by
  simp [statementEnd]
  intro k
  split <;> simp

@[simp] theorem steady_exprStatement : exprStatement.Steady := by
  simp [exprStatement]

@[simp] theorem steady_statement : statement.Steady := by
  simp [statement]

@[simp] theorem steady_blockExpr : blockExpr.Steady := by
  simp [blockExpr, steady_blockBody]

theorem idle_blockBody {statement : Grammar Unit} (h : Q ()) :
    (blockBody statement).Idle ρ ts Q := by
  rw [blockBody, idle_then]
  refine idle_nextSpan fun origin => ?_
  rw [idle_then, idle_expect (by simp)]
  exact fun _ => h

/-! ### Operands -/

@[simp] theorem steady_body : labeledLoop.body.Steady := by
  simp [labeledLoop.body]

@[simp] theorem steady_labeledLoop : labeledLoop.Steady := by
  simp [labeledLoop]
  intro k
  split <;> simp [steady_blockBody]

theorem idle_labeledLoop (h : kindAt 0 ts ∈ [.keyword .whileKw, .keyword .loopKw, .keyword .forKw,
    .lifetime]) : labeledLoop.Idle ρ ts Q := by
  simp only [List.mem_cons, List.not_mem_nil, or_false] at h
  obtain h | h | h | h := h <;> simp [labeledLoop, h]

@[simp] theorem steady_letExpr {noRecord : Bool} : (letExpr noRecord).Steady := by
  simp [letExpr]

@[simp] theorem steady_optValue {noRecord : Bool} : (optValue noRecord).Steady := by
  simp [optValue]

@[simp] theorem steady_asyncBlock : asyncBlock.Steady := by
  simp [asyncBlock, steady_blockBody]

@[simp] theorem steady_atomBody {noRecord : Bool} : (atomBody noRecord).Steady := by
  simp [atomBody]
  intro k
  split <;> simp [steady_blockBody]

theorem idle_atomBody {noRecord : Bool} (hρ : 0 < ρ) (h : ∀ found, R found) :
    (atomBody noRecord).Idle ρ ts R := by
  simp only [atomBody, idle_then, idle_peek]
  -- All but names, paths and loops start with a token of their own or enter another form.
  split <;> try simp [*, parenOrTuple, arrayExpr, matchExpr, letExpr, Rule.rank, closureExpr,
    closureParams]
  case h_7 hk =>
    intro us _ _ us _
    split
    · simp [asyncBlock, hk]
    · exact idle_pathExpr (by rw [hk]; rfl)
  all_goals
    next hk =>
      first
      | exact idle_pathExpr (by rw [hk]; rfl)
      | exact idle_labeledLoop (by simp [hk])

theorem idle_ifBody (h : kindAt 0 ts = .eof → 2 < ρ ∧ Q ()) : ifBody.Idle ρ ts Q := by
  simp [ifBody]
  intro heof
  simp [heof, h]

/-! ## Items -/

@[simp] theorem steady_items {closer : TokenKind} : (items closer).Steady := by
  refine steady_loopUntil (by simp) fun ts hend heof => ?_
  simp [heof, Rule.rank]

@[simp] theorem steady_bracedItems : bracedItems.Steady := by
  simp [bracedItems]

@[simp] theorem steady_receiver : receiver.Steady := by
  simp [receiver]

@[simp] theorem steady_parameter {first : Bool} : (parameter first).Steady := by
  simp [parameter]

@[simp] theorem steady_parameters : parameters.Steady := by
  simp [parameters]
  constructor <;>
  · intro ts hend heof
    exact idle_of_steady (by simp) fun _ => hend

@[simp] theorem steady_fnDef : fnDef.Steady := by
  simp [fnDef]

@[simp] theorem steady_braceListGoesOn {before : Nat} {fault : Fault} {starts : List TokenKind} :
    (braceListGoesOn before fault starts).Steady := by
  simp [braceListGoesOn]

/-- Where nothing was read, the list goes on behind a comma or a token that is skipped. -/
theorem idle_braceListGoesOn {fault : Fault} {starts : List TokenKind}
    (hend : kindAt 0 ts ≠ .rBrace) (heof : kindAt 0 ts ≠ .eof) :
    (braceListGoesOn (fromSignificant ts).length fault starts).Idle ρ ts R := by
  simp [braceListGoesOn, hend, heof]

@[simp] theorem steady_recordFieldList : recordFieldList.Steady := by
  simp [recordFieldList]
  refine steady_loopUntil (by simp) fun ts hend heof => ?_
  rw [idle_then, idle_remaining, idle_then]
  exact idle_of_steady (by simp) fun _ => idle_braceListGoesOn hend heof

@[simp] theorem steady_tupleFieldList : tupleFieldList.Steady := by
  simp [tupleFieldList]
  refine steady_loopUntil (by simp) fun ts hend heof => ?_
  rw [idle_then, idle_remaining, idle_then]
  exact idle_of_steady (by simp) fun _ => by simp [hend]

@[simp] theorem steady_structDef : structDef.Steady := by
  simp [structDef]
  intro k
  split <;> simp

@[simp] theorem steady_variantList : variantList.Steady := by
  simp [variantList]
  refine steady_loopUntil ?_ fun ts hend heof => ?_
  · simp
    intro k
    split <;> simp
  · rw [idle_then, idle_remaining, idle_then]
    refine idle_of_steady ?_ fun _ => idle_braceListGoesOn hend heof
    simp
    intro k
    split <;> simp

@[simp] theorem steady_enumDef : enumDef.Steady := by
  simp [enumDef]

@[simp] theorem steady_assocItems : assocItems.Steady := by
  simp [assocItems]

@[simp] theorem steady_implDef : implDef.Steady := by
  simp [implDef]

@[simp] theorem steady_traitDef : traitDef.Steady := by
  simp [traitDef]

@[simp] theorem steady_modItem : modItem.Steady := by
  simp [modItem]

@[simp] theorem steady_nameOrUnderscore : nameOrUnderscore.Steady := by
  simp [nameOrUnderscore]

@[simp] theorem steady_useTreeEnd : useTreeEnd.Steady := by
  simp [useTreeEnd]
  intro k
  split <;> simp
  refine steady_loopUntil (by simp) fun ts hend heof => ?_
  simp [hend, Rule.rank]

@[simp] theorem steady_useTreeBody : useTreeBody.Steady := by
  simp [useTreeBody]
  intro k
  split <;> simp

theorem idle_useTreeBody (h : Q ()) : useTreeBody.Idle ρ ts Q := by
  simp only [useTreeBody, idle_nodeOf, idle_then, idle_peek]
  split
  · next hk => simp [useTreeEnd, hk]
  · next hk => simp [useTreeEnd, hk]
  · rw [idle_then, idle_peek, idle_ite]
    split
    · next hk => simp [hk.1]
    · refine idle_path fun hcolon _ _ => ?_
      by_cases has : kindAt 0 ts = .keyword .asKw <;> simp [hcolon, has, h]

@[simp] theorem steady_useItem : useItem.Steady := by
  simp [useItem]

@[simp] theorem steady_valueItem {kind : NodeKind} : (valueItem kind).Steady := by
  simp [valueItem]

@[simp] theorem steady_typeAlias : typeAlias.Steady := by
  simp [typeAlias]

@[simp] theorem steady_macroItem : macroItem.Steady := by
  simp [macroItem]

@[simp] theorem steady_qualifiers : qualifiers.Steady := by
  refine steady_loop (by simp) fun ts => ?_
  rw [idle_then, idle_test]
  intro us hus
  rw [qualifierAhead_congr hus, idle_ite]
  split
  · next h => simp [kindAt_ne_eof_of_qualifierAhead h]
  · rfl

theorem idle_qualifiers (h : Q ()) : qualifiers.Idle ρ ts Q := by
  rw [qualifiers, idle_loop, idle_then, idle_test]
  intro us hus
  rw [qualifierAhead_congr hus, idle_ite]
  split
  · next h => simp [kindAt_ne_eof_of_qualifierAhead h]
  · exact ⟨rfl, h⟩

@[simp] theorem steady_bareItem? : bareItem?.Steady := by
  simp [bareItem?]
  intro k
  split <;> simp
  intro k
  split <;> simp

theorem idle_bareItem? {P : Option NodeKind → Prop} (h : P none) : bareItem?.Idle ρ ts P := by
  simp only [bareItem?, idle_then, idle_peek]
  -- All but unsafe items, unions and macro calls start with a token of their own.
  split <;> try simp [*, fnDef, structDef, enumDef, implDef, traitDef, useItem, modItem, valueItem,
    typeAlias]
  case h_11 hk => split <;> simp [hk, h]
  case h_12 =>
    intro us hus
    split
    · next hunion =>
      have hk := kindAt_of_contextualAhead hunion.1
      rw [kindAt_congr hus] at hk
      simp [hk]
    · intro us _ hword _
      refine idle_path_of_starts (by simp) ?_
      obtain hcolon | hword := hword
      · simp [startsPath, hcolon]
      · simp [startsPath, isPathWord_of_isModuleWord hword]

@[simp] theorem steady_itemBody : itemBody.Steady := by
  simp [itemBody]
  constructor <;>
  · intro k?
    split <;> simp

theorem idle_itemBody (h : ∀ found, R found) : itemBody.Idle ρ ts R := by
  simp [itemBody]
  intro _ _
  refine idle_qualifiers ?_
  refine idle_bareItem? ?_
  simp [h]

/-! ## Whole texts -/

@[simp] theorem steady_skipToEnd {fault : Fault} : (sourceFile.skipToEnd fault).Steady :=
  steady_loop (by simp) fun ts => by simp

theorem steady_sourceFile : sourceFile.Steady := by
  simp [sourceFile]

theorem steady_loneExpr : loneExpr.Steady := by
  simp [loneExpr]

end Grammar

open Grammar in
theorem Rule.paced (r : Rule) : r.Paced := by
  cases r with
  | type =>
    refine ⟨by simp [grammar], fun ts => ?_⟩
    rw [grammar, idle_then]
    refine idle_typeBody ?_ ?_
    · intro h
      simp [limit, h]
    · intro h
      simp [Moves, h]
  | bounds =>
    refine ⟨by simp [grammar], fun ts => ?_⟩
    rw [grammar, idle_then]
    refine idle_boundsBody ?_
    simp [Moves]
  | expr power noRecord =>
    refine ⟨by simp [grammar], fun ts => ?_⟩
    rw [grammar]
    refine idle_exprBody ?_ ?_ <;> simp [limit, rank, Moves]
  | atom noRecord =>
    refine ⟨by simp [grammar], fun ts => ?_⟩
    rw [grammar]
    refine idle_atomBody ?_ ?_ <;> simp [limit, rank, Moves]
  | pattern =>
    refine ⟨by simp [grammar], fun ts => ?_⟩
    rw [grammar]
    refine idle_singlePatternBody ?_
    simp [Moves]
  | block =>
    refine ⟨by simp [grammar], fun ts => ?_⟩
    rw [grammar, idle_then, blockExpr, idle_nodeOf]
    refine idle_blockBody ?_
    simp [Moves]
  | ifExpr =>
    refine ⟨by simp [grammar], fun ts => ?_⟩
    rw [grammar, idle_then]
    refine idle_ifBody ?_
    intro heof
    simp [limit, rank, Moves, heof]
  | item =>
    refine ⟨by simp [grammar], fun ts => ?_⟩
    rw [grammar]
    refine idle_itemBody ?_
    simp [Moves]
  | tokenTree =>
    refine ⟨by simp [grammar, steady_tokenTree], fun ts => ?_⟩
    rw [grammar, idle_then]
    refine idle_tokenTree ?_
    simp +contextual [Moves]
  | useTree =>
    refine ⟨by simp [grammar], fun ts => ?_⟩
    rw [grammar, idle_then]
    refine idle_useTreeBody ?_
    simp [Moves]
  | pathType =>
    refine ⟨by simp [grammar], fun ts => ?_⟩
    rw [grammar, idle_then]
    exact idle_path (by simp [Moves])

end Reshape
