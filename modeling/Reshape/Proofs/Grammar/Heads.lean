import Reshape.Proofs.Grammar.Forms
import Reshape.Proofs.Grammar.Lookahead

/-!
# Record literals and the heads of forms

In the head of a condition, loop or match a brace opens the body. So no record literal is read there,
unless a delimiter was opened since the head began.

* A `Spot` is a place in a run: what is ahead, and whether record literals are allowed. They are from an
  opening delimiter on, up to the end of the node that owns it.
* `Grammar.Shelters` is a judgement on grammars, by recursion on the term: wherever a record literal is
  read it is allowed, and no form with a head opens a delimiter by itself.
* `Grammar.Tame` and `Grammar.Yields` are for the many grammars that need not look at what is ahead.
  `Tame.safe` and `Tame.keeps` lead from there to the judgement.
* `Rule.keeps_grammar` is what comes of it for the named forms: where one may be read, it leaves the
  permission as it was.
-/

namespace Reshape

/-- Whether a kind of token opens something. -/
def TokenKind.isOpener (k : TokenKind) : Bool := (Grammar.closerOf? k).isSome

/-- Whether forms of the kind have a head: an expression before a body in braces. -/
def NodeKind.hasHead : NodeKind → Bool
  | .ifExpr | .whileExpr | .matchExpr | .forExpr => true
  | _ => false

/-- Whether the named form may be a record literal, or begin with one. -/
def Rule.mayBeRecord : Rule → Bool
  | .expr _ noRecord | .atom noRecord => !noRecord
  | .item => true
  | _ => false

/-- A place in a run: the tokens ahead, and whether record literals are allowed. -/
structure Spot where
  ahead : List Token
  allowed : Bool

namespace Spot

/-- The kind of the next token. -/
abbrev next (s : Spot) : TokenKind := kindAt 0 s.ahead

/-- Behind the next token. A delimiter that opens allows for record literals. -/
def take (s : Spot) : Spot := ⟨(fromSignificant s.ahead).tail, s.allowed || s.next.isOpener⟩

/-- At the start of a node in which record literals are allowed or not. -/
def enter (s : Spot) (inner : Bool) : Spot := ⟨fromSignificant s.ahead, inner⟩

@[simp] theorem allowed_take (s : Spot) : s.take.allowed = (s.allowed || s.next.isOpener) := rfl

@[simp] theorem allowed_enter (s : Spot) (inner : Bool) : (s.enter inner).allowed = inner := rfl

@[simp] theorem next_enter (s : Spot) (inner : Bool) : (s.enter inner).next = s.next :=
  kindAt_congr (fromSignificant_idem _) 0

end Spot

/-- A named form may be read: nothing opens a delimiter in the place of the word `if`, and what may be a
record literal is read where these are allowed. -/
structure Rule.Fits (r : Rule) (s : Spot) : Prop where
  next : r = .ifExpr → s.next.isOpener = false
  allowed : r.mayBeRecord = true → s.allowed = true

namespace Grammar

/-! ## A judgement on grammars -/

/-- A node of the kind may be closed: a form with a head owns no delimiter that opens, and a record
literal is allowed around the node. -/
structure Closes (k : NodeKind) (outer inner : Spot) : Prop where
  head : k.hasHead = true → inner.allowed = false
  record : k = .recordExpr → outer.allowed = true

/-- From a spot, record literals are read only where they are allowed, and the property holds of the
value and of the spot at the end. They are allowed in a node if they are around it, and in arguments that
do not begin with a parenthesis. -/
def Shelters : {α : Type} → Grammar α → Spot → (α → Spot → Prop) → Prop
  | _, .pure a, s, P => P a s
  | _, .bind g f, s, P => g.Shelters s fun b t => (f b).Shelters t P
  | _, .ahead, s, P => P s.ahead s
  | _, .advance, s, P => P () s.take
  | _, .report _, s, P | _, .reportFrom _ _ _, s, P => P () s
  | _, .node body, s, P => ∃ inner, body.Shelters (s.enter inner) fun x t =>
      (∀ k ∈ x.1, Closes k s t) ∧
        (inner = true → s.allowed = true ∨ x.1 = some .argList ∧ s.next ≠ .lParen) ∧
        P x.2 ⟨t.ahead, s.allowed⟩
  | _, .wrap body, s, P => body.Shelters s fun k t =>
      k.hasHead = false ∧ (k = .recordExpr → s.allowed = true) ∧ P () ⟨t.ahead, s.allowed⟩
  | _, .iterate init body, s, P => ∃ I : _ → Spot → Prop, I init s ∧
      (∀ x s, I x s → (body x).Shelters s fun y => I y.1) ∧ ∀ x s, I x s → P x s
  | _, .call r, s, P => r.Fits s ∧ ∀ found ts, P found ⟨ts, s.allowed⟩

variable {α β σ : Type} {g : Grammar α} {s : Spot} {P P' : α → Spot → Prop} {Q : Unit → Spot → Prop}
  {R : Bool → Spot → Prop} {noRecord : Bool}

theorem Shelters.mono (h : g.Shelters s P) (hP : ∀ a t, P a t → P' a t) : g.Shelters s P' := by
  induction g generalizing s with
  | pure a => exact hP a s h
  | bind g f ihg ihf => exact ihg h fun a t hf => ihf a hf hP
  | ahead => exact hP _ s h
  | advance => exact hP () _ h
  | report fault => exact hP () s h
  | reportFrom fault origin note => exact hP () s h
  | node body ih =>
    obtain ⟨inner, hbody⟩ := h
    exact ⟨inner, ih hbody fun x t hx => ⟨hx.1, hx.2.1, hP _ _ hx.2.2⟩⟩
  | wrap body ih => exact ih h fun k t hk => ⟨hk.1, hk.2.1, hP _ _ hk.2.2⟩
  | iterate init body ih =>
    obtain ⟨I, hI, hround, hend⟩ := h
    exact ⟨I, hI, hround, fun x t hx => hP x t (hend x t hx)⟩
  | call r => exact ⟨h.1, fun found ts => hP _ _ (h.2 found ts)⟩

@[simp] theorem shelters_pure {a : α} : (Pure.pure a : Grammar α).Shelters s P ↔ P a s := Iff.rfl

@[simp] theorem shelters_bind {g : Grammar β} {f : β → Grammar α} :
    (g >>= f).Shelters s P ↔ g.Shelters s fun b t => (f b).Shelters t P :=
  Iff.rfl

@[simp] theorem shelters_ite {p : Prop} [Decidable p] {g h : Grammar α} :
    (if p then g else h).Shelters s P ↔ if p then g.Shelters s P else h.Shelters s P := by
  split <;> rfl

@[simp] theorem shelters_advance : advance.Shelters s Q ↔ Q () s.take := Iff.rfl

@[simp] theorem shelters_report {fault : Fault} : (report fault).Shelters s Q ↔ Q () s := Iff.rfl

@[simp] theorem shelters_peek {n : Nat} {P : TokenKind → Spot → Prop} :
    (peek n).Shelters s P ↔ P (kindAt n s.ahead) s :=
  Iff.rfl

@[simp] theorem shelters_test {p : List Token → Bool} : (test p).Shelters s R ↔ R (p s.ahead) s :=
  Iff.rfl

@[simp] theorem shelters_isAt {k : TokenKind} : (isAt k).Shelters s R ↔ R (s.next == k) s := Iff.rfl

@[simp] theorem shelters_nextSpan {P : Span → Spot → Prop} :
    nextSpan.Shelters s P ↔ P (((nextToken? s.ahead).map (·.span)).getD (.empty 0)) s :=
  Iff.rfl

@[simp] theorem shelters_eat {k : TokenKind} :
    (eat k).Shelters s R ↔ if s.next = k then R true s.take else R false s := by
  simp [eat]

@[simp] theorem shelters_expect {k : TokenKind} :
    (expect k).Shelters s R ↔ if s.next = k then R true s.take else R false s := by
  simp [expect]

/-- What is asked of a run that keeps the permission. -/
abbrev Keeps (g : Grammar α) (s : Spot) : Prop := g.Shelters s fun _ t => t.allowed = s.allowed

/-- Nothing is asked of the end of a run. -/
abbrev Safe (g : Grammar α) (s : Spot) : Prop := g.Shelters s fun _ _ => True

/-! ## Grammars that need not look ahead -/

/-- The property holds of all values that the grammar may yield. -/
def Yields : {α : Type} → Grammar α → (α → Prop) → Prop
  | _, .pure a, P => P a
  | _, .bind g f, P => g.Yields fun b => (f b).Yields P
  | _, .ahead, P => ∀ ts, P ts
  | _, .advance, P | _, .report _, P | _, .reportFrom _ _ _, P | _, .wrap _, P => P ()
  | _, .node body, P => body.Yields fun x => P x.2
  | _, .iterate _ _, P => ∀ x, P x
  | _, .call _, P => ∀ found, P found

/-- A node of the kind has no head, and if it is a record literal these may be read. -/
structure TameKind (noRecord : Bool) (k : NodeKind) : Prop where
  head : k.hasHead = false
  record : k = .recordExpr → noRecord = false

/-- Whatever is ahead, the grammar reads no form with a head by itself, and record literals only if they
are not ruled out. -/
def Tame (noRecord : Bool) : {α : Type} → Grammar α → Prop
  | _, .pure _ | _, .ahead | _, .advance | _, .report _ | _, .reportFrom _ _ _ => True
  | _, .bind g f => g.Tame noRecord ∧ ∀ a, (f a).Tame noRecord
  | _, .node body => body.Tame noRecord ∧ body.Yields fun x => ∀ k ∈ x.1, TameKind noRecord k
  | _, .wrap body => body.Tame noRecord ∧ body.Yields (TameKind noRecord)
  | _, .iterate _ body => ∀ x, (body x).Tame noRecord
  | _, .call r => r ≠ .ifExpr ∧ (r.mayBeRecord = true → noRecord = false)

/-- The grammar takes no tokens but in nodes. -/
def Shut : {α : Type} → Grammar α → Prop
  | _, .pure _ | _, .ahead | _, .report _ | _, .reportFrom _ _ _ | _, .node _ | _, .wrap _
  | _, .call _ => True
  | _, .advance => False
  | _, .bind g f => g.Shut ∧ ∀ a, (f a).Shut
  | _, .iterate _ body => ∀ x, (body x).Shut

theorem TameKind.closes {k : NodeKind} {t : Spot} (h : TameKind noRecord k)
    (hs : noRecord = false → s.allowed = true) : Closes k s t :=
  ⟨fun hhead => absurd hhead (by simp [h.head]), fun hrecord => hs (h.record hrecord)⟩

section

variable {P P' : α → Prop}

theorem Yields.mono (h : g.Yields P) (hP : ∀ a, P a → P' a) : g.Yields P' := by
  induction g with
  | pure a => exact hP a h
  | bind g f ihg ihf => exact ihg h fun b hb => ihf b hb hP
  | ahead => exact fun ts => hP ts (h ts)
  | advance => exact hP () h
  | report fault => exact hP () h
  | reportFrom fault origin note => exact hP () h
  | node body ih => exact ih h fun x => hP x.2
  | wrap body ih => exact hP () h
  | iterate init body ih => exact fun x => hP x (h x)
  | call r => exact fun found => hP found (h found)

/-- A grammar yields something. -/
@[simp] theorem yields_const {p : Prop} : (g.Yields fun _ => p) ↔ p := by
  induction g with
  | pure a => exact Iff.rfl
  | bind g f ihg ihf =>
    exact ⟨fun h => ihg.1 (Yields.mono (g := g) h fun b => (ihf b).1),
      fun h => (ihg.2 h).mono fun b => (ihf b).2⟩
  | ahead => exact ⟨fun h => h [], fun h _ => h⟩
  | advance => exact Iff.rfl
  | report fault => exact Iff.rfl
  | reportFrom fault origin note => exact Iff.rfl
  | node body ih => exact ih
  | wrap body ih => exact Iff.rfl
  | iterate init body ih => exact ⟨fun h => h init, fun h _ => h⟩
  | call r => exact ⟨fun h => h true, fun h _ => h⟩

/-- What all continuations yield is yielded. -/
theorem yields_of_forall {g : Grammar β} {f : β → Grammar α} (h : ∀ b, (f b).Yields P) :
    (g >>= f).Yields P :=
  Yields.mono (g := g) (yields_const.2 trivial) fun b _ => h b

/-- What a grammar yields is known where it shelters as well. -/
theorem Shelters.and_yields {Q : α → Spot → Prop} (h : g.Shelters s Q) (hP : g.Yields P) :
    g.Shelters s fun a t => Q a t ∧ P a := by
  induction g generalizing s with
  | pure a => exact ⟨h, hP⟩
  | bind g f ihg ihf => exact (ihg h hP).mono fun b t hb => ihf b hb.1 hb.2
  | ahead => exact ⟨h, hP s.ahead⟩
  | advance => exact ⟨h, hP⟩
  | report fault => exact ⟨h, hP⟩
  | reportFrom fault origin note => exact ⟨h, hP⟩
  | node body ih =>
    obtain ⟨inner, hbody⟩ := h
    exact ⟨inner, (ih hbody hP).mono fun x t hx => ⟨hx.1.1, hx.1.2.1, hx.1.2.2, hx.2⟩⟩
  | wrap body ih => exact Shelters.mono (g := body) h fun k t hk => ⟨hk.1, hk.2.1, hk.2.2, hP⟩
  | iterate init body ih =>
    obtain ⟨I, hI, hround, hend⟩ := h
    exact ⟨I, hI, hround, fun x t hx => ⟨hend x t hx, hP x⟩⟩
  | call r => exact ⟨h.1, fun found ts => ⟨h.2 found ts, hP found⟩⟩

/-- Whatever is ahead of a tame grammar, record literals are read only where they are allowed. They stay
allowed, and the permission is left as it was if tokens are taken in nodes only. -/
theorem Tame.shelters (h : g.Tame noRecord) (hs : noRecord = false → s.allowed = true) :
    g.Shelters s fun _ t =>
      (noRecord = false → t.allowed = true) ∧ (g.Shut → t.allowed = s.allowed) := by
  induction g generalizing s with
  | pure a => exact ⟨hs, fun _ => rfl⟩
  | bind g f ihg ihf =>
    refine (ihg h.1 hs).mono fun a t ht => (ihf a (h.2 a) ht.1).mono fun b u hu => ?_
    exact ⟨hu.1, fun hgf => (hu.2 (hgf.2 a)).trans (ht.2 hgf.1)⟩
  | ahead => exact ⟨hs, fun _ => rfl⟩
  | advance => exact ⟨fun hfree => by simp [hs hfree], False.elim⟩
  | report fault => exact ⟨hs, fun _ => rfl⟩
  | reportFrom fault origin note => exact ⟨hs, fun _ => rfl⟩
  | node body ih =>
    refine ⟨s.allowed, ((ih h.1 (s := s.enter s.allowed) hs).and_yields h.2).mono fun x t hx => ?_⟩
    exact ⟨fun k hk => (hx.2 k hk).closes hs, .inl, hs, fun _ => rfl⟩
  | wrap body ih =>
    refine Shelters.mono (g := body) ((ih h.1 hs).and_yields h.2) fun k t hk => ?_
    exact ⟨hk.2.head, fun hrecord => hs (hk.2.record hrecord), hs, fun _ => rfl⟩
  | iterate init body ih =>
    refine ⟨fun _ t => (noRecord = false → t.allowed = true) ∧
      ((iterate init body).Shut → t.allowed = s.allowed), ⟨hs, fun _ => rfl⟩, ?_, fun x t ht => ht⟩
    rintro x t ⟨ht, hshut⟩
    refine (ih x (h x) ht).mono fun y u hu => ?_
    exact ⟨hu.1, fun hbody => (hu.2 (hbody x)).trans (hshut hbody)⟩
  | call r => exact ⟨⟨fun hr => absurd hr h.1, fun hr => hs (h.2 hr)⟩, fun _ _ => ⟨hs, fun _ => rfl⟩⟩

end

theorem Tame.safe (h : g.Tame noRecord) (hs : noRecord = false → s.allowed = true) : g.Safe s :=
  (h.shelters hs).mono fun _ _ _ => trivial

/-- What takes tokens in nodes only keeps the permission. -/
theorem Tame.keeps (h : g.Tame noRecord) (hshut : g.Shut) (hs : noRecord = false → s.allowed = true) :
    g.Keeps s :=
  (h.shelters hs).mono fun _ _ ht => ht.2 hshut

/-- Where record literals are allowed. -/
theorem Tame.safe_inside (h : g.Tame false) (hs : s.allowed = true) : g.Safe s := h.safe fun _ => hs

theorem Tame.safe_anywhere (h : g.Tame true) : g.Safe s := h.safe (by simp)

theorem Tame.keeps_anywhere (h : g.Tame true) (hshut : g.Shut) : g.Keeps s :=
  h.keeps hshut (by simp)

/-! ### Terms -/

section

variable {P : α → Prop}

@[simp] theorem yields_pure {a : α} : (Pure.pure a : Grammar α).Yields P ↔ P a := Iff.rfl

@[simp] theorem yields_bind {g : Grammar β} {f : β → Grammar α} :
    (g >>= f).Yields P ↔ g.Yields fun b => (f b).Yields P :=
  Iff.rfl

@[simp] theorem yields_ite {p : Prop} [Decidable p] {g h : Grammar α} :
    (if p then g else h).Yields P ↔ if p then g.Yields P else h.Yields P := by
  split <;> rfl

@[simp] theorem yields_peek {n : Nat} {P : TokenKind → Prop} :
    (peek n).Yields P ↔ ∀ ts, P (kindAt n ts) :=
  Iff.rfl

end

@[simp] theorem tameKind_iff {k : NodeKind} :
    TameKind noRecord k ↔ k.hasHead = false ∧ (k = .recordExpr → noRecord = false) :=
  ⟨fun h => ⟨h.head, h.record⟩, fun h => ⟨h.1, h.2⟩⟩

@[simp] theorem tame_pure {a : α} : (Pure.pure a : Grammar α).Tame noRecord := trivial

@[simp] theorem tame_bind {g : Grammar β} {f : β → Grammar α} :
    (g >>= f).Tame noRecord ↔ g.Tame noRecord ∧ ∀ b, (f b).Tame noRecord :=
  Iff.rfl

@[simp] theorem tame_ite {p : Prop} [Decidable p] {g h : Grammar α} :
    (if p then g else h).Tame noRecord ↔ if p then g.Tame noRecord else h.Tame noRecord := by
  split <;> rfl

@[simp] theorem tame_advance : advance.Tame noRecord := trivial

@[simp] theorem tame_report {fault : Fault} : (report fault).Tame noRecord := trivial

@[simp] theorem tame_reportFrom {fault : Fault} {origin : Span} {note : String} :
    (reportFrom fault origin note).Tame noRecord :=
  trivial

@[simp] theorem tame_node {body : Grammar (Option NodeKind × α)} :
    (node body).Tame noRecord ↔
      body.Tame noRecord ∧ body.Yields fun x => ∀ k ∈ x.1, TameKind noRecord k :=
  Iff.rfl

@[simp] theorem tame_wrap {body : Grammar NodeKind} :
    (wrap body).Tame noRecord ↔ body.Tame noRecord ∧ body.Yields (TameKind noRecord) :=
  Iff.rfl

@[simp] theorem tame_iterate {init : σ} {body : σ → Grammar (σ × Bool)} :
    (iterate init body).Tame noRecord ↔ ∀ x, (body x).Tame noRecord :=
  Iff.rfl

@[simp] theorem tame_call {r : Rule} :
    (call r).Tame noRecord ↔ r ≠ .ifExpr ∧ (r.mayBeRecord = true → noRecord = false) :=
  Iff.rfl

@[simp] theorem shut_pure {a : α} : (Pure.pure a : Grammar α).Shut := trivial

@[simp] theorem shut_bind {g : Grammar β} {f : β → Grammar α} :
    (g >>= f).Shut ↔ g.Shut ∧ ∀ b, (f b).Shut :=
  Iff.rfl

@[simp] theorem shut_ite {p : Prop} [Decidable p] {g h : Grammar α} :
    (if p then g else h).Shut ↔ if p then g.Shut else h.Shut := by
  split <;> rfl

@[simp] theorem shut_report {fault : Fault} : (report fault).Shut := trivial

@[simp] theorem shut_wrap {body : Grammar NodeKind} : (wrap body).Shut := trivial

@[simp] theorem shut_call {r : Rule} : (call r).Shut := trivial

/-! ### Common grammars -/

@[simp] theorem tame_ahead : ahead.Tame noRecord := trivial

@[simp] theorem tame_peek {n : Nat} : (peek n).Tame noRecord := by simp [peek]

@[simp] theorem tame_test {p : List Token → Bool} : (test p).Tame noRecord := by simp [test]

@[simp] theorem tame_isAt {k : TokenKind} : (isAt k).Tame noRecord := by simp [isAt]

@[simp] theorem tame_isAtAny {ks : List TokenKind} : (isAtAny ks).Tame noRecord := by simp [isAtAny]

@[simp] theorem tame_remaining : remaining.Tame noRecord := by simp [remaining]

@[simp] theorem tame_nextSpan : nextSpan.Tame noRecord := by simp [nextSpan]

@[simp] theorem tame_eat {k : TokenKind} : (eat k).Tame noRecord := by simp [eat]

@[simp] theorem tame_expect {k : TokenKind} : (expect k).Tame noRecord := by simp [expect]

@[simp] theorem tame_nodeOf {k : NodeKind} {body : Grammar Unit} :
    (nodeOf k body).Tame noRecord ↔ body.Tame noRecord ∧ TameKind noRecord k := by
  simp [nodeOf]

@[simp] theorem tame_nodeBy {body : Grammar NodeKind} :
    (nodeBy body).Tame noRecord ↔ body.Tame noRecord ∧ body.Yields (TameKind noRecord) := by
  simp [nodeBy, -tameKind_iff]

@[simp] theorem tame_skipFaulty {fault : Fault} : (skipFaulty fault).Tame noRecord := by
  simp [skipFaulty, NodeKind.hasHead]

@[simp] theorem tame_loop {body : Grammar Bool} :
    (loop body).Tame noRecord ↔ body.Tame noRecord := by
  simp [loop]

@[simp] theorem tame_loopUntil {closer : TokenKind} {body : Grammar Bool} :
    (loopUntil closer body).Tame noRecord ↔ body.Tame noRecord := by
  simp [loopUntil]

@[simp] theorem tame_commaOrEnd {closer : TokenKind} {before : Nat} :
    (commaOrEnd closer before).Tame noRecord := by
  simp [commaOrEnd]

@[simp] theorem tame_commaList {closer : TokenKind} {element : Grammar Unit} :
    (commaList closer element).Tame noRecord ↔ element.Tame noRecord := by
  simp [commaList]

@[simp] theorem shut_peek {n : Nat} : (peek n).Shut := by simp [peek, Shut]

@[simp] theorem shut_test {p : List Token → Bool} : (test p).Shut := by simp [test, Shut]

@[simp] theorem shut_isAt {k : TokenKind} : (isAt k).Shut := by simp [isAt]

@[simp] theorem shut_nextSpan : nextSpan.Shut := by simp [nextSpan, Shut]

@[simp] theorem shut_nodeOf {k : NodeKind} {body : Grammar Unit} : (nodeOf k body).Shut := trivial

@[simp] theorem shut_nodeBy {body : Grammar NodeKind} : (nodeBy body).Shut := trivial

/-! ### Parts of many forms

One lemma for each form. Where record literals are read in any case, they must not be ruled out. -/

attribute [local simp] type expr headExpr delimited bounds block singlePattern NodeKind.hasHead
  Rule.mayBeRecord

@[simp] theorem tame_tokenTree : tokenTree.Tame noRecord := by
  simp only [tokenTree, tame_bind, tame_peek, true_and]
  intro k
  split <;> simp

@[simp] theorem tame_nameRef : nameRef.Tame noRecord := by simp [nameRef]

@[simp] theorem tame_name : name.Tame noRecord := by simp [name]

@[simp] theorem tame_outerAttributes : outerAttributes.Tame noRecord := by simp [outerAttributes]

@[simp] theorem tame_innerAttributes : innerAttributes.Tame noRecord := by simp [innerAttributes]

@[simp] theorem tame_literalOrNegated : literalOrNegated.Tame noRecord := by simp [literalOrNegated]

@[simp] theorem tame_lifetimeBounds : optGenericParams.lifetimeBounds.Tame noRecord := by
  simp [optGenericParams.lifetimeBounds]

@[simp] theorem tame_constArg : optGenericParams.constArg.Tame noRecord := by
  simp [optGenericParams.constArg]

@[simp] theorem tame_optGenericParams : optGenericParams.Tame noRecord := by
  simp only [optGenericParams, tame_bind, tame_isAt, true_and, tame_ite, tame_nodeOf, tame_advance,
    tame_loopUntil, tame_remaining, tame_outerAttributes, tame_peek]
  intro found
  split
  · refine ⟨fun _ => ⟨fun _ _ k => ?_, by simp⟩, by simp⟩
    split <;> simp
  · simp

@[simp] theorem tame_optForBinder : optForBinder.Tame noRecord := by simp [optForBinder]

@[simp] theorem tame_retType : retType.Tame noRecord := by simp [retType]

@[simp] theorem tame_genericArg : genericArg.Tame noRecord := by
  simp only [genericArg, tame_bind, tame_peek, true_and]
  intro k
  split <;> simp

@[simp] theorem tame_genericArgList {joined : Bool} : (genericArgList joined).Tame noRecord := by
  simp [genericArgList]

@[simp] theorem tame_segmentArgs {place : PathPlace} : (segmentArgs place).Tame noRecord := by
  cases place <;> simp [segmentArgs]

@[simp] theorem tame_pathSegment {place : PathPlace} : (pathSegment place).Tame noRecord := by
  simp [pathSegment]

@[simp] theorem tame_path {place : PathPlace} : (path place).Tame noRecord := by simp [path]

@[simp] theorem tame_pathType : pathType.Tame noRecord := by simp [pathType]

@[simp] theorem tame_macroBody : macroBody.Tame noRecord := by simp [macroBody]

@[simp] theorem tame_optVisibility : optVisibility.Tame noRecord := by
  simp only [optVisibility, tame_bind, tame_isAt, true_and, tame_ite, tame_nodeOf, tame_advance,
    tame_peek]
  intro found
  split
  · refine ⟨⟨fun _ paren => ?_, by simp⟩, by simp⟩
    split
    · intro k
      split <;> simp
    · simp
  · simp

@[simp] theorem tame_optWhereClause : optWhereClause.Tame noRecord := by simp [optWhereClause]

/-! ### Types and bounds -/

@[simp] theorem tame_bound : bound.Tame noRecord := by
  simp only [bound, tame_node, tame_bind, tame_peek, true_and, yields_bind, yields_peek]
  refine ⟨fun k => ?_, fun ts => ?_⟩ <;> split <;> simp

@[simp] theorem tame_boundsBody : boundsBody.Tame noRecord := by simp [boundsBody]

@[simp] theorem tame_pointerParams : pointerParams.Tame noRecord := by simp [pointerParams]

@[simp] theorem tame_fnPtrType : fnPtrType.Tame noRecord := by simp [fnPtrType]

@[simp] theorem tame_ptrType : ptrType.Tame noRecord := by simp [ptrType]

@[simp] theorem tame_pathOrMacroType : pathOrMacroType.Tame noRecord := by simp [pathOrMacroType]

/-! ### Patterns -/

@[simp] theorem tame_barredPatterns : barredPatterns.Tame noRecord := by simp [barredPatterns]

@[simp] theorem tame_patternAlternatives : patternAlternatives.Tame noRecord := by
  simp [patternAlternatives]

@[simp] theorem tame_identPattern : identPattern.Tame noRecord := by simp [identPattern]

@[simp] theorem tame_literalPattern : literalPattern.Tame noRecord := by simp [literalPattern]

@[simp] theorem tame_recordPatternField : recordPatternField.Tame noRecord := by
  simp [recordPatternField]

@[simp] theorem tame_recordPatternFields : recordPatternFields.Tame noRecord := by
  simp [recordPatternFields]

@[simp] theorem tame_pathPattern : pathPattern.Tame noRecord := by
  refine tame_nodeBy.2 ⟨?_, yields_of_forall fun found => ?_⟩
  · rw [tame_bind]
    refine ⟨tame_test, fun found => ?_⟩
    split
    · simp
    · simp only [tame_bind, tame_path, tame_peek, true_and]
      intro _ k
      split <;> simp
  · split
    · simp
    · refine yields_of_forall fun _ => yields_of_forall fun k => ?_
      split <;> simp

@[simp] theorem tame_parenPattern : parenPattern.Tame noRecord := by
  have hkind (p : Prop) [Decidable p] :
      TameKind noRecord (if p then .parenPat else .tuplePat) := by
    split <;> simp
  refine tame_nodeBy.2 ⟨by simp, ?_⟩
  exact yields_of_forall fun _ => yields_of_forall fun _ => yields_of_forall fun _ => hkind _

@[simp] theorem tame_singlePatternBody : singlePatternBody.Tame noRecord := by
  simp only [singlePatternBody, tame_bind, tame_peek, true_and]
  intro k
  split <;> simp [singlePatternBody.isAtPath]

/-! ### Expressions and statements -/

@[simp] theorem tame_exprList {closer : TokenKind} : (exprList closer).Tame false := by
  simp [exprList]

@[simp] theorem tame_argList : argList.Tame false := by simp [argList]

@[simp] theorem tame_recordField : recordField.Tame false := by simp [recordField]

@[simp] theorem tame_recordFields : recordFields.Tame false := by simp [recordFields]

@[simp] theorem tame_pathExpr : (pathExpr noRecord).Tame noRecord := by
  cases noRecord <;> simp [pathExpr]

@[simp] theorem tame_closureParams : closureParams.Tame noRecord := by simp [closureParams]

@[simp] theorem tame_closureExpr : (closureExpr noRecord).Tame noRecord := by simp [closureExpr]

@[simp] theorem tame_matchArm : matchArm.Tame false := by simp [matchArm]

@[simp] theorem tame_dotPostfix : dotPostfix.Tame false := by
  simp only [dotPostfix, tame_wrap, tame_bind, tame_advance, tame_peek, true_and]
  refine ⟨fun _ k => ?_, yields_of_forall fun _ => yields_of_forall fun k => ?_⟩ <;> split <;> simp

@[simp] theorem tame_postfixOp : postfixOp.Tame false := by
  simp only [postfixOp, tame_bind, tame_peek, true_and]
  intro k
  split <;> simp

@[simp] theorem tame_rangeEnd : (rangeEnd noRecord).Tame noRecord := by simp [rangeEnd]

@[simp] theorem tame_binaryOp {power : Nat} : (binaryOp power noRecord).Tame noRecord := by
  simp only [binaryOp, tame_bind, tame_peek, true_and]
  intro k
  split
  · simp
  · split
    · simp
    · rw [tame_bind]
      refine ⟨tame_ahead, fun ts => ?_⟩
      split <;> simp

@[simp] theorem tame_operators {power : Nat} : (operators power false).Tame false := by
  simp [operators]

@[simp] theorem tame_operand : (operand noRecord).Tame noRecord := by simp [operand]

@[simp] theorem tame_leftSide : (leftSide noRecord).Tame noRecord := by
  simp only [leftSide, tame_bind, tame_peek, true_and]
  intro k
  split <;> simp

@[simp] theorem tame_letStatement : letStatement.Tame false := by simp [letStatement]

@[simp] theorem tame_statementEnd {needsSemicolon : Bool} :
    (statementEnd needsSemicolon).Tame noRecord := by
  simp only [statementEnd, tame_bind, tame_peek, true_and]
  intro k
  split <;> simp

@[simp] theorem tame_exprStatement : exprStatement.Tame false := by simp [exprStatement]

@[simp] theorem tame_statement : statement.Tame false := by simp [statement]

@[simp] theorem tame_letExpr : (letExpr noRecord).Tame noRecord := by simp [letExpr]

@[simp] theorem tame_optValue : (optValue noRecord).Tame noRecord := by simp [optValue]

/-! ### Items -/

@[simp] theorem tame_items {closer : TokenKind} : (items closer).Tame false := by simp [items]

@[simp] theorem tame_bracedItems : bracedItems.Tame false := by simp [bracedItems]

@[simp] theorem tame_receiver : receiver.Tame noRecord := by simp [receiver]

@[simp] theorem tame_parameter {first : Bool} : (parameter first).Tame noRecord := by
  simp [parameter]

@[simp] theorem tame_parameters : parameters.Tame noRecord := by simp [parameters]

@[simp] theorem tame_braceListGoesOn {before : Nat} {fault : Fault} {starts : List TokenKind} :
    (braceListGoesOn before fault starts).Tame noRecord := by
  simp [braceListGoesOn]

@[simp] theorem tame_recordFieldList : recordFieldList.Tame noRecord := by simp [recordFieldList]

@[simp] theorem tame_tupleFieldList : tupleFieldList.Tame noRecord := by simp [tupleFieldList]

@[simp] theorem tame_variantList : variantList.Tame false := by
  simp only [variantList, tame_nodeOf, tame_bind, tame_advance, tame_loopUntil, tame_remaining,
    tame_outerAttributes, tame_optVisibility, tame_name, tame_peek, tame_braceListGoesOn, true_and]
  refine ⟨fun _ => ⟨fun _ => ⟨⟨fun _ _ _ k => ?_, by simp⟩, by simp⟩, by simp⟩, by simp⟩
  split <;> simp

@[simp] theorem tame_assocItems : assocItems.Tame false := by simp [assocItems]

@[simp] theorem tame_nameOrUnderscore : nameOrUnderscore.Tame noRecord := by simp [nameOrUnderscore]

@[simp] theorem tame_useTreeEnd : useTreeEnd.Tame noRecord := by
  simp only [useTreeEnd, tame_bind, tame_peek, true_and]
  intro k
  split <;> simp

@[simp] theorem tame_useTreeBody : useTreeBody.Tame noRecord := by
  simp only [useTreeBody, tame_nodeOf, tame_bind, tame_peek, true_and]
  refine ⟨fun k => ?_, by simp⟩
  split <;> simp

@[simp] theorem tame_valueItem {kind : NodeKind} : (valueItem kind).Tame false := by simp [valueItem]

@[simp] theorem tame_qualifiers : qualifiers.Tame noRecord := by simp [qualifiers]

section

variable {P : NodeKind → Prop}

@[simp] theorem tame_fnDef : fnDef.Tame noRecord := by simp [fnDef]

@[simp] theorem yields_fnDef : fnDef.Yields P ↔ P .fnDef := by simp [fnDef]

@[simp] theorem tame_structDef : structDef.Tame noRecord := by
  simp only [structDef, tame_bind, tame_advance, tame_name, tame_optGenericParams, tame_peek, true_and]
  intro _ _ _ k
  split <;> simp

theorem yields_structDef (h : P .structDef) : structDef.Yields P := by
  refine yields_of_forall fun _ => yields_of_forall fun _ => yields_of_forall fun _ =>
    yields_of_forall fun k => ?_
  split <;> simp [h]

@[simp] theorem tame_enumDef : enumDef.Tame false := by simp [enumDef]

@[simp] theorem yields_enumDef : enumDef.Yields P ↔ P .enumDef := by simp [enumDef]

@[simp] theorem tame_implDef : implDef.Tame false := by simp [implDef]

@[simp] theorem yields_implDef : implDef.Yields P ↔ P .implDef := by simp [implDef]

@[simp] theorem tame_traitDef : traitDef.Tame false := by simp [traitDef]

@[simp] theorem yields_traitDef : traitDef.Yields P ↔ P .traitDef := by simp [traitDef]

@[simp] theorem tame_modItem : modItem.Tame false := by simp [modItem]

@[simp] theorem yields_modItem : modItem.Yields P ↔ P .modItem := by simp [modItem]

@[simp] theorem tame_useItem : useItem.Tame noRecord := by simp [useItem]

@[simp] theorem yields_useItem : useItem.Yields P ↔ P .useItem := by simp [useItem]

@[simp] theorem yields_valueItem {kind : NodeKind} : (valueItem kind).Yields P ↔ P kind := by
  simp [valueItem]

@[simp] theorem tame_typeAlias : typeAlias.Tame noRecord := by simp [typeAlias]

@[simp] theorem yields_typeAlias : typeAlias.Yields P ↔ P .typeAlias := by simp [typeAlias]

@[simp] theorem tame_macroItem : macroItem.Tame noRecord := by simp [macroItem]

@[simp] theorem yields_macroItem : macroItem.Yields P ↔ P .macroCall := by simp [macroItem]

end

@[simp] theorem tame_bareItem? : bareItem?.Tame false := by
  simp only [bareItem?, tame_bind, tame_peek, true_and]
  intro k
  split
  case h_11 =>
    simp only [tame_bind, tame_peek, true_and]
    intro k
    split <;> simp
  all_goals simp

/-- Items have no head, and none is a record literal. -/
theorem yields_bareItem? : bareItem?.Yields fun k? => ∀ k ∈ k?, TameKind false k := by
  refine yields_of_forall fun k => ?_
  split
  case h_2 => exact yields_structDef (by simp)
  case h_11 =>
    refine yields_of_forall fun k => ?_
    split <;> simp
  case h_12 =>
    refine yields_of_forall fun _ => yields_of_forall fun _ => ?_
    split
    · exact yields_structDef (by simp)
    · refine yields_of_forall fun _ => ?_
      split <;> simp
  all_goals simp

theorem tame_itemBody : itemBody.Tame false := by
  refine tame_node.2 ⟨?_, yields_of_forall fun attributed => yields_of_forall fun visible =>
    yields_of_forall fun _ => yields_bareItem?.mono fun k? hk => ?_⟩
  · simp only [tame_bind, tame_outerAttributes, tame_optVisibility, tame_qualifiers, tame_bareItem?,
      true_and]
    intro attributed visible _ k?
    split
    · simp
    · split <;> simp
  · cases k? with
    | some k => split <;> simpa using hk k rfl
    | none => split <;> simp

@[simp] theorem tame_skipToEnd {fault : Fault} : (sourceFile.skipToEnd fault).Tame noRecord := by
  simp [sourceFile.skipToEnd]

/-! ## Grammars that look ahead

A delimiter that is stepped over behind a look at it allows for record literals. -/

/-- Behind a part that keeps the permission. -/
theorem Keeps.bind {g : Grammar β} {f : β → Grammar α} (hg : g.Keeps s)
    (hf : ∀ b t, t.allowed = s.allowed → (f b).Shelters t P) : (g >>= f).Shelters s P :=
  Shelters.mono (g := g) hg hf

/-- Behind any part. -/
theorem Safe.bind {g : Grammar β} {f : β → Grammar α} (hg : g.Safe s)
    (hf : ∀ b t, (f b).Shelters t P) : (g >>= f).Shelters s P :=
  Shelters.mono (g := g) hg fun b t _ => hf b t

/-- Behind one of two parts that both keep the permission. -/
theorem Keeps.either {p : Prop} [Decidable p] {g h : Grammar β} {f : β → Grammar α} (hg : g.Keeps s)
    (hh : h.Keeps s) (hf : ∀ b t, t.allowed = s.allowed → (f b).Shelters t P) :
    (if p then g >>= f else h >>= f).Shelters s P := by
  split
  · exact hg.bind hf
  · exact hh.bind hf

/-- Behind a part that may be left out. -/
theorem Keeps.optional {p : Prop} [Decidable p] {g : Grammar Unit} {f : Unit → Grammar α}
    (hg : g.Keeps s) (hf : ∀ t, t.allowed = s.allowed → (f ()).Shelters t P) :
    (if p then g >>= f else f ()).Shelters s P := by
  split
  · exact hg.bind fun _ => hf
  · exact hf s rfl

theorem Keeps.yes {g : Grammar Unit} (hg : g.Keeps s) : (do g; return true : Grammar Bool).Keeps s :=
  hg.bind fun _ _ ht => ht

theorem Keeps.safe (h : g.Keeps s) : g.Safe s := h.mono fun _ _ _ => trivial

theorem keeps_nodeBy {body : Grammar NodeKind} (h : body.Safe (s.enter s.allowed))
    (hk : body.Yields (TameKind true)) : (nodeBy body).Keeps s := by
  refine ⟨s.allowed, (h.and_yields hk).mono fun k t ht => ⟨?_, .inl, rfl⟩⟩
  rintro _ ⟨⟩
  exact ht.2.closes (by simp)

theorem keeps_nodeOf {k : NodeKind} {body : Grammar Unit} (h : body.Safe (s.enter s.allowed))
    (hk : TameKind true k) : (nodeOf k body).Keeps s := by
  have hbody : (do body; return k : Grammar NodeKind).Safe (s.enter s.allowed) :=
    h.bind fun _ _ => trivial
  exact keeps_nodeBy hbody (yields_const.2 hk)

theorem keeps_wrap {body : Grammar NodeKind} (h : body.Safe s) (hk : body.Yields (TameKind true)) :
    (wrap body).Keeps s :=
  Shelters.mono (g := body) (h.and_yields hk) fun _ _ ht =>
    ⟨ht.2.head, fun hrecord => absurd (ht.2.record hrecord) (by simp), rfl⟩

/-- In a form with a head record literals are not allowed. -/
theorem keeps_head {body : Grammar NodeKind} (h : body.Shelters (s.enter false) fun k t =>
    k ≠ .recordExpr ∧ (k.hasHead = true → t.allowed = false)) : (nodeBy body).Keeps s := by
  refine ⟨false, Shelters.mono (g := body) h fun k t hk => ⟨?_, by simp, rfl⟩⟩
  rintro _ ⟨⟩
  exact ⟨hk.2, fun hrecord => absurd hrecord hk.1⟩

theorem keeps_headOf {k : NodeKind} {body : Grammar Unit} (hrecord : k ≠ .recordExpr)
    (h : body.Keeps (s.enter false)) : (nodeOf k body).Keeps s := by
  have hbody : (do body; return k : Grammar NodeKind).Shelters (s.enter false) fun k t =>
      k ≠ .recordExpr ∧ (k.hasHead = true → t.allowed = false) :=
    h.bind fun _ _ ht => ⟨hrecord, fun _ => ht⟩
  exact keeps_head hbody

theorem keeps_advance (h : s.next.isOpener = false) : advance.Keeps s := by
  rw [Keeps, shelters_advance, Spot.allowed_take, h, Bool.or_false]

theorem keeps_eat {k : TokenKind} (hk : k.isOpener = false) : (eat k).Keeps s := by
  rw [Keeps, shelters_eat]
  split
  · next hnext => rw [Spot.allowed_take, hnext, hk, Bool.or_false]
  · rfl

theorem keeps_expect {k : TokenKind} (hk : k.isOpener = false) : (expect k).Keeps s := by
  refine (keeps_eat hk).bind fun found t ht => ?_
  split <;> exact ht

theorem keeps_loop {body : Grammar Bool}
    (h : ∀ t : Spot, t.allowed = s.allowed → body.Keeps t) : (loop body).Keeps s := by
  refine ⟨fun _ t => t.allowed = s.allowed, rfl, fun _ t ht => ?_, fun _ _ ht => ht⟩
  exact (h t ht).bind fun more u hu => hu.trans ht

/-- What stands behind a delimiter that opens may have record literals in it. -/
theorem safe_delimited {k : TokenKind} {f : Unit → Grammar α} (hnext : s.next = k)
    (hopen : k.isOpener = true) (h : (f ()).Tame false) : (advance >>= f).Safe s := by
  rw [Safe, shelters_bind, shelters_advance]
  exact h.safe_inside (by rw [Spot.allowed_take, hnext, hopen, Bool.or_true])

/-! ### Expressions -/

/-- Arguments that do not begin with a parenthesis are let through. -/
theorem keeps_argList : argList.Keeps s := by
  by_cases hparen : s.next = .lParen
  · exact keeps_nodeOf (safe_delimited ((Spot.next_enter ..).trans hparen) rfl (by simp)) (by simp)
  · have hbody : (do advance; exprList .rParen; let _ ← expect .rParen : Grammar Unit).Tame false := by
      simp
    refine ⟨true, (hbody.safe fun _ => rfl).bind fun _ t => ⟨?_, fun _ => .inr ⟨rfl, hparen⟩, rfl⟩⟩
    rintro _ ⟨⟩
    exact ⟨by simp, by simp⟩

theorem keeps_dotPostfix : dotPostfix.Keeps s := by
  refine keeps_wrap ?_ (yields_of_forall fun _ => yields_of_forall fun k => by split <;> simp)
  have hname (t : Spot) : nameRef.Safe t := tame_nameRef.safe_anywhere
  have hgeneric (t : Spot) : (genericArgList true).Safe t := tame_genericArgList.safe_anywhere
  rw [Safe, shelters_bind, shelters_advance, shelters_bind, shelters_peek]
  split
  · rw [shelters_bind, shelters_peek, shelters_bind, shelters_peek, shelters_bind, shelters_peek]
    split
    · refine (hname _).bind fun _ t => ?_
      rw [shelters_bind, shelters_isAt, shelters_ite]
      split
      · exact (hgeneric _).bind fun _ _ => keeps_argList.safe.bind fun _ _ => trivial
      · exact keeps_argList.safe.bind fun _ _ => trivial
    · exact (hname _).bind fun _ _ => trivial
  · exact (hname _).bind fun _ _ => trivial
  · trivial

theorem keeps_postfixOp : postfixOp.Keeps s := by
  rw [postfixOp, Keeps, shelters_bind, shelters_peek]
  split
  case h_1 => exact keeps_wrap (keeps_argList.safe.bind fun _ _ => trivial) (by simp)
  case h_2 => exact keeps_dotPostfix
  case h_3 hnext => exact keeps_wrap (safe_delimited hnext rfl (by simp)) (by simp)
  case h_4 => exact keeps_wrap trivial (by simp)
  case h_5 => rfl

theorem shut_binaryOp {power : Nat} : (binaryOp power noRecord).Shut := by
  simp only [binaryOp, shut_bind, shut_peek, true_and]
  intro k
  split
  · simp
  · split
    · simp
    · rw [shut_bind]
      refine ⟨trivial, fun ts => ?_⟩
      split <;> simp

theorem keeps_operators {power : Nat} (hs : noRecord = false → s.allowed = true) :
    (operators power noRecord).Keeps s := by
  refine keeps_loop fun t ht => ?_
  have hbinary : ∀ u : Spot, u.allowed = t.allowed →
      (binaryOp power noRecord).Shelters u fun _ v => v.allowed = t.allowed := fun u hu =>
    hu ▸ tame_binaryOp.keeps shut_binaryOp fun hrecord => (hu.trans ht).trans (hs hrecord)
  rw [Keeps, shelters_ite]
  split
  · refine keeps_postfixOp.bind fun found u hu => ?_
    split
    · exact hu
    · exact hbinary u hu
  · exact hbinary t rfl

theorem shut_leftSide : (leftSide noRecord).Shut := by
  simp only [leftSide, shut_bind, shut_peek, true_and]
  intro k
  split <;> simp

theorem keeps_exprBody {power : Nat} (hs : noRecord = false → s.allowed = true) :
    (exprBody power noRecord).Keeps s := by
  refine (tame_leftSide.keeps shut_leftSide hs).bind fun found t ht => ?_
  split
  · refine Keeps.bind (keeps_operators fun hrecord => ht.trans (hs hrecord)) fun _ u hu => ?_
    exact hu.trans ht
  · exact ht

theorem keeps_parenOrTuple (hnext : s.next = .lParen) : parenOrTuple.Keeps s := by
  have hkind (p : Prop) [Decidable p] :
      TameKind true (if p then .parenExpr else .tupleExpr) := by
    split <;> simp
  refine keeps_nodeBy (safe_delimited ((Spot.next_enter ..).trans hnext) rfl (by simp)) ?_
  exact yields_of_forall fun _ => yields_of_forall fun _ => yields_of_forall fun _ => hkind _

theorem keeps_arrayExpr (hnext : s.next = .lBracket) : arrayExpr.Keeps s :=
  keeps_nodeOf (safe_delimited ((Spot.next_enter ..).trans hnext) rfl (by simp)) (by simp)

theorem keeps_headExpr : headExpr.Keeps s := Tame.keeps_anywhere (by simp) (by simp)

theorem keeps_block : block.Keeps s := Tame.keeps_anywhere (by simp) (by simp)

theorem keeps_report {fault : Fault} : (report fault).Keeps s := rfl

theorem keeps_ifBody (hnext : s.next.isOpener = false) : ifBody.Keeps s := by
  refine keeps_headOf (by simp) ?_
  refine (keeps_advance (by rwa [Spot.next_enter])).bind fun _ t ht => ?_
  refine keeps_headExpr.bind fun _ u hu => ?_
  rw [shelters_bind, shelters_isAt]
  refine keeps_block.either keeps_report fun _ v hv => ?_
  refine (keeps_eat rfl).bind fun found w hw => ?_
  have hallowed : w.allowed = (s.enter false).allowed := hw.trans (hv.trans (hu.trans ht))
  split
  · rw [shelters_bind, shelters_peek]
    split
    case h_1 hif => exact ⟨⟨fun _ => by rw [Spot.next, hif]; rfl, by simp⟩, fun _ _ => hallowed⟩
    case h_2 => exact hallowed ▸ keeps_block
    case h_3 => exact hallowed
  · exact hallowed

theorem keeps_matchArms (hnext : s.next = .lBrace) : matchArms.Keeps s := by
  rw [matchArms, Keeps, shelters_bind, shelters_nextSpan]
  exact keeps_nodeOf (safe_delimited ((Spot.next_enter ..).trans hnext) rfl (by simp)) (by simp)

theorem keeps_matchExpr (hnext : s.next.isOpener = false) : matchExpr.Keeps s := by
  refine keeps_headOf (by simp) ?_
  refine (keeps_advance (by rwa [Spot.next_enter])).bind fun _ t ht => ?_
  refine keeps_headExpr.bind fun _ u hu => ?_
  rw [shelters_bind, shelters_isAt, shelters_ite]
  split
  · next hbrace => exact (hu.trans ht) ▸ keeps_matchArms (eq_of_beq hbrace)
  · exact hu.trans ht

/-- The statements of a block stand behind its brace. -/
theorem safe_blockBody : (blockBody statement).Safe s := by
  rw [blockBody, Safe, shelters_bind, shelters_nextSpan, shelters_bind, shelters_expect]
  split
  · next hnext =>
    refine Tame.safe_inside (by simp) ?_
    rw [Spot.allowed_take, hnext]
    exact Bool.or_true _
  · trivial

theorem keeps_asyncBlock : asyncBlock.Keeps s :=
  keeps_nodeOf ((keeps_eat rfl).safe.bind fun _ _ => safe_blockBody) (by simp)

theorem keeps_labeledLoop : labeledLoop.Keeps s := by
  have hlabel (t : Spot) :
      (nodeOf .loopLabel do advance; let _ ← expect .colon : Grammar Unit).Keeps t :=
    Tame.keeps_anywhere (by simp) trivial
  have hbody (t : Spot) : labeledLoop.body.Keeps t :=
    Tame.keeps_anywhere (by simp [labeledLoop.body]) (by simp [labeledLoop.body])
  refine keeps_head ?_
  rw [shelters_bind, shelters_isAt]
  refine (hlabel _).optional fun t ht => ?_
  rw [shelters_bind, shelters_peek]
  split
  case h_1 => exact (hbody _).bind fun _ _ _ => ⟨by simp, by simp⟩
  case h_2 hnext =>
    refine (keeps_advance (by rw [Spot.next, hnext]; rfl)).bind fun _ u hu => ?_
    refine keeps_headExpr.bind fun _ v hv => ?_
    refine (hbody v).bind fun _ w hw => ?_
    exact ⟨by simp, fun _ => hw.trans (hv.trans (hu.trans ht))⟩
  case h_3 hnext =>
    refine (keeps_advance (by rw [Spot.next, hnext]; rfl)).bind fun _ u hu => ?_
    refine Keeps.bind (tame_patternAlternatives.keeps_anywhere ?_) fun _ v hv => ?_
    · simp [patternAlternatives]
    refine (keeps_expect rfl).bind fun _ w hw => ?_
    refine keeps_headExpr.bind fun _ x hx => ?_
    refine (hbody x).bind fun _ y hy => ?_
    exact ⟨by simp, fun _ => hy.trans (hx.trans (hw.trans (hv.trans (hu.trans ht))))⟩
  case h_4 => exact safe_blockBody.bind fun _ _ => ⟨by simp, by simp⟩
  case h_5 => exact ⟨by simp, by simp⟩

theorem keeps_atomBody (hs : noRecord = false → s.allowed = true) : (atomBody noRecord).Keeps s := by
  rw [atomBody, Keeps, shelters_bind, shelters_peek]
  split
  case h_7 =>
    rw [shelters_bind, shelters_test]
    dsimp only
    split
    · exact Keeps.yes (Tame.keeps (by simp) trivial hs)
    · rw [shelters_bind, shelters_test]
      split
      · exact keeps_asyncBlock.yes
      · exact Keeps.yes (tame_pathExpr.keeps trivial hs)
  case h_14 hnext => exact Keeps.yes (keeps_parenOrTuple hnext)
  case h_15 hnext => exact Keeps.yes (keeps_arrayExpr hnext)
  case h_16 => exact keeps_block.yes
  case h_17 hnext => exact Keeps.yes (keeps_nodeOf safe_blockBody (by simp))
  case h_18 hnext => exact ⟨⟨fun _ => by rw [Spot.next, hnext]; rfl, by simp⟩, fun _ _ => rfl⟩
  case h_19 hnext => exact Keeps.yes (keeps_matchExpr (by rw [Spot.next, hnext]; rfl))
  case h_20 | h_21 | h_22 | h_23 => exact keeps_labeledLoop.yes
  case h_31 => rfl
  all_goals exact Keeps.yes (Tame.keeps (by simp) trivial hs)

/-! ### Other forms -/

theorem shut_tokenTree : tokenTree.Shut := by
  simp only [tokenTree, shut_bind, shut_peek, true_and]
  intro k
  split <;> simp

theorem shut_singlePatternBody : singlePatternBody.Shut := by
  simp only [singlePatternBody, shut_bind, shut_peek, true_and]
  intro k
  split <;> simp [identPattern, pathPattern, parenPattern, literalPattern, singlePatternBody.isAtPath]

theorem keeps_sliceOrArrayType (hnext : s.next = .lBracket) : sliceOrArrayType.Keeps s := by
  refine keeps_nodeBy (safe_delimited ((Spot.next_enter ..).trans hnext) rfl (by simp)) ?_
  exact yields_of_forall fun _ => yields_of_forall fun _ => by simp

theorem keeps_optForBinder : optForBinder.Keeps s := by
  rw [optForBinder, Keeps, shelters_bind, shelters_peek, shelters_bind, shelters_peek, shelters_ite]
  split
  · next hfor =>
    refine (keeps_advance (by rw [Spot.next, hfor.1]; rfl)).bind fun _ t ht => ?_
    exact ht ▸ tame_optGenericParams.keeps_anywhere (by simp [optGenericParams])
  · rfl

theorem keeps_typeBody : typeBody.Keeps s := by
  have htype (t : Spot) : type.Keeps t := Tame.keeps_anywhere (by simp) (by simp)
  rw [typeBody, Keeps, shelters_bind, shelters_peek]
  split
  case h_4 hnext => exact keeps_sliceOrArrayType hnext
  case h_11 => exact keeps_optForBinder.bind fun _ t ht => ht ▸ htype t
  case h_12 => exact Tame.keeps_anywhere (by simp) (by simp [pathOrMacroType, fnPtrType, pathType])
  case h_13 => exact Tame.keeps_anywhere (by simp) (by simp [pathOrMacroType, pathType])
  all_goals exact Tame.keeps_anywhere (by simp) trivial

end Grammar

open Grammar

/-- A named form keeps the permission where it may be read. -/
theorem Rule.keeps_grammar {r : Rule} {s : Spot} (h : r.Fits s) : r.grammar.Keeps s := by
  cases r with
  | type => exact keeps_typeBody.yes
  | bounds => exact Keeps.yes (tame_boundsBody.keeps_anywhere trivial)
  | expr power noRecord => exact keeps_exprBody fun hrecord => h.allowed (by simp [mayBeRecord, hrecord])
  | atom noRecord => exact keeps_atomBody fun hrecord => h.allowed (by simp [mayBeRecord, hrecord])
  | pattern => exact tame_singlePatternBody.keeps_anywhere shut_singlePatternBody
  | block => exact Keeps.yes (keeps_nodeOf safe_blockBody ⟨rfl, by simp⟩)
  | ifExpr => exact Keeps.yes (keeps_ifBody (h.next rfl))
  | item => exact tame_itemBody.keeps trivial fun _ => h.allowed rfl
  | tokenTree => exact Keeps.yes (tame_tokenTree.keeps_anywhere shut_tokenTree)
  | useTree => exact Keeps.yes (tame_useTreeBody.keeps_anywhere trivial)
  | pathType => exact Keeps.yes (tame_pathType.keeps_anywhere trivial)

end Reshape
