import Reshape.Proofs.Parse.Lossless

/-!
# What is seen ahead

The tests on the tokens ahead pass over trivia, so they find the same in two lists that go on alike
from the next significant token. What they find tells of the next token.

* `kindAt_congr` and `textAt_congr` are this for the kinds and texts of tokens, `infixAhead_congr`
  and `macroAhead_congr` for operators and macro calls.
* `BareFor` says that the word `for` is next without a binder behind it. A type that starts there
  never ends.
* `startsPath` says which kinds of tokens start a path.
-/

namespace Reshape

variable {ts us : List Token}

/-- What looks past trivia sees the same behind them. -/
theorem apply_fromSignificant {β : Type} {f : List Token → β}
    (hf : ∀ t ts, t.isTrivia = true → f (t :: ts) = f ts) (ts : List Token) :
    f (fromSignificant ts) = f ts := by
  induction ts with
  | nil => rfl
  | cons t ts ih =>
    by_cases ht : t.isTrivia = true
    · rw [hf t ts ht, ← ih]
      exact congrArg f (List.dropWhile_cons_of_pos ht)
    · rw [fromSignificant, List.dropWhile_cons_of_neg ht]

theorem tokenAt?_fromSignificant (n : Nat) (ts : List Token) :
    tokenAt? n (fromSignificant ts) = tokenAt? n ts := by
  refine apply_fromSignificant (fun t ts ht => ?_) ts
  rw [tokenAt?.eq_def n (t :: ts)]
  exact if_pos ht

/-- Where nothing is left, the end is next. -/
theorem kindAt_eq_eof (h : fromSignificant ts = []) (n : Nat) :
    kindAt n ts = .eof := by
  rw [kindAt, ← tokenAt?_fromSignificant, h]
  rfl

theorem kindAt_congr (h : fromSignificant us = fromSignificant ts) (n : Nat) :
    kindAt n us = kindAt n ts := by
  rw [kindAt, kindAt, ← tokenAt?_fromSignificant, h, tokenAt?_fromSignificant]

theorem textAt_congr (h : fromSignificant us = fromSignificant ts) (n : Nat) :
    textAt n us = textAt n ts := by
  rw [textAt, textAt, ← tokenAt?_fromSignificant, h, tokenAt?_fromSignificant]

theorem jointAhead_congr (h : fromSignificant us = fromSignificant ts) (first second : TokenKind) :
    jointAhead first second us = jointAhead first second ts := by
  rw [jointAhead, jointAhead, ← tokenAt?_fromSignificant 0 us, ← tokenAt?_fromSignificant 1 us, h,
    tokenAt?_fromSignificant, tokenAt?_fromSignificant]

theorem infixAhead_congr (h : fromSignificant us = fromSignificant ts) :
    infixAhead us = infixAhead ts := by
  simp only [infixAhead, jointAhead_congr h, kindAt_congr h]

theorem wordsThenBang_fromSignificant (wordNext : Bool) (ts : List Token) :
    wordsThenBang wordNext (fromSignificant ts) = wordsThenBang wordNext ts := by
  refine apply_fromSignificant (fun t ts ht => ?_) ts
  rw [wordsThenBang.eq_def wordNext (t :: ts)]
  exact if_pos ht

theorem macroAhead_congr (h : fromSignificant us = fromSignificant ts) :
    macroAhead us = macroAhead ts := by
  rw [macroAhead, macroAhead, kindAt_congr h, ← wordsThenBang_fromSignificant true us, h,
    wordsThenBang_fromSignificant]

/-- The word `for` is next, without a binder of lifetimes behind it. -/
def BareFor (ts : List Token) : Prop := kindAt 0 ts = .keyword .forKw ∧ kindAt 1 ts ≠ .lt

instance (ts : List Token) : Decidable (BareFor ts) := inferInstanceAs (Decidable (_ ∧ _))

theorem bareFor_congr (h : fromSignificant us = fromSignificant ts) :
    BareFor us ↔ BareFor ts := by
  rw [BareFor, BareFor, kindAt_congr h, kindAt_congr h]

/-! ## Paths -/

theorem ne_eof_of_isPathWord {k : TokenKind} (h : k.isPathWord = true) : k ≠ .eof := by
  rintro rfl
  cases h

theorem isPathWord_of_isModuleWord {k : TokenKind} (h : k.isModuleWord = true) :
    k.isPathWord = true := by
  unfold TokenKind.isPathWord
  split
  · rfl
  · exact h

/-- Whether a kind of token starts a path that is not in an import. -/
def startsPath (k : TokenKind) : Bool := k == .colonColon || k == .lt || k.isPathWord

theorem pathAhead_congr (h : fromSignificant us = fromSignificant ts) :
    pathAhead us = pathAhead ts := by
  simp only [pathAhead, kindAt_congr h]

theorem startsPath_of_pathAhead (h : pathAhead ts = true) : startsPath (kindAt 0 ts) = true := by
  rw [pathAhead] at h
  split at h <;> simp_all [startsPath]

/-! ## Words and operators -/

theorem contextualAhead_congr (h : fromSignificant us = fromSignificant ts) (word : String) :
    contextualAhead word us = contextualAhead word ts := by
  rw [contextualAhead, contextualAhead, kindAt_congr h, textAt_congr h]

theorem kindAt_of_contextualAhead {word : String} (h : contextualAhead word ts = true) :
    kindAt 0 ts = .ident := by
  simp only [contextualAhead, Bool.and_eq_true, beq_iff_eq] at h
  exact h.1

theorem kindAt_ne_eof_of_qualifierAhead (h : qualifierAhead ts = true) : kindAt 0 ts ≠ .eof := by
  intro heof
  simp [qualifierAhead, contextualAhead, heof] at h

theorem kindAt_ne_eq_of_qualifierAhead (h : qualifierAhead ts = true) : kindAt 0 ts ≠ .eq := by
  intro heq
  simp [qualifierAhead, contextualAhead, heq] at h

theorem qualifierAhead_congr (h : fromSignificant us = fromSignificant ts) :
    qualifierAhead us = qualifierAhead ts := by
  simp only [qualifierAhead, contextualAhead, kindAt_congr h, textAt_congr h]

theorem kindAt_of_jointAhead {first second : TokenKind} (h : jointAhead first second ts = true) :
    kindAt 0 ts = first := by
  rw [jointAhead] at h
  split at h
  · next a _ hat _ =>
    simp only [Bool.and_eq_true, beq_iff_eq] at h
    rw [kindAt, hat]
    exact h.1.1
  · cases h

/-- An infix operator is a token. -/
theorem kindAt_ne_eof_of_infixAhead {op : InfixOp} (h : infixAhead ts = some op) :
    kindAt 0 ts ≠ .eof := by
  intro heof
  have hjoint (first second : TokenKind) (hne : first ≠ .eof) :
      jointAhead first second ts = false := by
    rw [← Bool.not_eq_true]
    exact fun h => hne (heof ▸ kindAt_of_jointAhead h).symm
  simp [infixAhead, hjoint, heof] at h

end Reshape
