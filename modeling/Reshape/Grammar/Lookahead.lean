import Reshape.Token.Basic

/-!
# Looking ahead

What follows in a list of tokens when blanks and comments are passed over.

* `kindAt n` and `textAt n` are the kind and text of the token with `n` others before it; behind the
  last token the end of the text goes on.
* `jointAhead` recognises operators that are written as two tokens with nothing between them.
* `macroAhead` recognises a path with an exclamation mark behind it.
-/

namespace Reshape

/-- The tokens from the next significant one on. -/
def fromSignificant (ts : List Token) : List Token := ts.dropWhile (·.isTrivia)

/-- The next significant token. -/
def nextToken? (ts : List Token) : Option Token := (fromSignificant ts).head?

/-- The significant token with `n` others before it. -/
def tokenAt? : Nat → List Token → Option Token
  | _, [] => none
  | n, t :: ts =>
    if t.isTrivia then tokenAt? n ts
    else match n with
      | 0 => some t
      | n + 1 => tokenAt? n ts

/-- The kind of the significant token with `n` others before it. -/
def kindAt (n : Nat) (ts : List Token) : TokenKind :=
  match tokenAt? n ts with
  | some t => t.kind
  | none => .eof

/-- The text of the significant token with `n` others before it. -/
def textAt (n : Nat) (ts : List Token) : String :=
  match tokenAt? n ts with
  | some t => t.text
  | none => ""

/-- Whether the next token is an identifier with the given spelling. -/
def contextualAhead (word : String) (ts : List Token) : Bool :=
  kindAt 0 ts == .ident && textAt 0 ts == word

/-- Whether a token of the first kind follows and touches one of the second kind. -/
def jointAhead (first second : TokenKind) (ts : List Token) : Bool :=
  match tokenAt? 0 ts, tokenAt? 1 ts with
  | some a, some b => a.kind == first && b.kind == second && a.stop == b.start
  | _, _ => false

/-- Whether a kind of token is a name that may stand in a path of modules. -/
def TokenKind.isModuleWord : TokenKind → Bool
  | .ident | .keyword .selfKw | .keyword .crateKw | .keyword .superKw => true
  | _ => false

/-- Whether a kind of token is a name that may stand in a path. -/
def TokenKind.isPathWord : TokenKind → Bool
  | .keyword .selfTypeKw => true
  | k => k.isModuleWord

/-- Whether names with double colons between them follow, and an exclamation mark. A name is next if
`wordNext` says so, else what stands behind a name. -/
def wordsThenBang (wordNext : Bool) : List Token → Bool
  | [] => false
  | t :: ts =>
    if t.isTrivia then wordsThenBang wordNext ts
    else if wordNext then t.kind.isModuleWord && wordsThenBang false ts
    else if t.kind = .colonColon then wordsThenBang true ts
    else t.kind == .bang

/-- Whether a path with an exclamation mark behind it follows. -/
def macroAhead (ts : List Token) : Bool :=
  if kindAt 0 ts = .colonColon then wordsThenBang true (fromSignificant ts).tail
  else wordsThenBang true ts

/-- Whether an item follows, in a place where statements may follow too. -/
def itemAhead (ts : List Token) : Bool :=
  match kindAt 0 ts with
  | .keyword .fnKw | .keyword .structKw | .keyword .enumKw | .keyword .implKw | .keyword .traitKw
  | .keyword .useKw | .keyword .modKw | .keyword .staticKw | .keyword .typeKw | .keyword .pubKw
  | .pound => true
  | .keyword .unsafeKw =>
    kindAt 1 ts == .keyword .fnKw || kindAt 1 ts == .keyword .implKw ||
      kindAt 1 ts == .keyword .traitKw
  | .keyword .constKw =>
    kindAt 1 ts == .ident || kindAt 1 ts == .keyword .fnKw || kindAt 1 ts == .keyword .unsafeKw
  | .ident =>
    (contextualAhead "macro_rules" ts && kindAt 1 ts == .bang) ||
      (contextualAhead "async" ts && kindAt 1 ts == .keyword .fnKw) ||
      (contextualAhead "union" ts && kindAt 1 ts == .ident)
  | _ => false

/-- Whether a qualifier of a function follows. -/
def qualifierAhead (ts : List Token) : Bool :=
  (kindAt 0 ts == .keyword .constKw &&
      (kindAt 1 ts == .keyword .fnKw || kindAt 1 ts == .keyword .unsafeKw)) ||
    (kindAt 0 ts == .keyword .unsafeKw &&
      (kindAt 1 ts == .keyword .fnKw || kindAt 1 ts == .ident)) ||
    (contextualAhead "async" ts && kindAt 1 ts == .keyword .fnKw) ||
    (contextualAhead "extern" ts &&
      (kindAt 1 ts == .keyword .fnKw || kindAt 1 ts == .stringLiteral))

/-- Whether the receiver of a method follows, as the first parameter. -/
def receiverAhead (ts : List Token) : Bool :=
  match kindAt 0 ts with
  | .keyword .selfKw => true
  | .keyword .mutKw => kindAt 1 ts == .keyword .selfKw
  | .amp =>
    match kindAt 1 ts with
    | .keyword .selfKw => true
    | .keyword .mutKw => kindAt 2 ts == .keyword .selfKw
    | .lifetime =>
      kindAt 2 ts == .keyword .selfKw ||
        (kindAt 2 ts == .keyword .mutKw && kindAt 3 ts == .keyword .selfKw)
    | _ => false
  | _ => false

/-- Whether a path follows, in the place of a type. -/
def pathAhead (ts : List Token) : Bool :=
  match kindAt 0 ts with
  | .colonColon => true
  | .lt => kindAt 1 ts != .eof
  | k => k.isPathWord

/-- Whether a kind of token is a literal. -/
def TokenKind.isLiteral : TokenKind → Bool
  | .intLiteral | .floatLiteral | .stringLiteral | .charLiteral | .keyword .trueKw
  | .keyword .falseKw => true
  | _ => false

/-- Whether an expression follows. A brace opens one only where record literals are allowed. -/
def exprAhead (noRecord : Bool) (ts : List Token) : Bool :=
  match kindAt 0 ts with
  | .lBrace => !noRecord
  | .colonColon | .lt | .lParen | .lBracket | .pipe | .pipePipe | .minus | .bang | .star | .amp
  | .ampAmp | .dotDot | .dotDotEq | .keyword .ifKw | .keyword .matchKw | .keyword .whileKw
  | .keyword .loopKw | .keyword .forKw | .keyword .returnKw | .keyword .breakKw
  | .keyword .continueKw | .keyword .letKw | .keyword .unsafeKw | .keyword .moveKw
  | .lifetime => true
  | k => k.isLiteral || k.isPathWord

/-- Whether an expression follows that ends a statement without a semicolon. -/
def blockLikeAhead (ts : List Token) : Bool :=
  match kindAt 0 ts with
  | .keyword .ifKw | .keyword .matchKw | .keyword .whileKw | .keyword .loopKw | .keyword .forKw
  | .lBrace => true
  | .keyword .unsafeKw => kindAt 1 ts == .lBrace
  | .lifetime => kindAt 1 ts == .colon
  | _ => false

/-! ## Infix operators -/

/-- An infix operator: how strongly it binds on either side, and the tokens it is written with. -/
structure InfixOp where
  left : Nat
  right : Nat
  tokens : Nat
deriving DecidableEq

/-- The infix operator that follows. It associates to the left if it binds less strongly there than
on the right. -/
def infixAhead (ts : List Token) : Option InfixOp :=
  if jointAhead .lt .ltEq ts || jointAhead .gt .gtEq ts then some ⟨2, 1, 2⟩
  else if jointAhead .lt .lt ts || jointAhead .gt .gt ts then some ⟨17, 18, 2⟩
  else match kindAt 0 ts with
    | .eq | .compoundAssign => some ⟨2, 1, 1⟩
    | .pipePipe => some ⟨5, 6, 1⟩
    | .ampAmp => some ⟨7, 8, 1⟩
    | .eqEq | .notEq | .lt | .gt | .ltEq | .gtEq => some ⟨9, 10, 1⟩
    | .pipe => some ⟨11, 12, 1⟩
    | .caret => some ⟨13, 14, 1⟩
    | .amp => some ⟨15, 16, 1⟩
    | .plus | .minus => some ⟨19, 20, 1⟩
    | .star | .slash | .percent => some ⟨21, 22, 1⟩
    | _ => none

end Reshape
