import Reshape.Grammar.Fault
import Reshape.Grammar.Lookahead
import Reshape.Tree.Log

/-!
# Grammars

A grammar says how a form is read off the tokens ahead. It is a term, not a function on a parser,
so that facts about all runs follow by induction on it.

* `Grammar α` are the grammars that yield a value of type `α`. The forms that refer to each other
  without end do so by name (`Rule`, `Grammar.call`).
* `ParserState` holds the tokens ahead, the operations recorded so far and the problems found.
* `Grammar.run` runs a grammar, given what the named forms do.

Blanks and comments are invisible to lookahead. They join the tree when the next token or node does:
a node that opens leaves those before it to the node around it, so that its place begins at a
significant token.
-/

namespace Reshape

/-- The forms that grammars refer to by name. An expression has a least binding power, and may be in
a place where a record literal is not allowed. -/
inductive Rule
  | type
  | bounds
  | expr (power : Nat) (noRecord : Bool)
  | atom (noRecord : Bool)
  | pattern
  | block
  | ifExpr
  | item
  | tokenTree
  | useTree
  | pathType
deriving DecidableEq

/-- A grammar that yields a value. -/
inductive Grammar : Type → Type 1
  | pure {α : Type} (a : α) : Grammar α
  | bind {α β : Type} (g : Grammar α) (f : α → Grammar β) : Grammar β
  /-- The tokens ahead, trivia included. -/
  | ahead : Grammar (List Token)
  /-- Steps over the next significant token and the trivia before it. -/
  | advance : Grammar Unit
  /-- Reports a fault at the next significant token, unless the last problem is at the same place. -/
  | report (fault : Fault) : Grammar Unit
  /-- Reports a fault at the next significant token, with a note on an earlier one. -/
  | reportFrom (fault : Fault) (origin : Span) (note : String) : Grammar Unit
  /-- Reads a node, whose kind is known at its end. Without a kind there is no node, or an error
  if something was read. -/
  | node {α : Type} (body : Grammar (Option NodeKind × α)) : Grammar α
  /-- Reads the rest of a node that has the last finished node as its first child. -/
  | wrap (body : Grammar NodeKind) : Grammar Unit
  /-- Repeats as long as the answer is to go on. -/
  | iterate {σ : Type} (init : σ) (body : σ → Grammar (σ × Bool)) : Grammar σ
  /-- Reads the named form, and says whether a node was read. -/
  | call (r : Rule) : Grammar Bool

/-! ## The state of a parser -/

/-- The tokens ahead, the operations so far with the last one first, the problems so far with the
last one first, and the offset at which the text ends. A parser that was stopped because it went on
without reading is `exhausted`. -/
structure ParserState where
  rest : List Token
  ops : List Op
  problems : List Problem
  finish : Nat
  exhausted : Bool

namespace ParserState

/-- The place of the next significant token. -/
def here (s : ParserState) : Span :=
  match nextToken? s.rest with
  | some t => t.span
  | none => .empty s.finish

/-- Steps over one token. -/
def step (s : ParserState) : ParserState :=
  match s.rest with
  | [] => s
  | _ :: ts => { s with rest := ts, ops := .advance :: s.ops }

/-- Steps over the trivia ahead. -/
def skipTrivia (s : ParserState) : ParserState :=
  { s with
    rest := fromSignificant s.rest
    ops := List.replicate (s.rest.takeWhile (·.isTrivia)).length .advance ++ s.ops }

/-- Steps over the next significant token and the trivia before it. -/
def advance (s : ParserState) : ParserState := s.skipTrivia.step

/-- Opens a node. Trivia before it belong to the node around it; the outermost one owns all. -/
def openNode (s : ParserState) : ParserState :=
  let s := if s.ops.isEmpty then s else s.skipTrivia
  { s with ops := .openNode :: s.ops }

/-- Records an operation. -/
def record (s : ParserState) (op : Op) : ParserState := { s with ops := op :: s.ops }

/-- Adds a problem at the next significant token, unless the last problem is there too. -/
def report (s : ParserState) (fault : Fault) : ParserState :=
  if s.problems.head?.map (·.span) = some s.here then s
  else { s with problems := ⟨fault, s.here, none⟩ :: s.problems }

/-- Adds a problem at the next significant token, with a note on another place. -/
def reportFrom (s : ParserState) (fault : Fault) (origin : Span) (note : String) : ParserState :=
  { s with problems := ⟨fault, s.here, some (origin, note)⟩ :: s.problems }

/-- Marks the parser as stopped. -/
def exhaust (s : ParserState) : ParserState := { s with exhausted := true }

end ParserState

namespace Grammar

/-- Repeats a step at most `n` times. -/
def repeatStep {σ : Type} (step : σ → ParserState → (σ × Bool) × ParserState) :
    Nat → σ → ParserState → σ × ParserState
  | 0, x, s => (x, s.exhaust)
  | n + 1, x, s =>
    match step x s with
    | ((y, true), s) => repeatStep step n y s
    | ((y, false), s) => (y, s)

/-- Runs a grammar. Each round of a repetition reads a token, so there are no more of them than
tokens ahead, and a last one. -/
def run (call : Rule → ParserState → Bool × ParserState) {α : Type} :
    Grammar α → ParserState → α × ParserState
  | .pure a, s => (a, s)
  | .bind g f, s =>
    let (a, s) := run call g s
    run call (f a) s
  | .ahead, s => (s.rest, s)
  | .advance, s => ((), s.advance)
  | .report fault, s => ((), s.report fault)
  | .reportFrom fault origin note, s => ((), s.reportFrom fault origin note)
  | .node body, s =>
    match run call body s.openNode with
    | ((some k, a), s) => (a, s.record (.close k))
    | ((none, a), s) => (a, s.record .abandon)
  | .wrap body, s =>
    let (k, s) := run call body (s.record .wrap)
    ((), s.record (.close k))
  | .iterate init body, s =>
    repeatStep (fun x s => run call (body x) s) (s.rest.length + 1) init s
  | .call r, s => call r s

instance : Monad Grammar where
  pure := .pure
  bind := .bind

/-! ## Common grammars -/

/-- The kind of the significant token with `n` others before it. -/
def peek (n : Nat) : Grammar TokenKind := return kindAt n (← ahead)

/-- Whether the tokens ahead satisfy a test. -/
def test (p : List Token → Bool) : Grammar Bool := return p (← ahead)

/-- Whether the next token is of the given kind. -/
def isAt (k : TokenKind) : Grammar Bool := return (← peek 0) == k

/-- Whether the next token is of one of the given kinds. -/
def isAtAny (ks : List TokenKind) : Grammar Bool := return ks.contains (← peek 0)

/-- How many tokens are left from the next significant one on. It is smaller after every step over a
significant token, and the same after one over trivia. -/
def remaining : Grammar Nat := return (fromSignificant (← ahead)).length

/-- The place of the next significant token, if there is one. -/
def nextSpan : Grammar Span := return ((nextToken? (← ahead)).map (·.span)).getD (.empty 0)

/-- Steps over the next token if it is of the given kind. -/
def eat (k : TokenKind) : Grammar Bool := do
  if ← isAt k then advance; return true
  else return false

/-- Steps over the next token if it is of the given kind, and reports that it is missing if not. -/
def expect (k : TokenKind) : Grammar Bool := do
  if ← eat k then return true
  else report (.missing k); return false

/-- Reads a node of the given kind. -/
def nodeOf (k : NodeKind) (body : Grammar Unit) : Grammar Unit :=
  node do body; return (some k, ())

/-- Reads a node whose kind its contents decide. -/
def nodeBy (body : Grammar NodeKind) : Grammar Unit :=
  node do return (some (← body), ())

/-- Reports a fault, and steps over the next token as an error. -/
def skipFaulty (fault : Fault) : Grammar Unit := do
  report fault
  nodeOf .errorNode advance

/-- Repeats as long as the answer is to go on. -/
def loop (body : Grammar Bool) : Grammar Unit :=
  iterate () fun _ => return ((), ← body)

/-- Repeats up to a token of the given kind or the end, as long as the answer is to go on. -/
def loopUntil (closer : TokenKind) (body : Grammar Bool) : Grammar Unit :=
  loop do
    if (← isAt closer) || (← isAt .eof) then return false
    else body

/-- Whether a list goes on behind an element that was read from where `before` tokens were left:
something was read, and the closing token or a comma follows. -/
def commaOrEnd (closer : TokenKind) (before : Nat) : Grammar Bool := do
  if (← remaining) == before then return false
  else if ← isAt closer then return true
  else expect .comma

/-- Elements with commas between them, up to the closing token. -/
def commaList (closer : TokenKind) (element : Grammar Unit) : Grammar Unit :=
  loopUntil closer do
    let before ← remaining
    element
    commaOrEnd closer before

end Grammar

end Reshape
