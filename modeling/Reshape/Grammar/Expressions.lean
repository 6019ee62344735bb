import Reshape.Grammar.Patterns

/-!
# Expressions and statements

Expressions are read by operator precedence: an operand, then postfix and infix operators as long
as they bind at least as strongly as asked for. Levels and sides are in `infixAhead`; those of the
other operators are the constants below.

* `exprBody` reads an expression, `atomBody` an operand without operators around it.
* `blockBody` reads the braces of a block, `statement` a statement in it.
* In the head of a form a brace opens the body, so a record literal is not allowed there
  (`noRecord`); delimiters lift the restriction.
-/

namespace Reshape.Grammar

/-- How strongly a range binds to the left and to the right. -/
def rangePower : Nat × Nat := (3, 4)

/-- A cast binds more strongly than every infix operator. -/
def castPower : Nat := 23

/-- How strongly the operators before an operand bind. -/
def prefixPower : Nat := 25

/-- How strongly calls, fields, indices and the question mark bind. -/
def postfixPower : Nat := 27

/-- What a `let` in a condition is matched with binds more strongly than the conjunction. -/
def scrutineePower : Nat := 8

/-! ## Lists of expressions -/

/-- Expressions with commas between them, up to the closing token. -/
def exprList (closer : TokenKind) : Grammar Unit :=
  commaList closer do let _ ← expr

/-- The arguments of a call. -/
def argList : Grammar Unit :=
  nodeOf .argList do
    advance
    exprList .rParen
    let _ ← expect .rParen

/-- Whether expressions in parentheses are a single one, without a comma. -/
def isSingle (elements : Nat) (comma : Bool) : Bool := elements == 1 && !comma

/-- Expressions in parentheses: a single one without a comma behind it, or a tuple. -/
def parenOrTuple : Grammar Unit :=
  nodeBy do
    advance
    let (elements, comma) ← iterate (0, false) fun (elements, comma) => do
      if (← isAt .rParen) || (← isAt .eof) then return ((elements, comma), false)
      else
        let before ← remaining
        let _ ← expr
        if (← remaining) = before then return ((elements + 1, comma), false)
        else if ← eat .comma then return ((elements + 1, true), true)
        else return ((elements + 1, comma), false)
    let _ ← expect .rParen
    return if isSingle elements comma then .parenExpr else .tupleExpr

/-- The elements of an array, or one element and how often it is repeated. -/
def arrayExpr : Grammar Unit :=
  nodeOf .arrayExpr do
    advance
    if !(← isAt .rBracket) then
      let _ ← expr
      if ← eat .semicolon then
        let _ ← expr
      else if ← eat .comma then exprList .rBracket
    let _ ← expect .rBracket

/-! ## Record literals -/

/-- One field of a record literal, which may be a lone name. -/
def recordField : Grammar Unit :=
  nodeOf .recordExprField do
    let _ ← outerAttributes
    let k ← peek 0
    if k = .ident ∨ k = .intLiteral then
      nameRef
      if ← eat .colon then
        let _ ← expr
    else report (.expected "a field name")

/-- The fields of a record literal, with the base that gives all others at the end. -/
def recordFields : Grammar Unit :=
  nodeOf .recordExprFieldList do
    advance
    loopUntil .rBrace do
      let before ← remaining
      if ← eat .dotDot then
        if !(← isAt .rBrace) then
          let _ ← expr
        return false
      else
        recordField
        if (← remaining) = before then
          skipFaulty (.expected "a field")
          return true
        else if ← isAt .rBrace then return true
        else expect .comma
    let _ ← expect .rBrace

/-- A path, a record literal or a macro call. -/
def pathExpr (noRecord : Bool) : Grammar Unit :=
  nodeBy do
    if ← test macroAhead then
      macroBody
      return .macroCall
    else
      path .inExpr
      if (← peek 0) = .lBrace ∧ noRecord = false then
        recordFields
        return .recordExpr
      else return .pathExpr

/-! ## Closures -/

/-- The parameters of a closure. -/
def closureParams : Grammar Unit :=
  nodeOf .paramList do
    if !(← eat .pipePipe) then
      let _ ← expect .pipe
      commaList .pipe do
        nodeOf .param do
          let _ ← singlePattern
          if ← eat .colon then type
      let _ ← expect .pipe

/-- A closure. With a type for its result its body is a block. -/
def closureExpr (noRecord : Bool) : Grammar Unit :=
  nodeOf .closureExpr do
    let _ ← eat (.keyword .moveKw)
    closureParams
    if ← isAt .arrow then
      retType
      if ← isAt .lBrace then block
      else report (.expected "a block after the closure return type")
    else if !(← call (.expr 0 noRecord)) then report (.expected "a closure body")

/-! ## Conditions, matches and loops -/

/-- A condition with one or two branches. -/
def ifBody : Grammar Unit :=
  nodeOf .ifExpr do
    advance
    headExpr
    if ← isAt .lBrace then block
    else report (.expected "`\x7b` after the condition")
    if ← eat (.keyword .elseKw) then
      match ← peek 0 with
      | .keyword .ifKw =>
        let _ ← call .ifExpr
      | .lBrace => block
      | _ => report (.expected "`if` or `\x7b` after `else`")

/-- An arm of a match. A block as its body ends the arm. -/
def matchArm : Grammar Unit :=
  nodeOf .matchArm do
    let _ ← outerAttributes
    patternAlternatives
    if ← isAt (.keyword .ifKw) then
      nodeOf .matchGuard do
        advance
        let _ ← expr
    let _ ← expect .fatArrow
    if ← test blockLikeAhead then
      let _ ← call (.atom false)
    else
      let _ ← expr
    let _ ← eat .comma

/-- The arms of a match. -/
def matchArms : Grammar Unit := do
  let origin ← nextSpan
  nodeOf .matchArmList do
    advance
    innerAttributes
    loopUntil .rBrace do
      let before ← remaining
      matchArm
      if (← remaining) = before then skipFaulty (.expected "a match arm")
      return true
    if !(← eat .rBrace) then
      reportFrom (.expected "`\x7d` to close the match") origin "match body opened here"

/-- A match. -/
def matchExpr : Grammar Unit :=
  nodeOf .matchExpr do
    advance
    headExpr
    if ← isAt .lBrace then matchArms
    else report (.expected "`\x7b` after the match scrutinee")

/-- The braces of a block and the statements between them. -/
def blockBody (statement : Grammar Unit) : Grammar Unit := do
  let origin ← nextSpan
  if ← expect .lBrace then
    innerAttributes
    loopUntil .rBrace do
      let before ← remaining
      statement
      if (← remaining) = before then skipFaulty (.expected "a statement")
      return true
    if !(← eat .rBrace) then
      reportFrom (.expected "`\x7d` to close the block") origin "block opened here"

/-! ## Operators -/

/-- A field or a method behind a dot. -/
def dotPostfix : Grammar Unit :=
  wrap do
    advance
    match ← peek 0 with
    | .ident =>
      if (← peek 1) = .lParen ∨ ((← peek 1) = .colonColon ∧ (← peek 2) = .lt) then
        nameRef
        if ← isAt .colonColon then genericArgList true
        argList
        return .methodCallExpr
      else
        nameRef
        return .fieldExpr
    | .intLiteral =>
      nameRef
      return .fieldExpr
    | _ =>
      report (.expected "a field name or method call after `.`")
      return .fieldExpr

/-- One postfix operator behind the last operand. Answers whether there is one. -/
def postfixOp : Grammar Bool := do
  match ← peek 0 with
  | .lParen =>
    wrap do argList; return .callExpr
    return true
  | .dot =>
    dotPostfix
    return true
  | .lBracket =>
    wrap do
      advance
      let _ ← expr
      let _ ← expect .rBracket
      return .indexExpr
    return true
  | .question =>
    wrap do advance; return .tryExpr
    return true
  | _ => return false

/-- The end of a range, if there is one. -/
def rangeEnd (noRecord : Bool) : Grammar Unit := do
  if ← test (exprAhead noRecord) then
    let _ ← call (.expr rangePower.2 noRecord)

/-- One operator behind the last operand that is not a postfix operator and binds at least as
strongly as `power`. Answers whether there is one. -/
def binaryOp (power : Nat) (noRecord : Bool) : Grammar Bool := do
  let k ← peek 0
  if k = .keyword .asKw then
    if castPower < power then return false
    else
      wrap do advance; type; return .castExpr
      return true
  else if k = .dotDot ∨ k = .dotDotEq then
    if rangePower.1 < power then return false
    else
      wrap do advance; rangeEnd noRecord; return .rangeExpr
      return true
  else match infixAhead (← ahead) with
    | none => return false
    | some op =>
      if op.left < power then return false
      else
        wrap do
          advance
          if op.tokens = 2 then advance
          if !(← call (.expr op.right noRecord)) then
            report (.expected "an expression after the operator")
          return .binExpr
        return true

/-- The operators behind an operand. -/
def operators (power : Nat) (noRecord : Bool) : Grammar Unit :=
  loop do
    if power ≤ postfixPower then
      if ← postfixOp then return true
      else binaryOp power noRecord
    else binaryOp power noRecord

/-- An operand behind an operator. -/
def operand (noRecord : Bool) : Grammar Unit := do
  if !(← call (.expr prefixPower noRecord)) then report (.expected "an expression")

/-- An operand with the operators before it. Answers whether there is one. -/
def leftSide (noRecord : Bool) : Grammar Bool := do
  match ← peek 0 with
  | .minus | .bang | .star =>
    nodeOf .prefixExpr do advance; operand noRecord
    return true
  | .amp | .ampAmp =>
    nodeOf .refExpr do
      advance
      let _ ← eat (.keyword .mutKw)
      operand noRecord
    return true
  | .dotDot | .dotDotEq =>
    nodeOf .rangeExpr do advance; rangeEnd noRecord
    return true
  | _ => call (.atom noRecord)

/-- An expression whose operators bind at least as strongly as `power`. Answers whether there is
one. -/
def exprBody (power : Nat) (noRecord : Bool) : Grammar Bool := do
  if ← leftSide noRecord then
    operators power noRecord
    return true
  else return false

/-! ## Statements -/

/-- A statement that binds the names of a pattern. -/
def letStatement : Grammar Unit :=
  nodeOf .letStmt do
    advance
    patternAlternatives
    if ← eat .colon then type
    if ← eat .eq then
      if !(← expr) then report (.expected "an initializer")
      if ← isAt (.keyword .elseKw) then
        nodeOf .letElse do advance; block
    let _ ← expect .semicolon

/-- The end of a statement that is an expression. Without a semicolon it is the value of the block
if the block ends here; else it must be of a form that ends a statement. -/
def statementEnd (needsSemicolon : Bool) : Grammar Unit := do
  match ← peek 0 with
  | .semicolon => wrap do advance; return .exprStmt
  | .rBrace => return
  | _ =>
    if needsSemicolon then report (.missing .semicolon)
    wrap do return .exprStmt

/-- Whether a form that ends a statement goes on here. -/
def continuesAhead (ts : List Token) : Bool := kindAt 0 ts == .dot || kindAt 0 ts == .question

/-- A statement that is an expression. -/
def exprStatement : Grammar Unit := do
  if ← test blockLikeAhead then
    if ← call (.atom false) then
      if ← test continuesAhead then
        operators 0 false
        statementEnd true
      else statementEnd false
  else if ← expr then statementEnd true

/-- A statement. -/
def statement : Grammar Unit := do
  if ← eat .semicolon then return
  else if ← isAt (.keyword .letKw) then letStatement
  else if ← test itemAhead then
    let _ ← call .item
  else exprStatement

/-- A block as an expression. -/
def blockExpr : Grammar Unit := nodeOf .blockExpr (blockBody statement)

/-! ## Operands -/

/-- A loop or block, with a label or without. -/
def labeledLoop : Grammar Unit :=
  nodeBy do
    if ← isAt .lifetime then
      nodeOf .loopLabel do
        advance
        let _ ← expect .colon
    match ← peek 0 with
    | .keyword .loopKw =>
      advance
      body
      return .loopExpr
    | .keyword .whileKw =>
      advance
      headExpr
      body
      return .whileExpr
    | .keyword .forKw =>
      advance
      patternAlternatives
      let _ ← expect (.keyword .inKw)
      headExpr
      body
      return .forExpr
    | .lBrace =>
      blockBody statement
      return .blockExpr
    | _ =>
      report (.expected "a loop or block after the label")
      return .errorNode
where
  /-- The body of a loop. -/
  body : Grammar Unit := do
    if ← isAt .lBrace then block
    else report (.missing .lBrace)

/-- A `let` in a condition. -/
def letExpr (noRecord : Bool) : Grammar Unit :=
  nodeOf .letExpr do
    advance
    patternAlternatives
    let _ ← expect .eq
    let _ ← call (.expr scrutineePower noRecord)

/-- The value that a form leaves with, if there is one. -/
def optValue (noRecord : Bool) : Grammar Unit := do
  if ← test (exprAhead noRecord) then
    let _ ← call (.expr 0 noRecord)

/-- A block behind the word `async`. -/
def asyncBlock : Grammar Unit :=
  nodeOf .blockExpr do
    advance
    let _ ← eat (.keyword .moveKw)
    blockBody statement

/-- Whether a block follows behind the word `async`. -/
def asyncBlockAhead (ts : List Token) : Bool :=
  contextualAhead "async" ts && (kindAt 1 ts == .lBrace || kindAt 1 ts == .keyword .moveKw)

/-- An operand without operators. Answers whether there is one. -/
def atomBody (noRecord : Bool) : Grammar Bool := do
  match ← peek 0 with
  | .intLiteral | .floatLiteral | .stringLiteral | .charLiteral | .keyword .trueKw
  | .keyword .falseKw => nodeOf .literal advance; return true
  | .ident =>
    if ← test (contextualAhead "_") then nodeOf .underscoreExpr advance
    else if ← test asyncBlockAhead then asyncBlock
    else pathExpr noRecord
    return true
  | .keyword .selfKw | .keyword .selfTypeKw | .keyword .crateKw | .keyword .superKw | .colonColon
  | .lt => pathExpr noRecord; return true
  | .lParen => parenOrTuple; return true
  | .lBracket => arrayExpr; return true
  | .lBrace => block; return true
  | .keyword .unsafeKw =>
    nodeOf .blockExpr do advance; blockBody statement
    return true
  | .keyword .ifKw => call .ifExpr
  | .keyword .matchKw => matchExpr; return true
  | .keyword .whileKw | .keyword .loopKw | .keyword .forKw | .lifetime => labeledLoop; return true
  | .keyword .letKw => letExpr noRecord; return true
  | .keyword .returnKw =>
    nodeOf .returnExpr do advance; optValue noRecord
    return true
  | .keyword .breakKw =>
    nodeOf .breakExpr do
      advance
      let _ ← eat .lifetime
      optValue noRecord
    return true
  | .keyword .continueKw =>
    nodeOf .continueExpr do
      advance
      let _ ← eat .lifetime
    return true
  | .pipe | .pipePipe | .keyword .moveKw => closureExpr noRecord; return true
  | _ => report (.expected "an expression"); return false

end Reshape.Grammar
