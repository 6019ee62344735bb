import Reshape.Grammar.Pieces

/-!
# Patterns

* `singlePatternBody` reads a pattern without alternatives, `patternAlternatives` one with them.
* A lone name binds unless something follows that makes it a path.
-/

namespace Reshape.Grammar

/-- Patterns behind vertical bars. -/
def barredPatterns : Grammar Unit :=
  loop do
    if ← eat .pipe then
      let _ ← singlePattern
      return true
    else return false

/-- A pattern with alternatives or without. The first alternative may have a bar before it. -/
def patternAlternatives : Grammar Unit := do
  if ← isAt .pipe then
    nodeOf .orPat do
      advance
      let _ ← singlePattern
      barredPatterns
  else if ← singlePattern then
    if ← isAt .pipe then wrap do barredPatterns; return .orPat

/-- A pattern that binds a name. -/
def identPattern : Grammar Unit :=
  nodeOf .identPat do
    let _ ← eat (.keyword .refKw)
    let _ ← eat (.keyword .mutKw)
    let k ← peek 0
    if k = .ident ∨ k = .keyword .selfKw then nodeOf .name advance
    else report (.missing .ident)
    if ← eat .atSign then
      let _ ← singlePattern

/-- A literal, or a range of literals. -/
def literalPattern : Grammar Unit := do
  nodeOf .literalPat literalOrNegated
  let k ← peek 0
  if k = .dotDotEq ∨ k = .dotDot then
    wrap do
      advance
      if ← isAtAny [.intLiteral, .floatLiteral, .charLiteral, .minus] then
        nodeOf .literalPat literalOrNegated
      return .rangePat

/-- One field of a record pattern, or the mark for all others. -/
def recordPatternField : Grammar Unit := do
  if ← isAt .dotDot then nodeOf .restPat advance
  else
    nodeOf .recordPatField do
      let k ← peek 0
      if (k = .ident ∨ k = .intLiteral) ∧ (← peek 1) = .colon then
        nameRef
        advance
        patternAlternatives
      else if k = .ident ∨ k = .keyword .refKw ∨ k = .keyword .mutKw then identPattern
      else report (.expected "a field pattern")

/-- The fields of a record pattern. -/
def recordPatternFields : Grammar Unit :=
  nodeOf .recordPatFieldList do
    advance
    loopUntil .rBrace do
      let before ← remaining
      let _ ← outerAttributes
      recordPatternField
      if (← remaining) = before then
        skipFaulty (.expected "a field pattern")
        return true
      else if ← isAt .rBrace then return true
      else expect .comma
    let _ ← expect .rBrace

/-- A path, a path with sub-patterns, or a macro call. -/
def pathPattern : Grammar Unit :=
  nodeBy do
    if ← test macroAhead then
      macroBody
      return .macroCall
    else
      path .inExpr
      match ← peek 0 with
      | .lParen =>
        advance
        commaList .rParen patternAlternatives
        let _ ← expect .rParen
        return .tupleStructPat
      | .lBrace =>
        recordPatternFields
        return .recordPat
      | _ => return .pathPat

/-- Patterns in parentheses: a single one without a comma behind it stays itself. -/
def parenPattern : Grammar Unit :=
  nodeBy do
    advance
    let (elements, trailing) ← iterate (0, false) fun (elements, trailing) => do
      if (← isAt .rParen) || (← isAt .eof) then return ((elements, trailing), false)
      else
        let before ← remaining
        patternAlternatives
        let comma ← eat .comma
        if (← remaining) = before ∨ (comma = false ∧ (← peek 0) ≠ .rParen) then
          report (.expected "`,` or `)`")
          return ((elements + 1, comma), false)
        else return ((elements + 1, comma), true)
    let _ ← expect .rParen
    return if elements = 1 ∧ trailing = false then .parenPat else .tuplePat

/-- A pattern without alternatives. Answers whether there is one. -/
def singlePatternBody : Grammar Bool := do
  match ← peek 0 with
  | .dotDot => nodeOf .restPat advance; return true
  | .amp | .ampAmp =>
    nodeOf .refPat do
      advance
      let _ ← eat (.keyword .mutKw)
      let _ ← singlePattern
    return true
  | .lParen => parenPattern; return true
  | .lBracket =>
    nodeOf .slicePat do
      advance
      commaList .rBracket patternAlternatives
      let _ ← expect .rBracket
    return true
  | .keyword .refKw | .keyword .mutKw => identPattern; return true
  | .intLiteral | .floatLiteral | .stringLiteral | .charLiteral | .keyword .trueKw
  | .keyword .falseKw | .minus => literalPattern; return true
  | .ident =>
    if ← test (contextualAhead "_") then nodeOf .wildcardPat advance
    else if ← isAtPath then pathPattern
    else identPattern
    return true
  | .keyword .selfKw | .keyword .selfTypeKw | .keyword .crateKw | .keyword .superKw | .colonColon
  | .lt => pathPattern; return true
  | _ => report (.expected "a pattern"); return false
where
  /-- Whether what follows the name makes it a path. -/
  isAtPath : Grammar Bool := return [.colonColon, .lParen, .lBrace, .bang].contains (← peek 1)

end Reshape.Grammar
