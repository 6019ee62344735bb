import Reshape.Grammar.Basic

/-!
# Parts of many forms

Attributes, visibilities, names, literals, token trees, paths, generic parameters and arguments,
and bounds.

* `PathPlace` says which of the three flavours of paths is meant: in types `<` always opens generic
  arguments, in expressions and patterns only behind `::`, and in imports there are none.
* `tokenTree` reads balanced delimiters; a wrong closing delimiter is an error inside the tree.
-/

namespace Reshape.Grammar

/-- Reads the named type. -/
def type : Grammar Unit := do let _ ← call .type

/-- Reads the named expression with the least binding power. -/
def expr : Grammar Bool := call (.expr 0 false)

/-- Reads the named expression in the head of a form, where a brace opens the body. -/
def headExpr : Grammar Unit := do let _ ← call (.expr 0 true)

/-- Reads a token tree by name. -/
def delimited : Grammar Unit := do let _ ← call .tokenTree

/-- Reads bounds by name. -/
def bounds : Grammar Unit := do let _ ← call .bounds

/-- Reads a block by name. -/
def block : Grammar Unit := do let _ ← call .block

/-- Reads a single pattern by name. -/
def singlePattern : Grammar Bool := call .pattern

/-! ## Token trees -/

/-- The delimiter that closes an opening one. -/
def closerOf? : TokenKind → Option TokenKind
  | .lParen => some .rParen
  | .lBracket => some .rBracket
  | .lBrace => some .rBrace
  | _ => none

/-- Whether a kind of token closes something. -/
def isCloser : TokenKind → Bool
  | .rParen | .rBracket | .rBrace => true
  | _ => false

/-- Balanced delimiters with anything between them. -/
def tokenTree : Grammar Unit := do
  match closerOf? (← peek 0) with
  | none => report (.expected "`(`, `[` or `\x7b`")
  | some closer =>
    let origin ← nextSpan
    nodeOf .tokenTree do
      advance
      loop do
        let k ← peek 0
        if k = closer then advance; return false
        else if k = .eof then reportFrom .unclosedDelimiter origin "opened here"; return false
        else if (closerOf? k).isSome then delimited; return true
        else if isCloser k then skipFaulty .mismatchedDelimiter; return true
        else advance; return true

/-! ## Names and attributes -/

/-- A name where it is used. -/
def nameRef : Grammar Unit := nodeOf .nameRef advance

/-- A name where it is declared. -/
def name : Grammar Unit := do
  if ← isAt .ident then nodeOf .name advance
  else report (.expected "a name")

/-- The attributes before an item or a part of one. Answers whether there are any. -/
def outerAttributes : Grammar Bool :=
  iterate false fun any => do
    if (← peek 0) = .pound ∧ (← peek 1) = .lBracket then
      nodeOf .attr do advance; delimited
      return (true, true)
    else return (any, false)

/-- The attributes at the start of a file or body. -/
def innerAttributes : Grammar Unit :=
  loop do
    if (← peek 0) = .pound ∧ (← peek 1) = .bang ∧ (← peek 2) = .lBracket then
      nodeOf .attr do advance; advance; delimited
      return true
    else return false

/-- A literal with a minus sign or without. -/
def literalOrNegated : Grammar Unit := do
  let _ ← eat .minus
  if (← peek 0).isLiteral then advance
  else report (.expected "a literal")

/-! ## Paths -/

/-- The place where a path stands. -/
inductive PathPlace
  | inType
  | inExpr
  | inUse
deriving DecidableEq

/-- The parameters of a generic item. -/
def optGenericParams : Grammar Unit := do
  if ← isAt .lt then
    nodeOf .genericParamList do
      advance
      loopUntil .gt do
        let before ← remaining
        let _ ← outerAttributes
        match ← peek 0 with
        | .lifetime =>
          nodeOf .lifetimeParam do
            advance
            if ← eat .colon then lifetimeBounds
        | .keyword .constKw =>
          nodeOf .constParam do
            advance
            name
            let _ ← expect .colon
            type
            if ← eat .eq then constArg
        | .ident =>
          nodeOf .typeParam do
            name
            if ← eat .colon then bounds
            if ← eat .eq then type
        | _ => skipFaulty (.expected "a generic parameter")
        commaOrEnd .gt before
      let _ ← expect .gt
where
  /-- Lifetimes with plus signs between them. -/
  lifetimeBounds : Grammar Unit :=
    loop do
      if ← eat .lifetime then eat .plus
      else return false
  /-- A block, or a literal. -/
  constArg : Grammar Unit := do
    if ← isAt .lBrace then block
    else nodeOf .literal literalOrNegated

/-- The binder of lifetimes before a bound or a type. -/
def optForBinder : Grammar Unit := do
  if (← peek 0) = .keyword .forKw ∧ (← peek 1) = .lt then
    advance
    optGenericParams

/-- The type behind an arrow. -/
def retType : Grammar Unit := nodeOf .retType do advance; type

/-- One generic argument. -/
def genericArg : Grammar Unit := do
  match ← peek 0 with
  | .lifetime => nodeOf .lifetimeArg advance
  | .intLiteral | .minus | .lBrace | .keyword .trueKw | .keyword .falseKw | .charLiteral
  | .stringLiteral => optGenericParams.constArg
  | .ident =>
    let following ← peek 1
    if following = .eq ∨ following = .colon then
      nodeOf .assocTypeArg do
        nameRef
        if ← eat .eq then type
        else advance; bounds
    else nodeOf .typeArg type
  | _ => nodeOf .typeArg type

/-- Generic arguments, behind a double colon if `joined` says so. -/
def genericArgList (joined : Bool) : Grammar Unit :=
  nodeOf .genericArgList do
    if joined then advance
    advance
    commaList .gt genericArg
    let _ ← expect .gt

/-- What may follow the name in a segment of a path. -/
def segmentArgs : PathPlace → Grammar Unit
  | .inType => do
    if ← isAt .lt then genericArgList false
    else if (← peek 0) = .colonColon ∧ (← peek 1) = .lt then genericArgList true
    else if ← isAt .lParen then
      nodeOf .parenTypeArgList do
        advance
        commaList .rParen type
        let _ ← expect .rParen
      if ← isAt .arrow then retType
  | .inExpr => do
    if (← peek 0) = .colonColon ∧ (← peek 1) = .lt then genericArgList true
  | .inUse => return

/-- A segment of a path. -/
def pathSegment (place : PathPlace) : Grammar Unit :=
  nodeOf .pathSegment do
    let k ← peek 0
    if k.isPathWord then nameRef
    else if k = .lt ∧ place ≠ .inUse then
      advance
      type
      if ← eat (.keyword .asKw) then
        let _ ← call .pathType
      let _ ← expect .gt
    else report (.expected "a path segment")
    segmentArgs place

/-- A path. -/
def path (place : PathPlace) : Grammar Unit :=
  nodeOf .path do
    let _ ← eat .colonColon
    pathSegment place
    loop do
      if (← peek 0) = .colonColon ∧ (← peek 1).isPathWord then
        advance
        pathSegment place
        return true
      else return false

/-- A path as a type. -/
def pathType : Grammar Unit := nodeOf .pathType (path .inType)

/-- A path with an exclamation mark and a token tree behind it. -/
def macroBody : Grammar Unit := do
  path .inExpr
  advance
  delimited

/-! ## Visibilities and where clauses -/

/-- The visibility of an item or field. Answers whether there is one. -/
def optVisibility : Grammar Bool := do
  if ← isAt (.keyword .pubKw) then
    nodeOf .visibility do
      advance
      if ← isAt .lParen then
        match ← peek 1 with
        | .keyword .crateKw | .keyword .selfKw | .keyword .superKw =>
          if (← peek 2) = .rParen then advance; advance; advance
        | .keyword .inKw =>
          advance
          advance
          path .inUse
          let _ ← expect .rParen
        | _ => return
    return true
  else return false

/-- The predicates of a where clause end where a body, a value or the item ends. -/
def endsWhere (ts : List Token) : Bool :=
  [.lBrace, .semicolon, .eq, .eof].contains (kindAt 0 ts)

/-- The where clause of an item. -/
def optWhereClause : Grammar Unit := do
  if ← isAt (.keyword .whereKw) then
    nodeOf .whereClause do
      advance
      loop do
        if ← test endsWhere then return false
        else
          nodeOf .wherePred do
            if ← isAt .lifetime then
              advance
              let _ ← expect .colon
              optGenericParams.lifetimeBounds
            else
              optForBinder
              type
              let _ ← expect .colon
              bounds
          eat .comma

end Reshape.Grammar
