import Reshape.Grammar.Expressions

/-!
# Items

* `itemBody` reads one item. It answers whether one was read; what is read of an item that turns out
  to be none stays in the tree as an error.
* `items` reads items up to a closing token.
* `sourceFile` and `loneExpr` read a whole text, as a file and as an expression.
-/

namespace Reshape.Grammar

/-- Items up to the closing token or the end. -/
def items (closer : TokenKind) : Grammar Unit :=
  loopUntil closer do
    if ← eat .semicolon then return true
    else
      let before ← remaining
      let found ← call .item
      if found = false ∨ (← remaining) = before then skipFaulty (.expected "an item")
      return true

/-- Items in braces. -/
def bracedItems : Grammar Unit := do
  advance
  innerAttributes
  items .rBrace
  let _ ← expect .rBrace

/-! ## Functions -/

/-- The receiver of a method. -/
def receiver : Grammar Unit := do
  if ← eat .amp then
    let _ ← eat .lifetime
  let _ ← eat (.keyword .mutKw)
  let _ ← expect (.keyword .selfKw)
  if ← eat .colon then type

/-- A parameter, which may be the receiver if it is the first. -/
def parameter (first : Bool) : Grammar Unit :=
  nodeBy do
    let _ ← outerAttributes
    if first && (← test receiverAhead) then
      receiver
      return .selfParam
    else
      let _ ← singlePattern
      if ← eat .colon then type
      else report (.expected "`:` and a parameter type")
      return .param

/-- The parameters of a function. -/
def parameters : Grammar Unit :=
  nodeOf .paramList do
    advance
    let _ ← iterate true fun first => do
      if (← isAt .rParen) || (← isAt .eof) then return (false, false)
      else
        let before ← remaining
        parameter first
        if ← isAt .rParen then return (false, true)
        else if ← expect .comma then return (false, true)
        else
          if (← remaining) = before then skipFaulty (.expected "a parameter")
          return (false, false)
    let _ ← expect .rParen

/-- A function. -/
def fnDef : Grammar NodeKind := do
  advance
  name
  optGenericParams
  if ← isAt .lParen then parameters
  else report (.missing .lParen)
  if ← isAt .arrow then retType
  optWhereClause
  if ← isAt .lBrace then block
  else
    let _ ← expect .semicolon
  return .fnDef

/-! ## Structs and enums -/

/-- What follows an element of a list in braces that should end in a comma: without one, the list
goes on only where the next element can start. -/
def braceListGoesOn (before : Nat) (fault : Fault) (starts : List TokenKind) : Grammar Bool := do
  if ← isAt .rBrace then return true
  else if ← expect .comma then return true
  else if (← remaining) = before then
    skipFaulty fault
    return true
  else isAtAny starts

/-- The named fields of a struct or variant. -/
def recordFieldList : Grammar Unit :=
  nodeOf .recordFieldList do
    advance
    loopUntil .rBrace do
      let before ← remaining
      nodeOf .recordField do
        let _ ← outerAttributes
        let _ ← optVisibility
        name
        let _ ← expect .colon
        type
      braceListGoesOn before (.expected "a field") [.ident, .keyword .pubKw]
    let _ ← expect .rBrace

/-- The positional fields of a struct or variant. -/
def tupleFieldList : Grammar Unit :=
  nodeOf .tupleFieldList do
    advance
    loopUntil .rParen do
      let before ← remaining
      nodeOf .tupleField do
        let _ ← outerAttributes
        let _ ← optVisibility
        type
      if ← isAt .rParen then return true
      else if ← expect .comma then return true
      else
        if (← remaining) = before then skipFaulty (.expected "a field type")
        return false
    let _ ← expect .rParen

/-- A struct or union. -/
def structDef : Grammar NodeKind := do
  advance
  name
  optGenericParams
  match ← peek 0 with
  | .keyword .whereKw | .lBrace =>
    optWhereClause
    if ← isAt .lBrace then recordFieldList
    else
      let _ ← expect .semicolon
  | .lParen =>
    tupleFieldList
    optWhereClause
    let _ ← expect .semicolon
  | .semicolon => advance
  | _ => report (.expected "`\x7b`, `(` or `;` after struct name")
  return .structDef

/-- The variants of an enum. -/
def variantList : Grammar Unit :=
  nodeOf .variantList do
    advance
    loopUntil .rBrace do
      let before ← remaining
      nodeOf .variant do
        let _ ← outerAttributes
        let _ ← optVisibility
        name
        match ← peek 0 with
        | .lBrace => recordFieldList
        | .lParen => tupleFieldList
        | _ => pure ()
        if ← eat .eq then
          let _ ← expr
      braceListGoesOn before (.expected "a variant") [.ident]
    let _ ← expect .rBrace

/-- An enum. -/
def enumDef : Grammar NodeKind := do
  advance
  name
  optGenericParams
  optWhereClause
  if ← isAt .lBrace then variantList
  else report (.missing .lBrace)
  return .enumDef

/-! ## Blocks of items -/

/-- The items of an impl block or a trait. -/
def assocItems : Grammar Unit := do
  if ← isAt .lBrace then nodeOf .assocItemList bracedItems
  else report (.missing .lBrace)

/-- An impl block. -/
def implDef : Grammar NodeKind := do
  advance
  optGenericParams
  let _ ← eat .bang
  type
  if ← eat (.keyword .forKw) then type
  optWhereClause
  assocItems
  return .implDef

/-- A trait. -/
def traitDef : Grammar NodeKind := do
  advance
  name
  optGenericParams
  if ← eat .colon then bounds
  optWhereClause
  assocItems
  return .traitDef

/-- A module. -/
def modItem : Grammar NodeKind := do
  advance
  name
  if ← isAt .lBrace then nodeOf .itemList bracedItems
  else
    let _ ← expect .semicolon
  return .modItem

/-! ## Imports, values and aliases -/

/-- The name that a value or import is given, which may be a lone underscore. -/
def nameOrUnderscore : Grammar Unit := do
  if ← test (contextualAhead "_") then advance
  else name

/-- What follows the path in an import. -/
def useTreeEnd : Grammar Unit := do
  match ← peek 0 with
  | .star => advance
  | .lBrace =>
    nodeOf .useTreeList do
      advance
      loopUntil .rBrace do
        let before ← remaining
        let _ ← call .useTree
        if ← isAt .rBrace then return true
        else if ← expect .comma then return true
        else
          if (← remaining) = before then skipFaulty (.expected "a use tree")
          return false
      let _ ← expect .rBrace
  | _ => report (.expected "a path, `*` or `\x7b`")

/-- What an import names. -/
def useTreeBody : Grammar Unit :=
  nodeOf .useTree do
    match ← peek 0 with
    | .lBrace | .star => useTreeEnd
    | k =>
      if k = .colonColon ∧ [.lBrace, .star].contains (← peek 1) then
        advance
        useTreeEnd
      else
        path .inUse
        if ← eat .colonColon then useTreeEnd
        else if ← isAt (.keyword .asKw) then
          nodeOf .rename do advance; nameOrUnderscore

/-- An import. -/
def useItem : Grammar NodeKind := do
  advance
  let _ ← call .useTree
  let _ ← expect .semicolon
  return .useItem

/-- A constant or static value. -/
def valueItem (kind : NodeKind) : Grammar NodeKind := do
  advance
  let _ ← eat (.keyword .mutKw)
  nameOrUnderscore
  if ← eat .colon then type
  else report (.missing .colon)
  if ← eat .eq then
    let _ ← expr
  let _ ← expect .semicolon
  return kind

/-- An alias of a type. -/
def typeAlias : Grammar NodeKind := do
  advance
  name
  optGenericParams
  if ← eat .colon then bounds
  optWhereClause
  if ← eat .eq then type
  optWhereClause
  let _ ← expect .semicolon
  return .typeAlias

/-- A macro call as an item. With braces it needs no semicolon. -/
def macroItem : Grammar NodeKind := do
  path .inExpr
  let _ ← expect .bang
  if ← isAt .ident then advance
  let braces ← isAt .lBrace
  delimited
  if braces = false then
    let _ ← eat .semicolon
  return .macroCall

/-! ## Any item -/

/-- The qualifiers of a function. -/
def qualifiers : Grammar Unit :=
  loop do
    if ← test qualifierAhead then
      let abi ← test (contextualAhead "extern")
      advance
      if abi then
        let _ ← eat .stringLiteral
      return true
    else return false

/-- The item that follows attributes, visibility and qualifiers, if there is one. -/
def bareItem? : Grammar (Option NodeKind) := do
  match ← peek 0 with
  | .keyword .fnKw => return some (← fnDef)
  | .keyword .structKw => return some (← structDef)
  | .keyword .enumKw => return some (← enumDef)
  | .keyword .implKw => return some (← implDef)
  | .keyword .traitKw => return some (← traitDef)
  | .keyword .useKw => return some (← useItem)
  | .keyword .modKw => return some (← modItem)
  | .keyword .constKw => return some (← valueItem .constItem)
  | .keyword .staticKw => return some (← valueItem .staticItem)
  | .keyword .typeKw => return some (← typeAlias)
  | .keyword .unsafeKw =>
    match ← peek 1 with
    | .keyword .implKw => advance; return some (← implDef)
    | .keyword .traitKw => advance; return some (← traitDef)
    | _ => return none
  | k =>
    if (← test (contextualAhead "union")) && (← peek 1) == .ident then return some (← structDef)
    else if (k = .colonColon || k.isModuleWord) && (← test macroAhead) then
      return some (← macroItem)
    else return none

/-- One item. Answers whether one was read. -/
def itemBody : Grammar Bool :=
  node do
    let attributed ← outerAttributes
    let visible ← optVisibility
    qualifiers
    match ← bareItem? with
    | some k => return (some k, true)
    | none =>
      if attributed || visible then
        report (.expected "an item after attributes or visibility")
        return (some .errorNode, true)
      else return (none, false)

/-! ## Whole texts -/

/-- A file: attributes, then items. -/
def sourceFile : Grammar Unit :=
  nodeOf .sourceFile do
    innerAttributes
    items .eof
    skipToEnd (.expected "an item")
    advance
where
  /-- Steps over all tokens before the end as errors. -/
  skipToEnd (fault : Fault) : Grammar Unit :=
    loop do
      if ← isAt .eof then return false
      else skipFaulty fault; return true

/-- An expression by itself. -/
def loneExpr : Grammar Unit :=
  nodeOf .sourceFile do
    let _ ← expr
    sourceFile.skipToEnd .trailingToken
    advance

end Reshape.Grammar
