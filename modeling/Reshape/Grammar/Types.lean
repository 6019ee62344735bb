import Reshape.Grammar.Pieces

/-!
# Types and bounds

* `typeBody` reads a type, `boundsBody` the bounds behind a colon, `impl` or `dyn`.
* Bounds end where no further one follows; a plus sign at the end is allowed.
-/

namespace Reshape.Grammar

/-- One bound. Without one there is no node, and the bounds end. -/
def bound : Grammar Bool :=
  node do
    match ← peek 0 with
    | .lifetime => advance; return (some .typeBound, true)
    | .question => advance; pathType; return (some .typeBound, true)
    | .lParen =>
      advance
      optForBinder
      pathType
      let _ ← expect .rParen
      return (some .typeBound, true)
    | .keyword .forKw => optForBinder; pathType; return (some .typeBound, true)
    | _ =>
      if ← test pathAhead then pathType; return (some .typeBound, true)
      else return (none, false)

/-- Bounds with plus signs between them. -/
def boundsBody : Grammar Unit :=
  nodeOf .typeBoundList do
    loop do
      if ← bound then eat .plus
      else return false

/-- The parameters of a function pointer, which may be named. -/
def pointerParams : Grammar Unit :=
  nodeOf .paramList do
    advance
    commaList .rParen do
      nodeOf .param do
        if (← peek 0) = .ident ∧ (← peek 1) = .colon then advance; advance
        type
    let _ ← expect .rParen

/-- A pointer to a function. -/
def fnPtrType : Grammar Unit :=
  nodeOf .fnPtrType do
    let _ ← eat (.keyword .unsafeKw)
    if ← test (contextualAhead "extern") then
      advance
      let _ ← eat .stringLiteral
    let _ ← expect (.keyword .fnKw)
    if ← isAt .lParen then pointerParams
    else report (.missing .lParen)
    if ← isAt .arrow then retType

/-- A pointer to a value. -/
def ptrType : Grammar Unit :=
  nodeOf .ptrType do
    advance
    if ← eat (.keyword .constKw) then pure ()
    else if ← eat (.keyword .mutKw) then pure ()
    else report (.expected "`const` or `mut`")
    type

/-- A slice, or an array with its length. -/
def sliceOrArrayType : Grammar Unit :=
  nodeBy do
    advance
    type
    let kind ← do
      if ← eat .semicolon then
        let _ ← expr
        pure NodeKind.arrayType
      else pure NodeKind.sliceType
    let _ ← expect .rBracket
    return kind

/-- A type that starts with a path: the path, or a macro call. -/
def pathOrMacroType : Grammar Unit := do
  if ← test macroAhead then nodeOf .macroCall macroBody
  else pathType

/-- A type. -/
def typeBody : Grammar Unit := do
  match ← peek 0 with
  | .amp | .ampAmp =>
    nodeOf .refType do
      advance
      let _ ← eat .lifetime
      let _ ← eat (.keyword .mutKw)
      type
  | .star => ptrType
  | .lBracket => sliceOrArrayType
  | .lParen =>
    nodeOf .tupleType do
      advance
      commaList .rParen type
      let _ ← expect .rParen
  | .bang => nodeOf .neverType advance
  | .keyword .implKw => nodeOf .implTraitType do advance; bounds
  | .keyword .dynKw => nodeOf .dynTraitType do advance; bounds
  | .keyword .fnKw | .keyword .unsafeKw => fnPtrType
  | .keyword .forKw => optForBinder; type
  | .ident =>
    if ← test (contextualAhead "_") then nodeOf .inferType advance
    else if ← test (contextualAhead "extern") then fnPtrType
    else pathOrMacroType
  | _ =>
    if ← test pathAhead then pathOrMacroType
    else report (.expected "a type")

end Reshape.Grammar
