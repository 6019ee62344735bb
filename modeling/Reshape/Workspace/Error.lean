import Reshape.Text.Span

/-!
# Why a conversion fails

* `Obstacle` lists why there is nothing to convert at a place.
* `UsageFault` lists why one usage of a declaration cannot be rewritten; a `Usage` is a fault at a
  place.
* `ConversionError` lists why no change comes about, or why one is not applied.
-/

namespace Reshape

/-- The number of a file. -/
abbrev FileId := Nat

/-- Why there is nothing to convert. -/
inductive Obstacle
  | noTarget
  | incomplete
  | isUnion (name : String)
  | positional (name : String)
  | noFieldList (name : String)
  | namelessField (index : Nat) (name : String)
deriving DecidableEq

/-- The wording of an obstacle. -/
def Obstacle.message : Obstacle → String
  | noTarget => "no struct or enum variant at the cursor"
  | incomplete => "the declaration is incomplete"
  | isUnion s => "`" ++ s ++ "` is a union; only structs and enum variants can be converted"
  | positional s => "`" ++ s ++ "` already has positional fields"
  | noFieldList s => "`" ++ s ++ "` has no field list"
  | namelessField i s => "field " ++ toString i ++ " of `" ++ s ++ "` has no name"

/-- Why a usage cannot be rewritten. -/
inductive UsageFault
  | insideMacro (token : String)
  | unknownReceiver (field : String)
  | noFieldOn (field type : String)
  | noFieldIn (field type : String)
  | incompleteLiteral
  | attributeInLiteral
  | noValue (field : String)
  | restWithoutBase
  | incompletePattern
  | attributeInPattern
  | noPattern (field : String)
deriving DecidableEq

/-- The wording of a fault. -/
def UsageFault.message : UsageFault → String
  | insideMacro t => "`" ++ t ++ "` is used inside a macro invocation"
  | unknownReceiver f => "receiver of `." ++ f ++ "` could not be resolved"
  | noFieldOn f t => "no field `" ++ f ++ "` on `" ++ t ++ "`"
  | noFieldIn f t => "no field `" ++ f ++ "` in `" ++ t ++ "`"
  | incompleteLiteral => "incomplete struct literal"
  | attributeInLiteral => "attributes on literal fields are not supported"
  | noValue f => "field `" ++ f ++ "` has no value"
  | restWithoutBase => "`..` without a base expression"
  | incompletePattern => "incomplete struct pattern"
  | attributeInPattern => "attributes on pattern fields are not supported"
  | noPattern f => "field `" ++ f ++ "` has no pattern"

/-- A usage that cannot be rewritten. -/
structure Usage where
  file : FileId
  span : Span
  fault : UsageFault
deriving DecidableEq

/-- A usage on one line: file, place and fault. -/
def Usage.line (u : Usage) : String :=
  toString u.file ++ ":" ++ toString u.span.start ++ ".." ++ toString u.span.stop ++ ": "
    ++ u.fault.message

/-- Why no change comes about, or why one is not applied. -/
inductive ConversionError
  | notApplicable (obstacle : Obstacle)
  | unsupportedUsage (usages : List Usage)
  | cancelled
  | staleSnapshot (expected found : Nat)
  | overlappingEdits
  | editOutOfBounds
  | unknownFile
deriving DecidableEq

namespace ConversionError

/-- The wording of an error. -/
def message : ConversionError → String
  | notApplicable o => o.message
  | unsupportedUsage us => toString us.length ++ " usage(s) cannot be converted"
  | cancelled => "the refactoring was cancelled"
  | staleSnapshot e f =>
    "the workspace changed (expected revision " ++ toString e ++ ", found " ++ toString f ++ ")"
  | overlappingEdits => "computed edits overlap"
  | editOutOfBounds => "an edit lies outside its file"
  | unknownFile => "unknown file"

/-- The usages that an error is about. -/
def usages : ConversionError → List Usage
  | unsupportedUsage us => us
  | _ => []

end ConversionError

end Reshape
