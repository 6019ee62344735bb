import Reshape.Text.Quoted
import Reshape.Ty.Basic

/-!
# Types written out in full

Messages about types that do not fit show everything a type is made of, the numbers of declarations
and sites included: every value stands as the name of its form with its parts in brackets, in braces
where the parts have names.
-/

namespace Reshape

/-- A form with one part, in brackets. -/
def writtenForm (name part : String) : String := name ++ "(" ++ part ++ ")"

/-- A form with named parts, in braces. -/
def writtenRecord (name : String) (parts : List (String × String)) : String :=
  name ++ " \x7b " ++ ", ".intercalate (parts.map fun (k, v) => k ++ ": " ++ v) ++ " \x7d"

/-- A list of parts. -/
def writtenList (parts : List String) : String := "[" ++ ", ".intercalate parts ++ "]"

/-- A width written out. -/
def IntWidth.written : IntWidth → String
  | size => "Size"
  | w => "W" ++ w.suffix

/-- A width written out. -/
def FloatWidth.written (w : FloatWidth) : String := "W" ++ w.suffix

/-- A primitive type written out. -/
def Prim.written : Prim → String
  | int w signed =>
    writtenRecord "Integer" [("width", w.written), ("signed", if signed then "true" else "false")]
  | float w => writtenForm "Float" w.written
  | bool => "Bool"
  | char => "Char"
  | str => "Str"

/-- A placeholder written out. -/
def Placeholder.written (p : Placeholder) : String :=
  writtenRecord "TypeParam"
    [("name", quoteText p.name), ("site", writtenForm "GenericSite" (toString p.site))]

namespace Ty

mutual

/-- A type written out. -/
def written : Ty → String
  | prim p => writtenForm "Primitive" p.written
  | slice t => writtenForm "Slice" (writtenRecord "SliceType" [("element", written t)])
  | nominal d ts ps =>
    writtenForm "Nominal" (writtenRecord "NominalType"
      [("decl", writtenForm "DeclId" (toString d)), ("args", writtenList (writtenAll ts)),
        ("params", writtenList (ps.map (·.written)))])
  | param p => writtenForm "Param" p.written

/-- Types written out. -/
def writtenAll : List Ty → List String
  | [] => []
  | t :: ts => written t :: writtenAll ts

end

end Ty

end Reshape
