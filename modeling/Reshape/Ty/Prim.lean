/-!
# Primitive types

The scalar types that need no declaration: integers of six widths with and without a sign, two kinds
of floats, booleans, characters and string slices. `Prim.ofName?` finds one by its name.
-/

namespace Reshape

/-- The number of bits of an integer; `size` is that of an address. -/
inductive IntWidth
  | w8 | w16 | w32 | w64 | w128 | size
deriving DecidableEq

/-- The number of bits of a float. -/
inductive FloatWidth
  | w32 | w64
deriving DecidableEq

/-- A primitive type. -/
inductive Prim
  | int (width : IntWidth) (signed : Bool)
  | float (width : FloatWidth)
  | bool
  | char
  | str
deriving DecidableEq

namespace IntWidth

/-- All widths. -/
def all : List IntWidth := [w8, w16, w32, w64, w128, size]

/-- How a width ends the name of its integers. -/
def suffix : IntWidth → String
  | w8 => "8"
  | w16 => "16"
  | w32 => "32"
  | w64 => "64"
  | w128 => "128"
  | size => "size"

end IntWidth

/-- How a width ends the name of its floats. -/
def FloatWidth.suffix : FloatWidth → String
  | .w32 => "32"
  | .w64 => "64"

namespace Prim

/-- The name of a primitive type. -/
def name : Prim → String
  | int w true => "i" ++ w.suffix
  | int w false => "u" ++ w.suffix
  | float w => "f" ++ w.suffix
  | bool => "bool"
  | char => "char"
  | str => "str"

/-- All primitive types. -/
def all : List Prim :=
  IntWidth.all.map (int · true) ++ IntWidth.all.map (int · false)
    ++ [float .w32, float .w64, bool, char, str]

/-- The primitive type with a name. -/
def ofName? (s : String) : Option Prim := all.find? (·.name == s)

end Prim

end Reshape
