/-!
# Settings

How conversions are written where there is a choice.
-/

namespace Reshape

/-- The settings. `collapseRestMin` is how many fields at the end of a pattern the mark for all other
fields stands for at least; fewer are written out. -/
structure Config where
  collapseRestMin : Nat := 2
deriving DecidableEq

end Reshape
