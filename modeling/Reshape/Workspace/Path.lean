/-!
# Paths of files

Paths are compared by their components: repeated and closing slashes do not count, nor does a dot
between slashes. A dot at the start of a relative path does count, and two dots stay as they are.
-/

namespace Reshape

/-- The components of a path. The root of an absolute path is the component `/`. -/
def pathParts (path : String) : List String :=
  let pieces := (path.toList.splitOn '/').map String.ofList
  let names := pieces.filter fun p => p ≠ "" ∧ p ≠ "."
  if path.toList.head? = some '/' then "/" :: names
  else if pieces.head? = some "." then "." :: names
  else names

end Reshape
