import Reshape.Files.Basic
import Reshape.Workspace.Basic

/-!
# The sources of a project

The sources below a directory are the files with the extension `rs`. Neither hidden files and
directories nor directories for build results are looked at.

* `sourcesBelow` are the sources below a directory in order.
* `loadSources` adds them to a workspace.
-/

namespace Reshape

/-- Whether a name is hidden. -/
def isHidden (name : String) : Bool := name.startsWith "."

/-- Whether sources are looked for in a directory with a name. -/
def mayHoldSources (name : String) : Bool := !isHidden name && name ≠ "target"

/-- What stands behind the last dot of a name, unless the name starts with that dot. -/
def extension? (name : String) : Option String :=
  match (name.splitOn ".").reverse with
  | ext :: stem :: more => if stem = "" ∧ more = [] then none else some ext
  | _ => none

/-- Whether a file with a name is a source. -/
def isSource (name : String) : Bool := !isHidden name && extension? name = some "rs"

/-- The sources below a directory, sorted by the names on the way to them. -/
def sourcesBelow [Monad m] (files : Files m) (root : String) :
    m (Except FileFault (List String)) := do
  match ← files.below mayHoldSources root with
  | .error e => return .error e
  | .ok found =>
    let sources := found.filter fun names => (names.getLast?.map isSource).getD false
    return .ok ((sources.mergeSort fun a b => !decide (b < a)).map (joinPath root))

/-- Adds files to a workspace, up to the first one that cannot be read. -/
def loadFiles [Monad m] (files : Files m) : List String → Workspace →
    m (Except FileFault Unit × Workspace)
  | [], w => return (.ok (), w)
  | path :: paths, w => do
    match ← files.read path with
    | .error e => return (.error e, w)
    | .ok text => loadFiles files paths (w.setFile path text).2

/-- Adds the sources below a directory to a workspace. -/
def loadSources [Monad m] (files : Files m) (root : String) (w : Workspace) :
    m (Except FileFault Unit × Workspace) := do
  match ← sourcesBelow files root with
  | .error e => return (.error e, w)
  | .ok paths => loadFiles files paths w

end Reshape
