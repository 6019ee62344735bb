import Reshape.Workspace.Path

/-!
# Access to files

What commands need to know about files. The access is a parameter of everything that uses it, so
that it can be that of a real file system or of a tree of files held in memory.

* `FileFault` lists why a file cannot be read, `FileFault.message` is the wording of the system.
* `Files` is the access itself.
* `joinPath` and `parentPath?` put paths together and take them apart.
-/

namespace Reshape

/-- Why a file or directory cannot be read. -/
inductive FileFault
  | missing
  | isDirectory
  | notDirectory
  | other (message : String)
deriving DecidableEq

/-- The wording of the system. -/
def FileFault.message : FileFault → String
  | missing => "No such file or directory (os error 2)"
  | isDirectory => "Is a directory (os error 21)"
  | notDirectory => "Not a directory (os error 20)"
  | other s => s

/-- Access to files: the full form of a path without dots, the text of a file, whether a path leads
to a file, and the files below a directory, each by the names on the way to it. Of the directories
below only those are entered whose name is accepted. -/
structure Files (m : Type → Type) where
  resolve : String → m (Except FileFault String)
  read : String → m (Except FileFault String)
  isFile : String → m Bool
  below : (String → Bool) → String → m (Except FileFault (List (List String)))

/-- The path of what is found below a directory by a list of names. -/
def joinPath (dir : String) (names : List String) : String :=
  (if dir.endsWith "/" then dir else dir ++ "/") ++ "/".intercalate names

/-- The directory that holds what a full path leads to. The root is held by none. -/
def parentPath? (path : String) : Option String :=
  match pathParts path with
  | "/" :: names => if names = [] then none else some ("/" ++ "/".intercalate names.dropLast)
  | _ => none

end Reshape
