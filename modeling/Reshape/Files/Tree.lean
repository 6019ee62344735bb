import Reshape.Entries
import Reshape.Files.Basic

/-!
# Files in memory

A tree of files that stands for a file system: files by the names on the way to them, and the
directory that relative paths start from. Directories are there as far as files need them.

* `FileTree.access` is the access to such a tree.
* `FileTree.write` stores a text.
-/

namespace Reshape

/-- Files by the names on the way to them, and the present directory. -/
structure FileTree where
  current : List String
  files : List (List String × String)

namespace FileTree

/-- The tree without files. -/
def empty (current : List String) : FileTree := ⟨current, []⟩

/-- Whether there is a directory at the end of a way. -/
def isDirectory (t : FileTree) (way : List String) : Bool :=
  way.isPrefixOf t.current || t.files.any fun (f, _) => way.isPrefixOf f && way != f

/-- The full path of the end of a way. -/
def fullPath (way : List String) : String := "/" ++ "/".intercalate way

/-- Follows the names of a path. Only from a directory can one go on. -/
def follow (t : FileTree) : List String → List String → Except FileFault (List String)
  | way, [] => .ok way
  | way, name :: names =>
    if !t.isDirectory way then .error .notDirectory
    else if name = "" ∨ name = "." then t.follow way names
    else if name = ".." then t.follow way.dropLast names
    else
      let next := way ++ [name]
      if t.isDirectory next ∨ (t.files.lookup next).isSome then t.follow next names
      else .error .missing

/-- Where a path leads. -/
def find (t : FileTree) (path : String) : Except FileFault (List String) :=
  if path = "" then .error .missing
  else t.follow (if path.startsWith "/" then [] else t.current) (path.splitOn "/")

/-- The text of the file at the end of a path. -/
def read (t : FileTree) (path : String) : Except FileFault String :=
  match t.find path with
  | .error e => .error e
  | .ok way =>
    match t.files.lookup way with
    | some text => .ok text
    | none => .error .isDirectory

/-- The files below the directory at the end of a path. -/
def below (t : FileTree) (enter : String → Bool) (path : String) :
    Except FileFault (List (List String)) :=
  match t.find path with
  | .error e => .error e
  | .ok way =>
    if t.isDirectory way then
      .ok ((t.files.map (·.1)).filterMap fun f =>
        let names := f.drop way.length
        if way.isPrefixOf f && names.dropLast.all enter then some names else none)
    else .error .notDirectory

/-- The access to a tree of files. -/
def access (t : FileTree) : Files Id where
  resolve path := (t.find path).map fullPath
  read := t.read
  isFile path := (t.read path).isOk
  below := t.below

/-- Stores a text under a path. -/
def write (t : FileTree) (path text : String) : FileTree :=
  let names := (path.splitOn "/").filter (· ≠ "")
  { t with files := setEntry (if path.startsWith "/" then names else t.current ++ names) text t.files }

end FileTree

end Reshape
