import Reshape.Command.Run

/-!
# The program

The access to the files of the system, and the entry point: a command is run, its files are written,
and what it prints is printed.
-/

namespace Reshape

/-- Why the system refused access to a file. -/
def faultOf (e : IO.Error) : FileFault :=
  match e with
  | .noFileOrDirectory .. => .missing
  | .inappropriateType .. => .notDirectory
  | other => .other (toString other)

/-- Does something with files, which the system may refuse. -/
def attempt (act : IO α) : IO (Except FileFault α) := do
  match ← act.toBaseIO with
  | .ok a => return .ok a
  | .error e => return .error (faultOf e)

/-- The files below a directory, by the names on the way to them. -/
partial def filesBelow (enter : String → Bool) (dir : String) : IO (List (List String)) := do
  let found ← (System.mkFilePath [dir]).readDir
  let lists ← found.toList.mapM fun entry => do
    let path := entry.path
    if ← path.isDir then
      if enter entry.fileName then
        return (← filesBelow enter path.toString).map (entry.fileName :: ·)
      else return []
    else return [[entry.fileName]]
  return lists.flatten

/-- The text of a file. -/
def readText (path : String) : IO (Except FileFault String) := do
  if ← (System.mkFilePath [path]).isDir then return .error .isDirectory
  else attempt (IO.FS.readFile path)

/-- The access to the files of the system. -/
def systemFiles : Files IO where
  resolve path := do
    match ← readText path with
    | .error .missing => return .error .missing
    | _ => attempt (do return (← IO.FS.realPath path).toString)
  read := readText
  isFile path := do
    let p := System.mkFilePath [path]
    return (← p.pathExists) && !(← p.isDir)
  below enter dir := attempt (filesBelow enter dir)

/-- Runs a command and does what it comes to. -/
def runProgram (words : List String) : IO UInt32 := do
  let outcome ← Command.run systemFiles words
  for (path, text) in outcome.writes do
    IO.FS.writeFile path text
  IO.print outcome.output
  IO.eprint outcome.errors
  return UInt32.ofNat outcome.code

end Reshape

/-- The entry point. -/
def main (words : List String) : IO UInt32 := Reshape.runProgram words
