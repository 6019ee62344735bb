import Reshape.Command.Help
import Reshape.Command.Arguments
import Reshape.Config.Read
import Reshape.Convert.Basic
import Reshape.Files.Sources
import Reshape.Outline
import Reshape.Report

/-!
# Running commands

A command looks at files and comes to an outcome: what it prints, how it ends, and the files that are
to be written. Nothing is written while a command may still fail.

* `runConvertCommand` converts what stands at a location, in all sources of a project.
* `runSymbols` prints the outline of a file.
* `run` does what a command line asks for.
-/

namespace Reshape.Command

/-- How a command ends: the exit code, what is printed, and the files to be written. -/
structure Outcome where
  code : Nat := 0
  output : String := ""
  errors : String := ""
  writes : List (String × String) := []

/-- The outcome of a command that fails, after what it has to say. -/
def Outcome.failed (report message : String) : Outcome where
  code := 1
  errors := report ++ "error: " ++ message ++ "\n"

/-! ## Converting -/

/-- The name of the file with the settings of a project. -/
def settingsName : String := "rustic.toml"

/-- The full form of a path. -/
def resolved [Monad m] (files : Files m) (path : String) : ExceptT String m String :=
  ExceptT.mk do
    return (← files.resolve path).mapError fun e =>
      "Failed to resolve '" ++ path ++ "': " ++ e.message

/-- The text of a file. -/
def readSource [Monad m] (files : Files m) (path : String) : ExceptT String m String :=
  ExceptT.mk do
    return (← files.read path).mapError fun e =>
      "Failed to read '" ++ path ++ "': " ++ e.message

/-- The settings in a file. -/
def readSettings [Monad m] (files : Files m) (path : String) : ExceptT String m Config := do
  match ← files.read path with
  | .error e => throw ("failed to read " ++ path ++ ": " ++ e.message)
  | .ok text =>
    match Config.ofToml? text with
    | some config => return config
    | none => throw "failed to parse configuration: TOML parse error"

/-- The settings of a project: those in a given file, those in its own file if there is one, or else
the defaults. -/
def findSettings [Monad m] (files : Files m) (given : Option String) (root : String) :
    ExceptT String m Config := do
  match given with
  | some path => readSettings files path
  | none =>
    let own := joinPath root [settingsName]
    if ← files.isFile own then readSettings files own else return {}

/-- The project directory: the given one, or the directory of the file. -/
def projectRoot [Monad m] (files : Files m) (given : Option String) (file : String) :
    ExceptT String m String := do
  match given with
  | some root => resolved files root
  | none =>
    match parentPath? file with
    | some root => return root
    | none => throw ("'" ++ file ++ "' has no parent directory")

/-- The sources of a project, and a file that may lie outside of it. -/
def loadProject [Monad m] (files : Files m) (root file : String) :
    ExceptT String m (FileId × Workspace) := do
  let (loaded, w) ← (loadSources files root .empty : m _)
  match loaded with
  | .error e => throw ("Failed to read '" ++ root ++ "': " ++ e.message)
  | .ok () =>
    match w.fileId? file with
    | some f => return (f, w)
    | none => return w.setFile file (← readSource files file)

/-- The offset of a location in a file. -/
def offsetOf? (source : SourceFile) (l : Location) : Option Nat :=
  (source.lines.offset? l.line l.column).bind fun offset =>
    if offset.toNat ≤ source.size then some offset.toNat else none

/-- A conversion that is ready to be written: the files with their new texts, and the change. -/
structure Conversion where
  texts : List (String × String)
  change : SourceChange

/-- The files that a change touches, with their new texts. -/
def changedTexts (w : Workspace) (change : SourceChange) :
    Except ConversionError (List (String × String)) :=
  change.edits.mapM fun (f, es) =>
    match w.file? f with
    | none => .error .unknownFile
    | some source => (applyEdits source.text es).map fun text => (source.path, text)

/-- The conversion of what stands at a location of a loaded project. -/
def conversionIn (w : Workspace) (f : FileId) (file : String) (l : Location) (config : Config) :
    Except (String × String) Conversion :=
  match (w.file? f).bind (offsetOf? · l) with
  | none => .error ("", l.text file ++ " is outside the file")
  | some offset =>
    match convert w ⟨f, offset⟩ config false with
    | .error e => .error ("".intercalate (e.usages.map (usageReport w)), e.message)
    | .ok change =>
      match changedTexts w change with
      | .error e => .error ("", e.message)
      | .ok texts => .ok ⟨texts, change⟩
where
  /-- The report of a usage that cannot be rewritten, under the path of its file. -/
  usageReport (w : Workspace) (u : Usage) : String :=
    match w.file? u.file with
    | none => ""
    | some source =>
      source.path ++ "\n" ++ (Report.ofUsage u.span u.fault.message).text source.text

/-- A file as a dry run prints it. -/
def previewText (path text : String) : String :=
  "--- " ++ path ++ "\n" ++ text ++ (if text.endsWith "\n" then "" else "\n")

/-- The outcome of a conversion. -/
def Conversion.outcome (c : Conversion) (dryRun : Bool) : Outcome :=
  if dryRun then { output := "".intercalate (c.texts.map fun (path, text) => previewText path text) }
  else
    { errors := "  Converted: " ++ toString c.change.editCount ++ " edit(s) in "
        ++ toString c.change.edits.length ++ " file(s)\n"
      writes := c.texts }

/-- Finds the project of a location and loads it. -/
def prepare [Monad m] (files : Files m) (o : ConvertOptions) (l : Location) :
    ExceptT String m (String × Config × FileId × Workspace) := do
  let file ← resolved files l.file
  let root ← projectRoot files o.root file
  let config ← findSettings files o.config root
  let (f, w) ← loadProject files root file
  return (file, config, f, w)

/-- Converts what stands at a location. -/
def runConvertCommand [Monad m] (files : Files m) (o : ConvertOptions) : m Outcome := do
  match Location.ofText? o.location with
  | none => return .failed "" ("expected <file>:<line>:<col>, got '" ++ o.location ++ "'")
  | some l =>
    match ← (prepare files o l).run with
    | .error message => return .failed "" message
    | .ok (file, config, f, w) =>
      match conversionIn w f file l config with
      | .error (report, message) => return .failed report message
      | .ok c => return c.outcome o.dryRun

/-! ## Outlines -/

/-- How an entry is called. -/
def entryLabel : Outline.Kind → String
  | .module => "mod"
  | .struct => "struct"
  | .field => "field"
  | .enum => "enum"
  | .variant => "variant"
  | .traitItem => "trait"
  | .impl => "impl"
  | .function => "fn"
  | .const => "const"
  | .static => "static"
  | .typeAlias => "type"

/-- What stands behind the name of an entry: the signature of a function, or else a colon and the
type. -/
def entryDetail (kind : Outline.Kind) : Option String → String
  | none => ""
  | some detail => if kind = .function then detail else ": " ++ detail

mutual

/-- The text of an entry and of all entries in it, which are indented. -/
def entryText (depth : Nat) : Outline.Entry → String
  | ⟨kind, name, detail, _, _, children⟩ =>
    String.ofList (List.replicate (2 * depth) ' ') ++ entryLabel kind ++ " " ++ name
      ++ entryDetail kind detail ++ "\n" ++ entriesText (depth + 1) children

/-- The text of entries. -/
def entriesText (depth : Nat) : List Outline.Entry → String
  | [] => ""
  | e :: es => entryText depth e ++ entriesText depth es

end

/-- Prints the outline of a file, and what is wrong with it. -/
def runSymbols [Monad m] (files : Files m) (path : String) : m Outcome := do
  match ← (readSource files path).run with
  | .error message => return .failed "" message
  | .ok text =>
    let parse := parseFile text
    return {
      output := entriesText 0 (outline parse.tree)
      errors := "".intercalate (parse.problems.map fun p => (Report.ofProblem p).text text) }

/-! ## All commands -/

/-- Does what a command line asks for. The command that serves editors ends with its input. -/
def run [Monad m] (files : Files m) (words : List String) : m Outcome :=
  match Invocation.ofWords words with
  | .run (.convert o) => runConvertCommand files o
  | .run (.symbols file) => runSymbols files file
  | .run .serve => return {}
  | .help about => return { output := about.text }
  | .version => return { output := versionText }
  | .mistake => return { code := 2, errors := "error: wrong usage\n\n" ++ Topic.program.text }

end Reshape.Command
