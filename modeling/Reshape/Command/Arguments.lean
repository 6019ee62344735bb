/-!
# Arguments

What the words of a command line ask for. Words are read from left to right; the first one that asks
for help or for the version, or that is a mistake, decides.

* `Word.ofText` is the part that a word can play.
* `Invocation.ofWords` reads a command line.
* `Location.ofText?` reads a location: a file, a line and a column with colons between them. The file may
  hold colons itself. Lines and columns count from one and have 32 bits.
-/

namespace Reshape.Command

/-! ## Words -/

/-- The part that a word of a command line can play. `verbose` may be given often; behind `escape` no
word is an option. -/
inductive Word
  | value
  | escape
  | verbose
  | help
  | version
  | option (name : String) (value : Option String)
  | mistake
deriving DecidableEq

/-- Reads letters behind a single dash. Only the program itself has a version. -/
def Word.ofLetters (outer : Bool) : List Char → Word
  | [] => .verbose
  | 'v' :: cs => Word.ofLetters outer cs
  | 'h' :: _ => .help
  | 'V' :: _ => if outer then .version else .mistake
  | _ => .mistake

/-- Reads what follows two dashes. -/
def Word.ofLong (outer : Bool) (cs : List Char) : Word :=
  let name := String.ofList (cs.takeWhile (· ≠ '='))
  let value :=
    match cs.dropWhile (· ≠ '=') with
    | _ :: v => some (String.ofList v)
    | [] => none
  if name = "verbose" ∧ value = none then .verbose
  else if name = "help" ∧ value = none then .help
  else if name = "version" ∧ value = none ∧ outer then .version
  else .option name value

/-- The part that a word plays. -/
def Word.ofText (outer : Bool) (word : String) : Word :=
  match word.toList with
  | ['-', '-'] => .escape
  | '-' :: '-' :: cs => Word.ofLong outer cs
  | '-' :: c :: cs => Word.ofLetters outer (c :: cs)
  | _ => .value

/-! ## Commands -/

/-- What a conversion is asked to do. Without a root, the directory of the file is the project. -/
structure ConvertOptions where
  location : String
  root : Option String
  dryRun : Bool
  config : Option String
deriving DecidableEq

/-- What the program can be asked to do. -/
inductive Request
  | convert (options : ConvertOptions)
  | symbols (file : String)
  | serve
deriving DecidableEq

/-- What help is asked about. -/
inductive Topic
  | program
  | convert
  | symbols
  | serve
  | help
deriving DecidableEq

/-- What a command line asks for. -/
inductive Invocation
  | run (r : Request)
  | help (about : Topic)
  | version
  | mistake
deriving DecidableEq

/-- What has been read of the words behind the name of a command: values and options, the option
that waits for its value, and whether no further word can be an option. -/
structure Draft where
  value : Option String := none
  root : Option String := none
  dryRun : Bool := false
  config : Option String := none
  waiting : Option String := none
  escaped : Bool := false

namespace Draft

/-- Takes a value. No command has more than one, and the name of a file is not empty. -/
def place (about : Topic) (d : Draft) (word : String) : Except Invocation Draft :=
  if d.value.isSome ∨ about = .serve ∨ (about = .symbols ∧ word = "") then .error .mistake
  else .ok { d with value := some word }

/-- Takes an option with a path: once, and not with an empty one. -/
def set (d : Draft) (name path : String) : Except Invocation Draft :=
  if path = "" then .error .mistake
  else if name = "root" ∧ d.root = none then .ok { d with root := some path, waiting := none }
  else if name = "config" ∧ d.config = none then .ok { d with config := some path, waiting := none }
  else .error .mistake

/-- Takes an option that only conversions have. -/
def takeOption (d : Draft) (name : String) (value : Option String) : Except Invocation Draft :=
  match value with
  | some path => d.set name path
  | none =>
    if name = "dry-run" ∧ !d.dryRun then .ok { d with dryRun := true }
    else if name = "root" ∨ name = "config" then .ok { d with waiting := some name }
    else .error .mistake

/-- Takes a word. What looks like an option is not the value of one. -/
def take (about : Topic) (d : Draft) (word : String) : Except Invocation Draft :=
  match if d.escaped then .value else Word.ofText false word, d.waiting with
  | .value, some name => d.set name word
  | _, some _ => .error .mistake
  | .value, none => d.place about word
  | .escape, none => .ok { d with escaped := true }
  | .verbose, none => .ok d
  | .help, none => .error (.help about)
  | .option name value, none =>
    if about = .convert then d.takeOption name value else .error .mistake
  | _, none => .error .mistake

/-- What is asked for when all words have been read. -/
def finish (about : Topic) (d : Draft) : Invocation :=
  match d.waiting, about, d.value with
  | none, .convert, some location => .run (.convert ⟨location, d.root, d.dryRun, d.config⟩)
  | none, .symbols, some file => .run (.symbols file)
  | none, .serve, none => .run .serve
  | _, _, _ => .mistake

/-- Reads the words behind the name of a command. -/
def read (about : Topic) (words : List String) : Invocation :=
  match words.foldlM (take about) {} with
  | .ok d => d.finish about
  | .error i => i

end Draft

/-- Reads the words of the command that helps. -/
def readHelp : List String → Invocation
  | [] => .help .program
  | ["convert-to-tuple"] => .help .convert
  | ["symbols"] => .help .symbols
  | ["lsp"] => .help .serve
  | ["help"] => .help .help
  | _ => .mistake

/-- Reads a command line. -/
def Invocation.ofWords : List String → Invocation
  | [] => .mistake
  | "convert-to-tuple" :: ws => Draft.read .convert ws
  | "symbols" :: ws => Draft.read .symbols ws
  | "lsp" :: ws => Draft.read .serve ws
  | "help" :: ws => readHelp ws
  | w :: ws =>
    match Word.ofText true w with
    | .verbose => Invocation.ofWords ws
    | .help => .help .program
    | .version => .version
    | _ => .mistake

/-! ## Locations -/

/-- A file, a line and a column. -/
structure Location where
  file : String
  line : UInt32
  column : UInt32
deriving DecidableEq

/-- A number of 32 bits: digits, with or without a plus in front. -/
def readWord? (s : String) : Option UInt32 :=
  let ds :=
    match s.toList with
    | '+' :: ds => ds
    | ds => ds
  let n := ds.foldl (fun n d => n * 10 + (d.toNat - '0'.toNat)) 0
  if !ds.isEmpty && ds.all Char.isDigit && n < 0x100000000 then some (UInt32.ofNat n) else none

namespace Location

/-- Reads a location. -/
def ofText? (s : String) : Option Location :=
  match (s.splitOn ":").reverse with
  | column :: line :: file :: more => do
    let name := ":".intercalate (file :: more).reverse
    let line ← readWord? line
    let column ← readWord? column
    if name = "" ∨ line = 0 ∨ column = 0 then none else some ⟨name, line, column⟩
  | _ => none

/-- The location with the full path of its file. -/
def text (l : Location) (path : String) : String :=
  path ++ ":" ++ toString l.line.toNat ++ ":" ++ toString l.column.toNat

end Location

end Reshape.Command
