import Reshape.Url.Host
import Reshape.Url.Path

/-!
# Addresses of documents

An editor names documents by addresses. The same document may be addressed in several ways; reading
an address gives it a normal form.

* `Url` is an address in normal form, `Url.text` writes it.
* `Url.parse?` reads an address. Schemes of the web and of files are special: a backslash counts as
  a slash, and the host follows rules of its own.
-/

namespace Reshape

/-- The host of an address, with what stands in front of and behind it. -/
structure Url.Authority where
  user : String
  host : String
  port : Option Nat
deriving DecidableEq

/-- The path of an address: a list of segments, or any text. -/
inductive Url.Path
  | segments (ss : List String)
  | opaqueText (s : String)
deriving DecidableEq

/-- An address in normal form. -/
structure Url where
  scheme : String
  authority : Option Url.Authority
  path : Url.Path
  query : Option String
  fragment : Option String
deriving DecidableEq

namespace Url

/-! ## Writing -/

/-- The path as it is written. -/
def Path.text : Path → String
  | segments ss => "".intercalate (ss.map ("/" ++ ·))
  | opaqueText s => s

/-- The part between the scheme and the path. -/
def Authority.text (a : Authority) : String :=
  "//" ++ a.user ++ a.host ++ (a.port.map fun p => ":" ++ toString p).getD ""

/-- What keeps a path that starts with two slashes from being read as a host. -/
def pathGuard (u : Url) : String :=
  match u.authority, u.path with
  | none, .segments ("" :: _ :: _) => "/."
  | _, _ => ""

/-- The address as it is written. -/
def text (u : Url) : String :=
  u.scheme ++ ":" ++ (u.authority.map Authority.text).getD "" ++ u.pathGuard ++ u.path.text
    ++ (u.query.map ("?" ++ ·)).getD "" ++ (u.fragment.map ("#" ++ ·)).getD ""

/-! ## Reading -/

/-- The port that a special scheme has by itself. -/
def defaultPort? (scheme : String) : Option Nat :=
  [("http", 80), ("https", 443), ("ws", 80), ("wss", 443), ("ftp", 21)].lookup scheme

/-- Whether addresses of a scheme follow the special rules. -/
def isSpecialScheme (scheme : String) : Bool := scheme = "file" || (defaultPort? scheme).isSome

/-- The scheme in small letters, and what follows its colon. -/
def readScheme? (cs : List Char) : Option (String × List Char) :=
  let isSchemeChar := fun (c : Char) => c.isAlphanum || c = '+' || c = '-' || c = '.'
  match cs, cs.dropWhile isSchemeChar with
  | c :: _, ':' :: rest =>
    if c.isAlpha then
      some (String.ofList ((cs.takeWhile isSchemeChar).map Char.toLower), rest)
    else none
  | _, _ => none

/-- Query and fragment. -/
def readQuery (special : Bool) (cs : List Char) : Option String × Option String :=
  let encoded := fun set cs => String.ofList (percentEncode set cs)
  match cs with
  | '?' :: rest =>
    let query := encoded (querySet special) (rest.takeWhile (· ≠ '#'))
    match rest.dropWhile (· ≠ '#') with
    | _ :: fragment => (some query, some (encoded fragmentSet fragment))
    | [] => (some query, none)
  | '#' :: fragment => (none, some (encoded fragmentSet fragment))
  | _ => (none, none)

/-- Whether a character ends the part with user, host and port. -/
def endsAuthority (special : Bool) (c : Char) : Bool :=
  c = '/' || c = '?' || c = '#' || (special && c = '\\')

/-- Name and password of a user, as they are written: without either of them, nothing is left. -/
def writeUser (cs : List Char) : String :=
  let encoded := fun cs => String.ofList (percentEncode userSet cs)
  let name := encoded (cs.takeWhile (· ≠ ':'))
  let password := encoded ((cs.dropWhile (· ≠ ':')).drop 1)
  if password = "" then if name = "" then "" else name ++ "@"
  else name ++ ":" ++ password ++ "@"

/-- Splits at the last sign between user and host. -/
def splitUser (cs : List Char) : Option (List Char) × List Char :=
  let back := cs.reverse
  match back.dropWhile (· ≠ '@') with
  | _ :: user => (some user.reverse, (back.takeWhile (· ≠ '@')).reverse)
  | [] => (none, cs)

/-- The host in front of a port; a colon in brackets belongs to the host. -/
def hostPart (inside : Bool) : List Char → List Char × List Char
  | [] => ([], [])
  | c :: cs =>
    if c = ':' ∧ !inside then ([], c :: cs)
    else
      let (host, rest) := hostPart (c = '[' || (inside && c ≠ ']')) cs
      (c :: host, rest)

/-- The port, unless it is the one that the scheme has by itself. -/
def readPort? (scheme : String) (cs : List Char) : Option (Option Nat) :=
  if cs.isEmpty then some none
  else if cs.all Char.isDigit then
    let port := cs.foldl (fun n c => n * 10 + (c.toNat - '0'.toNat)) 0
    if 65535 < port then none
    else some (if defaultPort? scheme = some port then none else some port)
  else none

/-- Reads user, host and port. -/
def readAuthority? (scheme : String) (cs : List Char) : Option Authority := do
  let special := isSpecialScheme scheme
  let (user, rest) := splitUser cs
  guard (user ≠ some [] || !rest.isEmpty)
  let (hostText, portText) := hostPart false rest
  let host ← if special then parseHost? hostText else parseOpaqueHost? hostText
  let user := (user.map writeUser).getD ""
  guard (host ≠ "" || (portText.isEmpty && user = ""))
  let port ← readPort? scheme (portText.drop 1)
  return ⟨user, host, port⟩

/-- The address with an authority and what follows it. -/
def withAuthority (scheme : String) (authority : Authority) (rest : List Char) : Url :=
  let special := isSpecialScheme scheme
  if !special && (rest.isEmpty || rest.head? = some '?' || rest.head? = some '#') then
    let (query, fragment) := readQuery special rest
    ⟨scheme, some authority, .segments [], query, fragment⟩
  else
    let (segments, rest) := readPath special (scheme = "file") rest
    let (query, fragment) := readQuery special rest
    ⟨scheme, some authority, .segments segments, query, fragment⟩

/-- Whether a character is a slash for a special scheme. -/
def isSlash (c : Char) : Bool := c = '/' || c = '\\'

/-- Reads the address of a file, without its scheme. A drive letter in the place of the host starts
the path. A file with a drive letter has no host. -/
def parseFile? (cs : List Char) : Option Url :=
  match cs with
  | a :: b :: rest =>
    if isSlash a && isSlash b then
      let host := rest.takeWhile (!endsAuthority true ·)
      let behind := rest.dropWhile (!endsAuthority true ·)
      if isDrive (String.ofList host) then some (withAuthority "file" ⟨"", "", none⟩ rest)
      else if host.isEmpty then some (withAuthority "file" ⟨"", "", none⟩ behind)
      else do
        let host ← parseHost? host
        let u := withAuthority "file" ⟨"", if host = "localhost" then "" else host, none⟩ behind
        match u.path with
        | .segments (s :: _) =>
          return if isNormalDrive s then { u with authority := some ⟨"", "", none⟩ } else u
        | _ => return u
    else some (withAuthority "file" ⟨"", "", none⟩ cs)
  | _ => some (withAuthority "file" ⟨"", "", none⟩ cs)

/-- Reads an address without a special scheme and without a host. -/
def parsePlain (scheme : String) (cs : List Char) : Url :=
  match cs with
  | '/' :: _ =>
    let (segments, rest) := readPath false false cs
    let (query, fragment) := readQuery false rest
    ⟨scheme, none, .segments segments, query, fragment⟩
  | _ =>
    let isPath := fun (c : Char) => c ≠ '?' && c ≠ '#'
    let (query, fragment) := readQuery false (cs.dropWhile isPath)
    ⟨scheme, none, .opaqueText (String.ofList (percentEncode controlSet (cs.takeWhile isPath))),
      query, fragment⟩

/-- What is left of a text before an address is read: neither control characters nor spaces at its
ends, and no tab or line end anywhere. -/
def cleaned (s : String) : List Char :=
  let isEdge := fun (c : Char) => c.toNat ≤ 32
  let cs := ((s.toList.dropWhile isEdge).reverse.dropWhile isEdge).reverse
  cs.filter fun c => c ≠ '\t' && c ≠ '\n' && c ≠ '\r'

/-- Reads an address. -/
def parse? (s : String) : Option Url := do
  let (scheme, rest) ← readScheme? (cleaned s)
  if scheme = "file" then parseFile? rest
  else
    let special := isSpecialScheme scheme
    let start ←
      match rest with
      | '/' :: '/' :: cs => if special then pure (rest.dropWhile isSlash) else pure cs
      | _ => if special then pure (rest.dropWhile isSlash) else return parsePlain scheme rest
    let authority ← readAuthority? scheme (start.takeWhile (!endsAuthority special ·))
    return withAuthority scheme authority (start.dropWhile (!endsAuthority special ·))

end Url

end Reshape
