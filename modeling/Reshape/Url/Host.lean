import Reshape.Url.Percent

/-!
# Hosts

A host is written in one way only: names in small letters of ASCII, four bytes in base ten for an
address of the fourth version, and eight groups in base sixteen for one of the sixth.

* `parseHost?` reads the host of an address with a special scheme, `parseOpaqueHost?` that of any
  other address. Both give the text in which the host is written from then on.
* `punycode` writes a label beyond ASCII in ASCII.
-/

namespace Reshape.Url

/-! ## Labels beyond ASCII -/

/-- A digit in base thirty-six: the letters first. -/
def punycodeDigit (n : Nat) : Char :=
  if n < 26 then Char.ofNat ('a'.toNat + n) else Char.ofNat ('0'.toNat + (n - 26))

/-- The bound between digits that end a number and those that do not. -/
def punycodeThreshold (k bias : Nat) : Nat :=
  if k ≤ bias then 1 else if bias + 26 ≤ k then 26 else k - bias

/-- Halves the step between two characters until it is small. -/
def punycodeDamp (delta k : Nat) : Nat :=
  if h : 455 < delta then punycodeDamp (delta / 35) (k + 36) else k + 36 * delta / (delta + 38)
termination_by delta
decreasing_by exact Nat.div_lt_self (by omega) (by omega)

/-- The bias for the next number. -/
def punycodeBias (delta count : Nat) (first : Bool) : Nat :=
  let d := if first then delta / 700 else delta / 2
  punycodeDamp (d + d / count) 0

theorem punycodeThreshold_le (k bias : Nat) : punycodeThreshold k bias ≤ 26 := by
  unfold punycodeThreshold
  split
  · omega
  · split <;> omega

theorem punycodeThreshold_pos (k bias : Nat) : 1 ≤ punycodeThreshold k bias := by
  unfold punycodeThreshold
  split
  · omega
  · split <;> omega

/-- A number as digits, the last of which is below its bound. -/
def punycodeNumber (bias k q : Nat) : List Char :=
  let t := punycodeThreshold k bias
  if q < t then [punycodeDigit q]
  else punycodeDigit (t + (q - t) % (36 - t)) :: punycodeNumber bias (k + 36) ((q - t) / (36 - t))
termination_by q
decreasing_by
  have below := punycodeThreshold_le k bias
  have positive := punycodeThreshold_pos k bias
  calc (q - punycodeThreshold k bias) / (36 - punycodeThreshold k bias)
      ≤ q - punycodeThreshold k bias := Nat.div_le_self _ _
    _ < q := by omega

/-- What is known in the middle of encoding a label: the characters written so far, the step and
bias, and the number of characters that are taken care of. -/
structure PunycodeState where
  written : List Char
  delta : Nat
  bias : Nat
  handled : Nat

/-- Goes on by one character of the label, where a given number is encoded at present. -/
def PunycodeState.next (basic current : Nat) (s : PunycodeState) (c : Char) : PunycodeState :=
  if c.toNat < current then { s with delta := s.delta + 1 }
  else if c.toNat = current then
    { written := s.written ++ punycodeNumber s.bias 36 s.delta
      delta := 0
      bias := punycodeBias s.delta (s.handled + 1) (s.handled == basic)
      handled := s.handled + 1 }
  else s

/-- Encodes the characters beyond ASCII in the order of their numbers, each once for all places. -/
def punycodeFrom (label : List Char) (basic : Nat) :
    Nat → List Nat → PunycodeState → PunycodeState
  | _, [], s => s
  | n, m :: ms, s =>
    let s := { s with delta := s.delta + (m - n) * (s.handled + 1) }
    let s := label.foldl (PunycodeState.next basic m) s
    punycodeFrom label basic (m + 1) ms { s with delta := s.delta + 1 }

/-- A label beyond ASCII written in ASCII, without the mark in front. -/
def punycode (label : List Char) : List Char :=
  let basic := label.filter (·.toNat < 128)
  let others := ((label.filter (128 ≤ ·.toNat)).map Char.toNat).mergeSort.eraseDups
  let start := if basic.isEmpty then [] else basic ++ ['-']
  (punycodeFrom label basic.length 128 others ⟨start, 0, 72, basic.length⟩).written

/-- A label in ASCII. -/
def labelToAscii (label : List Char) : List Char :=
  let label := label.map Char.toLower
  if label.all (·.toNat < 128) then label else ['x', 'n', '-', '-'] ++ punycode label

/-- Pieces of a text between separators. -/
def splitAt (separator : Char) (cs : List Char) : List (List Char) :=
  cs.foldr (fun c pieces =>
    if c = separator then [] :: pieces
    else
      match pieces with
      | p :: ps => (c :: p) :: ps
      | [] => [[c]]) [[]]

/-- Whether a character cannot stand in a name of a host. -/
def isForbiddenInName (c : Char) : Bool :=
  c.toNat ≤ 32 || c.toNat = 127
    || c ∈ ['%', '#', '/', ':', '<', '>', '?', '@', '[', '\\', ']', '^', '|']

/-! ## Addresses of the fourth version -/

/-- The number that a part of an address of the fourth version stands for. -/
def ipv4Number? (cs : List Char) : Option Nat :=
  let (base, ds) : Nat × List Char :=
    match cs with
    | '0' :: 'x' :: ds => (16, ds)
    | '0' :: 'X' :: ds => (16, ds)
    | '0' :: d :: ds => (8, d :: ds)
    | ds => (10, ds)
  if cs.isEmpty then none
  else do
    let values ← ds.mapM fun d => hexDigit? (UInt8.ofNat (min d.toNat 255))
    guard (values.all (· < base))
    return values.foldl (fun n v => n * base + v) 0

/-- Whether a name ends in a number, so that it has to be an address of the fourth version. -/
def endsInNumber (name : List Char) : Bool :=
  let last :=
    match (splitAt '.' name).reverse with
    | [] :: part :: _ => some part
    | [[]] => none
    | part :: _ => some part
    | [] => none
  match last with
  | none => false
  | some part => (!part.isEmpty && part.all Char.isDigit) || (ipv4Number? part).isSome

/-- An address of the fourth version in base ten. -/
def ipv4? (name : List Char) : Option String := do
  let parts := splitAt '.' name
  let parts := if parts.getLast? = some [] then parts.dropLast else parts
  guard (parts.length ≤ 4)
  let numbers ← parts.mapM ipv4Number?
  let last ← numbers.getLast?
  let front := numbers.dropLast
  guard (last < 1 <<< (8 * (4 - front.length)) && front.all (· < 256))
  let n := last + front.zipIdx.foldr (fun (x, i) n => x <<< (8 * (3 - i)) + n) 0
  return ".".intercalate ([3, 2, 1, 0].map fun i => toString ((n >>> (8 * i)) % 256))

/-! ## Addresses of the sixth version -/

/-- A group of at most four digits. -/
def ipv6Group? (cs : List Char) : Option Nat := do
  guard (1 ≤ cs.length && cs.length ≤ 4)
  let values ← cs.mapM fun d => hexDigit? (UInt8.ofNat (min d.toNat 255))
  return values.foldl (fun n v => n * 16 + v) 0

/-- An address of the fourth version in strict form, as two groups. -/
def embeddedIpv4? (cs : List Char) : Option (List Nat) := do
  let parts ← (splitAt '.' cs).mapM fun part => do
    guard (!part.isEmpty && part.all Char.isDigit && (part.head? ≠ some '0' || part.length = 1))
    let n := part.foldl (fun n d => n * 10 + (d.toNat - '0'.toNat)) 0
    guard (n < 256)
    return n
  match parts with
  | [a, b, c, d] => return [a * 256 + b, c * 256 + d]
  | _ => none

/-- The groups between colons. -/
def ipv6Groups? (mayEmbed : Bool) (cs : List Char) : Option (List Nat) :=
  if cs.isEmpty then some []
  else do
    let parts := splitAt ':' cs
    let front ← parts.dropLast.mapM ipv6Group?
    let last ← parts.getLast?
    let tail ← if mayEmbed && '.' ∈ last then embeddedIpv4? last else (ipv6Group? last).map ([·])
    return front ++ tail

/-- The text before and behind the first double colon. -/
def splitAtDoubleColon : List Char → Option (List Char × List Char)
  | ':' :: ':' :: cs => some ([], cs)
  | c :: cs => (splitAtDoubleColon cs).map fun (a, b) => (c :: a, b)
  | [] => none

/-- The longest run of zeros, the first of several: where it starts and how long it is. -/
def longestZeros (groups : List Nat) : Nat × Nat :=
  (groups.zipIdx.map fun (_, i) => (i, ((groups.drop i).takeWhile (· = 0)).length)).foldl
    (fun best r => if best.2 < r.2 then r else best) (0, 0)

/-- Groups as they are written: the longest run of zeros, if it is one, becomes a double colon. -/
def writeIpv6 (groups : List Nat) : String :=
  let text := fun gs => ":".intercalate (gs.map fun g => String.ofList (Nat.toDigits 16 g))
  let (start, count) := longestZeros groups
  if count < 2 then text groups
  else text (groups.take start) ++ "::" ++ text (groups.drop (start + count))

/-- An address of the sixth version. -/
def ipv6? (cs : List Char) : Option String :=
  match splitAtDoubleColon cs with
  | none => do
    let groups ← ipv6Groups? true cs
    guard (groups.length = 8)
    return writeIpv6 groups
  | some (a, b) => do
    let left ← ipv6Groups? false a
    let right ← ipv6Groups? true b
    guard (left.length + right.length ≤ 7)
    return writeIpv6 (left ++ List.replicate (8 - left.length - right.length) 0 ++ right)

/-- An address of the sixth version in brackets, if the host starts with one. -/
def bracketed? : List Char → Option (Option String)
  | '[' :: cs =>
    if cs.getLast? = some ']' then some ((ipv6? cs.dropLast).map fun s => "[" ++ s ++ "]")
    else some none
  | _ => none

/-! ## Hosts -/

/-- Reads the host of an address with a special scheme. -/
def parseHost? (cs : List Char) : Option String :=
  match bracketed? cs with
  | some host => host
  | none => do
    let bytes := percentDecode cs
    let name := charsOfBytes bytes
    guard (utf8Bytes name = bytes)
    let name := ['.'].intercalate ((splitAt '.' name).map labelToAscii)
    guard (!name.isEmpty && !name.any isForbiddenInName)
    if endsInNumber name then ipv4? name else return String.ofList name

/-- Whether a character cannot stand in the host of an address without a special scheme. -/
def isForbiddenInHost (c : Char) : Bool :=
  c ∈ ['\x00', '\t', '\n', '\r', ' ', '#', '/', ':', '<', '>', '?', '@', '[', '\\', ']', '^', '|']

/-- Reads the host of an address without a special scheme. -/
def parseOpaqueHost? (cs : List Char) : Option String :=
  match bracketed? cs with
  | some host => host
  | none =>
    if cs.any isForbiddenInHost then none
    else some (String.ofList (percentEncode controlSet cs))

end Reshape.Url
