import Reshape.Text.Utf8

/-!
# Percent escapes

In an address a character that would be misread is written byte by byte, each byte as a percent sign
and two digits in base sixteen. Which characters these are depends on the part of the address;
characters beyond ASCII and control characters are escaped everywhere.

* The sets of escaped characters are `controlSet`, `fragmentSet`, `querySet`, `pathSet`,
  `segmentSet` and `userSet`.
* `percentEncode` escapes, `percentDecode` reads escapes back; a percent sign without two digits
  stands for itself.
-/

namespace Reshape.Url

/-- The characters that are escaped everywhere. -/
def controlSet (c : Char) : Bool := c.toNat < 32 || 126 < c.toNat

/-- The characters that are escaped in a fragment. -/
def fragmentSet (c : Char) : Bool := controlSet c || c ∈ [' ', '"', '<', '>', '\x60']

/-- The characters that are escaped in a query; a quote only in addresses of special schemes. -/
def querySet (special : Bool) (c : Char) : Bool :=
  controlSet c || c ∈ [' ', '"', '#', '<', '>'] || (special && c = '\'')

/-- The characters that are escaped in a path. -/
def pathSet (c : Char) : Bool := fragmentSet c || c ∈ ['#', '?', '{', '}']

/-- The characters that are escaped in the name of a file, so that it stays one part of the path. -/
def segmentSet (c : Char) : Bool := pathSet c || c ∈ ['/', '%', '\\']

/-- The characters that are escaped in the name and password of a user. -/
def userSet (c : Char) : Bool :=
  pathSet c || c ∈ ['/', ':', ';', '=', '@', '[', '\\', ']', '^', '|']

/-- A digit in base sixteen. -/
def upperHexDigit (n : Nat) : Char :=
  if n < 10 then Char.ofNat ('0'.toNat + n) else Char.ofNat ('A'.toNat + (n - 10))

/-- A byte as an escape. -/
def percentByte (b : UInt8) : List Char :=
  ['%', upperHexDigit (b.toNat / 16), upperHexDigit (b.toNat % 16)]

/-- Escapes the characters of a set. -/
def percentEncode (set : Char → Bool) (cs : List Char) : List Char :=
  cs.flatMap fun c => if set c then (String.utf8EncodeChar c).flatMap percentByte else [c]

/-- The value of a digit in base sixteen. -/
def hexDigit? (b : UInt8) : Option Nat :=
  let n := b.toNat
  if '0'.toNat ≤ n ∧ n ≤ '9'.toNat then some (n - '0'.toNat)
  else if 'a'.toNat ≤ n ∧ n ≤ 'f'.toNat then some (n - 'a'.toNat + 10)
  else if 'A'.toNat ≤ n ∧ n ≤ 'F'.toNat then some (n - 'A'.toNat + 10)
  else none

/-- The byte that an escape of three bytes stands for. -/
def escapedByte? (b c d : UInt8) : Option UInt8 := do
  guard (b.toNat = '%'.toNat)
  return UInt8.ofNat ((← hexDigit? c) * 16 + (← hexDigit? d))

/-- Reads escapes. -/
def percentDecodeBytes : List UInt8 → List UInt8
  | [] => []
  | b :: c :: d :: bs =>
    match escapedByte? b c d with
    | some e => e :: percentDecodeBytes bs
    | none => b :: percentDecodeBytes (c :: d :: bs)
  | b :: bs => b :: percentDecodeBytes bs

/-- The bytes that a text with escapes stands for. -/
def percentDecode (cs : List Char) : List UInt8 := percentDecodeBytes (utf8Bytes cs)

end Reshape.Url
