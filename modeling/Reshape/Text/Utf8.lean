/-!
# Texts as bytes

* `utf8Bytes` are the bytes that encode a text.
* `textOfBytes` reads bytes as a text. Where bytes encode no character, a mark of replacement
  stands for the longest run of them that starts the encoding of one, or else for a single byte.
-/

namespace Reshape

/-- The bytes that encode characters. -/
def utf8Bytes (cs : List Char) : List UInt8 := cs.flatMap String.utf8EncodeChar

/-- What a byte that starts an encoding of several bytes says about it: the bits of the number that
are in it, how many bytes follow, and the bounds of the next one. -/
structure Utf8Lead where
  bits : Nat
  tail : Nat
  low : UInt8
  high : UInt8

/-- What a byte says about the encoding that it starts. Bounds rule out numbers that have a shorter
encoding or are no character. -/
def utf8Lead? (b : UInt8) : Option Utf8Lead :=
  let n := b.toNat
  if n < 0x80 then some ⟨n, 0, 0x80, 0xbf⟩
  else if 0xc2 ≤ n ∧ n ≤ 0xdf then some ⟨n % 32, 1, 0x80, 0xbf⟩
  else if n = 0xe0 then some ⟨n % 16, 2, 0xa0, 0xbf⟩
  else if n = 0xed then some ⟨n % 16, 2, 0x80, 0x9f⟩
  else if 0xe1 ≤ n ∧ n ≤ 0xef then some ⟨n % 16, 2, 0x80, 0xbf⟩
  else if n = 0xf0 then some ⟨n % 8, 3, 0x90, 0xbf⟩
  else if 0xf1 ≤ n ∧ n ≤ 0xf3 then some ⟨n % 8, 3, 0x80, 0xbf⟩
  else if n = 0xf4 then some ⟨n % 8, 3, 0x80, 0x8f⟩
  else none

/-- Reads the bytes that follow the first one of an encoding: the number, if all of them are there,
and the bytes behind those that are. -/
def utf8Tail (bits : Nat) : Nat → UInt8 → UInt8 → List UInt8 → Option Nat × List UInt8
  | 0, _, _, bs => (some bits, bs)
  | _ + 1, _, _, [] => (none, [])
  | n + 1, low, high, b :: bs =>
    if low ≤ b ∧ b ≤ high then utf8Tail (bits * 64 + b.toNat % 64) n 0x80 0xbf bs
    else (none, b :: bs)

theorem length_utf8Tail (n bits : Nat) (low high : UInt8) (bs : List UInt8) :
    (utf8Tail bits n low high bs).2.length ≤ bs.length := by
  fun_induction utf8Tail bits n low high bs with
  | case1 => exact Nat.le_refl _
  | case2 => exact Nat.le_refl _
  | case3 bits low high n b bs h ih => exact Nat.le_succ_of_le ih
  | case4 => exact Nat.le_refl _

/-- Reads bytes as characters. -/
def charsOfBytes (bytes : List UInt8) : List Char :=
  match bytes with
  | [] => []
  | b :: bs =>
    match utf8Lead? b with
    | none => '\uFFFD' :: charsOfBytes bs
    | some lead =>
      let read := utf8Tail lead.bits lead.tail lead.low lead.high bs
      (read.1.map Char.ofNat).getD '\uFFFD' :: charsOfBytes read.2
termination_by bytes.length
decreasing_by
  · simp
  · exact Nat.lt_succ_of_le (length_utf8Tail ..)

/-- Reads bytes as a text. -/
def textOfBytes (bytes : List UInt8) : String := String.ofList (charsOfBytes bytes)

end Reshape
