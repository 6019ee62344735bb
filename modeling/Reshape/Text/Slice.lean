/-!
# Cutting a text at byte offsets

* `dropBytes` and `takeBytes` cut a text at a byte offset; a character that the offset splits
  counts as lying before it.
* `isBoundary` says that an offset falls between two characters or at an end of the text.
* `sliceText` is the part of a text in a range of offsets, `sliceChars?` refuses ranges that are no
  such part.
* At a boundary nothing is lost: the two parts make up the text (`takeBytes_append_dropBytes`).
-/

namespace Reshape

/-- The number of bytes of a list of characters. -/
def byteLength (cs : List Char) : Nat := cs.foldr (fun c n => c.utf8Size + n) 0

/-- What stands behind the first `n` bytes. -/
def dropBytes : Nat → List Char → List Char
  | 0, cs => cs
  | _ + 1, [] => []
  | n + 1, c :: cs => dropBytes (n + 1 - c.utf8Size) cs

/-- What stands in the first `n` bytes. -/
def takeBytes : Nat → List Char → List Char
  | 0, _ => []
  | _ + 1, [] => []
  | n + 1, c :: cs => c :: takeBytes (n + 1 - c.utf8Size) cs

/-- Whether an offset falls between two characters or at an end of the text. -/
def isBoundary : Nat → List Char → Bool
  | 0, _ => true
  | _ + 1, [] => false
  | n + 1, c :: cs => c.utf8Size ≤ n + 1 && isBoundary (n + 1 - c.utf8Size) cs

/-- The characters between two byte offsets. -/
def sliceChars (cs : List Char) (start stop : Nat) : List Char :=
  takeBytes (stop - start) (dropBytes start cs)

/-- The characters between two byte offsets, if these are in order and fall between characters. -/
def sliceChars? (cs : List Char) (start stop : Nat) : Option (List Char) :=
  if start ≤ stop ∧ isBoundary start cs = true ∧ isBoundary stop cs = true then
    some (sliceChars cs start stop)
  else none

/-- The text between two byte offsets. -/
def sliceText (text : String) (start stop : Nat) : String :=
  String.ofList (sliceChars text.toList start stop)

@[simp] theorem byteLength_nil : byteLength [] = 0 := rfl

@[simp] theorem byteLength_cons (c : Char) (cs : List Char) :
    byteLength (c :: cs) = c.utf8Size + byteLength cs := rfl

@[simp] theorem byteLength_append (cs ds : List Char) :
    byteLength (cs ++ ds) = byteLength cs + byteLength ds := by
  induction cs with
  | nil => simp
  | cons c cs ih => rw [List.cons_append, byteLength_cons, byteLength_cons, ih, Nat.add_assoc]

theorem takeBytes_append_dropBytes (n : Nat) (cs : List Char) :
    takeBytes n cs ++ dropBytes n cs = cs := by
  fun_induction takeBytes n cs with
  | case1 cs => simp [dropBytes]
  | case2 n => simp [dropBytes]
  | case3 n c cs ih => simp [dropBytes, ih]

theorem byteLength_takeBytes {n : Nat} {cs : List Char} (h : isBoundary n cs = true) :
    byteLength (takeBytes n cs) = n := by
  fun_induction takeBytes n cs with
  | case1 => rfl
  | case2 => simp [isBoundary] at h
  | case3 n c cs ih =>
    simp only [isBoundary, Bool.and_eq_true, decide_eq_true_eq] at h
    rw [byteLength_cons, ih h.2]
    omega

theorem exists_byteLength_cons (c : Char) (cs : List Char) : ∃ n, byteLength (c :: cs) = n + 1 :=
  Nat.exists_eq_succ_of_ne_zero (Nat.ne_of_gt (Nat.add_pos_left c.utf8Size_pos _))

theorem dropBytes_append_of_byteLength (cs ds : List Char) :
    dropBytes (byteLength cs) (cs ++ ds) = ds := by
  induction cs with
  | nil => simp [dropBytes]
  | cons c cs ih =>
    obtain ⟨n, hn⟩ := exists_byteLength_cons c cs
    rw [hn, List.cons_append, dropBytes, ← hn, byteLength_cons, Nat.add_sub_cancel_left, ih]

theorem takeBytes_append_of_byteLength (cs ds : List Char) :
    takeBytes (byteLength cs) (cs ++ ds) = cs := by
  induction cs with
  | nil => simp [takeBytes]
  | cons c cs ih =>
    obtain ⟨n, hn⟩ := exists_byteLength_cons c cs
    rw [hn, List.cons_append, takeBytes, ← hn, byteLength_cons, Nat.add_sub_cancel_left, ih]

theorem isBoundary_byteLength (cs ds : List Char) :
    isBoundary (byteLength cs) (cs ++ ds) = true := by
  induction cs with
  | nil => simp [isBoundary]
  | cons c cs ih =>
    obtain ⟨n, hn⟩ := exists_byteLength_cons c cs
    rw [hn, List.cons_append, isBoundary, ← hn, byteLength_cons, Nat.add_sub_cancel_left, ih]
    simp

end Reshape
