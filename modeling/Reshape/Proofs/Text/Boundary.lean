import Reshape.Text.Slice

/-!
# Boundaries of characters

An offset is a boundary of a text where the text can be cut in two, and then it is the length of
what stands before the cut.

* `isBoundary_iff` is this description, and `utf8ByteSize_eq_byteLength` ties the length of a text to
  the lengths of its characters.
* `trimmed_append` is a cut of another kind, in front of all that is taken off the end of a list.
-/

namespace Reshape

/-- What is left of a list, and what is taken off its end. -/
theorem trimmed_append {α : Type} (p : α → Bool) (xs : List α) :
    xs = (xs.reverse.dropWhile p).reverse ++ (xs.reverse.takeWhile p).reverse ∧
      (∀ x ∈ (xs.reverse.takeWhile p).reverse, p x = true) ∧
      ∀ x ∈ (xs.reverse.dropWhile p).reverse.getLast?, p x = false := by
  refine ⟨?_, fun x hx => ?_, fun x hx => ?_⟩
  · rw [← List.reverse_append, List.takeWhile_append_dropWhile, List.reverse_reverse]
  · exact List.all_eq_true.1 List.all_takeWhile x (List.mem_reverse.1 hx)
  · have hhead := List.head?_dropWhile_not p xs.reverse
    rw [List.getLast?_reverse] at hx
    rwa [Option.mem_def.1 hx] at hhead

theorem utf8ByteSize_ofList (cs : List Char) : (String.ofList cs).utf8ByteSize = byteLength cs := by
  induction cs with
  | nil => rfl
  | cons c cs ih =>
    have hsplit : String.ofList (c :: cs) = String.singleton c ++ String.ofList cs := by
      rw [String.singleton_eq_ofList, ← String.ofList_append]
      rfl
    rw [hsplit, String.utf8ByteSize_append, String.utf8ByteSize_singleton, ih, byteLength_cons]

theorem utf8ByteSize_eq_byteLength (s : String) : s.utf8ByteSize = byteLength s.toList := by
  rw [← utf8ByteSize_ofList, String.ofList_toList]

/-- An offset is a boundary exactly where the text can be cut. -/
theorem isBoundary_iff {n : Nat} {cs : List Char} :
    isBoundary n cs = true ↔ ∃ before behind, cs = before ++ behind ∧ byteLength before = n := by
  constructor
  · intro h
    exact ⟨takeBytes n cs, dropBytes n cs, (takeBytes_append_dropBytes n cs).symm,
      byteLength_takeBytes h⟩
  · rintro ⟨before, behind, rfl, rfl⟩
    exact isBoundary_byteLength before behind

/-- A boundary behind the first part of a text is one of the rest. -/
theorem isBoundary_sub_of_append {n : Nat} {before rest : List Char}
    (h : isBoundary n (before ++ rest) = true) (hle : byteLength before ≤ n) :
    isBoundary (n - byteLength before) rest = true := by
  obtain ⟨a, b, hab, ha⟩ := isBoundary_iff.1 h
  obtain ⟨us, rfl, hrest⟩ | ⟨us, rfl, -⟩ := List.append_eq_append_iff.1 hab
  · rw [byteLength_append] at ha
    exact isBoundary_iff.2 ⟨us, b, hrest, by omega⟩
  · -- The cut lies before the rest, so both are at the same place.
    rw [byteLength_append] at hle
    rw [show n - byteLength (a ++ us) = 0 by rw [byteLength_append]; omega]
    exact isBoundary_iff.2 ⟨[], rest, rfl, rfl⟩

/-- A boundary of the rest of a text is one of the whole text. -/
theorem isBoundary_add_of_append {n : Nat} {before rest : List Char} (h : isBoundary n rest = true) :
    isBoundary (byteLength before + n) (before ++ rest) = true := by
  obtain ⟨a, b, rfl, rfl⟩ := isBoundary_iff.1 h
  exact isBoundary_iff.2 ⟨before ++ a, b, (List.append_assoc ..).symm, byteLength_append ..⟩

theorem eq_nil_of_byteLength_eq_zero {cs : List Char} (h : byteLength cs = 0) : cs = [] := by
  cases cs with
  | nil => rfl
  | cons c cs =>
    have pos := c.utf8Size_pos
    rw [byteLength_cons] at h
    omega

/-- A boundary of a text is one of the part before an offset that is not before it. -/
theorem isBoundary_of_append {n : Nat} {rest behind : List Char}
    (h : isBoundary n (rest ++ behind) = true) (hle : n ≤ byteLength rest) :
    isBoundary n rest = true := by
  obtain ⟨a, b, hab, rfl⟩ := isBoundary_iff.1 h
  obtain ⟨us, rfl, -⟩ | ⟨us, rfl, -⟩ := List.append_eq_append_iff.1 hab
  · -- The cut lies behind the part, so it is at its end.
    have hus : us = [] := eq_nil_of_byteLength_eq_zero (by rw [byteLength_append] at hle; omega)
    exact isBoundary_iff.2 ⟨rest, [], by simp, by rw [hus, List.append_nil]⟩
  · exact isBoundary_iff.2 ⟨a, us, rfl, rfl⟩

theorem sliceChars_append (before mid behind : List Char) :
    sliceChars (before ++ mid ++ behind) (byteLength before) (byteLength (before ++ mid)) = mid := by
  rw [sliceChars, List.append_assoc, dropBytes_append_of_byteLength, byteLength_append,
    Nat.add_sub_cancel_left, takeBytes_append_of_byteLength]

theorem sliceChars?_append (before mid behind : List Char) :
    sliceChars? (before ++ mid ++ behind) (byteLength before) (byteLength (before ++ mid)) =
      some mid := by
  have hstart := isBoundary_byteLength before (mid ++ behind)
  rw [← List.append_assoc] at hstart
  rw [sliceChars?, if_pos ⟨by simp, hstart, isBoundary_byteLength _ behind⟩, sliceChars_append]

/-- Two boundaries cut a text in three. -/
theorem exists_cuts {m n : Nat} {cs : List Char} (hm : isBoundary m cs = true)
    (hn : isBoundary n cs = true) (hle : m ≤ n) :
    ∃ before mid behind, cs = before ++ mid ++ behind ∧ byteLength before = m ∧
      byteLength (before ++ mid) = n := by
  obtain ⟨a, b, rfl, rfl⟩ := isBoundary_iff.1 hm
  obtain ⟨c, d, rfl, hc⟩ := isBoundary_iff.1 (isBoundary_sub_of_append hn hle)
  refine ⟨a, c, d, by rw [List.append_assoc], rfl, ?_⟩
  rw [byteLength_append]
  omega

end Reshape
