/-!
# Blanks

A class of characters is given as a list of closed ranges of code points in ascending order. The blanks
are the characters with the Unicode property `White_Space`.

* `memRanges` looks a number up and stops at the first range above it. On ascending ranges this is
  membership in one of them (`memRanges_eq_any`).
* `isBlank` is the property; every ASCII blank has it (`isBlank_of_isWhitespace`).
* `trimBlanks` drops blanks at both ends of a text.
-/

namespace Reshape

/-! ## Ascending ranges of numbers -/

/-- Whether `n` lies in one of the ranges, which ascend. -/
def memRanges : List (Nat × Nat) → Nat → Bool
  | [], _ => false
  | (lo, hi) :: rs, n => if n < lo then false else n ≤ hi || memRanges rs n

/-- Every range starts above the end of those before it. -/
def AscendingRanges (rs : List (Nat × Nat)) : Prop :=
  rs.Pairwise fun r s => r.1 ≤ s.1

theorem memRanges_eq_any {rs : List (Nat × Nat)} (h : AscendingRanges rs) (n : Nat) :
    memRanges rs n = rs.any fun r => r.1 ≤ n && n ≤ r.2 := by
  induction rs with
  | nil => rfl
  | cons r rs ih =>
    obtain ⟨hr, hrs⟩ := List.pairwise_cons.1 h
    rw [memRanges, List.any_cons]
    split
    · next hlt =>
      have none : (rs.any fun r => r.1 ≤ n && n ≤ r.2) = false := by
        simp only [List.any_eq_false, Bool.and_eq_true, decide_eq_true_eq, not_and]
        intro s hs hle
        exact absurd (Nat.le_trans (hr s hs) hle) (by omega)
      simp only [none, Bool.or_false]
      simp [Nat.not_le_of_gt hlt]
    · next hge => simp [ih hrs, Nat.le_of_not_lt hge]

/-! ## White space -/

/-- The characters with the property `White_Space`. -/
def blankRanges : List (Nat × Nat) := [
  (0x9, 0xd), (0x20, 0x20), (0x85, 0x85), (0xa0, 0xa0), (0x1680, 0x1680), (0x2000, 0x200a),
  (0x2028, 0x2029), (0x202f, 0x202f), (0x205f, 0x205f), (0x3000, 0x3000)]

/-- Whether a character has the property `White_Space`. -/
def isBlank (c : Char) : Bool := memRanges blankRanges c.toNat

theorem isBlank_of_isWhitespace {c : Char} (h : c.isWhitespace = true) : isBlank c = true := by
  simp only [Char.isWhitespace, Bool.or_eq_true, decide_eq_true_eq] at h
  rcases h with ((rfl | rfl) | rfl) | rfl <;> rfl

/-- The characters of a text from its first to its last one that is no blank. -/
def trimBlanksEnd (cs : List Char) : List Char := (cs.reverse.dropWhile isBlank).reverse

/-- The text without the blanks at its end. -/
def trimEnd (s : String) : String := String.ofList (trimBlanksEnd s.toList)

/-- The text without the blanks at both ends. -/
def trimBlanks (s : String) : String := String.ofList (trimBlanksEnd (s.toList.dropWhile isBlank))

end Reshape
