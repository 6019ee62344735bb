import Reshape.Proofs.Token.Idents

/-!
# What breaks a token off

No scanner goes on with a blank, with the slash of a comment, or with a mark that is always read by
itself. Where a text is cut off and such a character, or nothing, is put behind the cut, the pieces
before the cut are as long as they were.

* `Breaks` says what may be put behind a cut.
* `starts_take` says what a text that is cut off starts with.
* `Lasting` is the property of a function that measures the first piece of a text. The runs of
  digits and letters have it, and so have suffixes, fractions and exponents.
-/

namespace Reshape

variable {c d : Char} {cs rest : List Char} {k m n : Nat} {p : Char → Bool}

/-! ## What breaks a token off -/

/-- The marks that are always read by themselves, those that may end a field or a list of fields. -/
def isLoneMark (c : Char) : Bool := c == ',' || c == ')' || c == ';'

/-- A character that breaks off what stands before it: a blank, the slash of a comment, or a mark that
is always read by itself. -/
def isBreak (c : Char) : Bool := isBlank c || c == '/' || isLoneMark c

/-- Whether a text breaks off what stands before it: it is empty, or starts with such a character. -/
def Breaks (rest : List Char) : Prop := ∀ d ∈ rest.head?, isBreak d = true

theorem breaks_nil : Breaks [] := by simp [Breaks]

theorem ne_of_isBreak (hd : isBreak d = true) (hc : isBreak c = false) : d ≠ c := by
  rintro rfl
  rw [hd] at hc
  cases hc

/-- The code points of the characters that break off. -/
def breakPoints : List Nat :=
  (blankRanges ++ [(0x2f, 0x2f), (0x29, 0x29), (0x2c, 0x2c), (0x3b, 0x3b)]).flatMap
    fun (r : Nat × Nat) => List.range' r.1 (r.2 + 1 - r.1)

theorem mem_breakPoints (h : isBreak c = true) : c.toNat ∈ breakPoints := by
  simp only [breakPoints, List.mem_flatMap, List.mem_range'_1]
  simp only [isBreak, isLoneMark, Bool.or_eq_true, beq_iff_eq] at h
  obtain (h | rfl) | (rfl | rfl) | rfl := h
  · obtain ⟨r, hr, hlo, hhi⟩ := exists_range_of_isBlank h
    exact ⟨r, List.mem_append_left _ hr, hlo, by omega⟩
  · exact ⟨(0x2f, 0x2f), by simp, by decide, by decide⟩
  · exact ⟨(0x2c, 0x2c), by simp, by decide, by decide⟩
  · exact ⟨(0x29, 0x29), by simp, by decide, by decide⟩
  · exact ⟨(0x3b, 0x3b), by simp, by decide, by decide⟩

theorem isIdentContinue_of_isBreak (h : isBreak d = true) : isIdentContinue d = false := by
  have hall : ∀ n ∈ breakPoints, memRanges letterRanges n = false ∧
      memRanges numeralRanges n = false ∧ n ≠ '_'.toNat := by
    decide +kernel
  obtain ⟨hletter, hnumeral, hline⟩ := hall _ (mem_breakPoints h)
  have hne : d ≠ '_' := fun heq => hline (congrArg Char.toNat heq)
  simp [isIdentContinue, isLetter, isNumeral, hletter, hnumeral, hne]

theorem isIdentStart_of_isBreak (h : isBreak d = true) : isIdentStart d = false := by
  rw [← Bool.not_eq_true]
  intro hstart
  have hcontinue := isIdentContinue_of_isIdentStart hstart
  rw [isIdentContinue_of_isBreak h] at hcontinue
  cases hcontinue

theorem isDigit_of_isBreak (h : isBreak d = true) : d.isDigit = false := by
  have hall : ∀ n ∈ breakPoints, n < 48 ∨ 57 < n := by decide +kernel
  have hpoint := hall _ (mem_breakPoints h)
  rw [← Bool.not_eq_true, Char.isDigit]
  simp only [Bool.and_eq_true, decide_eq_true_eq, ge_iff_le, UInt32.le_iff_toNat_le]
  rintro ⟨hlo, hhi⟩
  have hlo' : 48 ≤ d.toNat := hlo
  have hhi' : d.toNat ≤ 57 := hhi
  omega

theorem isDigitOrGroup_of_isBreak (h : isBreak d = true) : isDigitOrGroup d = false := by
  simp [isDigitOrGroup, isDigit_of_isBreak h, ne_of_isBreak h (c := '_') (by decide)]

theorem isHexDigitOrGroup_of_isBreak (h : isBreak d = true) : isHexDigitOrGroup d = false := by
  have hall : ∀ n ∈ breakPoints, ¬ (97 ≤ n ∧ n ≤ 102) ∧ ¬ (65 ≤ n ∧ n ≤ 70) := by decide +kernel
  obtain ⟨hlower, hupper⟩ := hall _ (mem_breakPoints h)
  have hline := ne_of_isBreak h (c := '_') (by decide)
  simp only [isHexDigitOrGroup, isDigit_of_isBreak h, Bool.or_eq_false_iff, Bool.and_eq_false_iff,
    decide_eq_false_iff_not, beq_eq_false_iff_ne, Char.le_def, UInt32.le_iff_toNat_le]
  have h1 : d.val.toNat = d.toNat := rfl
  have h2 : 'a'.val.toNat = 97 := rfl
  have h3 : 'f'.val.toNat = 102 := rfl
  have h4 : 'A'.val.toNat = 65 := rfl
  have h5 : 'F'.val.toNat = 70 := rfl
  refine ⟨⟨⟨trivial, ?_⟩, ?_⟩, hline⟩ <;> omega

/-- What stands first in a text that is broken off stood there before, or breaks off. -/
theorem mem_head?_take_append (hrest : Breaks rest) (h : d ∈ (cs.take n ++ rest).head?) :
    d ∈ cs.head? ∨ isBreak d = true := by
  cases n with
  | zero => exact .inr (hrest d h)
  | succ n =>
    cases cs with
    | nil => exact .inr (hrest d h)
    | cons c cs => exact .inl h

/-- What is left of a text that is broken off. -/
theorem drop_take_append (hk : k ≤ n) (hle : k ≤ cs.length) :
    (cs.take n ++ rest).drop k = (cs.drop k).take (n - k) ++ rest := by
  rw [List.drop_append_of_le_length (by rw [List.length_take]; omega), List.drop_take]

theorem take_take_append (hk : k ≤ n) (hle : k ≤ cs.length) :
    (cs.take n ++ rest).take k = cs.take k := by
  rw [List.take_append_of_le_length (by rw [List.length_take]; omega), List.take_take,
    Nat.min_eq_left hk]

/-- A character of a text that is broken off behind it. -/
theorem head?_drop_take_append (hn : k < n) (hlt : k < cs.length) :
    ((cs.take n ++ rest).drop k).head? = (cs.drop k).head? := by
  rw [drop_take_append hn.le hlt.le, List.drop_eq_getElem_cons hlt]
  obtain ⟨m, hm⟩ := Nat.exists_eq_add_of_le' (show 1 ≤ n - k by omega)
  rw [hm]
  rfl

/-- Whether a text starts with characters of the given classes, one of each. -/
def starts : List (Char → Bool) → List Char → Bool
  | [], _ => true
  | _ :: _, [] => false
  | p :: ps, c :: cs => p c && starts ps cs

/-- Whether no character of the given classes breaks off. -/
def Unbroken (ps : List (Char → Bool)) : Prop := ∀ p ∈ ps, ∀ d, isBreak d = true → p d = false

theorem starts_of_breaks {ps : List (Char → Bool)} (hps : Unbroken (p :: ps)) (hrest : Breaks rest) :
    starts (p :: ps) rest = false := by
  cases rest with
  | nil => rfl
  | cons d ds => simp [starts, hps p List.mem_cons_self d (hrest d rfl)]

/-- What a text that is broken off starts with is what the text starts with, up to the break. -/
theorem starts_take {ps : List (Char → Bool)} (hps : Unbroken ps) (hrest : Breaks rest) :
    starts ps (cs.take n ++ rest) = (starts ps cs && decide (ps.length ≤ n)) := by
  induction ps generalizing cs n with
  | nil => simp [starts]
  | cons p ps ih =>
    cases n with
    | zero => simpa using starts_of_breaks hps hrest
    | succ n =>
      cases cs with
      | nil => simpa [starts] using starts_of_breaks hps hrest
      | cons c cs =>
        have htail : Unbroken ps := fun q hq => hps q (List.mem_cons_of_mem _ hq)
        simp [starts, ih htail, Bool.and_assoc]

/-! ## Lengths -/

theorem runLength_cons_of_pos (hc : p c = true) : runLength p (c :: cs) = runLength p cs + 1 := by
  simp [runLength, hc]

theorem runLength_cons_of_neg (hc : p c = false) : runLength p (c :: cs) = 0 := by
  simp [runLength, hc]

theorem runLength_le (p : Char → Bool) (cs : List Char) : runLength p cs ≤ cs.length :=
  (List.takeWhile_sublist p).length_le

theorem runLength_of_breaks (hp : ∀ d, isBreak d = true → p d = false) (hrest : Breaks rest) :
    runLength p rest = 0 := by
  cases rest with
  | nil => rfl
  | cons d ds => exact runLength_cons_of_neg (hp d (hrest d rfl))

/-- A function that measures the first piece of a text, and whose answer stays the same if the text
is broken off behind the piece. -/
structure Lasting (f : List Char → Nat) : Prop where
  le : ∀ cs, f cs ≤ cs.length
  eq : ∀ {cs n rest}, Breaks rest → f cs ≤ n → f (cs.take n ++ rest) = f cs

/-- A later piece of a text is as long as before, too. -/
theorem Lasting.drop_eq {f : List Char → Nat} (hf : Lasting f) (hrest : Breaks rest)
    (hle : k ≤ cs.length) (hn : k + f (cs.drop k) ≤ n) :
    f ((cs.take n ++ rest).drop k) = f (cs.drop k) := by
  rw [drop_take_append (by omega) hle, hf.eq hrest (by omega)]

theorem lasting_runLength (hp : ∀ d, isBreak d = true → p d = false) : Lasting (runLength p) := by
  refine ⟨runLength_le p, fun {cs n rest} hrest hn => ?_⟩
  induction cs generalizing n with
  | nil => rw [List.take_nil, List.nil_append, runLength_of_breaks hp hrest]; rfl
  | cons c cs ih =>
    cases hc : p c with
    | true =>
      rw [runLength_cons_of_pos hc] at hn ⊢
      obtain ⟨n, rfl⟩ := Nat.exists_eq_add_of_le' (show 1 ≤ n by omega)
      rw [List.take_succ_cons, List.cons_append, runLength_cons_of_pos hc, ih (n := n) (by omega)]
    | false =>
      rw [runLength_cons_of_neg hc]
      cases n with
      | zero => exact runLength_of_breaks hp hrest
      | succ n => exact runLength_cons_of_neg hc

theorem lasting_word : Lasting (runLength isIdentContinue) :=
  lasting_runLength fun _ => isIdentContinue_of_isBreak

theorem lasting_digits : Lasting (runLength isDigitOrGroup) :=
  lasting_runLength fun _ => isDigitOrGroup_of_isBreak

theorem lasting_hexDigits : Lasting (runLength isHexDigitOrGroup) :=
  lasting_runLength fun _ => isHexDigitOrGroup_of_isBreak

/-- A run that another character ends ends there still. -/
theorem runLength_take (hlt : runLength p cs < cs.length) (hn : runLength p cs < n) :
    runLength p (cs.take n ++ rest) = runLength p cs := by
  induction cs generalizing n with
  | nil => cases hlt
  | cons c cs ih =>
    obtain ⟨n, rfl⟩ := Nat.exists_eq_add_of_le' (show 1 ≤ n by omega)
    rw [List.take_succ_cons, List.cons_append]
    cases hc : p c with
    | true =>
      rw [runLength_cons_of_pos hc, List.length_cons] at hlt
      rw [runLength_cons_of_pos hc] at hn ⊢
      rw [runLength_cons_of_pos hc, ih (n := n) (by omega) (by omega)]
    | false => rw [runLength_cons_of_neg hc, runLength_cons_of_neg hc]

theorem lasting_suffixLength : Lasting suffixLength := by
  have hpos {c : Char} {cs : List Char} (hc : isIdentStart c = true) :
      suffixLength (c :: cs) = runLength isIdentContinue (c :: cs) := by
    simp [suffixLength, hc]
  have hneg {c : Char} {cs : List Char} (hc : isIdentStart c = false) :
      suffixLength (c :: cs) = 0 := by
    simp [suffixLength, hc]
  refine ⟨fun cs => ?_, fun {cs n rest} hrest hn => ?_⟩
  · cases cs with
    | nil => exact Nat.le_refl 0
    | cons c cs =>
      cases hc : isIdentStart c with
      | true => rw [hpos hc]; exact runLength_le _ _
      | false => rw [hneg hc]; exact Nat.zero_le _
  have hnone : suffixLength rest = 0 := by
    cases rest with
    | nil => rfl
    | cons d ds => exact hneg (isIdentStart_of_isBreak (hrest d rfl))
  cases cs with
  | nil => rw [List.take_nil]; exact hnone
  | cons c cs =>
    cases hc : isIdentStart c with
    | true =>
      rw [hpos hc] at hn ⊢
      have hrun : runLength isIdentContinue (c :: cs) = _ :=
        runLength_cons_of_pos (isIdentContinue_of_isIdentStart hc)
      rw [← lasting_word.eq hrest hn]
      obtain ⟨n, rfl⟩ := Nat.exists_eq_add_of_le' (show 1 ≤ n by omega)
      exact hpos hc
    | false =>
      rw [hneg hc]
      cases n with
      | zero => exact hnone
      | succ n => exact hneg hc

/-- The length of digits behind a lead of characters of the given classes. -/
def ledLength (lead : List (Char → Bool)) (cs : List Char) : Nat :=
  if starts (lead ++ [Char.isDigit]) cs then
    lead.length + runLength isDigitOrGroup (cs.drop lead.length)
  else 0

theorem exists_of_starts {ps : List (Char → Bool)} (h : starts (ps ++ [p]) cs = true) :
    ∃ d ds, cs.drop ps.length = d :: ds ∧ p d = true := by
  induction ps generalizing cs with
  | nil =>
    cases cs with
    | nil => cases h
    | cons c cs => exact ⟨c, cs, rfl, by simpa [starts] using h⟩
  | cons q ps ih =>
    cases cs with
    | nil => cases h
    | cons c cs =>
      rw [List.cons_append, starts, Bool.and_eq_true] at h
      exact ih h.2

theorem lasting_ledLength {lead : List (Char → Bool)} (hlead : Unbroken lead) :
    Lasting (ledLength lead) := by
  have hall : Unbroken (lead ++ [Char.isDigit]) := by
    intro p hp d hd
    obtain hp | hp := List.mem_append.1 hp
    · exact hlead p hp d hd
    · rw [List.mem_singleton.1 hp]
      exact isDigit_of_isBreak hd
  have hrun {cs : List Char} (h : starts (lead ++ [Char.isDigit]) cs = true) :
      0 < runLength isDigitOrGroup (cs.drop lead.length) ∧ lead.length < cs.length := by
    obtain ⟨d, ds, hds, hd⟩ := exists_of_starts h
    have hlength : (cs.drop lead.length).length = ds.length + 1 := by rw [hds]; rfl
    rw [List.length_drop] at hlength
    rw [hds, runLength_cons_of_pos (by simp [isDigitOrGroup, hd])]
    omega
  refine ⟨fun cs => ?_, fun {cs n rest} hrest hn => ?_⟩
  · unfold ledLength
    split
    · next h =>
      have hle := runLength_le isDigitOrGroup (cs.drop lead.length)
      rw [List.length_drop] at hle
      have := (hrun h).2
      omega
    · exact Nat.zero_le _
  · unfold ledLength at hn ⊢
    rw [starts_take hall hrest]
    cases h : starts (lead ++ [Char.isDigit]) cs with
    | false => simp
    | true =>
      obtain ⟨hpos, hlt⟩ := hrun h
      rw [h, if_pos rfl] at hn
      have hshort : (lead ++ [Char.isDigit]).length ≤ n := by simp; omega
      simp only [hshort, decide_true, Bool.and_true, if_true]
      rw [drop_take_append (by omega) hlt.le, lasting_digits.eq hrest (by omega)]

theorem lasting_fractionLength : Lasting fractionLength := by
  have heq : fractionLength = ledLength [(· == '.')] := by
    funext cs
    unfold fractionLength ledLength
    split
    · simp [starts]
    · next hne =>
      match cs, hne with
      | [], _ | [c], _ => simp [starts]
      | c :: d :: ds, hne =>
        have hc : c ≠ '.' := fun hc => hne d ds (by rw [hc])
        simp [starts, hc]
  rw [heq]
  refine lasting_ledLength fun p hp d hd => ?_
  rw [List.mem_singleton.1 hp]
  exact beq_eq_false_iff_ne.2 (ne_of_isBreak hd (by decide))

theorem exponentLength_eq (cs : List Char) :
    exponentLength cs = ledLength [fun e => e == 'e' || e == 'E'] cs +
      ledLength [fun e => e == 'e' || e == 'E', fun s => s == '+' || s == '-'] cs := by
  unfold exponentLength ledLength
  split
  · next e s cs =>
    by_cases he : e = 'e' ∨ e = 'E'
    · by_cases hs : s = '+' ∨ s = '-'
      · have hdigit : s.isDigit = false := by rcases hs with rfl | rfl <;> decide
        have hfirst : (cs.head?.map Char.isDigit).getD false = starts [Char.isDigit] cs := by
          cases cs <;> simp [starts]
        simp [starts, he, hs, hdigit, hfirst]
      · simp [starts, he, hs]
    · simp [starts, he]
  · next hne =>
    match cs, hne with
    | [], _ | [c], _ => simp [starts]
    | c :: d :: ds, hne => exact (hne c d ds rfl).elim

theorem lasting_exponentLength : Lasting exponentLength := by
  have hletter (d : Char) (hd : isBreak d = true) : (d == 'e' || d == 'E') = false := by
    simp [ne_of_isBreak hd (c := 'e') (by decide), ne_of_isBreak hd (c := 'E') (by decide)]
  have hsign (d : Char) (hd : isBreak d = true) : (d == '+' || d == '-') = false := by
    simp [ne_of_isBreak hd (c := '+') (by decide), ne_of_isBreak hd (c := '-') (by decide)]
  have hunsigned : Lasting (ledLength [fun e => e == 'e' || e == 'E']) := by
    refine lasting_ledLength fun p hp => ?_
    obtain rfl := List.mem_singleton.1 hp
    exact hletter
  have hsigned :
      Lasting (ledLength [fun e => e == 'e' || e == 'E', fun s => s == '+' || s == '-']) := by
    refine lasting_ledLength fun p hp => ?_
    obtain rfl | rfl := List.mem_pair.1 hp
    · exact hletter
    · exact hsign
  refine ⟨fun cs => ?_, fun {cs n rest} hrest hn => ?_⟩
  · unfold exponentLength
    split
    · next e s cs =>
      have hbehind := runLength_le isDigitOrGroup cs
      have hfrom := runLength_le isDigitOrGroup (s :: cs)
      simp only [List.length_cons] at hfrom ⊢
      split_ifs <;> omega
    · exact Nat.zero_le _
  · rw [exponentLength_eq] at hn ⊢
    rw [exponentLength_eq, hunsigned.eq hrest (by omega), hsigned.eq hrest (by omega)]

end Reshape
