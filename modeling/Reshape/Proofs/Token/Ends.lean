import Reshape.Proofs.Text.Boundary
import Reshape.Proofs.Token.Spacing

/-!
# What tokens end with

What is trimmed off the end of a clause is blanks and commas. No token ends with one of them, apart from
blanks and commas themselves and comments that run to the end of a line.

* `Firm` says that a text ends with another character.
* Runs of letters and digits consist of other characters, so the lemmas about them are about all of a
  token (`isLoose_of_mem_decimal`, `isLoose_of_mem_operator?`). The forms that are closed by a delimiter
  may contain anything, and end with the delimiter (`firm_stringEnd?`, `firm_commentEnd?`).
* `firm_lexeme` puts them together.
-/

namespace Reshape

variable {c d : Char} {cs ds : List Char} {k m n : Nat} {p : Char → Bool}

/-! ## Loose characters -/

/-- A character that is trimmed off the end of a clause: a blank or a comma. -/
def isLoose (c : Char) : Bool := isBlank c || c == ','

theorem isBreak_of_isLoose (h : isLoose d = true) : isBreak d = true := by
  rw [isLoose, Bool.or_eq_true] at h
  rw [isBreak, isLoneMark]
  obtain h | h := h <;> simp [h]

/-- A text ends with a character that is not trimmed off. -/
def Firm (cs : List Char) : Prop := ∃ d ∈ cs.getLast?, isLoose d = false

theorem Firm.append_left (cs : List Char) (h : Firm ds) : Firm (cs ++ ds) := by
  obtain ⟨d, hd, hfirm⟩ := h
  refine ⟨d, ?_, hfirm⟩
  rw [List.getLast?_append, Option.mem_def.1 hd]
  rfl

theorem Firm.cons (c : Char) (h : Firm cs) : Firm (c :: cs) := h.append_left [c]

theorem firm_of_forall (h : ∀ d ∈ cs, isLoose d = false) (hne : cs ≠ []) : Firm cs :=
  ⟨cs.getLast hne, List.getLast?_eq_some_getLast hne, h _ (List.getLast_mem hne)⟩

theorem Firm.append_right (h : Firm cs) (hds : ∀ d ∈ ds, isLoose d = false) : Firm (cs ++ ds) := by
  cases ds with
  | nil => rwa [List.append_nil]
  | cons d ds => exact (firm_of_forall hds (List.cons_ne_nil d ds)).append_left cs

/-! ## Trimming -/

theorem exists_trimBlanksEnd (cs : List Char) :
    ∃ off, cs = trimBlanksEnd cs ++ off ∧ ∀ d ∈ off, isBlank d = true := by
  obtain ⟨hoff, hblank, -⟩ := trimmed_append isBlank cs
  exact ⟨_, hoff, hblank⟩

theorem isLoose_of_isBlank (h : isBlank d = true) : isLoose d = true := by simp [isLoose, h]

/-- Nothing that is loose can be taken off a text that ends firmly. -/
theorem Firm.eq_of_append {off : List Char} (h : Firm (cs ++ off)) (hoff : ∀ d ∈ off, isLoose d = true) :
    off = [] := by
  obtain ⟨d, hd, hfirm⟩ := h
  by_contra hne
  rw [List.getLast?_append, List.getLast?_eq_some_getLast hne] at hd
  cases hd
  rw [hoff _ (List.getLast_mem hne)] at hfirm
  cases hfirm

theorem Firm.trimBlanksEnd_eq (h : Firm cs) : trimBlanksEnd cs = cs := by
  obtain ⟨off, hcs, hoff⟩ := exists_trimBlanksEnd cs
  rw [hcs] at h
  have hnil := h.eq_of_append fun d hd => isLoose_of_isBlank (hoff d hd)
  rw [hnil, List.append_nil] at hcs
  exact hcs.symm

/-! ## Runs -/

/-- No character of a piece is loose if none of its two parts is. -/
theorem isLoose_of_mem_take_add (hm : ∀ d ∈ cs.take m, isLoose d = false)
    (hn : ∀ d ∈ (cs.drop m).take n, isLoose d = false) : ∀ d ∈ cs.take (m + n), isLoose d = false := by
  rw [List.take_add]
  exact List.forall_mem_append.2 ⟨hm, hn⟩

theorem isLoose_of_mem_run (hp : ∀ d, isBreak d = true → p d = false) (cs : List Char) :
    ∀ d ∈ cs.take (runLength p cs), isLoose d = false := by
  intro d hd
  rw [runLength, ← List.prefix_iff_eq_take.1 (List.takeWhile_prefix p)] at hd
  by_contra hloose
  have hbreak := hp d (isBreak_of_isLoose (by simpa using hloose))
  rw [List.all_eq_true.1 List.all_takeWhile d hd] at hbreak
  cases hbreak

theorem isLoose_of_mem_word (cs : List Char) :
    ∀ d ∈ cs.take (runLength isIdentContinue cs), isLoose d = false :=
  isLoose_of_mem_run (fun _ => isIdentContinue_of_isBreak) cs

theorem isLoose_of_mem_digits (cs : List Char) :
    ∀ d ∈ cs.take (runLength isDigitOrGroup cs), isLoose d = false :=
  isLoose_of_mem_run (fun _ => isDigitOrGroup_of_isBreak) cs

theorem isLoose_of_mem_suffix (cs : List Char) :
    ∀ d ∈ cs.take (suffixLength cs), isLoose d = false := by
  unfold suffixLength
  split
  · simp
  · split
    · exact isLoose_of_mem_word _
    · simp

theorem isLoose_of_mem_fraction (cs : List Char) :
    ∀ d ∈ cs.take (fractionLength cs), isLoose d = false := by
  unfold fractionLength
  split
  · split
    · rw [Nat.add_comm, List.take_succ_cons]
      exact List.forall_mem_cons.2 ⟨by decide, isLoose_of_mem_digits _⟩
    · simp
  · simp

theorem isLoose_of_mem_exponent (cs : List Char) :
    ∀ d ∈ cs.take (exponentLength cs), isLoose d = false := by
  unfold exponentLength
  split
  · split
    · next e s cs he =>
      have he : isLoose e = false := by rcases he with rfl | rfl <;> decide
      split
      · next hs =>
        have hs : isLoose s = false := by rcases hs with rfl | rfl <;> decide
        split
        · rw [Nat.add_comm, List.take_succ_cons, List.take_succ_cons]
          exact List.forall_mem_cons.2 ⟨he, List.forall_mem_cons.2 ⟨hs, isLoose_of_mem_digits _⟩⟩
        · simp
      · split
        · rw [Nat.add_comm, List.take_succ_cons]
          exact List.forall_mem_cons.2 ⟨he, isLoose_of_mem_digits _⟩
        · simp
    · simp
  · simp

theorem isLoose_of_mem_decimal (afterDot : Bool) (cs : List Char) :
    ∀ d ∈ cs.take (decimalLexeme afterDot cs).more, isLoose d = false := by
  have hnone (ds : List Char) : ∀ d ∈ ds.take 0, isLoose d = false := by simp
  simp only [decimalLexeme, Lexeme.token, List.drop_drop]
  refine isLoose_of_mem_take_add (isLoose_of_mem_take_add (isLoose_of_mem_take_add
    (isLoose_of_mem_digits cs) ?_) ?_) (isLoose_of_mem_suffix _)
  · split
    · exact hnone _
    · exact isLoose_of_mem_fraction _
  · split
    · exact hnone _
    · exact isLoose_of_mem_exponent _

theorem isLoose_of_mem_number (afterDot : Bool) (c : Char) (cs : List Char) :
    ∀ d ∈ cs.take (numberLexeme afterDot c cs).more, isLoose d = false := by
  unfold numberLexeme
  split
  · next b ds =>
    split
    · next h =>
      have hb : isLoose b = false := by rcases h.2 with rfl | rfl | rfl <;> decide
      dsimp only [Lexeme.token]
      rw [Nat.add_assoc, Nat.add_comm 1, List.take_succ_cons]
      exact List.forall_mem_cons.2 ⟨hb, isLoose_of_mem_take_add
        (isLoose_of_mem_run (fun _ => isHexDigitOrGroup_of_isBreak) _) (isLoose_of_mem_suffix _)⟩
    · exact isLoose_of_mem_decimal afterDot _
  · exact isLoose_of_mem_decimal afterDot _

theorem isLoose_of_mem_withEq (plain joined : TokenKind) (cs : List Char) :
    ∀ d ∈ cs.take (withEq plain joined cs).more, isLoose d = false := by
  unfold withEq
  split <;> simp [Lexeme.token, show isLoose '=' = false by decide]

theorem isLoose_of_mem_operator? {l : Lexeme} (h : operator? c cs = some l) (hkind : l.kind ≠ .comma) :
    ∀ d ∈ c :: cs.take l.more, isLoose d = false := by
  have hone (c : Char) (hc : isLoose c = false) (ds : List Char) :
      ∀ d ∈ c :: ds.take 0, isLoose d = false := by
    simpa using hc
  unfold operator? at h
  split at h <;> cases h
  case h_7 => exact absurd rfl hkind
  all_goals first
    | exact List.forall_mem_cons.2 ⟨by decide, isLoose_of_mem_withEq _ _ _⟩
    | exact hone _ (by decide) _
    | exact List.forall_mem_cons.2 ⟨by decide, hone _ (by decide) _⟩
    | exact List.forall_mem_cons.2 ⟨by decide, List.forall_mem_cons.2 ⟨by decide, hone _ (by decide) _⟩⟩

/-! ## Delimited forms -/

/-- A comment that ends ends with its mark. -/
theorem firm_commentEnd? {depth : Nat} (h : commentEnd? depth cs = some n) : Firm (cs.take n) := by
  fun_induction commentEnd? depth cs generalizing n with
  | case1 => cases h
  | case2 depth cs ih | case4 depth cs ih =>
    obtain ⟨m, hm, rfl⟩ := Option.map_eq_some_iff.1 h
    exact ((ih hm).cons _).cons _
  | case3 cs =>
    cases h
    exact ⟨'/', rfl, by decide⟩
  | case5 depth c cs hopen hclose hclose' ih =>
    obtain ⟨m, hm, rfl⟩ := Option.map_eq_some_iff.1 h
    exact (ih hm).cons c

theorem firm_stringEnd? (h : stringEnd? cs = some n) : Firm (cs.take n) := by
  fun_induction stringEnd? cs generalizing n with
  | case1 => cases h
  | case2 cs =>
    cases h
    exact ⟨'"', rfl, by decide⟩
  | case3 c cs ih =>
    obtain ⟨m, hm, rfl⟩ := Option.map_eq_some_iff.1 h
    exact ((ih hm).cons _).cons _
  | case4 c cs hquote hescape ih =>
    obtain ⟨m, hm, rfl⟩ := Option.map_eq_some_iff.1 h
    exact (ih hm).cons _

theorem firm_rawStringEnd? (h : rawStringEnd? k cs = some n) : Firm (cs.take n) := by
  induction cs generalizing n with
  | nil => cases h
  | cons c cs ih =>
    rw [rawStringEnd?] at h
    split at h
    · next hend =>
      cases h
      obtain ⟨rfl, hhashes⟩ := hend
      rw [Nat.add_comm, List.take_succ_cons, hhashes]
      refine firm_of_forall (List.forall_mem_cons.2 ⟨by decide, fun d hd => ?_⟩) (List.cons_ne_nil _ _)
      rw [List.eq_of_mem_replicate hd]
      decide
    · obtain ⟨m, hm, rfl⟩ := Option.map_eq_some_iff.1 h
      exact (ih hm).cons c

theorem firm_stringLexeme (hfault : (stringLexeme k cs).fault = none) :
    ∃ n, (stringLexeme k cs).more = k + n ∧ Firm (cs.take n) := by
  unfold stringLexeme at hfault ⊢
  split at hfault
  · next n hn =>
    refine ⟨n + suffixLength (cs.drop n), Nat.add_assoc .., ?_⟩
    rw [List.take_add]
    exact (firm_stringEnd? hn).append_right (isLoose_of_mem_suffix _)
  · cases hfault

theorem firm_rawStringLexeme (hfault : (rawStringLexeme k cs).fault = none) :
    ∃ n, (rawStringLexeme k cs).more = k + n ∧ Firm (cs.take n) := by
  unfold rawStringLexeme at hfault ⊢
  dsimp only at hfault ⊢
  split at hfault
  · next n hn =>
    refine ⟨runLength (· == '#') cs + 1 + n, by simp only [Lexeme.token]; omega, ?_⟩
    rw [List.take_add]
    exact (firm_rawStringEnd? hn).append_left _
  · cases hfault

theorem firm_charLexeme (hfault : (charLexeme k cs).fault = none) :
    ∃ n, (charLexeme k cs).more = k + n ∧ Firm (cs.take n) := by
  unfold charLexeme at hfault ⊢
  dsimp only at hfault ⊢
  split at hfault
  · cases hfault
  · next hfeed =>
    split at hfault
    · next hquote =>
      obtain ⟨ds, hds⟩ := List.head?_eq_some_iff.1 hquote
      rw [if_neg hfeed, if_pos hquote]
      refine ⟨charBodyLength cs + 1, Nat.add_assoc .., ?_⟩
      rw [List.take_add, hds]
      exact Firm.append_left _ ⟨'\'', rfl, by decide⟩
    · cases hfault

/-! ## All forms -/

theorem firm_quoteLexeme (hfault : (quoteLexeme cs).fault = none) :
    Firm ('\'' :: cs.take (quoteLexeme cs).more) := by
  have hchar (ds : List Char) (h : (charLexeme 0 ds).fault = none) :
      Firm ('\'' :: ds.take (charLexeme 0 ds).more) := by
    obtain ⟨n, hn, hfirm⟩ := firm_charLexeme h
    rw [hn, Nat.zero_add]
    exact hfirm.cons _
  unfold quoteLexeme at hfault ⊢
  split at hfault
  · split at hfault
    · next h =>
      rw [if_pos h]
      exact firm_of_forall (List.forall_mem_cons.2 ⟨by decide, isLoose_of_mem_word _⟩)
        (List.cons_ne_nil _ _)
    · next h =>
      rw [if_neg h]
      exact hchar _ hfault
  · exact hchar _ hfault

theorem firm_prefixed? {l : Lexeme} (h : prefixed? c cs = some l) (hfault : l.fault = none) :
    Firm (c :: cs.take l.more) := by
  have htwo {b : Char} {ds : List Char} (hmore : ∃ n, l.more = 1 + n ∧ Firm (ds.take n)) :
      Firm (c :: (b :: ds).take l.more) := by
    obtain ⟨n, hn, hfirm⟩ := hmore
    rw [hn, Nat.add_comm, List.take_succ_cons]
    exact (hfirm.cons _).cons _
  unfold prefixed? at h
  split at h
  · split at h <;> cases h
    obtain ⟨n, hn, hfirm⟩ := firm_rawStringLexeme hfault
    rw [hn, Nat.zero_add]
    exact hfirm.cons _
  · cases h
    exact htwo (firm_stringLexeme hfault)
  · cases h
    exact htwo (firm_charLexeme hfault)
  · split at h <;> cases h
    exact htwo (firm_rawStringLexeme hfault)
  · cases h

theorem more_wordLexeme (c : Char) (cs : List Char) :
    (wordLexeme c cs).more = runLength isIdentContinue cs := by
  unfold wordLexeme
  dsimp only
  split <;> rfl

theorem firm_slashLexeme (hfault : (slashLexeme cs).fault = none) (hline : cs.head? ≠ some '/') :
    Firm ('/' :: cs.take (slashLexeme cs).more) := by
  unfold slashLexeme at hfault ⊢
  split at hfault
  · exact absurd rfl hline
  · split at hfault
    · next n hn =>
      rw [Lexeme.token, Nat.add_comm, List.take_succ_cons]
      exact ((firm_commentEnd? hn).cons _).cons _
    · cases hfault
  · exact firm_of_forall (List.forall_mem_cons.2 ⟨by decide, isLoose_of_mem_withEq _ _ _⟩)
      (List.cons_ne_nil _ _)

/-- **Tokens end firmly.** No token ends with a blank or comma but those that are blanks, commas or
comments up to the end of a line. -/
theorem firm_lexeme {afterDot : Bool} {l : Lexeme} (hl : lexeme afterDot c cs = l)
    (hfault : l.fault = none) (hkind : l.kind ≠ .whitespace) (hcomma : l.kind ≠ .comma)
    (hline : c = '/' → cs.head? ≠ some '/') : Firm (c :: cs.take l.more) := by
  unfold lexeme at hl
  split at hl
  · subst hl
    exact absurd rfl hkind
  split at hl
  · next hc =>
    subst hl hc
    exact firm_slashLexeme hfault (hline rfl)
  have hfirst (h : isBreak c = false) : isLoose c = false := by
    by_contra hloose
    rw [isBreak_of_isLoose (by simpa using hloose)] at h
    cases h
  split at hl
  · next hdigit =>
    subst hl
    have hc : isBreak c = false := by
      by_contra hbreak
      rw [isDigit_of_isBreak (by simpa using hbreak)] at hdigit
      cases hdigit
    exact firm_of_forall (List.forall_mem_cons.2 ⟨hfirst hc, isLoose_of_mem_number _ _ _⟩)
      (List.cons_ne_nil _ _)
  split at hl
  · subst hl
    obtain ⟨n, hn, hfirm⟩ := firm_stringLexeme hfault
    rw [hn, Nat.zero_add]
    exact hfirm.cons _
  split at hl
  · next hc =>
    subst hl hc
    exact firm_quoteLexeme hfault
  split at hl
  · next hoperator =>
    subst hl
    exact firm_of_forall (isLoose_of_mem_operator? hoperator hcomma) (List.cons_ne_nil _ _)
  split at hl
  · next hprefixed =>
    subst hl
    exact firm_prefixed? hprefixed hfault
  split at hl
  · next hstart =>
    subst hl
    have hc : isBreak c = false := by
      by_contra hbreak
      rw [isIdentStart_of_isBreak (by simpa using hbreak)] at hstart
      cases hstart
    rw [more_wordLexeme]
    exact firm_of_forall (List.forall_mem_cons.2 ⟨hfirst hc, isLoose_of_mem_word _⟩)
      (List.cons_ne_nil _ _)
  · subst hl
    cases hfault

end Reshape
