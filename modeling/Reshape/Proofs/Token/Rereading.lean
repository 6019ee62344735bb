import Reshape.Proofs.Token.Literals

/-!
# Reading a token again

A token is a matter of its own characters and of the few that a scanner sees behind them: where the
text is cut off at its end or further on, and a blank or a comment is put there, the token is read
as before.

* `Rereads.joint` joins the scanners of operators that start in the same way.
* `exists_of_operator?_eq_some` and `prefixed?_take` are the two tables of forms.
* `lexeme_cases` says what the first character decides, and `lexeme_take` puts the scanners together.
-/

namespace Reshape

variable {c d : Char} {cs rest : List Char} {k m n : Nat}

/-! ## Words and operators -/

theorem rereads_wordLexeme (c : Char) (cs : List Char) : Rereads (wordLexeme c) 0 cs := by
  have hmore (cs : List Char) : (wordLexeme c cs).more = runLength isIdentContinue cs := by
    simp only [wordLexeme]
    split <;> rfl
  have hle := runLength_le isIdentContinue cs
  refine ⟨Nat.zero_le _, by rw [hmore]; omega, fun {n rest} hrest hn => ?_⟩
  rw [hmore] at hn
  simp only [wordLexeme]
  rw [lasting_word.eq hrest (by omega), take_take_append (by omega) hle]

theorem rereads_token (kind : TokenKind) : Rereads (fun _ => .token kind k) k cs :=
  ⟨Nat.le_refl _, Nat.le_add_right .., fun _ _ => rfl⟩

/-- A scanner that goes on with another one behind the character `d`. -/
theorem Rereads.joint {f j g : List Char → Lexeme} (hd : isBreak d = false)
    (hpos : ∀ ds, f (d :: ds) = j ds) (hneg : ∀ es, (∀ ds, es ≠ d :: ds) → f es = g es)
    (hj : ∀ ds, Rereads j (k + 1) ds) (hg : Rereads g k cs) : Rereads f k cs := by
  by_cases hcs : ∃ ds, cs = d :: ds
  · obtain ⟨ds, rfl⟩ := hcs
    have hlong := (hj ds).le_more
    obtain ⟨hle, heq⟩ := (hj ds).cons d
    refine ⟨by rw [hpos]; omega, hpos ds ▸ hle, fun {n rest} hrest hn => ?_⟩
    rw [hpos] at hn ⊢
    obtain ⟨m, hX, -, hf⟩ := heq hrest hn
    rw [hX, hpos, hf]
  · have hcs : ∀ ds, cs ≠ d :: ds := fun ds heq => hcs ⟨ds, heq⟩
    refine ⟨hneg cs hcs ▸ hg.le_more, hneg cs hcs ▸ hg.more_le, fun {n rest} hrest hn => ?_⟩
    rw [hneg cs hcs] at hn ⊢
    rw [hneg, hg.eq hrest hn]
    intro ds heq
    obtain h | h := mem_head?_take_append hrest (show d ∈ (cs.take n ++ rest).head? by rw [heq]; rfl)
    · obtain ⟨es, hes⟩ := List.head?_eq_some_iff.1 h
      exact hcs es hes
    · rw [hd] at h
      cases h

theorem rereads_withEq (plain joined : TokenKind) (cs : List Char) :
    Rereads (withEq plain joined) 0 cs := by
  refine .joint (d := '=') (j := fun _ => .token joined 1) (g := fun _ => .token plain 0)
    (by decide) (fun _ => rfl) (fun es hes => ?_)
    (fun _ => rereads_token joined) (rereads_token plain)
  unfold withEq
  split
  · exact absurd rfl (hes _)
  · rfl

/-- A scanner for the operators that start with `c`. -/
def OperatorScanner (c : Char) (f : List Char → Lexeme) : Prop :=
  (∀ es, operator? c es = some (f es)) ∧ ∀ es, Rereads f 0 es

/-- The operators that start with `c`, where `d` behind it leads to longer ones. -/
theorem exists_operatorScanner {j g : List Char → Lexeme} (hd : isBreak d = false)
    (hpos : ∀ ds, operator? c (d :: ds) = some (j ds))
    (hneg : ∀ es, (∀ ds, es ≠ d :: ds) → operator? c es = some (g es))
    (hj : ∀ ds, Rereads j 1 ds) (hg : ∀ es, Rereads g 0 es) :
    ∃ f, OperatorScanner c f := by
  have hsome (es : List Char) : ∃ l, operator? c es = some l := by
    by_cases hes : ∃ ds, es = d :: ds
    · obtain ⟨ds, rfl⟩ := hes
      exact ⟨_, hpos ds⟩
    · exact ⟨_, hneg es fun ds heq => hes ⟨ds, heq⟩⟩
  choose f hf using hsome
  refine ⟨f, hf, fun es => .joint hd (fun ds => ?_) (fun es hes => ?_) hj (hg es)⟩
  · exact Option.some.inj ((hf _).symm.trans (hpos ds))
  · exact Option.some.inj ((hf _).symm.trans (hneg es hes))

/-- What two dots and the text behind them start with. -/
def dotsLexeme (ds : List Char) : Lexeme :=
  if ds.head? = some '=' then .token .dotDotEq 2 else .token .dotDot 1

theorem rereads_dotsLexeme (ds : List Char) : Rereads dotsLexeme 1 ds := by
  refine .joint (d := '=') (j := fun _ => .token .dotDotEq 2) (g := fun _ => .token .dotDot 1)
    (by decide) (fun _ => rfl) (fun es hes => if_neg fun h => ?_)
    (fun _ => rereads_token _) (rereads_token _)
  obtain ⟨ds, hds⟩ := List.head?_eq_some_iff.1 h
  exact hes ds hds

theorem operator?_dots (ds : List Char) : operator? '.' ('.' :: ds) = some (dotsLexeme ds) := by
  unfold dotsLexeme
  split
  · next h =>
    obtain ⟨es, rfl⟩ := List.head?_eq_some_iff.1 h
    rfl
  · next h =>
    rw [operator?]
    rintro es rfl
    exact h rfl

theorem operator?_dot (hes : ∀ ds, cs ≠ '.' :: ds) : operator? '.' cs = some (.token .dot 0) := by
  rw [operator?]
  · exact fun ds heq => hes _ heq
  · exact hes

theorem exists_dotScanner : ∃ f, OperatorScanner '.' f :=
  exists_operatorScanner (d := '.') (j := dotsLexeme) (g := fun _ => .token .dot 0) (by decide)
    operator?_dots (fun _ => operator?_dot) rereads_dotsLexeme fun _ => rereads_token .dot

/-- Whether a character starts an operator is a matter of that character alone, and the operator
is read off by a scanner. -/
theorem exists_of_operator?_eq_some {l : Lexeme} (h : operator? c cs = some l) :
    ∃ f, OperatorScanner c f := by
  -- A character that leads to one operator only, or to a second one by an equals sign, comes with
  -- its scanner; the other ones look at the character behind them first.
  unfold operator? at h
  split at h
  case h_15 | h_16 =>
    exact exists_operatorScanner (d := '>') (by decide) (fun _ => rfl)
      (fun es hes => by rw [operator?]; exact hes)
      (fun _ => rereads_token _) (rereads_withEq .eq .eqEq)
  case h_19 | h_20 =>
    exact exists_operatorScanner (d := '&') (by decide) (fun _ => rfl)
      (fun es hes => by rw [operator?]; exact hes)
      (fun _ => rereads_token _) (rereads_withEq .amp .compoundAssign)
  case h_21 | h_22 =>
    exact exists_operatorScanner (d := '|') (by decide) (fun _ => rfl)
      (fun es hes => by rw [operator?]; exact hes)
      (fun _ => rereads_token _) (rereads_withEq .pipe .compoundAssign)
  case h_23 | h_24 =>
    exact exists_operatorScanner (d := '>') (by decide) (fun _ => rfl)
      (fun es hes => by rw [operator?]; exact hes)
      (fun _ => rereads_token _) (rereads_withEq .minus .compoundAssign)
  case h_29 | h_30 =>
    exact exists_operatorScanner (d := ':') (by decide) (fun _ => rfl)
      (fun es hes => by rw [operator?]; exact hes)
      (fun _ => rereads_token _) (fun _ => rereads_token .colon)
  case h_31 | h_32 | h_33 =>
    exact exists_dotScanner
  case h_34 => cases h
  all_goals first
    | exact ⟨fun _ => .token _ 0, fun _ => rfl, fun _ => rereads_token _⟩
    | exact ⟨withEq _ _, fun _ => rfl, rereads_withEq _ _⟩

/-- Whether a character starts an operator does not depend on what stands behind it. -/
theorem operator?_eq_none_of (h : operator? c cs = none) (es : List Char) :
    operator? c es = none := by
  cases hes : operator? c es with
  | none => rfl
  | some l =>
    obtain ⟨f, hf, -⟩ := exists_of_operator?_eq_some hes
    rw [hf] at h
    cases h

/-! ## Strings and bytes with their letters -/

/-- Hashes and a quote are still there if the text is broken off behind them, and do not come about
otherwise. -/
theorem rawStringAhead_take (hrest : Breaks rest) :
    rawStringAhead (cs.take n ++ rest) =
      (rawStringAhead cs && decide (runLength (· == '#') cs < n)) := by
  have hnone : rawStringAhead rest = false := by
    cases rest with
    | nil => rfl
    | cons d ds =>
      have hd := hrest d rfl
      simp [rawStringAhead, ne_of_isBreak hd (c := '#') (by decide),
        ne_of_isBreak hd (c := '"') (by decide)]
  induction cs generalizing n with
  | nil => simpa [rawStringAhead] using hnone
  | cons c cs ih =>
    cases n with
    | zero => simpa using hnone
    | succ n =>
      by_cases hc : c = '#'
      · subst hc
        have hstep (ds : List Char) : rawStringAhead ('#' :: ds) = rawStringAhead ds := rfl
        rw [List.take_succ_cons, List.cons_append, hstep, hstep, ih,
          runLength_cons_of_pos (by rfl)]
        simp
      · simp [rawStringAhead, hc, runLength_cons_of_neg]

theorem runLength_lt_more (hfault : (rawStringLexeme k cs).fault = none) :
    k + runLength (· == '#') cs < (rawStringLexeme k cs).more := by
  simp only [rawStringLexeme] at hfault ⊢
  split
  · dsimp only [Lexeme.token]
    omega
  · next hend => simp [hend, Lexeme.faulty] at hfault

/-- Whether a letter with the character behind it starts a string or a byte. -/
theorem prefixed?_eq_none_of_head? (hr : c ≠ 'r')
    (hb : c = 'b' → ∀ d ∈ cs.head?, d ≠ '"' ∧ d ≠ '\'' ∧ d ≠ 'r') : prefixed? c cs = none := by
  unfold prefixed?
  split
  · exact absurd rfl hr
  · exact absurd rfl (hb rfl _ rfl).1
  · exact absurd rfl (hb rfl _ rfl).2.1
  · exact absurd rfl (hb rfl _ rfl).2.2
  · rfl

theorem prefixed?_take_of_none (h : prefixed? c cs = none) (hrest : Breaks rest) :
    prefixed? c (cs.take n ++ rest) = none := by
  have hbreak (d : Char) (hd : isBreak d = true) : d ≠ '"' ∧ d ≠ '\'' ∧ d ≠ 'r' :=
    ⟨ne_of_isBreak hd (by decide), ne_of_isBreak hd (by decide), ne_of_isBreak hd (by decide)⟩
  unfold prefixed? at h
  split at h
  · split at h
    · cases h
    · next hahead => simp [prefixed?, rawStringAhead_take hrest, hahead]
  · cases h
  · cases h
  · next ds =>
    split at h
    · cases h
    · next hahead =>
      cases n with
      | zero => exact prefixed?_eq_none_of_head? (by decide) fun _ d hd => hbreak d (hrest d hd)
      | succ n => simp [prefixed?, rawStringAhead_take hrest, hahead]
  · next hr hquote hbyte hraw =>
    refine prefixed?_eq_none_of_head? hr fun hb d hd => ?_
    obtain hd | hd := mem_head?_take_append hrest hd
    · obtain ⟨ds, rfl⟩ := List.head?_eq_some_iff.1 hd
      refine ⟨?_, ?_, ?_⟩ <;> rintro rfl
      · exact hquote ds hb rfl
      · exact hbyte ds hb rfl
      · exact hraw ds hb rfl
    · exact hbreak d hd

theorem prefixed?_take {l : Lexeme} (h : prefixed? c cs = some l) (hfault : l.fault = none) :
    l.more ≤ cs.length ∧ ∀ {n rest}, Breaks rest → l.more ≤ n →
      prefixed? c (cs.take n ++ rest) = some l := by
  unfold prefixed? at h
  split at h
  · split at h <;> cases h
    next hahead =>
    have hrereads := rereads_rawStringLexeme hfault
    have hlong := runLength_lt_more hfault
    refine ⟨by simpa using hrereads.more_le, fun {n rest} hrest hn => ?_⟩
    have hlt : runLength (· == '#') cs < n := by omega
    rw [prefixed?, rawStringAhead_take hrest, hahead, hrereads.eq hrest (by omega)]
    simp [hlt]
  · next ds =>
    cases h
    obtain ⟨hle, heq⟩ := (rereads_stringLexeme hfault).cons (k := 0) '"'
    refine ⟨by omega, fun {n rest} hrest hn => ?_⟩
    obtain ⟨m, hX, -, hf⟩ := heq (n := n) hrest (by omega)
    rw [hX, prefixed?, hf]
  · next ds =>
    cases h
    obtain ⟨hle, heq⟩ := (rereads_charLexeme hfault).cons (k := 0) '\''
    refine ⟨by omega, fun {n rest} hrest hn => ?_⟩
    obtain ⟨m, hX, -, hf⟩ := heq (n := n) hrest (by omega)
    rw [hX, prefixed?, hf]
  · next ds =>
    split at h <;> cases h
    next hahead =>
    obtain ⟨hle, heq⟩ := (rereads_rawStringLexeme hfault).cons (k := 0) 'r'
    have hlong := runLength_lt_more hfault
    refine ⟨by omega, fun {n rest} hrest hn => ?_⟩
    obtain ⟨m, hX, hm, hf⟩ := heq (n := n) hrest (by omega)
    have hlt : runLength (· == '#') ds < m := by omega
    rw [hX, prefixed?, rawStringAhead_take hrest, hahead, hf]
    simp [hlt]
  · cases h

/-! ## All forms -/

theorem slashLexeme_eq_withEq (hslash : cs.head? ≠ some '/') (hstar : cs.head? ≠ some '*') :
    slashLexeme cs = withEq .slash .compoundAssign cs := by
  unfold slashLexeme
  split
  · exact absurd rfl hslash
  · exact absurd rfl hstar
  · rfl

theorem slashLexeme_take (hfault : (slashLexeme cs).fault = none)
    (hkind : (slashLexeme cs).kind.isTrivia = false) :
    (slashLexeme cs).more ≤ cs.length ∧ ∀ {n rest}, Breaks rest → (slashLexeme cs).more ≤ n →
      ((slashLexeme cs).kind = .slash → cs.take n = [] → rest.head? ≠ some '/') →
      slashLexeme (cs.take n ++ rest) = slashLexeme cs := by
  have hslash : cs.head? ≠ some '/' := fun h => by
    obtain ⟨ds, rfl⟩ := List.head?_eq_some_iff.1 h
    cases hkind
  have hstar : cs.head? ≠ some '*' := fun h => by
    obtain ⟨ds, rfl⟩ := List.head?_eq_some_iff.1 h
    revert hfault hkind
    simp only [slashLexeme]
    split
    · rintro - ⟨⟩
    · rintro ⟨⟩
  have hcs := slashLexeme_eq_withEq hslash hstar
  have hrereads := rereads_withEq .slash .compoundAssign cs
  rw [hcs]
  refine ⟨by simpa using hrereads.more_le, fun {n rest} hrest hn hbefore => ?_⟩
  have hplain (h : cs.take n = []) : (withEq .slash .compoundAssign cs).kind = .slash := by
    cases cs with
    | nil => rfl
    | cons d ds =>
      cases n with
      | succ n => cases h
      | zero =>
        unfold withEq at hn ⊢
        split at hn
        · cases hn
        · rfl
  rw [slashLexeme_eq_withEq, hrereads.eq hrest (by omega)]
  · intro h
    cases htake : cs.take n with
    | nil =>
      rw [htake, List.nil_append] at h
      exact hbefore (hplain htake) htake h
    | cons d ds =>
      obtain ⟨n, rfl⟩ : ∃ m, n = m + 1 := Nat.exists_eq_succ_of_ne_zero fun hzero => by
        rw [hzero] at htake
        cases htake
      cases cs with
      | nil => cases htake
      | cons e es => exact hslash h
  · intro h
    obtain h | h := mem_head?_take_append hrest h
    · exact hstar h
    · exact absurd h (by decide)

/-! ## The first character -/

/-- How a token is read that its first character does not decide: as an operator, as a literal with a
prefix, or as a word. -/
def lateLexeme (c : Char) (cs : List Char) : Lexeme :=
  (operator? c cs).getD ((prefixed? c cs).getD
    (if isIdentStart c then wordLexeme c cs else .faulty (.unexpectedCharacter c) 0))

theorem lexeme_of_isBlank {afterDot : Bool} (h : isBlank c = true) :
    lexeme afterDot c cs = .token .whitespace (runLength isBlank cs) := if_pos h

theorem lexeme_slash (afterDot : Bool) (cs : List Char) : lexeme afterDot '/' cs = slashLexeme cs := by
  rw [lexeme, if_neg (by decide), if_pos rfl]

/-- The first character decides how a token is read, whatever follows. -/
theorem lexeme_cases (afterDot : Bool) (c : Char) :
    (isBlank c = true ∧
        ∀ cs, lexeme afterDot c cs = .token .whitespace (runLength isBlank cs)) ∨
      (c = '/' ∧ ∀ cs, lexeme afterDot c cs = slashLexeme cs) ∨
      (c.isDigit = true ∧ ∀ cs, lexeme afterDot c cs = numberLexeme afterDot c cs) ∨
      (c = '"' ∧ ∀ cs, lexeme afterDot c cs = stringLexeme 0 cs) ∨
      (c = '\'' ∧ ∀ cs, lexeme afterDot c cs = quoteLexeme cs) ∨
      ∀ cs, lexeme afterDot c cs = lateLexeme c cs := by
  by_cases hblank : isBlank c = true
  · exact .inl ⟨hblank, fun cs => lexeme_of_isBlank hblank⟩
  by_cases hslash : c = '/'
  · exact .inr (.inl ⟨hslash, fun cs => hslash ▸ lexeme_slash afterDot cs⟩)
  by_cases hdigit : c.isDigit = true
  · refine .inr (.inr (.inl ⟨hdigit, fun cs => ?_⟩))
    rw [lexeme, if_neg hblank, if_neg hslash, if_pos hdigit]
  by_cases hstring : c = '"'
  · refine .inr (.inr (.inr (.inl ⟨hstring, fun cs => ?_⟩)))
    rw [lexeme, if_neg hblank, if_neg hslash, if_neg hdigit, if_pos hstring]
  by_cases hquote : c = '\''
  · refine .inr (.inr (.inr (.inr (.inl ⟨hquote, fun cs => ?_⟩))))
    rw [lexeme, if_neg hblank, if_neg hslash, if_neg hdigit, if_neg hstring, if_pos hquote]
  · refine .inr (.inr (.inr (.inr (.inr fun cs => ?_))))
    rw [lexeme, if_neg hblank, if_neg hslash, if_neg hdigit, if_neg hstring, if_neg hquote, lateLexeme]
    cases operator? c cs <;> cases prefixed? c cs <;> rfl

/-! ## Tokens -/

theorem lateLexeme_take (hfault : (lateLexeme c cs).fault = none) :
    (lateLexeme c cs).more ≤ cs.length ∧ ∀ {n rest}, Breaks rest → (lateLexeme c cs).more ≤ n →
      lateLexeme c (cs.take n ++ rest) = lateLexeme c cs := by
  cases hoperator : operator? c cs with
  | some l =>
    obtain ⟨f, hf, hrereads⟩ := exists_of_operator?_eq_some hoperator
    have hlex (es : List Char) : lateLexeme c es = f es := by
      rw [lateLexeme, hf, Option.getD_some]
    rw [hlex]
    refine ⟨by simpa using (hrereads cs).more_le, fun {n rest} hrest hn => ?_⟩
    rw [hlex, (hrereads cs).eq hrest (by omega)]
  | none =>
    have hnone := operator?_eq_none_of hoperator
    cases hprefixed : prefixed? c cs with
    | some l =>
      have hl : lateLexeme c cs = l := by
        rw [lateLexeme, hoperator, hprefixed, Option.getD_none, Option.getD_some]
      rw [hl] at hfault ⊢
      obtain ⟨hle, heq⟩ := prefixed?_take hprefixed hfault
      refine ⟨hle, fun {n rest} hrest hn => ?_⟩
      rw [lateLexeme, hnone, Option.getD_none, heq hrest hn, Option.getD_some]
    | none =>
      have hl : lateLexeme c cs = if isIdentStart c then wordLexeme c cs else
          .faulty (.unexpectedCharacter c) 0 := by
        rw [lateLexeme, hoperator, hprefixed, Option.getD_none, Option.getD_none]
      rw [hl] at hfault ⊢
      split at hfault
      · next hstart =>
        have hrereads := rereads_wordLexeme c cs
        rw [if_pos hstart]
        refine ⟨by simpa using hrereads.more_le, fun {n rest} hrest hn => ?_⟩
        rw [lateLexeme, hnone, Option.getD_none, prefixed?_take_of_none hprefixed hrest,
          Option.getD_none, if_pos hstart, hrereads.eq hrest (by omega)]
      · cases hfault

/-- **A token is read as before** if its text is broken off behind it, at its end or further on,
unless it is a slash in front of another one. -/
theorem lexeme_take {afterDot : Bool} {l : Lexeme} (hl : lexeme afterDot c cs = l)
    (hfault : l.fault = none) (hkind : l.kind.isTrivia = false) :
    l.more ≤ cs.length ∧ ∀ {n rest}, Breaks rest → l.more ≤ n →
      (l.kind = .slash → cs.take n = [] → rest.head? ≠ some '/') →
      lexeme afterDot c (cs.take n ++ rest) = l := by
  have hscanner {f : List Char → Lexeme} (h : Rereads f 0 cs) (hf : f cs = l)
      (hlex : ∀ es, lexeme afterDot c es = f es) :
      l.more ≤ cs.length ∧ ∀ {n rest}, Breaks rest → l.more ≤ n →
        (l.kind = .slash → cs.take n = [] → rest.head? ≠ some '/') →
        lexeme afterDot c (cs.take n ++ rest) = l := by
    subst hf
    refine ⟨by simpa using h.more_le, fun {n rest} hrest hn _ => ?_⟩
    rw [hlex, h.eq hrest (by omega)]
  obtain ⟨-, hlex⟩ | ⟨-, hlex⟩ | ⟨-, hlex⟩ | ⟨-, hlex⟩ | ⟨-, hlex⟩ | hlex := lexeme_cases afterDot c
  · obtain rfl := (hlex cs).symm.trans hl
    cases hkind
  · obtain rfl := (hlex cs).symm.trans hl
    refine ⟨(slashLexeme_take hfault hkind).1, fun {n rest} hrest hn hbefore => ?_⟩
    rw [hlex]
    exact (slashLexeme_take hfault hkind).2 hrest hn hbefore
  · exact hscanner (rereads_numberLexeme afterDot c cs) ((hlex cs).symm.trans hl) hlex
  · have hl := (hlex cs).symm.trans hl
    exact hscanner (rereads_stringLexeme (hl ▸ hfault)) hl hlex
  · have hl := (hlex cs).symm.trans hl
    exact hscanner (rereads_quoteLexeme (hl ▸ hfault)) hl hlex
  · obtain rfl := (hlex cs).symm.trans hl
    obtain ⟨hle, heq⟩ := lateLexeme_take hfault
    refine ⟨hle, fun {n rest} hrest hn _ => ?_⟩
    rw [hlex, heq hrest hn]

end Reshape
