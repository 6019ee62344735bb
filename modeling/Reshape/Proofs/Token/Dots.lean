import Reshape.Proofs.Token.Cuts

/-!
# What is read before a dot

A token that ends before a dot does not see what stands behind the dot. The exception is an integer right
before the dot: it may turn out to have a fraction.

* `Lexeme.EndsWithin` says that a lexeme is no fault and ends within a number of characters. The runs of digits
  and letters end before a dot, and so do suffixes, fractions and exponents.
* For each scanner there is a lemma that says: if it ends before the dot, it ends before the dot with
  another text behind it.
* `lexeme_dot` puts them together.
-/

namespace Reshape

variable {afterDot : Bool} {c d : Char} {cs x y : List Char} {k : Nat} {p : Char → Bool} {l : Lexeme}

/-! ## What a scanner sees up to a dot -/

/-- A lexeme is a token with no more than `n` further characters. -/
def Lexeme.EndsWithin (l : Lexeme) (n : Nat) : Prop := l.fault = none ∧ l.more ≤ n

theorem runLength_dot (hp : p '.' = false) (cs x : List Char) :
    runLength p (cs ++ '.' :: x) = runLength p cs := by
  induction cs with
  | nil => exact runLength_cons_of_neg hp
  | cons c cs ih =>
    rw [List.cons_append]
    cases hc : p c with
    | true => rw [runLength_cons_of_pos hc, runLength_cons_of_pos hc, ih]
    | false => rw [runLength_cons_of_neg hc, runLength_cons_of_neg hc]

theorem runLength_dot_le (hp : p '.' = false) (cs x : List Char) :
    runLength p (cs ++ '.' :: x) ≤ cs.length := by
  rw [runLength_dot hp]
  exact runLength_le p cs

theorem suffixLength_dot_le (cs x : List Char) : suffixLength (cs ++ '.' :: x) ≤ cs.length := by
  cases cs with
  | nil =>
    rw [List.nil_append, suffixLength, if_neg (by decide)]
    exact Nat.zero_le _
  | cons c cs =>
    rw [List.cons_append, suffixLength]
    split
    · exact runLength_dot_le (by decide) (c :: cs) x
    · exact Nat.zero_le _

theorem fractionLength_dot_le (hcs : cs ≠ []) (x : List Char) :
    fractionLength (cs ++ '.' :: x) ≤ cs.length := by
  unfold fractionLength
  split
  · next e es heq =>
    split
    · next he =>
      obtain _ | ⟨c, _ | ⟨d, ds⟩⟩ := cs
      · exact absurd rfl hcs
      · cases heq
        exact absurd he (by decide)
      · have hrun := runLength_dot_le (show isDigitOrGroup '.' = false by decide) (d :: ds) x
        rw [← (List.cons.inj heq).2, List.length_cons]
        exact (Nat.add_comm 1 _).trans_le (Nat.succ_le_succ hrun)
    · exact Nat.zero_le _
  · exact Nat.zero_le _

theorem exponentLength_dot_le (cs x : List Char) : exponentLength (cs ++ '.' :: x) ≤ cs.length := by
  unfold exponentLength
  split
  · next e s es heq =>
    split_ifs with he hs hdigit hs'
    · obtain _ | ⟨c, _ | ⟨d, ds⟩⟩ := cs
      · cases heq
        exact absurd he (by decide)
      · cases heq
        exact absurd hs (by decide)
      · obtain ⟨-, heq⟩ := List.cons.inj heq
        have hrun := runLength_dot_le (show isDigitOrGroup '.' = false by decide) ds x
        rw [← (List.cons.inj heq).2, List.length_cons, List.length_cons]
        exact (Nat.add_comm 2 _).trans_le (Nat.add_le_add_right hrun 2)
    · exact Nat.zero_le _
    · obtain _ | ⟨c, ds⟩ := cs
      · cases heq
        exact absurd he (by decide)
      · have hrun := runLength_dot_le (show isDigitOrGroup '.' = false by decide) ds x
        rw [← (List.cons.inj heq).2, List.length_cons]
        exact (Nat.add_comm 1 _).trans_le (Nat.succ_le_succ hrun)
    · exact Nat.zero_le _
    · exact Nat.zero_le _
  · exact Nat.zero_le _

/-! ### Numbers -/

/-- A numeral ends before a dot, unless its digits run up to the dot and a fraction may follow. -/
theorem more_decimalLexeme_dot_le (h : afterDot = true ∨ runLength isDigitOrGroup cs < cs.length)
    (x : List Char) : (decimalLexeme afterDot (cs ++ '.' :: x)).more ≤ cs.length := by
  obtain ⟨w, hw⟩ : ∃ w, w = runLength isDigitOrGroup cs := ⟨_, rfl⟩
  obtain ⟨f, hf⟩ : ∃ f, f = if afterDot then 0 else fractionLength (cs.drop w ++ '.' :: x) := ⟨_, rfl⟩
  obtain ⟨e, he⟩ : ∃ e, e = if afterDot then 0 else
    exponentLength (cs.drop (w + f) ++ '.' :: x) := ⟨_, rfl⟩
  have hwle : w ≤ cs.length := hw ▸ runLength_le isDigitOrGroup cs
  have hfle : w + f ≤ cs.length := by
    rw [hf]
    split
    · exact hwle
    · next hdot =>
      have hlt := hw ▸ h.resolve_left hdot
      have hfraction := fractionLength_dot_le (show cs.drop w ≠ [] by simpa using hlt) x
      rw [List.length_drop] at hfraction
      omega
  have hele : w + f + e ≤ cs.length := by
    rw [he]
    split
    · exact hfle
    · have hexponent := exponentLength_dot_le (cs.drop (w + f)) x
      rw [List.length_drop] at hexponent
      omega
  have hsuffix := suffixLength_dot_le (cs.drop (w + f + e)) x
  rw [List.length_drop] at hsuffix
  have hdrop (k : Nat) (hk : k ≤ cs.length) : (cs ++ '.' :: x).drop k = cs.drop k ++ '.' :: x :=
    List.drop_append_of_le_length hk
  have hmore : (decimalLexeme afterDot (cs ++ '.' :: x)).more =
      w + f + e + suffixLength (cs.drop (w + f + e) ++ '.' :: x) := by
    simp only [decimalLexeme, Lexeme.token, runLength_dot (show isDigitOrGroup '.' = false by decide),
      ← hw, List.drop_drop]
    rw [hdrop w hwle, ← hf, hdrop _ hfle, ← he, hdrop _ hele]
  omega

/-- Digits that run up to a dot before which the numeral ends are an integer. -/
theorem decimalLexeme_dot_of_digits (hdigits : runLength isDigitOrGroup cs = cs.length)
    (hmore : (decimalLexeme false (cs ++ '.' :: x)).more ≤ cs.length) :
    decimalLexeme false (cs ++ '.' :: x) = .token .intLiteral cs.length := by
  have hexponent : exponentLength ('.' :: x) = 0 := Nat.le_zero.1 (exponentLength_dot_le [] x)
  have hsuffix : suffixLength ('.' :: x) = 0 := Nat.le_zero.1 (suffixLength_dot_le [] x)
  simp only [decimalLexeme, Lexeme.token, runLength_dot (show isDigitOrGroup '.' = false by decide),
    hdigits, List.drop_left, Bool.false_eq_true, if_false] at hmore ⊢
  have hfraction : fractionLength ('.' :: x) = 0 := by omega
  simp [hfraction, hexponent, hsuffix]

theorem endsWithin_numberLexeme
    (h : (numberLexeme afterDot c (cs ++ '.' :: x)).EndsWithin cs.length)
    (hint : (numberLexeme afterDot c (cs ++ '.' :: x)).kind = .intLiteral →
      (numberLexeme afterDot c (cs ++ '.' :: x)).more = cs.length → afterDot = true) (y : List Char) :
    (numberLexeme afterDot c (cs ++ '.' :: y)).EndsWithin cs.length := by
  refine ⟨(proper_numberLexeme afterDot c _).fault_eq_none.2 ?_, ?_⟩
  · obtain hkind | hkind := kind_numberLexeme afterDot c (cs ++ '.' :: y) <;> simp [hkind]
  by_cases hbase : c = '0' ∧ ∃ b ∈ cs.head?, b = 'x' ∨ b = 'o' ∨ b = 'b'
  · obtain ⟨rfl, b, hb, hletter⟩ := hbase
    obtain ⟨ds, rfl⟩ := List.head?_eq_some_iff.1 hb
    have hdigits := runLength_dot_le (p := isHexDigitOrGroup) (by decide) ds y
    have hsuffix := suffixLength_dot_le (ds.drop (runLength isHexDigitOrGroup ds)) y
    rw [List.length_drop] at hsuffix
    have hdrop : (ds ++ '.' :: y).drop (runLength isHexDigitOrGroup ds) =
        ds.drop (runLength isHexDigitOrGroup ds) ++ '.' :: y :=
      List.drop_append_of_le_length (runLength_le _ ds)
    rw [runLength_dot (by decide)] at hdigits
    simp only [List.cons_append, numberLexeme, hletter, and_self, if_true, Lexeme.token,
      runLength_dot (show isHexDigitOrGroup '.' = false by decide), hdrop, List.length_cons]
    omega
  · have hdecimal (z : List Char) : numberLexeme afterDot c (cs ++ '.' :: z) =
        decimalLexeme afterDot (cs ++ '.' :: z) := by
      refine numberLexeme_eq_decimalLexeme afterDot ?_
      rintro ⟨hc, b, hb, hletter⟩
      refine hbase ⟨hc, ?_⟩
      cases cs with
      | nil =>
        cases hb
        exact absurd hletter (by decide)
      | cons e es => exact ⟨b, hb, hletter⟩
    rw [hdecimal] at h hint ⊢
    refine more_decimalLexeme_dot_le ?_ y
    by_contra! hnone
    obtain ⟨hdot, hdigits⟩ := hnone
    obtain rfl := Bool.eq_false_iff.2 hdot
    have heq := decimalLexeme_dot_of_digits (Nat.le_antisymm (runLength_le _ cs) hdigits) h.2
    rw [heq] at hint
    cases hint rfl rfl

/-! ### Delimited forms -/

theorem endsWithin_stringLexeme
    (h : (stringLexeme k (cs ++ '.' :: x)).EndsWithin (k + cs.length)) (y : List Char) :
    (stringLexeme k (cs ++ '.' :: y)).EndsWithin (k + cs.length) := by
  obtain ⟨hfault, hmore⟩ := h
  cases hend : stringEnd? (cs ++ '.' :: x) with
  | none => simp [stringLexeme, hend, Lexeme.faulty] at hfault
  | some m =>
    simp only [stringLexeme, hend, Lexeme.token] at hmore
    have hm : m ≤ cs.length := by omega
    have hend' : stringEnd? (cs ++ '.' :: y) = some m := by
      have htake : stringEnd? ((cs ++ '.' :: x).take cs.length ++ '.' :: y) = some m :=
        stringEnd?_take hend hm
      rwa [List.take_left] at htake
    have hsuffix := suffixLength_dot_le (cs.drop m) y
    rw [List.length_drop] at hsuffix
    rw [stringLexeme, hend']
    refine ⟨rfl, ?_⟩
    dsimp only [Lexeme.token]
    rw [List.drop_append_of_le_length hm]
    omega

theorem rawStringLexeme_dot (h : (rawStringLexeme k (cs ++ '.' :: x)).EndsWithin (k + cs.length))
    (y : List Char) : rawStringLexeme k (cs ++ '.' :: y) = rawStringLexeme k (cs ++ '.' :: x) := by
  have htake : rawStringLexeme k ((cs ++ '.' :: x).take cs.length ++ '.' :: y) = _ :=
    rawStringLexeme_take h.1 h.2
  rwa [List.take_left] at htake

theorem charLexeme_dot (h : (charLexeme k (cs ++ '.' :: x)).EndsWithin (k + cs.length))
    (y : List Char) : charLexeme k (cs ++ '.' :: y) = charLexeme k (cs ++ '.' :: x) := by
  have htake : charLexeme k ((cs ++ '.' :: x).take cs.length ++ '.' :: y) = _ :=
    charLexeme_take h.1 h.2
  rwa [List.take_left] at htake

theorem head?_dot (cs x y : List Char) : (cs ++ '.' :: x).head? = (cs ++ '.' :: y).head? := by
  cases cs <;> rfl

theorem endsWithin_quoteLexeme (h : (quoteLexeme (cs ++ '.' :: x)).EndsWithin cs.length)
    (y : List Char) : (quoteLexeme (cs ++ '.' :: y)).EndsWithin cs.length := by
  by_cases hlife : ∃ c ds, cs = c :: ds ∧ isIdentStart c = true ∧ (ds ++ '.' :: x).head? ≠ some '\''
  · obtain ⟨c, ds, rfl, hc, hds⟩ := hlife
    rw [head?_dot ds x y] at hds
    have hlex : quoteLexeme (c :: ds ++ '.' :: y) =
        .token .lifetime (runLength isIdentContinue (c :: ds ++ '.' :: y)) :=
      if_pos ⟨hc, hds⟩
    rw [hlex]
    exact ⟨rfl, runLength_dot_le (by decide) (c :: ds) y⟩
  · have hchar : quoteLexeme (cs ++ '.' :: x) = charLexeme 0 (cs ++ '.' :: x) := by
      cases cs with
      | nil =>
        rw [List.nil_append, quoteLexeme, if_neg fun hc => absurd hc.1 (by decide)]
      | cons c ds => exact if_neg fun h => hlife ⟨c, ds, rfl, h⟩
    have hmore : (charLexeme 0 (cs ++ '.' :: x)).EndsWithin (0 + cs.length) := by
      rw [← hchar, Nat.zero_add]
      exact h
    have heq := charLexeme_dot hmore y
    rw [quoteLexeme_eq_charLexeme (heq ▸ hmore.1), heq, ← Nat.zero_add cs.length]
    exact hmore

/-! ### Operators and words -/

/-- A character other than a dot stands before the dot. -/
theorem length_pos_of_dot {es : List Char} (h : cs ++ '.' :: x = d :: es) (hd : d ≠ '.') :
    1 ≤ cs.length := by
  cases cs with
  | nil =>
    cases h
    exact absurd rfl hd
  | cons c cs => exact Nat.succ_pos _

theorem endsWithin_withEq (plain joined : TokenKind) (cs x : List Char) :
    (withEq plain joined (cs ++ '.' :: x)).EndsWithin cs.length := by
  unfold withEq
  split
  · next heq => exact ⟨rfl, length_pos_of_dot heq (by decide)⟩
  · exact ⟨rfl, Nat.zero_le _⟩

theorem endsWithin_operator? (hc : c = '.' → cs ≠ []) (h : operator? c (cs ++ '.' :: x) = some l) :
    l.EndsWithin cs.length := by
  generalize hes : cs ++ '.' :: x = es at h
  unfold operator? at h
  split at h
  case h_31 =>
    cases h
    obtain _ | ⟨c, _ | ⟨d, ds⟩⟩ := cs
    · exact absurd rfl (hc rfl)
    · cases hes
    · exact ⟨rfl, Nat.le_add_left 2 _⟩
  case h_32 =>
    cases h
    exact ⟨rfl, List.length_pos_iff.2 (hc rfl)⟩
  case h_34 => cases h
  all_goals
    cases h
    first
      | exact ⟨rfl, Nat.zero_le _⟩
      | exact ⟨rfl, length_pos_of_dot hes (by decide)⟩
      | exact hes ▸ endsWithin_withEq _ _ cs x

theorem rawStringAhead_dot (cs x : List Char) : rawStringAhead (cs ++ '.' :: x) = rawStringAhead cs := by
  induction cs with
  | nil => rfl
  | cons c cs ih =>
    by_cases hc : c = '#'
    · subst hc
      exact ih
    · simp [rawStringAhead, hc]

theorem endsWithin_prefixed? (h : prefixed? c (cs ++ '.' :: y) = some l) :
    ∃ l', prefixed? c (cs ++ '.' :: x) = some l' ∧ (l'.EndsWithin cs.length → l.EndsWithin cs.length) := by
  have hone (es : List Char) : 1 + es.length = es.length + 1 := Nat.add_comm ..
  generalize hes : cs ++ '.' :: y = es at h
  unfold prefixed? at h
  split at h
  case h_5 => cases h
  · subst hes
    split at h <;> cases h
    next hahead =>
    rw [rawStringAhead_dot] at hahead
    refine ⟨rawStringLexeme 0 (cs ++ '.' :: x), by rw [prefixed?, rawStringAhead_dot, if_pos hahead],
      fun hends => ?_⟩
    rw [← Nat.zero_add cs.length] at hends ⊢
    rw [rawStringLexeme_dot hends]
    exact hends
  all_goals
    obtain _ | ⟨e, cs⟩ := cs
    · cases hes
    rw [List.cons_append] at hes
    obtain ⟨rfl, rfl⟩ := List.cons.inj hes
  · cases h
    refine ⟨_, rfl, fun hends => ?_⟩
    rw [List.length_cons, ← hone] at hends ⊢
    exact endsWithin_stringLexeme hends y
  · cases h
    refine ⟨_, rfl, fun hends => ?_⟩
    rw [List.length_cons, ← hone] at hends ⊢
    rw [charLexeme_dot hends]
    exact hends
  · split at h <;> cases h
    next hahead =>
    rw [rawStringAhead_dot] at hahead
    refine ⟨rawStringLexeme 1 (cs ++ '.' :: x), ?_, fun hends => ?_⟩
    · rw [List.cons_append, prefixed?, rawStringAhead_dot, if_pos hahead]
    · rw [List.length_cons, ← hone] at hends ⊢
      rw [rawStringLexeme_dot hends]
      exact hends

/-! ### All forms -/

theorem endsWithin_lateLexeme (hc : c = '.' → cs ≠ [])
    (h : (lateLexeme c (cs ++ '.' :: x)).EndsWithin cs.length) (y : List Char) :
    (lateLexeme c (cs ++ '.' :: y)).EndsWithin cs.length := by
  cases hoperator : operator? c (cs ++ '.' :: y) with
  | some l =>
    rw [lateLexeme, hoperator, Option.getD_some]
    exact endsWithin_operator? hc hoperator
  | none =>
    cases hprefixed : prefixed? c (cs ++ '.' :: y) with
    | some l =>
      obtain ⟨l', hl', hends⟩ := endsWithin_prefixed? hprefixed (x := x)
      rw [lateLexeme, operator?_eq_none_of hoperator, hl', Option.getD_none, Option.getD_some] at h
      rw [lateLexeme, hoperator, hprefixed, Option.getD_none, Option.getD_some]
      exact hends h
    | none =>
      have hnone : prefixed? c (cs ++ '.' :: x) = none := by
        by_contra hsome
        obtain ⟨l, hl⟩ := Option.ne_none_iff_exists'.1 hsome
        obtain ⟨l', hl', -⟩ := endsWithin_prefixed? hl (x := y)
        rw [hprefixed] at hl'
        cases hl'
      rw [lateLexeme, operator?_eq_none_of hoperator, hnone, Option.getD_none, Option.getD_none] at h
      rw [lateLexeme, hoperator, hprefixed, Option.getD_none, Option.getD_none]
      split at h
      · next hstart =>
        rw [if_pos hstart]
        refine ⟨?_, (more_wordLexeme c _).trans_le (runLength_dot_le (by decide) cs y)⟩
        simp only [wordLexeme]
        split <;> rfl
      · cases h.1

theorem slashLexeme_dot (hfault : (slashLexeme (cs ++ '.' :: x)).fault = none)
    (htrivia : (slashLexeme (cs ++ '.' :: x)).kind.isTrivia = false) (y : List Char) :
    slashLexeme (cs ++ '.' :: y) = slashLexeme (cs ++ '.' :: x) := by
  cases cs with
  | nil => rfl
  | cons d ds =>
    have hslash : d ≠ '/' := by
      rintro rfl
      cases htrivia
    have hstar : d ≠ '*' := by
      rintro rfl
      revert hfault htrivia
      simp only [List.cons_append, slashLexeme]
      split
      · rintro - ⟨⟩
      · rintro ⟨⟩
    rw [List.cons_append, List.cons_append, slashLexeme_eq_withEq (by simpa using hslash)
      (by simpa using hstar), slashLexeme_eq_withEq (by simpa using hslash) (by simpa using hstar)]
    by_cases hd : d = '='
    · subst hd
      rfl
    · rw [withEq, withEq]
      · exact fun _ heq => hd (List.cons.inj heq).1
      · exact fun _ heq => hd (List.cons.inj heq).1

/-- **A token that ends before a dot does not see what stands behind the dot**, unless it is an integer
right before the dot that may have a fraction. -/
theorem lexeme_dot (h : (lexeme afterDot c (cs ++ '.' :: x)).EndsWithin cs.length)
    (htrivia : (lexeme afterDot c (cs ++ '.' :: x)).kind.isTrivia = false)
    (hint : (lexeme afterDot c (cs ++ '.' :: x)).kind = .intLiteral →
      (lexeme afterDot c (cs ++ '.' :: x)).more = cs.length → afterDot = true) (y : List Char) :
    lexeme afterDot c (cs ++ '.' :: y) = lexeme afterDot c (cs ++ '.' :: x) := by
  have hblank : isBlank c = false := by
    rw [← Bool.not_eq_true]
    intro hblank
    rw [lexeme_of_isBlank hblank] at htrivia
    cases htrivia
  by_cases hslash : c = '/'
  · subst hslash
    rw [lexeme_slash] at h htrivia
    rw [lexeme_slash, lexeme_slash, slashLexeme_dot h.1 htrivia]
  suffices hends : (lexeme afterDot c (cs ++ '.' :: y)).EndsWithin cs.length by
    -- Both are what is read if the text ends before the dot.
    have hshort {z : List Char} (hz : (lexeme afterDot c (cs ++ '.' :: z)).EndsWithin cs.length) :
        lexeme afterDot c cs = lexeme afterDot c (cs ++ '.' :: z) := by
      have htake := (lexeme_take rfl hz.1 (isTrivia_lexeme hblank hslash)).2
        breaks_nil hz.2 fun _ _ => by simp
      rwa [List.take_left, List.append_nil] at htake
    rw [← hshort hends, hshort h]
  obtain ⟨hblank', -⟩ | ⟨hslash', -⟩ | ⟨-, hlex⟩ | ⟨-, hlex⟩ | ⟨-, hlex⟩ | hlex :=
    lexeme_cases afterDot c
  · exact absurd hblank' (Bool.eq_false_iff.1 hblank)
  · exact absurd hslash' hslash
  · rw [hlex] at h hint ⊢
    exact endsWithin_numberLexeme h hint y
  · rw [hlex, ← Nat.zero_add cs.length] at h ⊢
    exact endsWithin_stringLexeme h y
  · rw [hlex] at h ⊢
    exact endsWithin_quoteLexeme h y
  · rw [hlex] at h ⊢
    refine endsWithin_lateLexeme ?_ h y
    rintro rfl rfl
    rw [List.nil_append, lateLexeme, operator?_dots, Option.getD_some, dotsLexeme] at h
    split at h <;> exact absurd h.2 (by decide)

end Reshape
