import Reshape.Proofs.Token.Breaks

/-!
# Reading numbers and literals again

A number, a string or a character is read as before where its text is cut off behind it.

* `Rereads` is the property of a scanner and a text, with as many characters behind the scanner as
  were read before it started.
* `rereads_numberLexeme`, `rereads_stringLexeme`, `rereads_rawStringLexeme`, `rereads_charLexeme`
  and `rereads_quoteLexeme` are the scanners. A form that is closed by a delimiter has to be closed.
-/

namespace Reshape

variable {c d : Char} {cs rest : List Char} {k m n : Nat}

/-! ## Scanners -/

/-- What a scanner answers, with `opened` further characters behind it, stays the same if the text
is broken off behind the token. -/
structure Rereads (scanner : List Char → Lexeme) (opened : Nat) (cs : List Char) : Prop where
  le_more : opened ≤ (scanner cs).more
  more_le : (scanner cs).more ≤ opened + cs.length
  eq : ∀ {n rest}, Breaks rest → (scanner cs).more ≤ opened + n →
    scanner (cs.take n ++ rest) = scanner cs

/-- The suffix of a numeral starts with the letter of floats as before. -/
theorem head?_eq_some_f_iff (hrest : Breaks rest) (hle : k ≤ cs.length)
    (hn : k + suffixLength (cs.drop k) ≤ n) :
    ((cs.take n ++ rest).drop k).head? = some 'f' ↔ (cs.drop k).head? = some 'f' := by
  rw [drop_take_append (by omega) hle]
  constructor
  · intro h
    exact (mem_head?_take_append hrest h).resolve_right (by decide)
  · intro h
    obtain ⟨ds, hds⟩ := List.head?_eq_some_iff.1 h
    have hsuffix : 0 < suffixLength (cs.drop k) := by
      rw [hds, suffixLength, if_pos (by decide), runLength_cons_of_pos (by decide)]
      exact Nat.succ_pos _
    obtain ⟨m, hm⟩ := Nat.exists_eq_add_of_le' (show 1 ≤ n - k by omega)
    rw [hm, hds]
    rfl

theorem Rereads.cons {f : List Char → Lexeme} (h : Rereads f (k + 1) cs) (d : Char) :
    (f cs).more ≤ k + (d :: cs).length ∧ ∀ {n rest}, Breaks rest → (f cs).more ≤ k + n →
      ∃ m, (d :: cs).take n ++ rest = d :: (cs.take m ++ rest) ∧ n = m + 1 ∧
        f (cs.take m ++ rest) = f cs := by
  have hlong := h.le_more
  have hle := h.more_le
  refine ⟨by rw [List.length_cons]; omega, fun {n rest} hrest hn => ?_⟩
  obtain ⟨m, rfl⟩ := Nat.exists_eq_add_of_le' (show 1 ≤ n by omega)
  exact ⟨m, rfl, rfl, h.eq hrest (by omega)⟩

theorem rereads_decimalLexeme (afterDot : Bool) (cs : List Char) :
    Rereads (decimalLexeme afterDot) 0 cs := by
  have hfraction : Lasting fun cs => if afterDot then 0 else fractionLength cs := by
    cases afterDot with
    | false => exact lasting_fractionLength
    | true => exact ⟨fun _ => Nat.zero_le _, fun _ _ => rfl⟩
  have hexponent : Lasting fun cs => if afterDot then 0 else exponentLength cs := by
    cases afterDot with
    | false => exact lasting_exponentLength
    | true => exact ⟨fun _ => Nat.zero_le _, fun _ _ => rfl⟩
  -- The four pieces lie behind each other in the text.
  obtain ⟨w, hw⟩ : ∃ w, w = runLength isDigitOrGroup cs := ⟨_, rfl⟩
  obtain ⟨f, hf⟩ : ∃ f, f = if afterDot then 0 else fractionLength (cs.drop w) := ⟨_, rfl⟩
  obtain ⟨e, he⟩ : ∃ e, e = if afterDot then 0 else exponentLength (cs.drop (w + f)) := ⟨_, rfl⟩
  have hwle : w ≤ cs.length := hw ▸ runLength_le _ _
  have hfle := hfraction.le (cs.drop w)
  have hele := hexponent.le (cs.drop (w + f))
  have hsle := lasting_suffixLength.le (cs.drop (w + f + e))
  simp only [List.length_drop, ← hf, ← he] at hfle hele hsle
  have hmore : (decimalLexeme afterDot cs).more =
      w + f + e + suffixLength (cs.drop (w + f + e)) := by
    simp only [decimalLexeme, Lexeme.token, List.drop_drop, ← hw, ← hf, ← he]
  refine ⟨Nat.zero_le _, by omega, fun {n rest} hrest hn => ?_⟩
  have hw' : runLength isDigitOrGroup (cs.take n ++ rest) = w := by
    rw [lasting_digits.eq hrest (by omega), hw]
  have hf' : (if afterDot then 0 else fractionLength ((cs.take n ++ rest).drop w)) = f := by
    rw [hf]
    exact hfraction.drop_eq hrest hwle (by simp only [← hf]; omega)
  have he' : (if afterDot then 0 else exponentLength ((cs.take n ++ rest).drop (w + f))) = e := by
    rw [he]
    exact hexponent.drop_eq hrest (by omega) (by simp only [← he]; omega)
  simp only [decimalLexeme, List.drop_drop, ← hw, ← hf, ← he, hw', hf', he']
  rw [lasting_suffixLength.drop_eq hrest (by omega) (by omega)]
  simp only [head?_eq_some_f_iff hrest (show w + f + e ≤ cs.length by omega)
    (show w + f + e + suffixLength (cs.drop (w + f + e)) ≤ n by omega)]

/-- A numeral that has no letter of another base behind its first digit is decimal. -/
theorem numberLexeme_eq_decimalLexeme (afterDot : Bool)
    (h : ¬ (c = '0' ∧ ∃ b ∈ cs.head?, b = 'x' ∨ b = 'o' ∨ b = 'b')) :
    numberLexeme afterDot c cs = decimalLexeme afterDot cs := by
  unfold numberLexeme
  split
  · next b ds => rw [if_neg fun hb => h ⟨hb.1, b, rfl, hb.2⟩]
  · rfl

theorem rereads_numberLexeme (afterDot : Bool) (c : Char) (cs : List Char) :
    Rereads (numberLexeme afterDot c) 0 cs := by
  by_cases hbase : c = '0' ∧ ∃ b ∈ cs.head?, b = 'x' ∨ b = 'o' ∨ b = 'b'
  · obtain ⟨hc, b, hb, hletter⟩ := hbase
    obtain ⟨ds, rfl⟩ := List.head?_eq_some_iff.1 hb
    have heq (es : List Char) : numberLexeme afterDot c (b :: es) = .token .intLiteral
        (1 + runLength isHexDigitOrGroup es +
          suffixLength (es.drop (runLength isHexDigitOrGroup es))) := by
      simp only [numberLexeme, hc, hletter, and_self, if_true]
    have hdigits := runLength_le isHexDigitOrGroup ds
    have hsuffix := lasting_suffixLength.le (ds.drop (runLength isHexDigitOrGroup ds))
    rw [List.length_drop] at hsuffix
    refine ⟨Nat.zero_le _, ?_, fun {n rest} hrest hn => ?_⟩
    · rw [heq, Lexeme.token, List.length_cons]
      dsimp only
      omega
    · rw [heq, Lexeme.token] at hn
      dsimp only at hn
      obtain ⟨n, rfl⟩ := Nat.exists_eq_add_of_le' (show 1 ≤ n by omega)
      rw [List.take_succ_cons, List.cons_append, heq, heq,
        lasting_hexDigits.eq hrest (by omega),
        lasting_suffixLength.drop_eq hrest hdigits (by omega)]
  · have hdecimal := numberLexeme_eq_decimalLexeme afterDot hbase
    refine ⟨Nat.zero_le _, hdecimal ▸ (rereads_decimalLexeme afterDot cs).more_le,
      fun {n rest} hrest hn => ?_⟩
    rw [hdecimal] at hn ⊢
    rw [← (rereads_decimalLexeme afterDot cs).eq hrest hn]
    refine numberLexeme_eq_decimalLexeme afterDot fun ⟨hc, b, hb, hletter⟩ => ?_
    obtain hb | hb := mem_head?_take_append hrest hb
    · exact hbase ⟨hc, b, hb, hletter⟩
    · rcases hletter with rfl | rfl | rfl <;> exact absurd hb (by decide)

/-! ## Delimited forms -/

theorem stringEnd?_le (h : stringEnd? cs = some m) : m ≤ cs.length := by
  fun_induction stringEnd? cs generalizing m with
  | case1 => cases h
  | case2 cs => cases h; simp
  | case3 c cs ih =>
    obtain ⟨k, hk, rfl⟩ := Option.map_eq_some_iff.1 h
    have := ih hk
    simp only [List.length_cons]
    omega
  | case4 c cs _ _ ih =>
    obtain ⟨k, hk, rfl⟩ := Option.map_eq_some_iff.1 h
    have := ih hk
    simp only [List.length_cons]
    omega

theorem stringEnd?_take (h : stringEnd? cs = some m) (hn : m ≤ n) :
    stringEnd? (cs.take n ++ rest) = some m := by
  fun_induction stringEnd? cs generalizing m n with
  | case1 => cases h
  | case2 cs =>
    cases h
    obtain ⟨n, rfl⟩ := Nat.exists_eq_add_of_le' hn
    rfl
  | case3 c cs ih =>
    obtain ⟨k, hk, rfl⟩ := Option.map_eq_some_iff.1 h
    obtain ⟨n, rfl⟩ := Nat.exists_eq_add_of_le' (show 2 ≤ n by omega)
    have := ih hk (n := n) (by omega)
    simp [stringEnd?, this]
  | case4 c cs hquote hescape ih =>
    obtain ⟨k, hk, rfl⟩ := Option.map_eq_some_iff.1 h
    obtain ⟨n, rfl⟩ := Nat.exists_eq_add_of_le' (show 1 ≤ n by omega)
    have hc : c ≠ '\\' := by
      rintro rfl
      cases cs with
      | nil => cases hk
      | cons d ds => exact hescape d ds rfl rfl
    have := ih hk (n := n) (by omega)
    rw [List.take_succ_cons, List.cons_append, stringEnd?, this]
    · rfl
    · exact hquote
    · exact fun d ds heq => absurd heq hc

theorem rereads_stringLexeme (hfault : (stringLexeme k cs).fault = none) :
    Rereads (stringLexeme k) k cs := by
  cases hend : stringEnd? cs with
  | none => simp [stringLexeme, hend, Lexeme.faulty] at hfault
  | some m =>
    have hle := stringEnd?_le hend
    have hsuffix := lasting_suffixLength.le (cs.drop m)
    rw [List.length_drop] at hsuffix
    have hcs : stringLexeme k cs = .token .stringLiteral (k + m + suffixLength (cs.drop m)) := by
      rw [stringLexeme, hend]
    refine ⟨?_, ?_, fun {n rest} hrest hn => ?_⟩
    · rw [hcs, Lexeme.token]
      dsimp only
      omega
    · rw [hcs, Lexeme.token]
      dsimp only
      omega
    · rw [hcs, Lexeme.token] at hn
      dsimp only at hn
      rw [hcs, stringLexeme, stringEnd?_take hend (by omega)]
      dsimp only
      rw [lasting_suffixLength.drop_eq hrest hle (by omega)]

theorem rawStringEnd?_bounds (h : rawStringEnd? k cs = some m) : k + 1 ≤ m ∧ m ≤ cs.length := by
  fun_induction rawStringEnd? k cs generalizing m with
  | case1 => cases h
  | case2 c cs hclose =>
    cases h
    have := congrArg List.length hclose.2
    simp only [List.length_take, List.length_replicate] at this
    simp only [List.length_cons]
    omega
  | case3 c cs hopen ih =>
    obtain ⟨j, hj, rfl⟩ := Option.map_eq_some_iff.1 h
    have := ih hj
    simp only [List.length_cons]
    omega

theorem rawStringEnd?_take (h : rawStringEnd? k cs = some m) (hn : m ≤ n) :
    rawStringEnd? k (cs.take n ++ rest) = some m := by
  fun_induction rawStringEnd? k cs generalizing m n with
  | case1 => cases h
  | case2 c cs hclose =>
    have hle := (rawStringEnd?_bounds (rawStringEnd?.eq_2 k c cs ▸ if_pos hclose)).2
    cases h
    obtain ⟨n, rfl⟩ := Nat.exists_eq_add_of_le' (show 1 ≤ n by omega)
    rw [List.length_cons] at hle
    rw [List.take_succ_cons, List.cons_append, rawStringEnd?,
      take_take_append (by omega) (by omega), if_pos hclose]
  | case3 c cs hopen ih =>
    obtain ⟨j, hj, rfl⟩ := Option.map_eq_some_iff.1 h
    have hbounds := rawStringEnd?_bounds hj
    obtain ⟨n, rfl⟩ := Nat.exists_eq_add_of_le' (show 1 ≤ n by omega)
    rw [List.take_succ_cons, List.cons_append, rawStringEnd?,
      take_take_append (by omega) (by omega), if_neg hopen, ih hj (by omega)]
    rfl

/-- A raw string that is no fault is closed. -/
theorem exists_of_rawStringLexeme (hfault : (rawStringLexeme k cs).fault = none) :
    ∃ m, rawStringEnd? (runLength (· == '#') cs) (cs.drop (runLength (· == '#') cs + 1)) = some m ∧
      rawStringLexeme k cs = .token .stringLiteral (k + runLength (· == '#') cs + 1 + m) := by
  cases hend : rawStringEnd? (runLength (· == '#') cs) (cs.drop (runLength (· == '#') cs + 1)) with
  | none => simp [rawStringLexeme, hend, Lexeme.faulty] at hfault
  | some m => exact ⟨m, rfl, by simp only [rawStringLexeme, hend]⟩

/-- A raw string is read again whatever stands behind it. -/
theorem rawStringLexeme_take (hfault : (rawStringLexeme k cs).fault = none)
    (hn : (rawStringLexeme k cs).more ≤ k + n) :
    rawStringLexeme k (cs.take n ++ rest) = rawStringLexeme k cs := by
  obtain ⟨m, hend, hcs⟩ := exists_of_rawStringLexeme hfault
  obtain ⟨hpos, hle⟩ := rawStringEnd?_bounds hend
  rw [List.length_drop] at hle
  rw [hcs, Lexeme.token] at hn
  dsimp only at hn
  have hrun : runLength (· == '#') (cs.take n ++ rest) = runLength (· == '#') cs :=
    runLength_take (by omega) (by omega)
  rw [hcs]
  simp only [rawStringLexeme, hrun]
  rw [drop_take_append (by omega) (by omega), rawStringEnd?_take hend (by omega)]

theorem rereads_rawStringLexeme (hfault : (rawStringLexeme k cs).fault = none) :
    Rereads (rawStringLexeme k) k cs := by
  obtain ⟨m, hend, hcs⟩ := exists_of_rawStringLexeme hfault
  obtain ⟨hpos, hle⟩ := rawStringEnd?_bounds hend
  rw [List.length_drop] at hle
  refine ⟨?_, ?_, fun _ hn => rawStringLexeme_take hfault hn⟩
  · rw [hcs, Lexeme.token]
    dsimp only
    omega
  · rw [hcs, Lexeme.token]
    dsimp only
    omega

/-- The body of a character literal that is closed is as long as before. -/
theorem charBodyLength_take (hclose : (cs.drop (charBodyLength cs)).head? = some '\'')
    (hlt : charBodyLength cs < cs.length) (hn : charBodyLength cs < n) :
    charBodyLength (cs.take n ++ rest) = charBodyLength cs := by
  fun_cases charBodyLength cs with
  | case1 ds inside =>
    have hcs : charBodyLength ('\\' :: 'u' :: '{' :: ds) =
      3 + inside + if (ds.drop inside).head? = some '}' then 1 else 0 := rfl
    rw [hcs] at hn hlt
    simp only [List.length_cons] at hlt
    obtain ⟨n, rfl⟩ := Nat.exists_eq_add_of_le' (show 3 ≤ n by omega)
    have hinside : inside < n ∧ inside < ds.length := by omega
    have hrun : runLength _ (ds.take n ++ rest) = _ := runLength_take hinside.2 hinside.1
    rw [show (('\\' :: 'u' :: '{' :: ds).take (n + 3) ++ rest) =
      '\\' :: 'u' :: '{' :: (ds.take n ++ rest) from rfl, charBodyLength]
    rw [hrun, head?_drop_take_append hinside.1 hinside.2]
  | case2 d ds hescape =>
    have hcs : charBodyLength ('\\' :: d :: ds) = 2 := by rw [charBodyLength]; exact hescape
    rw [hcs] at hn hlt
    obtain ⟨n, rfl⟩ := Nat.exists_eq_add_of_le' (show 3 ≤ n by omega)
    cases ds with
    | nil => simp at hlt
    | cons e es =>
      rw [show (('\\' :: d :: e :: es).take (n + 3) ++ rest) =
        '\\' :: d :: e :: (es.take n ++ rest) from rfl, charBodyLength]
      rintro fs rfl heq
      cases heq
      exact hescape es rfl rfl
  | case3 c cs hunicode hescape =>
    have hcs : charBodyLength (c :: cs) = 1 := by rw [charBodyLength] <;> assumption
    rw [hcs] at hn hlt
    have hc : c ≠ '\\' := by
      rintro rfl
      cases cs with
      | nil => simp at hlt
      | cons d ds => exact hescape d ds rfl rfl
    obtain ⟨n, rfl⟩ := Nat.exists_eq_add_of_le' (show 1 ≤ n by omega)
    rw [List.take_succ_cons, List.cons_append, charBodyLength]
    · exact fun _ heq => absurd heq hc
    · exact fun _ _ heq => absurd heq hc
  | case4 => cases hclose

/-- A character literal that is no fault is closed on its line. -/
theorem closed_of_charLexeme (hfault : (charLexeme k cs).fault = none) :
    cs.head? ≠ some '\n' ∧ (cs.drop (charBodyLength cs)).head? = some '\'' ∧
      charBodyLength cs < cs.length ∧
      charLexeme k cs = .token .charLiteral (k + charBodyLength cs + 1) := by
  have hline : cs.head? ≠ some '\n' := fun hline => by
    simp [charLexeme, hline, Lexeme.faulty] at hfault
  have hclose : (cs.drop (charBodyLength cs)).head? = some '\'' := by
    by_contra hclose
    simp only [charLexeme, hline, hclose, if_false, Lexeme.faulty, reduceCtorEq] at hfault
  refine ⟨hline, hclose, ?_, by simp only [charLexeme, hline, hclose, if_false, if_true]⟩
  by_contra hge
  rw [List.drop_eq_nil_of_le (by omega)] at hclose
  cases hclose

/-- A character literal is read again whatever stands behind it. -/
theorem charLexeme_take (hfault : (charLexeme k cs).fault = none)
    (hn : (charLexeme k cs).more ≤ k + n) :
    charLexeme k (cs.take n ++ rest) = charLexeme k cs := by
  obtain ⟨hline, hclose, hlt, hcs⟩ := closed_of_charLexeme hfault
  rw [hcs, Lexeme.token] at hn
  dsimp only at hn
  have hpos : 0 < n ∧ 0 < cs.length := by omega
  have hfirst : ((cs.take n ++ rest).drop 0).head? = _ := head?_drop_take_append hpos.1 hpos.2
  have hbehind : ((cs.take n ++ rest).drop _).head? = _ :=
    head?_drop_take_append (show _ < n by omega) hlt
  have hbody : charBodyLength (cs.take n ++ rest) = _ :=
    charBodyLength_take hclose hlt (show _ < n by omega)
  rw [List.drop_zero, List.drop_zero] at hfirst
  rw [hcs]
  simp only [charLexeme, hbody, hfirst, hbehind, hline, hclose, if_false, if_true]

theorem rereads_charLexeme (hfault : (charLexeme k cs).fault = none) :
    Rereads (charLexeme k) k cs := by
  obtain ⟨-, -, hlt, hcs⟩ := closed_of_charLexeme hfault
  refine ⟨?_, ?_, fun _ hn => charLexeme_take hfault hn⟩
  · rw [hcs, Lexeme.token]
    dsimp only
    omega
  · rw [hcs, Lexeme.token]
    dsimp only
    omega

/-- A quote behind which a character literal stands does not start a lifetime. -/
theorem quoteLexeme_eq_charLexeme (hfault : (charLexeme 0 cs).fault = none) :
    quoteLexeme cs = charLexeme 0 cs := by
  unfold quoteLexeme
  split
  · next c ds =>
    refine if_neg fun ⟨hc, hds⟩ => ?_
    have hescape : c ≠ '\\' := fun heq => by
      rw [heq] at hc
      revert hc
      decide
    have hline : c ≠ '\n' := fun heq => by
      rw [heq] at hc
      revert hc
      decide
    have hbody : charBodyLength (c :: ds) = 1 := by
      rw [charBodyLength]
      · exact fun _ heq => absurd heq hescape
      · exact fun _ _ heq => absurd heq hescape
    simp [charLexeme, hbody, hline, hds, Lexeme.faulty] at hfault
  · rfl

theorem rereads_quoteLexeme (hfault : (quoteLexeme cs).fault = none) :
    Rereads quoteLexeme 0 cs := by
  by_cases hlife : ∃ c ds, cs = c :: ds ∧ isIdentStart c = true ∧ ds.head? ≠ some '\''
  · obtain ⟨c, ds, rfl, hc, hds⟩ := hlife
    have hcs (es : List Char) (hes : es.head? ≠ some '\'') :
        quoteLexeme (c :: es) = .token .lifetime (runLength isIdentContinue (c :: es)) := by
      simp only [quoteLexeme, hc, ne_eq, hes, not_false_eq_true, and_self, if_true]
    refine ⟨Nat.zero_le _, ?_, fun {n rest} hrest hn => ?_⟩
    · rw [hcs ds hds, Nat.zero_add]
      exact runLength_le _ _
    · rw [hcs ds hds, Nat.zero_add] at hn
      have hrun := lasting_word.eq hrest hn
      have hpos : runLength isIdentContinue (c :: ds) = _ :=
        runLength_cons_of_pos (isIdentContinue_of_isIdentStart hc)
      have hlong : runLength isIdentContinue (c :: ds) ≤ n := hn
      obtain ⟨n, rfl⟩ := Nat.exists_eq_add_of_le' (show 1 ≤ n by omega)
      rw [List.take_succ_cons, List.cons_append] at hrun ⊢
      rw [hcs ds hds, hcs, hrun]
      intro hquote
      obtain hquote | hquote := mem_head?_take_append hrest hquote
      · exact hds hquote
      · exact absurd hquote (by decide)
  · have hchar : quoteLexeme cs = charLexeme 0 cs := by
      unfold quoteLexeme
      split
      · next c ds => exact if_neg fun h => hlife ⟨c, ds, rfl, h⟩
      · rfl
    rw [hchar] at hfault
    have hrereads := rereads_charLexeme hfault
    refine ⟨Nat.zero_le _, hchar ▸ hrereads.more_le, fun {n rest} hrest hn => ?_⟩
    rw [hchar] at hn ⊢
    have heq := hrereads.eq hrest hn
    rw [quoteLexeme_eq_charLexeme (heq ▸ hfault), heq]

end Reshape
