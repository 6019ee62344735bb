import Reshape.Proofs.Token.Ends

/-!
# Tokens cut out of a text

What is cut out of a text between two of its tokens is read as these tokens again, at another place too,
if what follows there breaks it off. There are two provisos. A numeral depends on whether a dot stands
before it. And a comment that runs to the end of its line swallows what follows, unless the line ends.

* `chars_of_isTrivia` says what the characters of blanks and comments are.
* `Parts` says what breaks off whatever stands before it. `readsAs_cut` is the result for tokens, by
  induction on them, and `readsAs_middle` for tokens in the middle of a file.
* A text is `Movable` if it is read as the same words wherever it stands.
-/

namespace Reshape

variable {afterDot : Bool} {c d : Char} {cs ds rest : List Char} {k m n i : Nat} {l : Lexeme}

/-! ## Kinds of lexemes -/

/-- The kinds of literals and words, and of what is no token: those whose text is not fixed. -/
def TokenKind.isFree : TokenKind → Bool
  | .intLiteral | .floatLiteral | .stringLiteral | .charLiteral | .lifetime | .ident | .keyword _
  | .error => true
  | _ => false

theorem TokenKind.isTrivia_of_isFree {k : TokenKind} (h : k.isFree = true) : k.isTrivia = false := by
  unfold isFree at h
  split at h <;> first | rfl | cases h

/-- The kinds of literals, and of what is no token. -/
def TokenKind.isAtomic : TokenKind → Bool
  | .intLiteral | .floatLiteral | .stringLiteral | .charLiteral | .lifetime | .error => true
  | _ => false

theorem TokenKind.isFree_of_isAtomic {k : TokenKind} (h : k.isAtomic = true) : k.isFree = true := by
  unfold isAtomic at h
  split at h <;> first | rfl | cases h

theorem isAtomic_stringLexeme (k : Nat) (cs : List Char) : (stringLexeme k cs).kind.isAtomic = true := by
  unfold stringLexeme
  split <;> rfl

theorem isAtomic_rawStringLexeme (k : Nat) (cs : List Char) :
    (rawStringLexeme k cs).kind.isAtomic = true := by
  unfold rawStringLexeme
  dsimp only
  split <;> rfl

theorem isAtomic_charLexeme (k : Nat) (cs : List Char) : (charLexeme k cs).kind.isAtomic = true := by
  unfold charLexeme
  dsimp only
  split
  · rfl
  · split <;> rfl

theorem isAtomic_quoteLexeme (cs : List Char) : (quoteLexeme cs).kind.isAtomic = true := by
  unfold quoteLexeme
  split
  · split
    · rfl
    · exact isAtomic_charLexeme 0 _
  · exact isAtomic_charLexeme 0 _

theorem isAtomic_of_prefixed? (h : prefixed? c cs = some l) : l.kind.isAtomic = true := by
  unfold prefixed? at h
  split at h
  · split at h <;> cases h
    exact isAtomic_rawStringLexeme 0 _
  · cases h
    exact isAtomic_stringLexeme 1 _
  · cases h
    exact isAtomic_charLexeme 1 _
  · split at h <;> cases h
    exact isAtomic_rawStringLexeme 1 _
  · cases h

theorem isFree_wordLexeme (c : Char) (cs : List Char) : (wordLexeme c cs).kind.isFree = true := by
  unfold wordLexeme
  dsimp only
  split <;> rfl

theorem kind_numberLexeme (afterDot : Bool) (c : Char) (cs : List Char) :
    (numberLexeme afterDot c cs).kind = .intLiteral ∨
      (numberLexeme afterDot c cs).kind = .floatLiteral := by
  have hite (p : Prop) [Decidable p] : (if p then TokenKind.floatLiteral else .intLiteral) = .intLiteral ∨
      (if p then TokenKind.floatLiteral else .intLiteral) = .floatLiteral := by
    split <;> simp
  have hdecimal (cs : List Char) : (decimalLexeme afterDot cs).kind = .intLiteral ∨
      (decimalLexeme afterDot cs).kind = .floatLiteral := hite _
  unfold numberLexeme
  split
  · split
    · exact .inl rfl
    · exact hdecimal _
  · exact hdecimal _

/-- What does not start with a blank or a slash is an operator, a literal or a word. -/
theorem operator?_or_isAtomic (hblank : isBlank c = false) (hslash : c ≠ '/') :
    operator? c cs = some (lexeme afterDot c cs) ∨ (lexeme afterDot c cs).kind.isAtomic = true ∨
      isIdentStart c = true ∧ lexeme afterDot c cs = wordLexeme c cs := by
  simp only [lexeme, hblank, hslash, Bool.false_eq_true, if_false]
  split
  · right
    left
    obtain h | h := kind_numberLexeme afterDot c cs <;> rw [h] <;> rfl
  split
  · exact .inr (.inl (isAtomic_stringLexeme 0 cs))
  split
  · exact .inr (.inl (isAtomic_quoteLexeme cs))
  split
  · next h => exact .inl h
  split
  · next h => exact .inr (.inl (isAtomic_of_prefixed? h))
  split
  · next hstart => exact .inr (.inr ⟨hstart, rfl⟩)
  · exact .inr (.inl rfl)

/-- What does not start with a blank or a slash is an operator, or its text is not fixed. -/
theorem operator?_or_isFree (hblank : isBlank c = false) (hslash : c ≠ '/') :
    operator? c cs = some (lexeme afterDot c cs) ∨ (lexeme afterDot c cs).kind.isFree = true := by
  obtain h | h | ⟨-, h⟩ := operator?_or_isAtomic hblank hslash
  · exact .inl h
  · exact .inr (TokenKind.isFree_of_isAtomic h)
  · exact .inr (h ▸ isFree_wordLexeme c cs)

theorem kind_withEq (plain joined : TokenKind) (cs : List Char) :
    (withEq plain joined cs).kind = joined ∨ (withEq plain joined cs).kind = plain := by
  unfold withEq
  split
  · exact .inl rfl
  · exact .inr rfl

theorem isTrivia_withEq {plain joined : TokenKind} (hplain : plain.isTrivia = false)
    (hjoined : joined.isTrivia = false) (cs : List Char) :
    (withEq plain joined cs).kind.isTrivia = false := by
  obtain h | h := kind_withEq plain joined cs
  · rw [h, hjoined]
  · rw [h, hplain]

theorem isTrivia_of_operator? (h : operator? c cs = some l) : l.kind.isTrivia = false := by
  unfold operator? at h
  split at h <;> cases h <;> first | rfl | exact isTrivia_withEq rfl rfl _

/-- Blanks and comments are told by their first character. -/
theorem isTrivia_lexeme (hblank : isBlank c = false) (hslash : c ≠ '/') :
    (lexeme afterDot c cs).kind.isTrivia = false := by
  obtain h | h := operator?_or_isFree hblank hslash
  · exact isTrivia_of_operator? h
  · exact TokenKind.isTrivia_of_isFree h

theorem withEq_ne {kind plain joined : TokenKind} (hplain : plain ≠ kind) (hjoined : joined ≠ kind)
    (cs : List Char) : (withEq plain joined cs).kind ≠ kind := by
  obtain h | h := kind_withEq plain joined cs <;> rwa [h]

/-- What starts with a blank or a slash is skipped, is a division, or is a comment that does not end. -/
theorem kind_lexeme_of_start (h : isBlank c = true ∨ c = '/') :
    (lexeme afterDot c cs).kind ∈ [.whitespace, .comment, .error, .slash, .compoundAssign] := by
  obtain hblank | rfl := h
  · rw [lexeme_of_isBlank hblank]
    simp [Lexeme.token]
  · rw [lexeme_slash]
    unfold slashLexeme
    split
    · simp [Lexeme.token]
    · split <;> simp [Lexeme.token, Lexeme.faulty]
    · obtain h | h := kind_withEq .slash .compoundAssign cs <;> simp [h]

/-- A token of another kind is an operator, a literal or a word. -/
theorem operator?_or_isAtomic_of_notMem
    (h : (lexeme afterDot c cs).kind ∉ [.whitespace, .comment, .error, .slash, .compoundAssign]) :
    operator? c cs = some (lexeme afterDot c cs) ∨ (lexeme afterDot c cs).kind.isAtomic = true ∨
      isIdentStart c = true ∧ lexeme afterDot c cs = wordLexeme c cs := by
  have hstart := fun hstart => h (kind_lexeme_of_start hstart)
  exact operator?_or_isAtomic (by simpa using fun hblank => hstart (.inl hblank)) fun hslash =>
    hstart (.inr hslash)

/-- The character of a kind of token that is always that one character, for some of these kinds. -/
def TokenKind.mark? : TokenKind → Option Char
  | .comma => some ','
  | .rParen => some ')'
  | .rBracket => some ']'
  | _ => none

/-- Such a token is its character. -/
theorem lexeme_of_mark? {k : TokenKind} {m : Char} (hm : k.mark? = some m)
    (h : (lexeme afterDot c cs).kind = k) : c = m ∧ lexeme afterDot c cs = .token k 0 := by
  have hk : k = .comma ∨ k = .rParen ∨ k = .rBracket := by
    unfold TokenKind.mark? at hm
    split at hm
    · exact .inl rfl
    · exact .inr (.inl rfl)
    · exact .inr (.inr rfl)
    · cases hm
  obtain hl | hliteral | ⟨-, hword⟩ := operator?_or_isAtomic_of_notMem (by
    rw [h]
    obtain rfl | rfl | rfl := hk <;> decide)
  · generalize lexeme afterDot c cs = l at h hl
    have heq {plain joined : TokenKind} {es : List Char} (hplain : plain.mark? = none)
        (hjoined : joined.mark? = none) (h : (withEq plain joined es).kind = k) : False := by
      obtain hk | hk := kind_withEq plain joined es
      · rw [← h, hk, hjoined] at hm
        cases hm
      · rw [← h, hk, hplain] at hm
        cases hm
    unfold operator? at hl
    split at hl <;> cases hl
    all_goals first
      | exact (heq rfl rfl h).elim
      | (cases h; cases hm; done)
      | (cases h; cases hm; exact ⟨rfl, rfl⟩)
  · rw [h] at hliteral
    obtain rfl | rfl | rfl := hk <;> cases hliteral
  · have hfree := isFree_wordLexeme c cs
    rw [← hword, h] at hfree
    obtain rfl | rfl | rfl := hk <;> cases hfree

/-- A keyword is its word. -/
theorem lexeme_of_keyword {k : Keyword} (h : (lexeme afterDot c cs).kind = .keyword k) :
    String.ofList (c :: cs.take (lexeme afterDot c cs).more) = k.word := by
  obtain hl | hliteral | ⟨-, hword⟩ := operator?_or_isAtomic_of_notMem (by rw [h]; simp)
  · generalize lexeme afterDot c cs = l at h hl
    unfold operator? at hl
    split at hl <;> cases hl
    all_goals first
      | cases h
      | exact absurd h (withEq_ne (by simp) (by simp) _)
  · rw [h] at hliteral
    cases hliteral
  · rw [hword] at h ⊢
    cases hk : Keyword.ofWord? (String.ofList (c :: cs.take (runLength isIdentContinue cs))) with
    | some k' =>
      simp only [wordLexeme, hk] at h ⊢
      cases h
      exact (Keyword.word_of_ofWord? hk).symm
    | none =>
      simp only [wordLexeme, hk] at h
      cases h

/-- Only numerals depend on whether they stand behind a dot. -/
theorem lexeme_eq_of_kind_ne (afterDot' : Bool) (hint : (lexeme afterDot c cs).kind ≠ .intLiteral)
    (hfloat : (lexeme afterDot c cs).kind ≠ .floatLiteral) :
    lexeme afterDot' c cs = lexeme afterDot c cs := by
  by_cases hblank : isBlank c = true
  · simp only [lexeme, hblank, if_true]
  by_cases hslash : c = '/'
  · simp only [lexeme, hslash, if_true]
  by_cases hdigit : c.isDigit = true
  · simp only [lexeme, hblank, hslash, hdigit, if_true, if_false, Bool.false_eq_true] at hint hfloat
    obtain h | h := kind_numberLexeme afterDot c cs
    · exact absurd h hint
    · exact absurd h hfloat
  · simp only [lexeme, hblank, hslash, hdigit, if_false, Bool.false_eq_true]

/-! ## Blanks and comments -/

/-- The forms of blanks and comments. -/
theorem lexeme_of_isTrivia (h : (lexeme afterDot c cs).kind.isTrivia = true) :
    (isBlank c = true ∧ lexeme afterDot c cs = .token .whitespace (runLength isBlank cs)) ∨
      (∃ ds, c = '/' ∧ cs = '/' :: ds ∧
        lexeme afterDot c cs = .token .comment (1 + runLength (· != '\n') ds)) ∨
      ∃ ds n, c = '/' ∧ cs = '*' :: ds ∧ commentEnd? 0 ds = some n ∧
        lexeme afterDot c cs = .token .comment (1 + n) := by
  by_cases hblank : isBlank c = true
  · exact .inl ⟨hblank, lexeme_of_isBlank hblank⟩
  by_cases hslash : c = '/'
  · rw [hslash, lexeme_slash] at h ⊢
    right
    unfold slashLexeme at h ⊢
    split at h
    · exact .inl ⟨_, rfl, rfl, rfl⟩
    · next ds =>
      split at h
      · next n hn => exact .inr ⟨ds, n, rfl, rfl, hn, rfl⟩
      · cases h
    · rw [isTrivia_withEq rfl rfl] at h
      cases h
  · rw [isTrivia_lexeme (by simpa using hblank) hslash] at h
    cases h

theorem length_le_of_commentEnd? {depth : Nat} (h : commentEnd? depth cs = some n) :
    n ≤ cs.length := by
  fun_induction commentEnd? depth cs generalizing n with
  | case1 => cases h
  | case2 depth cs ih | case4 depth cs ih =>
    obtain ⟨m, hm, rfl⟩ := Option.map_eq_some_iff.1 h
    simpa using ih hm
  | case3 cs =>
    cases h
    simp
  | case5 depth c cs hopen hclose hclose' ih =>
    obtain ⟨m, hm, rfl⟩ := Option.map_eq_some_iff.1 h
    simpa using ih hm

/-- A comment that ends ends there if nothing else follows. -/
theorem commentEnd?_take {depth : Nat} (h : commentEnd? depth cs = some n) :
    commentEnd? depth (cs.take n) = some n := by
  fun_induction commentEnd? depth cs generalizing n with
  | case1 => cases h
  | case2 depth cs ih | case4 depth cs ih =>
    obtain ⟨m, hm, rfl⟩ := Option.map_eq_some_iff.1 h
    simp [commentEnd?, ih hm]
  | case3 cs =>
    cases h
    rfl
  | case5 depth c cs hopen hclose hclose' ih =>
    obtain ⟨m, hm, rfl⟩ := Option.map_eq_some_iff.1 h
    have hhead (d : Char) (ds : List Char) (heq : cs.take m = d :: ds) : ∃ es, cs = d :: es := by
      cases cs with
      | nil => simp at heq
      | cons e es =>
        cases m with
        | zero => cases heq
        | succ m =>
          cases heq
          exact ⟨es, rfl⟩
    rw [List.take_succ_cons, commentEnd?, ih hm]
    · rfl
    · rintro ds hc heq
      obtain ⟨es, hes⟩ := hhead _ _ heq
      exact hopen es hc hes
    · rintro ds hd hc heq
      obtain ⟨es, hes⟩ := hhead _ _ heq
      exact hclose es hd hc hes
    · rintro k ds hd hc heq
      obtain ⟨es, hes⟩ := hhead _ _ heq
      exact hclose' k es hd hc hes

/-- The characters of blanks and comments. Behind a comment that runs to the end of its line the line
ends. -/
theorem chars_of_isTrivia (h : (lexeme afterDot c cs).kind.isTrivia = true) :
    ((lexeme afterDot c cs).kind = .whitespace ∧
        ∀ d ∈ c :: cs.take (lexeme afterDot c cs).more, isBlank d = true) ∨
      (lexeme afterDot c cs).kind = .comment ∧
        ((∃ body, c :: cs.take (lexeme afterDot c cs).more = '/' :: '/' :: body ∧ '\n' ∉ body ∧
            ∀ d ∈ (cs.drop (lexeme afterDot c cs).more).head?, d = '\n') ∨
          ∃ body, c :: cs.take (lexeme afterDot c cs).more = '/' :: '*' :: body ∧
            commentEnd? 0 body = some body.length) := by
  have hrun (p : Char → Bool) (ds : List Char) : ds.take (runLength p ds) = ds.takeWhile p :=
    (List.prefix_iff_eq_take.1 (List.takeWhile_prefix p)).symm
  have hend (p : Char → Bool) (ds : List Char) : ds.drop (runLength p ds) = ds.dropWhile p := by
    have hsplit := List.take_append_drop (runLength p ds) ds
    rw [hrun] at hsplit
    exact List.append_cancel_left (hsplit.trans List.takeWhile_append_dropWhile.symm)
  obtain ⟨hc, hl⟩ | ⟨ds, rfl, rfl, hl⟩ | ⟨ds, n, rfl, rfl, hn, hl⟩ := lexeme_of_isTrivia h
  · refine .inl ⟨by rw [hl]; rfl, List.forall_mem_cons.2 ⟨hc, ?_⟩⟩
    rw [hl, Lexeme.token, hrun]
    exact List.all_eq_true.1 List.all_takeWhile
  · refine .inr ⟨by rw [hl]; rfl, .inl ⟨ds.take (runLength (· != '\n') ds), ?_, ?_, ?_⟩⟩
    · rw [hl, Lexeme.token, Nat.add_comm, List.take_succ_cons]
    · rw [hrun]
      intro hmem
      simpa using List.all_eq_true.1 List.all_takeWhile _ hmem
    · intro d hd
      rw [hl, Lexeme.token, Nat.add_comm, List.drop_succ_cons, hend] at hd
      simpa [Option.mem_def.1 hd] using List.head?_dropWhile_not (· != '\n') ds
  · refine .inr ⟨by rw [hl]; rfl, .inr ⟨ds.take n, ?_, ?_⟩⟩
    · rw [hl, Lexeme.token, Nat.add_comm, List.take_succ_cons]
    · rw [commentEnd?_take hn, List.length_take, Nat.min_eq_left (length_le_of_commentEnd? hn)]

/-- Whether a token is a comment that runs to the end of its line. -/
def Token.isLineComment (t : Token) : Bool := t.kind == .comment && t.text.startsWith "//"

theorem Token.isLineComment_iff {t : Token} :
    t.isLineComment = true ↔ t.kind = .comment ∧ ∃ body, t.text.toList = '/' :: '/' :: body := by
  have hmarks : "//".toList = ['/', '/'] := rfl
  rw [isLineComment, Bool.and_eq_true, beq_iff_eq, String.startsWith_string_iff, hmarks]
  refine and_congr_right fun _ => exists_congr fun body => ?_
  rw [eq_comm]
  rfl

/-- The first token of a scan is read off the first characters. -/
theorem exists_of_scan_eq_cons {t : Token} {ts : List Token}
    (h : (scan afterDot i cs).map (·.token) = t :: ts) (ht : t.kind ≠ .eof) :
    ∃ c ds l, cs = c :: ds ∧ lexeme afterDot c ds = l ∧ t.kind = l.kind ∧
      t.text.toList = c :: ds.take l.more ∧
      (scan (if t.isTrivia then afterDot else t.kind == .dot) t.stop (ds.drop l.more)).map (·.token) =
        ts := by
  cases cs with
  | nil =>
    rw [scan] at h
    obtain ⟨rfl, -⟩ := List.cons.inj h
    exact absurd rfl ht
  | cons c ds =>
    rw [scan, List.map_cons] at h
    obtain ⟨rfl, hts⟩ := List.cons.inj h
    exact ⟨c, ds, _, rfl, rfl, rfl, String.toList_ofList, hts⟩

theorem exists_scan_of_append {before behind : List Token}
    (h : (scan afterDot i cs).map (·.token) = before ++ behind)
    (hbefore : ∀ t ∈ before, t.kind ≠ .eof) :
    ∃ afterDot' j ds, (scan afterDot' j ds).map (·.token) = behind := by
  induction before generalizing afterDot i cs with
  | nil => exact ⟨_, _, _, h⟩
  | cons t before ih =>
    rw [List.forall_mem_cons] at hbefore
    obtain ⟨c, ds, l, -, -, -, -, hscan⟩ := exists_of_scan_eq_cons h hbefore.1
    exact ih hscan hbefore.2

/-- The end of a text is its last token. -/
theorem kind_ne_eof_of_append {text : String} {before behind : List Token}
    (h : lexTokens text = before ++ behind) (hbehind : behind ≠ []) :
    ∀ t ∈ before, t.kind ≠ .eof := by
  obtain ⟨ts, hts, hne⟩ := exists_lexTokens_eq_concat text
  obtain ⟨us, u, rfl⟩ := (List.eq_nil_or_concat behind).resolve_left hbehind
  rw [h, List.concat_eq_append, ← List.append_assoc] at hts
  obtain ⟨rfl, -⟩ := List.append_inj' hts rfl
  exact fun t ht => hne t (List.mem_append_left _ ht)

/-- A token of a text is read off characters. -/
theorem exists_lexeme_of_mem {text : String} {t : Token} (ht : t ∈ lexTokens text)
    (heof : t.kind ≠ .eof) :
    ∃ afterDot c ds l, lexeme afterDot c ds = l ∧ t.kind = l.kind ∧
      t.text.toList = c :: ds.take l.more := by
  obtain ⟨before, behind, htokens⟩ := List.append_of_mem ht
  obtain ⟨a, i, cs, hscan⟩ := exists_scan_of_append htokens
    (kind_ne_eof_of_append htokens (List.cons_ne_nil t behind))
  obtain ⟨c, ds, l, -, hl, hkind, htext, -⟩ := exists_of_scan_eq_cons hscan heof
  exact ⟨a, c, ds, l, hl, hkind, htext⟩

/-- A blank or comment of a text, by its characters. -/
theorem toList_of_isTrivia {text : String} {t : Token} (ht : t ∈ lexTokens text)
    (h : t.isTrivia = true) :
    (t.kind = .whitespace ∧ ∀ d ∈ t.text.toList, isBlank d = true) ∨
      t.kind = .comment ∧ ((∃ body, t.text.toList = '/' :: '/' :: body ∧ '\n' ∉ body) ∨
        ∃ body, t.text.toList = '/' :: '*' :: body ∧ commentEnd? 0 body = some body.length) := by
  obtain ⟨a, c, ds, l, rfl, hkind, htext⟩ := exists_lexeme_of_mem ht fun heof => by
    rw [Token.isTrivia, heof] at h
    cases h
  rw [hkind, htext]
  rw [Token.isTrivia, hkind] at h
  exact (chars_of_isTrivia h).imp_right fun h => ⟨h.1, h.2.imp_left fun hline =>
    hline.imp fun body hbody => ⟨hbody.1, hbody.2.1⟩⟩

theorem toList_of_mark? {text : String} {t : Token} {m : Char} (ht : t ∈ lexTokens text)
    (hm : t.kind.mark? = some m) : t.text.toList = [m] := by
  obtain ⟨a, c, ds, l, rfl, hkind, htext⟩ := exists_lexeme_of_mem ht fun heof => by
    rw [heof] at hm
    cases hm
  obtain ⟨rfl, hl⟩ := lexeme_of_mark? hm hkind.symm
  rw [htext, hl]
  rfl

theorem toList_of_comma {text : String} {t : Token} (ht : t ∈ lexTokens text) (h : t.kind = .comma) :
    t.text.toList = [','] :=
  toList_of_mark? ht (by rw [h]; rfl)

theorem toList_of_keyword {text : String} {t : Token} {k : Keyword} (ht : t ∈ lexTokens text)
    (h : t.kind = .keyword k) : t.text.toList = k.word.toList := by
  obtain ⟨a, c, ds, l, rfl, hkind, htext⟩ := exists_lexeme_of_mem ht (by simp [h])
  rw [htext, ← lexeme_of_keyword (hkind.symm.trans h), String.toList_ofList]

/-- Behind a comment that runs to the end of its line, the next token is a blank that starts with the end
of the line, if it is not the end of the text. -/
theorem blank_of_isLineComment {before behind : List Token} {t u : Token}
    (h : (scan afterDot i cs).map (·.token) = before ++ t :: u :: behind)
    (hbefore : ∀ b ∈ before, b.kind ≠ .eof) (ht : t.isLineComment = true) (hu : u.kind ≠ .eof) :
    u.kind = .whitespace ∧ ∃ ds, u.text.toList = '\n' :: ds := by
  induction before generalizing afterDot i cs with
  | cons b before ih =>
    rw [List.forall_mem_cons] at hbefore
    obtain ⟨c, ds, l, -, -, -, -, h⟩ := exists_of_scan_eq_cons h hbefore.1
    exact ih h hbefore.2
  | nil =>
    obtain ⟨hkind, body, hbody⟩ := Token.isLineComment_iff.1 ht
    obtain ⟨c, ds, l, rfl, hl, htkind, htext, h⟩ := exists_of_scan_eq_cons h (by simp [hkind])
    obtain ⟨d, es, l', hes, hl', hukind, hutext, -⟩ := exists_of_scan_eq_cons h hu
    rw [htkind, ← hl] at hkind
    rw [htext, ← hl] at hbody
    have htrivia : (lexeme afterDot c ds).kind.isTrivia = true := by
      rw [hkind]
      rfl
    obtain ⟨hspace, -⟩ | ⟨-, ⟨body', -, -, hfeed⟩ | ⟨body', hblock, -⟩⟩ := chars_of_isTrivia htrivia
    · cases hspace.symm.trans hkind
    · rw [hl, hes] at hfeed
      obtain rfl := hfeed d rfl
      rw [lexeme_of_isBlank (by decide)] at hl'
      exact ⟨by rw [hukind, ← hl']; rfl, _, hutext⟩
    · cases hbody.symm.trans hblock

/-! ## Texts cut at tokens -/

/-- A text breaks off whatever stands before it: it is empty, or starts with a blank or with a mark that
is always read by itself. -/
def Parts (rest : List Char) : Prop := ∀ d ∈ rest.head?, isBlank d = true ∨ isLoneMark d = true

theorem Parts.breaks (h : Parts rest) : Breaks rest := by
  intro d hd
  rw [isBreak, Bool.or_assoc, Bool.or_eq_true, Bool.or_eq_true]
  exact (h d hd).imp_right .inr

theorem Parts.head?_ne (h : Parts rest) : rest.head? ≠ some '/' := by
  intro hslash
  have := h '/' hslash
  revert this
  decide

theorem readsAs_nil (afterDot : Bool) : readsAs afterDot [] = [] := by
  simp [readsAs, scan, wordsOf, Token.isWord]

theorem readsAs_blanks (afterDot : Bool) (h : ∀ d ∈ cs, isBlank d = true) (rest : List Char) :
    readsAs afterDot (cs ++ rest) = readsAs afterDot rest := by
  induction cs with
  | nil => rfl
  | cons c cs ih =>
    rw [List.forall_mem_cons] at h
    rw [List.cons_append, readsAs_blank _ _ h.1, ih h.2]

/-- A blank or comment is skipped if its line ends where it runs to the end of the line. -/
theorem readsAs_skip {afterDot' : Bool} (h : (lexeme afterDot c cs).kind.isTrivia = true)
    (hline : (lexeme afterDot c cs).kind = .comment →
      ∀ body, c :: cs.take (lexeme afterDot c cs).more = '/' :: '/' :: body → ∃ es, rest = '\n' :: es) :
    readsAs afterDot' ((c :: cs.take (lexeme afterDot c cs).more) ++ rest) = readsAs afterDot' rest := by
  obtain ⟨-, hblank⟩ | ⟨hkind, ⟨body, hbody, hmem, -⟩ | ⟨body, hbody, hclosed⟩⟩ := chars_of_isTrivia h
  · exact readsAs_blanks _ hblank rest
  · obtain ⟨es, rfl⟩ := hline hkind body hbody
    have hskip := readsAs_trivium afterDot' (.line body hmem) es
    rw [Trivium.chars, List.cons_append, List.cons_append, List.append_assoc] at hskip
    rw [readsAs_blank afterDot' es (c := '\n') (by decide), hbody]
    exact hskip
  · rw [hbody]
    exact readsAs_trivium afterDot' (.block body hclosed) rest

/-- A word is read again if what stands behind it breaks it off somewhere. -/
theorem readsAs_again (hl : lexeme afterDot c cs = l) (hfault : l.fault = none)
    (htrivia : l.kind.isTrivia = false) (hcs : cs.drop l.more = ds) (m : Nat) (hrest : Parts rest) :
    readsAs afterDot ((c :: cs.take l.more) ++ (ds.take m ++ rest)) =
      (l.kind, String.ofList (c :: cs.take l.more)) ::
        readsAs (l.kind == .dot) (ds.take m ++ rest) := by
  obtain ⟨hle, htake⟩ := lexeme_take hl hfault htrivia
  have hlex : lexeme afterDot c (cs.take l.more ++ (ds.take m ++ rest)) = l := by
    rw [← hcs, ← List.append_assoc, ← List.take_add]
    exact htake hrest.breaks (Nat.le_add_right _ m) fun _ _ => hrest.head?_ne
  have hlength : (cs.take l.more).length = l.more := by rw [List.length_take, Nat.min_eq_left hle]
  rw [List.cons_append, readsAs_cons (by rw [hlex]; exact htrivia), hlex, List.take_left' hlength,
    List.drop_left' hlength]

/-- **Tokens that are cut out are read again.** What stands behind them may be what stood there before,
up to some place, and may be anything from there on that breaks it off. -/
theorem readsAs_cut {before behind : List Token} {afterDot' : Bool}
    (h : (scan afterDot i cs).map (·.token) = before ++ behind)
    (hproper : ∀ t ∈ before, t.kind ≠ .error ∧ t.kind ≠ .eof)
    (hfirst : afterDot' = afterDot ∨
      ∀ t ∈ (significant before).head?, t.kind ≠ .intLiteral ∧ t.kind ≠ .floatLiteral)
    (hlast : ∀ t ∈ before.getLast?, t.isLineComment = false) (m : Nat) (hrest : Parts rest) :
    ∃ afterDot'', readsAs afterDot'
        ((tokensText before).toList ++ ((tokensText behind).toList.take m ++ rest)) =
      wordsOf before ++ readsAs afterDot'' ((tokensText behind).toList.take m ++ rest) := by
  induction before generalizing afterDot afterDot' i cs with
  | nil => exact ⟨afterDot', rfl⟩
  | cons t before ih =>
    obtain ⟨ht, hbefore⟩ := List.forall_mem_cons.1 hproper
    obtain ⟨c, ds, l, rfl, hl, hkind, htext, hscan⟩ := exists_of_scan_eq_cons h ht.2
    have hlast' : ∀ u ∈ before.getLast?, u.isLineComment = false := fun u hu => hlast u (by
      rw [List.getLast?_cons, Option.mem_def.1 hu]
      rfl)
    rw [tokensText_cons, String.toList_append, List.append_assoc, htext]
    cases htrivia : t.isTrivia with
    | true =>
      rw [if_pos htrivia] at hscan
      rw [significant, List.filter_cons_of_neg (by simp [htrivia])] at hfirst
      obtain ⟨a, ha⟩ := ih hscan hbefore hfirst hlast'
      refine ⟨a, ?_⟩
      rw [wordsOf_cons, if_neg (by simp [Token.isWord, htrivia]), ← ha]
      subst hl
      refine readsAs_skip (hkind ▸ htrivia) fun hcomment body hbody => ?_
      have hline : t.isLineComment = true :=
        Token.isLineComment_iff.2 ⟨hkind.trans hcomment, body, htext.trans hbody⟩
      cases before with
      | nil => exact absurd (hlast t rfl) (by simp [hline])
      | cons u us =>
        obtain ⟨-, es, hes⟩ := blank_of_isLineComment (h.trans (List.nil_append _).symm) (by simp) hline
          (hbefore u (by simp)).2
        exact ⟨_, by rw [tokensText_cons, String.toList_append, hes]; rfl⟩
    | false =>
      rw [if_neg (by simp [htrivia])] at hscan
      obtain ⟨a, ha⟩ := ih hscan hbefore (.inl rfl) hlast'
      have hlex : lexeme afterDot' c ds = l := by
        obtain rfl | hfirst := hfirst
        · exact hl
        · obtain ⟨hint, hfloat⟩ := hfirst t (by
            rw [significant, List.filter_cons_of_pos (by simp [htrivia])]
            rfl)
          rw [hkind, ← hl] at hint hfloat
          rw [lexeme_eq_of_kind_ne afterDot' hint hfloat, hl]
      have hfault : l.fault = none := by
        rw [← hl]
        exact (proper_lexeme afterDot c ds).fault_eq_none.2 (by rw [hl, ← hkind]; exact ht.1)
      have hrest' : ds.drop l.more = (tokensText before).toList ++ (tokensText behind).toList := by
        rw [← String.toList_append, ← tokensText_append]
        exact String.ofList_inj.1 (by rw [String.ofList_toList, ← tokensText_scan, hscan]; rfl)
      have hread := readsAs_again hlex hfault (hkind ▸ htrivia) hrest'
        ((tokensText before).toList.length + m) hrest
      rw [List.take_length_add_append, List.append_assoc, ← hkind, ← htext, String.ofList_toList] at hread
      refine ⟨a, ?_⟩
      rw [← htext, hread, ha, wordsOf_cons, if_pos (by simp [Token.isWord, htrivia, ht.2])]
      rfl

theorem kind_of_isLineComment {text : String} {before behind : List Token} {t u : Token}
    (h : lexTokens text = before ++ t :: u :: behind) (ht : t.isLineComment = true) (hu : u.kind ≠ .eof) :
    u.kind = .whitespace :=
  (blank_of_isLineComment h (kind_ne_eof_of_append h (List.cons_ne_nil t _)) ht hu).1

/-- The tokens of a text without faults end firmly, but for blanks, commas and comments up to the ends of
lines. -/
theorem firm_of_mem_lexTokens {text : String} {t : Token} (herrors : lexErrors text = [])
    (ht : t ∈ lexTokens text) (heof : t.kind ≠ .eof) (hblank : t.kind ≠ .whitespace)
    (hcomma : t.kind ≠ .comma) (hline : t.isLineComment = false) : Firm t.text.toList := by
  obtain ⟨a, c, ds, l, hl, hkind, htext⟩ := exists_lexeme_of_mem ht heof
  have hfault : l.fault = none := by
    rw [← hl]
    exact (proper_lexeme a c ds).fault_eq_none.2 (by
      rw [hl, ← hkind]
      exact lexErrors_eq_nil.1 herrors t ht)
  rw [htext]
  refine firm_lexeme hl hfault (hkind ▸ hblank) (hkind ▸ hcomma) fun hslash hhead => ?_
  -- Two slashes start a comment up to the end of its line.
  obtain ⟨es, rfl⟩ := List.head?_eq_some_iff.1 hhead
  subst hslash
  have hlex : l = .token .comment (1 + runLength (· != '\n') es) := by
    rw [← hl, lexeme, if_neg (by decide), if_pos rfl, slashLexeme]
  have hcomment : t.isLineComment = true := Token.isLineComment_iff.2
    ⟨by rw [hkind, hlex]; rfl, es.take (runLength (· != '\n') es), by
      rw [htext, hlex, Lexeme.token, Nat.add_comm, List.take_succ_cons]⟩
  rw [hline] at hcomment
  cases hcomment

/-- A comment up to the end of the text hides what stands in it. -/
theorem readsAs_lineComment (afterDot : Bool) (h : '\n' ∉ cs) :
    readsAs afterDot ('/' :: '/' :: cs) = [] := by
  have hall : ∀ d ∈ cs, (d != '\n') = true := fun d hd => bne_iff_ne.2 fun heq => h (heq ▸ hd)
  have hrun : runLength (· != '\n') cs = cs.length := by
    rw [runLength, ← List.append_nil cs, List.takeWhile_append_of_pos hall, List.takeWhile_nil]
  have hl : slashLexeme ('/' :: cs) = .token .comment (1 + cs.length) := by rw [slashLexeme, hrun]
  rw [readsAs_slash hl, Nat.add_comm, List.drop_succ_cons, List.drop_length, readsAs_nil]

/-- Tokens from the middle of a text without faults are read again in any place. -/
theorem readsAs_middle {text : String} {before mid behind : List Token} (herrors : lexErrors text = [])
    (h : lexTokens text = before ++ (mid ++ behind)) (hbehind : behind ≠ [])
    (hfirst : ∀ t ∈ (significant mid).head?, t.kind ≠ .intLiteral ∧ t.kind ≠ .floatLiteral)
    (hlast : ∀ t ∈ mid.getLast?, t.isLineComment = false) (m : Nat) (hrest : Parts rest)
    (afterDot : Bool) :
    ∃ afterDot', readsAs afterDot
        ((tokensText mid).toList ++ ((tokensText behind).toList.take m ++ rest)) =
      wordsOf mid ++ readsAs afterDot' ((tokensText behind).toList.take m ++ rest) := by
  have hall : lexTokens text = (before ++ mid) ++ behind := by rwa [List.append_assoc]
  have heof := kind_ne_eof_of_append hall hbehind
  obtain ⟨a, i, cs, hscan⟩ := exists_scan_of_append h fun t ht => heof t (List.mem_append_left _ ht)
  refine readsAs_cut hscan (fun t ht => ⟨?_, heof t (List.mem_append_right _ ht)⟩) (.inr hfirst) hlast m
    hrest
  exact lexErrors_eq_nil.1 herrors t (by rw [h]; simp [ht])

/-! ## Texts that can be moved -/

/-- A text is read as the same words wherever it stands, if what follows it breaks it off. -/
def Movable (cs : List Char) : Prop :=
  ∃ ws, ∀ afterDot rest, Parts rest →
    ∃ afterDot', readsAs afterDot (cs ++ rest) = ws ++ readsAs afterDot' rest

theorem parts_nil : Parts [] := by simp [Parts]

/-- A movable text is read as its words. -/
theorem Movable.readsAs_append (h : Movable cs) (afterDot : Bool) (hrest : Parts rest) :
    ∃ afterDot', readsAs afterDot (cs ++ rest) = readsAs false cs ++ readsAs afterDot' rest := by
  obtain ⟨ws, h⟩ := h
  obtain ⟨a, ha⟩ := h false [] parts_nil
  rw [List.append_nil, readsAs_nil, List.append_nil] at ha
  rw [ha]
  exact h afterDot rest hrest

end Reshape
