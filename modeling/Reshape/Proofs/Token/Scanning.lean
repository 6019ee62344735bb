import Reshape.Token.Lexer

/-!
# The tokens of a text

Lexing loses nothing: the tokens of a text follow each other without a gap, and together they are
the text. An empty token of the kind `eof` stands behind them, and no other token has that kind.

* `proper_lexeme` says that no lexeme is taken for the end of the text, and that the faulty ones are
  those that are no tokens.
* `Contiguous` says that tokens follow each other without a gap.
* `contiguous_lexTokens`, `tokensText_lexTokens` and `exists_lexTokens_eq_concat` are these facts
  about the tokens of a text, by induction on the scan. `pairwise_start_lexTokens` says that their
  starts tell them apart.
-/

namespace Reshape

/-! ## Kinds of lexemes -/

/-- A lexeme is not taken for the end of the text, and has a fault exactly if it is no token. -/
structure Lexeme.Proper (l : Lexeme) : Prop where
  kind_ne_eof : l.kind ≠ .eof
  fault_eq_none : l.fault = none ↔ l.kind ≠ .error

section Kinds

variable (afterDot : Bool) (c : Char) (cs : List Char) (n : Nat)

theorem proper_token {kind : TokenKind} (heof : kind ≠ .eof) (herror : kind ≠ .error) :
    (Lexeme.token kind n).Proper :=
  ⟨heof, fun _ => herror, fun _ => rfl⟩

theorem proper_faulty (fault : LexFault) : (Lexeme.faulty fault n).Proper :=
  ⟨by simp [Lexeme.faulty], by simp [Lexeme.faulty]⟩

theorem proper_withEq {plain joined : TokenKind} (hplain : plain ≠ .eof) (hplain' : plain ≠ .error)
    (hjoined : joined ≠ .eof) (hjoined' : joined ≠ .error) : (withEq plain joined cs).Proper := by
  unfold withEq
  split
  · exact proper_token 1 hjoined hjoined'
  · exact proper_token 0 hplain hplain'

theorem proper_of_mem_operator? : ∀ l ∈ operator? c cs, l.Proper := by
  intro l hl
  unfold operator? at hl
  split at hl <;> simp only [Option.mem_def, Option.some.injEq, reduceCtorEq] at hl <;> subst hl
  all_goals first
    | exact proper_withEq _ (by simp) (by simp) (by simp) (by simp)
    | exact proper_token _ (by simp) (by simp)

theorem proper_stringLexeme : (stringLexeme n cs).Proper := by
  unfold stringLexeme
  split
  · exact proper_token _ (by simp) (by simp)
  · exact proper_faulty _ _

theorem proper_rawStringLexeme : (rawStringLexeme n cs).Proper := by
  unfold rawStringLexeme
  dsimp only
  split
  · exact proper_token _ (by simp) (by simp)
  · exact proper_faulty _ _

theorem proper_charLexeme : (charLexeme n cs).Proper := by
  unfold charLexeme
  dsimp only
  split
  · exact proper_faulty _ _
  · split
    · exact proper_token _ (by simp) (by simp)
    · exact proper_faulty _ _

theorem proper_quoteLexeme : (quoteLexeme cs).Proper := by
  unfold quoteLexeme
  split
  · split
    · exact proper_token _ (by simp) (by simp)
    · exact proper_charLexeme _ 0
  · exact proper_charLexeme _ 0

theorem proper_slashLexeme : (slashLexeme cs).Proper := by
  unfold slashLexeme
  split
  · exact proper_token _ (by simp) (by simp)
  · split
    · exact proper_token _ (by simp) (by simp)
    · exact proper_faulty _ _
  · exact proper_withEq _ (by simp) (by simp) (by simp) (by simp)

theorem proper_decimalLexeme : (decimalLexeme afterDot cs).Proper := by
  have hkind (p : Prop) [Decidable p] :
      (if p then TokenKind.floatLiteral else .intLiteral) ≠ .eof ∧
        (if p then TokenKind.floatLiteral else .intLiteral) ≠ .error := by
    split <;> simp
  exact proper_token _ (hkind _).1 (hkind _).2

theorem proper_numberLexeme : (numberLexeme afterDot c cs).Proper := by
  unfold numberLexeme
  split
  · split
    · exact proper_token _ (by simp) (by simp)
    · exact proper_decimalLexeme afterDot _
  · exact proper_decimalLexeme afterDot _

theorem proper_of_mem_prefixed? : ∀ l ∈ prefixed? c cs, l.Proper := by
  intro l hl
  unfold prefixed? at hl
  split at hl
  · split at hl <;> cases hl
    exact proper_rawStringLexeme _ 0
  · cases hl
    exact proper_stringLexeme _ 1
  · cases hl
    exact proper_charLexeme _ 1
  · split at hl <;> cases hl
    exact proper_rawStringLexeme _ 1
  · cases hl

theorem proper_wordLexeme : (wordLexeme c cs).Proper := by
  unfold wordLexeme
  dsimp only
  split
  · exact proper_token _ (by simp) (by simp)
  · exact proper_token _ (by simp) (by simp)

/-- No lexeme is taken for the end of the text, and one is faulty exactly if it is no token. -/
theorem proper_lexeme : (lexeme afterDot c cs).Proper := by
  unfold lexeme
  split
  · exact proper_token _ (by simp) (by simp)
  split
  · exact proper_slashLexeme cs
  split
  · exact proper_numberLexeme afterDot c cs
  split
  · exact proper_stringLexeme cs 0
  split
  · exact proper_quoteLexeme cs
  split
  · next l hl => exact proper_of_mem_operator? c cs l hl
  split
  · next l hl => exact proper_of_mem_prefixed? c cs l hl
  split
  · exact proper_wordLexeme c cs
  · exact proper_faulty _ _

end Kinds

/-! ## Places of tokens -/

/-- Tokens follow each other without a gap, the first one at the given offset. -/
def Contiguous : Nat → List Token → Prop
  | _, [] => True
  | i, t :: ts => t.start = i ∧ Contiguous t.stop ts

theorem contiguous_scan (afterDot : Bool) (start : Nat) (cs : List Char) :
    Contiguous start ((scan afterDot start cs).map (·.token)) := by
  fun_induction scan afterDot start cs with
  | case1 => exact ⟨rfl, trivial⟩
  | case2 afterDot start c cs l token afterDot' ih => exact ⟨rfl, ih⟩

theorem contiguous_lexTokens (text : String) : Contiguous 0 (lexTokens text) :=
  contiguous_scan false 0 text.toList

/-! ## The text of the tokens -/

theorem tokensText_cons (t : Token) (ts : List Token) :
    tokensText (t :: ts) = t.text ++ tokensText ts := by
  simp [tokensText]

theorem tokensText_append (ts us : List Token) :
    tokensText (ts ++ us) = tokensText ts ++ tokensText us := by
  simp [tokensText]

theorem tokensText_scan (afterDot : Bool) (start : Nat) (cs : List Char) :
    tokensText ((scan afterDot start cs).map (·.token)) = String.ofList cs := by
  fun_induction scan afterDot start cs with
  | case1 => rfl
  | case2 afterDot start c cs l token afterDot' ih =>
    rw [List.map_cons, tokensText_cons, ih]
    show String.ofList (c :: cs.take l.more) ++ String.ofList (cs.drop l.more) = _
    rw [← String.ofList_append, List.cons_append, List.take_append_drop]

/-- The tokens of a text are the text. -/
theorem tokensText_lexTokens (text : String) : tokensText (lexTokens text) = text := by
  rw [lexTokens, scanText, tokensText_scan, String.ofList_toList]

/-! ## Faults -/

theorem fault_eq_none_of_mem_scan {afterDot : Bool} {start : Nat} {cs : List Char} {t : ScannedToken}
    (h : t ∈ scan afterDot start cs) : t.fault = none ↔ t.token.kind ≠ .error := by
  fun_induction scan afterDot start cs with
  | case1 =>
    obtain rfl := List.mem_singleton.1 h
    simp
  | case2 afterDot start c cs l token afterDot' ih =>
    obtain rfl | h := List.mem_cons.1 h
    · exact (proper_lexeme afterDot c cs).fault_eq_none
    · exact ih h

/-- A text has no faults exactly if all its tokens are tokens. -/
theorem lexErrors_eq_nil {text : String} :
    lexErrors text = [] ↔ ∀ t ∈ lexTokens text, t.kind ≠ .error := by
  simp only [lexErrors, lexTokens, List.filterMap_eq_nil_iff, Option.map_eq_none_iff, List.mem_map,
    forall_exists_index, and_imp, forall_apply_eq_imp_iff₂]
  exact forall₂_congr fun t ht => fault_eq_none_of_mem_scan ht

/-! ## The end of the text -/

theorem exists_scan_eq_concat (afterDot : Bool) (start : Nat) (cs : List Char) :
    ∃ ts, (scan afterDot start cs).map (·.token) =
        ts ++ [⟨.eof, start + (String.ofList cs).utf8ByteSize, ""⟩] ∧
      ∀ t ∈ ts, t.kind ≠ .eof := by
  fun_induction scan afterDot start cs with
  | case1 afterDot start => exact ⟨[], by simp, by simp⟩
  | case2 afterDot start c cs l token afterDot' ih =>
    obtain ⟨ts, hts, hne⟩ := ih
    refine ⟨token :: ts, ?_, ?_⟩
    · have hsize : (String.ofList (c :: cs)).utf8ByteSize =
          token.text.utf8ByteSize + (String.ofList (cs.drop l.more)).utf8ByteSize := by
        rw [← String.utf8ByteSize_append]
        show _ = (String.ofList (c :: cs.take l.more) ++ String.ofList (cs.drop l.more)).utf8ByteSize
        rw [← String.ofList_append, List.cons_append, List.take_append_drop]
      rw [List.map_cons, hts, hsize, List.cons_append, Token.stop, Nat.add_assoc]
    · simp only [List.forall_mem_cons]
      exact ⟨(proper_lexeme afterDot c cs).kind_ne_eof, hne⟩

theorem text_ne_empty_of_mem_scan {afterDot : Bool} {start : Nat} {cs : List Char} {t : Token}
    (h : t ∈ (scan afterDot start cs).map (·.token)) (hne : t.kind ≠ .eof) : t.text ≠ "" := by
  fun_induction scan afterDot start cs with
  | case1 =>
    obtain rfl := List.mem_singleton.1 h
    exact absurd rfl hne
  | case2 afterDot start c cs l token afterDot' ih =>
    obtain rfl | h := List.mem_cons.1 h
    · simp [token]
    · exact ih h

/-- All tokens but the last one have a text. -/
theorem text_ne_empty_of_mem_lexTokens {text : String} {t : Token} (h : t ∈ lexTokens text)
    (hne : t.kind ≠ .eof) : t.text ≠ "" :=
  text_ne_empty_of_mem_scan h hne

/-- The tokens of a text end with an empty one at its end, the only one of its kind. -/
theorem exists_lexTokens_eq_concat (text : String) :
    ∃ ts, lexTokens text = ts ++ [⟨.eof, text.utf8ByteSize, ""⟩] ∧ ∀ t ∈ ts, t.kind ≠ .eof := by
  obtain ⟨ts, hts, hne⟩ := exists_scan_eq_concat false 0 text.toList
  rw [String.ofList_toList, Nat.zero_add] at hts
  exact ⟨ts, hts, hne⟩

/-! ## The order of tokens -/

theorem contiguous_append {i : Nat} {ts us : List Token} : Contiguous i (ts ++ us) ↔
    Contiguous i ts ∧ Contiguous (i + (tokensText ts).utf8ByteSize) us := by
  induction ts generalizing i with
  | nil => simp [Contiguous, tokensText]
  | cons t ts ih =>
    rw [List.cons_append, Contiguous, Contiguous, ih, and_assoc, tokensText_cons,
      String.utf8ByteSize_append, Token.stop, Nat.add_assoc]
    exact and_congr_right fun hstart => by rw [hstart]

/-- Tokens without a gap lie between the start of the first and the end of their text. -/
theorem bounds_of_contiguous {i : Nat} {ts : List Token} (h : Contiguous i ts) {t : Token}
    (ht : t ∈ ts) : i ≤ t.start ∧ t.stop ≤ i + (tokensText ts).utf8ByteSize := by
  induction ts generalizing i with
  | nil => cases ht
  | cons u ts ih =>
    obtain ⟨rfl, hts⟩ := h
    rw [tokensText_cons, String.utf8ByteSize_append]
    obtain rfl | ht := List.mem_cons.1 ht
    · exact ⟨Nat.le_refl _, by rw [Token.stop]; omega⟩
    · have hbounds := ih hts ht
      rw [Token.stop] at hbounds
      omega

theorem pairwise_of_contiguous {i : Nat} {ts : List Token} (h : Contiguous i ts) :
    ts.Pairwise (·.stop ≤ ·.start) := by
  induction ts generalizing i with
  | nil => exact .nil
  | cons t ts ih => exact .cons (fun u hu => (bounds_of_contiguous h.2 hu).1) (ih h.2)

/-- The tokens of a text start one behind the other. -/
theorem pairwise_start_lexTokens (text : String) : (lexTokens text).Pairwise (·.start < ·.start) := by
  obtain ⟨ts, hts, hne⟩ := exists_lexTokens_eq_concat text
  have hpairwise := pairwise_of_contiguous (contiguous_lexTokens text)
  have hlt : ∀ t ∈ ts, t.start < t.stop := fun t ht => by
    have htext := text_ne_empty_of_mem_lexTokens (hts ▸ List.mem_append_left _ ht) (hne t ht)
    have hsize : t.text.utf8ByteSize ≠ 0 := fun hzero => htext (String.utf8ByteSize_eq_zero_iff.1 hzero)
    rw [Token.stop]
    omega
  rw [hts, List.pairwise_append] at hpairwise ⊢
  obtain ⟨hfirst, -, hlast⟩ := hpairwise
  refine ⟨hfirst.imp_of_mem fun ht _ hle => Nat.lt_of_lt_of_le (hlt _ ht) hle, List.pairwise_singleton _ _,
    fun t ht u hu => Nat.lt_of_lt_of_le (hlt t ht) (hlast t ht u hu)⟩

end Reshape
