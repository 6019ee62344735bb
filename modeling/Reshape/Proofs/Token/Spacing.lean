import Reshape.Proofs.Token.Rereading

/-!
# Blanks and comments between tokens

How the words of a text are read, its tokens without the blanks and comments, does not depend on
what stands between them. Two words with something between them may have anything else between them
instead, and two that touch may be parted.

* `words` are the words of a text, `pieces` says besides which ones are parted from the next one.
* A `Gap` is made of blanks and comments. `laidOut` writes words with gaps behind them, and
  `Separated` says which gap may stand behind a word.
* `readsAs_gap` says that gaps are skipped, `readsAs_laidOut` goes through a text word by word.
* `words_respaced` is the result. Single blanks between all words are the simplest case.
-/

namespace Reshape

/-! ## Words -/

/-- Whether a token is a word: neither a blank or comment nor the end of the text. -/
def Token.isWord (t : Token) : Bool := !t.isTrivia && t.kind != .eof

/-- The words among tokens, each as its kind and text. -/
def wordsOf (ts : List Token) : List (TokenKind × String) :=
  (ts.filter (·.isWord)).map fun t => (t.kind, t.text)

theorem wordsOf_cons (t : Token) (ts : List Token) :
    wordsOf (t :: ts) = if t.isWord then (t.kind, t.text) :: wordsOf ts else wordsOf ts := by
  rw [wordsOf, List.filter_cons]
  split <;> rfl

/-- The words of a text. -/
def words (text : String) : List (TokenKind × String) := wordsOf (lexTokens text)

/-- The words of a text with single blanks between them. -/
def singleSpaced (text : String) : String := " ".intercalate ((words text).map (·.2))

/-- A word, and whether blanks or comments part it from the next one. -/
structure Piece where
  word : TokenKind × String
  parted : Bool
deriving DecidableEq

/-- The words among tokens, each with what stands behind it. -/
def pieces : List Token → List Piece
  | [] => []
  | t :: ts =>
    if t.isWord then ⟨(t.kind, t.text), ts.head?.any (·.isTrivia) && !(pieces ts).isEmpty⟩ :: pieces ts
    else pieces ts

theorem map_word_pieces (ts : List Token) : (pieces ts).map (·.word) = wordsOf ts := by
  induction ts with
  | nil => rfl
  | cons t ts ih =>
    rw [pieces, wordsOf_cons]
    split
    · rw [List.map_cons, ih]
    · exact ih

/-- Nothing is parted from what stands behind the last word. -/
theorem parted_getLast?_pieces (ts : List Token) : ∀ p ∈ (pieces ts).getLast?, p.parted = false := by
  induction ts with
  | nil => simp [pieces]
  | cons t ts ih =>
    rw [pieces]
    split
    · cases hts : pieces ts with
      | nil => simp
      | cons p ps => simpa [hts] using ih
    · exact ih

/-! ## Gaps -/

/-- A blank, a line comment with its line feed, or a block comment. -/
inductive Trivium
  | blank (c : Char) (isBlank_eq : isBlank c = true)
  | line (body : List Char) (not_mem : '\n' ∉ body)
  | block (body : List Char) (closed : commentEnd? 0 body = some body.length)

/-- The characters of a blank or comment. -/
def Trivium.chars : Trivium → List Char
  | .blank c _ => [c]
  | .line body _ => '/' :: '/' :: (body ++ ['\n'])
  | .block body _ => '/' :: '*' :: body

/-- Whether it is a comment. -/
def Trivium.isComment : Trivium → Bool
  | .blank .. => false
  | _ => true

/-- What may stand between two words. -/
abbrev Gap := List Trivium

/-- The characters of a gap. -/
def Gap.chars (g : Gap) : List Char := g.flatMap Trivium.chars

/-- A gap may stand behind a word: it keeps apart what is parted, and does not make a comment of a
slash. -/
structure Separated (p : Piece) (g : Gap) : Prop where
  parted : g = [] → p.parted = false
  slash : p.word.1 = .slash → ∀ t ∈ g.head?, t.isComment = false

instance (p : Piece) (g : Gap) : Decidable (Separated p g) :=
  decidable_of_iff ((g.isEmpty = true → p.parted = false) ∧
      (p.word.1 = .slash → ∀ t ∈ g.head?, t.isComment = false))
    ⟨fun h => ⟨fun hg => h.1 (List.isEmpty_iff.2 hg), h.2⟩,
      fun h => ⟨fun hg => h.parted (List.isEmpty_iff.1 hg), h.slash⟩⟩

/-- The characters of words with gaps behind them. -/
def laidOut : List (Piece × Gap) → List Char
  | [] => []
  | (p, g) :: ps => p.word.2.toList ++ (g.chars ++ laidOut ps)

/-- The text of a gap and of words with gaps behind them. -/
def respaced (lead : Gap) (ps : List (Piece × Gap)) : String :=
  String.ofList (lead.chars ++ laidOut ps)

variable {afterDot : Bool} {c : Char} {cs rest : List Char} {g : Gap} {ps : List (Piece × Gap)}

/-! ## Reading words off characters -/

/-- The words that are read off characters. -/
def readsAs (afterDot : Bool) (cs : List Char) : List (TokenKind × String) :=
  wordsOf ((scan afterDot 0 cs).map (·.token))

/-- Where a text starts makes no difference to its words. -/
theorem wordsOf_scan (afterDot : Bool) (i : Nat) (cs : List Char) :
    wordsOf ((scan afterDot i cs).map (·.token)) = readsAs afterDot cs := by
  suffices ∀ j, wordsOf ((scan afterDot i cs).map (·.token)) =
      wordsOf ((scan afterDot j cs).map (·.token)) from this 0
  fun_induction scan afterDot i cs with
  | case1 => intro j; simp [scan, wordsOf, Token.isWord]
  | case2 afterDot i c cs l token afterDot' ih =>
    intro j
    rw [scan, List.map_cons, List.map_cons, wordsOf_cons, wordsOf_cons]
    exact congrArg (fun ws => if token.isWord then (token.kind, token.text) :: ws else ws) (ih _)

theorem readsAs_cons_of_isTrivia (h : (lexeme afterDot c cs).kind.isTrivia = true) :
    readsAs afterDot (c :: cs) = readsAs afterDot (cs.drop (lexeme afterDot c cs).more) := by
  simp only [readsAs, scan, Token.isTrivia, h, if_true, List.map_cons, wordsOf_cons, Token.isWord,
    Bool.not_true, Bool.false_and, Bool.false_eq_true, if_false]
  exact wordsOf_scan ..

theorem readsAs_cons (h : (lexeme afterDot c cs).kind.isTrivia = false) :
    readsAs afterDot (c :: cs) =
      ((lexeme afterDot c cs).kind, String.ofList (c :: cs.take (lexeme afterDot c cs).more)) ::
        readsAs ((lexeme afterDot c cs).kind == .dot) (cs.drop (lexeme afterDot c cs).more) := by
  have hproper : ((lexeme afterDot c cs).kind != .eof) = true :=
    bne_iff_ne.2 (proper_lexeme afterDot c cs).kind_ne_eof
  simp only [readsAs, scan, Token.isTrivia, h, Bool.false_eq_true, if_false, List.map_cons,
    wordsOf_cons, Token.isWord, Bool.not_false, Bool.true_and, hproper, if_true]
  exact congrArg _ (wordsOf_scan ..)

/-! ## Gaps are skipped -/

theorem readsAs_drop_blanks (afterDot : Bool) (cs : List Char) :
    readsAs afterDot (cs.drop (runLength isBlank cs)) = readsAs afterDot cs := by
  cases cs with
  | nil => rfl
  | cons c cs =>
    cases hc : isBlank c with
    | true =>
      have hl : lexeme afterDot c cs = .token .whitespace (runLength isBlank cs) :=
        lexeme_of_isBlank hc
      rw [runLength_cons_of_pos hc, List.drop_succ_cons, readsAs_cons_of_isTrivia (by rw [hl]; rfl), hl]
      rfl
    | false => rw [runLength_cons_of_neg hc, List.drop_zero]

theorem readsAs_blank (afterDot : Bool) (cs : List Char) (hc : isBlank c = true) :
    readsAs afterDot (c :: cs) = readsAs afterDot cs := by
  rw [← readsAs_drop_blanks afterDot (c :: cs), runLength_cons_of_pos hc, List.drop_succ_cons,
    readsAs_drop_blanks]

/-- A comment that ends ends there whatever follows. -/
theorem commentEnd?_append {depth n : Nat} (h : commentEnd? depth cs = some n) :
    commentEnd? depth (cs ++ rest) = some n := by
  fun_induction commentEnd? depth cs generalizing n with
  | case1 => cases h
  | case2 depth cs ih =>
    obtain ⟨m, hm, rfl⟩ := Option.map_eq_some_iff.1 h
    simp [commentEnd?, ih hm]
  | case3 cs => exact h
  | case4 depth cs ih =>
    obtain ⟨m, hm, rfl⟩ := Option.map_eq_some_iff.1 h
    simp [commentEnd?, ih hm]
  | case5 depth c cs hopen hclose hclose' ih =>
    obtain ⟨m, hm, rfl⟩ := Option.map_eq_some_iff.1 h
    cases cs with
    | nil => cases hm
    | cons d ds =>
      rw [List.cons_append, List.cons_append, commentEnd?, ← List.cons_append, ih hm]
      · rfl
      · rintro es hc heq
        cases heq
        exact hopen ds hc rfl
      · rintro es hd hc heq
        cases heq
        exact hclose ds hd hc rfl
      · rintro k es hd hc heq
        cases heq
        exact hclose' k ds hd hc rfl

theorem readsAs_slash {n : Nat} (h : slashLexeme cs = .token .comment n) :
    readsAs afterDot ('/' :: cs) = readsAs afterDot (cs.drop n) := by
  have hl : lexeme afterDot '/' cs = .token .comment n := (lexeme_slash afterDot cs).trans h
  rw [readsAs_cons_of_isTrivia (by rw [hl]; rfl), hl]
  rfl

theorem readsAs_trivium (afterDot : Bool) (t : Trivium) (rest : List Char) :
    readsAs afterDot (t.chars ++ rest) = readsAs afterDot rest := by
  cases t with
  | blank c hc => exact readsAs_blank afterDot rest hc
  | line body hbody =>
    have hrun : runLength (· != '\n') (body ++ '\n' :: rest) = body.length := by
      rw [runLength, List.takeWhile_append_of_pos]
      · simp
      · intro d hd
        exact bne_iff_ne.2 fun heq => hbody (heq ▸ hd)
    have hl : slashLexeme ('/' :: (body ++ '\n' :: rest)) = .token .comment (1 + body.length) := by
      rw [slashLexeme, hrun]
    rw [Trivium.chars, List.cons_append, List.cons_append, List.append_assoc, List.singleton_append,
      readsAs_slash hl, Nat.add_comm, List.drop_succ_cons, List.drop_left,
      readsAs_blank _ _ (by decide)]
  | block body hbody =>
    have hl : slashLexeme ('*' :: (body ++ rest)) = .token .comment (1 + body.length) := by
      rw [slashLexeme, commentEnd?_append hbody]
    rw [Trivium.chars, List.cons_append, List.cons_append, readsAs_slash hl, Nat.add_comm,
      List.drop_succ_cons, List.drop_left]

/-- Blanks and comments are skipped. -/
theorem readsAs_gap (afterDot : Bool) (g : Gap) (rest : List Char) :
    readsAs afterDot (g.chars ++ rest) = readsAs afterDot rest := by
  induction g with
  | nil => rfl
  | cons t g ih =>
    rw [Gap.chars, List.flatMap_cons, List.append_assoc, readsAs_trivium]
    exact ih

/-! ## Words with other gaps between them -/

theorem Trivium.exists_chars_eq (t : Trivium) :
    ∃ d ds, t.chars = d :: ds ∧ isBreak d = true ∧ (t.isComment = false → d ≠ '/') := by
  cases t with
  | blank c hc =>
    refine ⟨c, [], rfl, by simp [isBreak, hc], fun _ heq => ?_⟩
    rw [heq] at hc
    revert hc
    decide
  | line body _ => exact ⟨'/', _, rfl, rfl, by simp [isComment]⟩
  | block body _ => exact ⟨'/', _, rfl, rfl, by simp [isComment]⟩

/-- A text starts like another one up to a blank or comment, or up to its end. -/
def StartsLike (cs new : List Char) : Prop :=
  ∃ k rest, new = cs.take k ++ rest ∧ Breaks rest ∧ (cs.take k = [] → rest = [])

/-- A word is read as before if there is a gap behind it, or if what stands behind it starts as
before. -/
theorem lexeme_laidOut {l : Lexeme} {new : List Char} (hl : lexeme afterDot c cs = l)
    (hfault : l.fault = none) (hkind : l.kind.isTrivia = false)
    (hslash : l.kind = .slash → ∀ t ∈ g.head?, t.isComment = false)
    (hnew : g = [] → StartsLike (cs.drop l.more) new) :
    l.more ≤ cs.length ∧ lexeme afterDot c (cs.take l.more ++ (g.chars ++ new)) = l ∧
      StartsLike (c :: cs) (c :: (cs.take l.more ++ (g.chars ++ new))) := by
  obtain ⟨hle, heq⟩ := lexeme_take hl hfault hkind
  refine ⟨hle, ?_⟩
  cases g with
  | nil =>
    obtain ⟨k, rest, hk, hrest, hnil⟩ := hnew rfl
    have htake : cs.take l.more ++ (Gap.chars [] ++ new) = cs.take (l.more + k) ++ rest := by
      rw [List.take_add, List.append_assoc, ← hk]
      rfl
    rw [htake]
    refine ⟨heq hrest (by omega) fun _ hempty => ?_, l.more + k + 1, rest, rfl, hrest, nofun⟩
    rw [List.take_add] at hempty
    rw [hnil (List.append_eq_nil_iff.1 hempty).2]
    nofun
  | cons t g =>
    obtain ⟨d, ds, ht, hd, hcomment⟩ := t.exists_chars_eq
    have hchars : Gap.chars (t :: g) ++ new = d :: (ds ++ (Gap.chars g ++ new)) := by
      rw [Gap.chars, List.flatMap_cons, ht, List.append_assoc]
      rfl
    rw [hchars]
    have hrest : Breaks (d :: (ds ++ (Gap.chars g ++ new))) := by
      rintro e ⟨⟩
      exact hd
    refine ⟨heq hrest (Nat.le_refl _) fun hkind _ hhead => ?_, l.more + 1, _, rfl, hrest, nofun⟩
    exact hcomment (hslash hkind t rfl) (Option.some.inj hhead)

theorem readsAs_laidOut {i : Nat}
    (herror : ∀ t ∈ (scan afterDot i cs).map (·.token), t.kind ≠ .error)
    (hps : ps.map (·.1) = pieces ((scan afterDot i cs).map (·.token)))
    (hsep : ∀ x ∈ ps, Separated x.1 x.2) :
    readsAs afterDot (laidOut ps) = readsAs afterDot cs ∧
      ((((scan afterDot i cs).map (·.token)).head?.any (·.isTrivia) && !ps.isEmpty) = false →
        StartsLike cs (laidOut ps)) := by
  fun_induction scan afterDot i cs generalizing ps with
  | case1 afterDot i =>
    obtain rfl : ps = [] := by simpa [pieces, Token.isWord, Token.isTrivia] using hps
    exact ⟨rfl, fun _ => ⟨0, [], rfl, breaks_nil, fun _ => rfl⟩⟩
  | case2 afterDot i c cs l token afterDot' =>
    rename_i ih
    rw [List.map_cons, List.forall_mem_cons] at herror
    obtain ⟨hkind, herror⟩ := herror
    have hproper := proper_lexeme afterDot c cs
    rw [List.map_cons] at hps ⊢
    cases htrivia : l.kind.isTrivia with
    | true =>
      -- What stood between the words before is skipped.
      have hdot : afterDot' = afterDot := by simp [afterDot', token, Token.isTrivia, htrivia]
      have hword : token.isWord = false := by simp [token, Token.isWord, Token.isTrivia, htrivia]
      rw [pieces, if_neg (by simp [hword])] at hps
      rw [hdot] at ih herror hps
      refine ⟨(ih herror hps hsep).1.trans (readsAs_cons_of_isTrivia htrivia).symm, fun hnone => ?_⟩
      cases ps with
      | nil => exact ⟨0, [], rfl, breaks_nil, fun _ => rfl⟩
      | cons x ps => simp [token, Token.isTrivia, htrivia] at hnone
    | false =>
      have hdot : afterDot' = (l.kind == .dot) := by simp [afterDot', token, Token.isTrivia, htrivia]
      have hword : token.isWord = true := by
        simp [token, Token.isWord, Token.isTrivia, htrivia, l, hproper.kind_ne_eof]
      rw [pieces, if_pos hword] at hps
      rw [hdot] at ih herror hps
      obtain ⟨⟨p, g⟩, behind, rfl, hp, hbehind⟩ := List.map_eq_cons_iff.1 hps
      rw [List.forall_mem_cons] at hsep
      obtain ⟨⟨hparted, hslash⟩, hsep⟩ := hsep
      obtain ⟨hreads, hlike⟩ := ih herror hbehind hsep
      dsimp only at hp
      rw [hp, ← hbehind, List.isEmpty_map] at hparted
      rw [hp] at hslash
      have hchars : laidOut ((p, g) :: behind) =
          c :: (cs.take l.more ++ (g.chars ++ laidOut behind)) := by
        rw [laidOut, hp]
        simp [token]
      obtain ⟨hle, hlexeme, hfirst⟩ := lexeme_laidOut (show lexeme _ c cs = l from rfl)
        (hproper.fault_eq_none.2 hkind) htrivia hslash fun hempty => hlike (hparted hempty)
      have hlength : (cs.take l.more).length = l.more := by rw [List.length_take]; omega
      have htake : (cs.take l.more ++ (g.chars ++ laidOut behind)).take l.more = cs.take l.more :=
        List.take_left' hlength
      have hdrop : (cs.take l.more ++ (g.chars ++ laidOut behind)).drop l.more =
          g.chars ++ laidOut behind := List.drop_left' hlength
      rw [hchars]
      refine ⟨?_, fun _ => hfirst⟩
      rw [readsAs_cons (by rw [hlexeme]; exact htrivia), hlexeme, htake, hdrop, readsAs_gap, hreads]
      exact (readsAs_cons htrivia).symm

/-! ## The whole text -/

/-- Words with a blank behind each but the last one. -/
def singly : List Piece → List (Piece × Gap)
  | [] => []
  | [p] => [(p, [])]
  | p :: q :: ps => (p, [.blank ' ' rfl]) :: singly (q :: ps)

theorem map_fst_singly (ps : List Piece) : (singly ps).map (·.1) = ps := by
  fun_induction singly ps with
  | case1 => rfl
  | case2 p => rfl
  | case3 p q ps ih => rw [List.map_cons, ih]

theorem separated_of_mem_singly {ps : List Piece} (hlast : ∀ p ∈ ps.getLast?, p.parted = false) :
    ∀ x ∈ singly ps, Separated x.1 x.2 := by
  fun_induction singly ps with
  | case1 => simp
  | case2 p => simpa using ⟨fun _ => hlast p rfl, fun _ => nofun⟩
  | case3 p q ps ih =>
    rw [List.forall_mem_cons]
    refine ⟨⟨nofun, ?_⟩, ih (by simpa using hlast)⟩
    rintro - t ⟨⟩
    rfl

theorem laidOut_singly (ps : List Piece) :
    laidOut (singly ps) = (" ".intercalate (ps.map (·.word.2))).toList := by
  rw [String.toList_intercalate]
  fun_induction singly ps with
  | case1 => rfl
  | case2 p => simp [laidOut, Gap.chars]
  | case3 p q ps ih =>
    rw [laidOut, ih]
    simp [Gap.chars, Trivium.chars, List.intercalate]

theorem lexErrors_eq_nil_iff_words {text : String} :
    lexErrors text = [] ↔ ∀ w ∈ words text, w.1 ≠ .error := by
  rw [lexErrors_eq_nil]
  constructor
  · intro h w hw
    simp only [words, wordsOf, List.mem_map, List.mem_filter] at hw
    obtain ⟨t, ⟨ht, -⟩, rfl⟩ := hw
    exact h t ht
  · intro h t ht herror
    refine h (t.kind, t.text) ?_ herror
    simp only [words, wordsOf, List.mem_map, List.mem_filter]
    exact ⟨t, ⟨ht, by simp [Token.isWord, Token.isTrivia, herror, TokenKind.isTrivia]⟩, rfl⟩

theorem words_eq_readsAs (text : String) : words text = readsAs false text.toList := rfl

/-- **Blanks and comments between words make no difference to them.** Take a text without faults.
With single blanks between its words it has the same words, without faults. The same holds with any
gap in front of them and any gaps behind them, if something stands still between words that were
parted and no slash is followed by a comment without a blank. -/
theorem words_respaced {text : String} (h : lexErrors text = []) :
    (lexErrors (singleSpaced text) = [] ∧ words (singleSpaced text) = words text) ∧
      ∀ lead ps, ps.map (·.1) = pieces (lexTokens text) → (∀ x ∈ ps, Separated x.1 x.2) →
        lexErrors (respaced lead ps) = [] ∧ words (respaced lead ps) = words text := by
  have hrespaced (lead : Gap) (ps : List (Piece × Gap))
      (hps : ps.map (·.1) = pieces (lexTokens text)) (hsep : ∀ x ∈ ps, Separated x.1 x.2) :
      lexErrors (respaced lead ps) = [] ∧ words (respaced lead ps) = words text := by
    have hwords : words (respaced lead ps) = words text := by
      rw [words_eq_readsAs, respaced, String.toList_ofList, readsAs_gap]
      exact (readsAs_laidOut (lexErrors_eq_nil.1 h) hps hsep).1
    refine ⟨?_, hwords⟩
    rw [lexErrors_eq_nil_iff_words, hwords]
    exact lexErrors_eq_nil_iff_words.1 h
  have hsingle : singleSpaced text = respaced [] (singly (pieces (lexTokens text))) := by
    rw [respaced, laidOut_singly, singleSpaced, words, ← map_word_pieces, List.map_map]
    exact String.ofList_toList.symm
  refine ⟨?_, hrespaced⟩
  rw [hsingle]
  exact hrespaced [] _ (map_fst_singly _) (separated_of_mem_singly (parted_getLast?_pieces _))

set_option maxRecDepth 100000 in
/-- A number behind a dot, something like a raw string, a lifetime, a character, something like an
exponent and a slash, with a comment and blanks put in and taken out. -/
theorem words_respaced_lookalikes :
    ∃ text lead ps, text = "t.0.1..=r# //c\n\"\":'a.'b'1e+x/y" ∧ lexErrors text = [] ∧
      ps.map (·.1) = pieces (lexTokens text) ∧ (∀ x ∈ ps, Separated x.1 x.2) ∧
      respaced lead ps = " t.0.1/*d*/..=r#\t\"\":'a .'b'1e+x/ y" ∧
      (lexErrors (singleSpaced text) = [] ∧ words (singleSpaced text) = words text) ∧
      lexErrors (respaced lead ps) = [] ∧ words (respaced lead ps) = words text := by
  let text := "t.0.1..=r# //c\n\"\":'a.'b'1e+x/y"
  let space : Gap := [.blank ' ' rfl]
  let gaps : List Gap := [[], [], [], [], [.block "d*/".toList (by decide)], [], [],
    [.blank '\t' rfl], [], [], space, [], [], [], [], [], space, []]
  let ps := (pieces (lexTokens text)).zip gaps
  have herrors : lexErrors text = [] := by decide +kernel
  have hps : ps.map (·.1) = pieces (lexTokens text) := by decide +kernel
  have hsep : ∀ x ∈ ps, Separated x.1 x.2 := by decide +kernel
  have hwords := words_respaced herrors
  exact ⟨text, space, ps, rfl, herrors, hps, hsep, by decide +kernel, hwords.1,
    hwords.2 space ps hps hsep⟩

end Reshape
