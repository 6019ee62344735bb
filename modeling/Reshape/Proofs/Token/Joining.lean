import Reshape.Proofs.Token.Comments
import Reshape.Proofs.Token.Indices

/-!
# Texts joined together

What a text shows are its words and comments. Where a text without faults stands before another one that
breaks it off, it shows the same as by itself, and what follows shows the same as behind its last word.
The proviso is a comment that runs to the end of its line: it must not end the text.

* `shown` is what a text shows; `words` and `comments` are its two parts.
* `shows_append` joins two texts, by induction on the scan of the first one.
* `Leads` is for texts that show the same whatever follows. `Leads.append` puts them together.
* `Joinable` texts are those that can be joined. `Joinable.leads_blank` and `Joinable.leads_mark` are
  the two ways to go on behind one.
-/

namespace Reshape

/-! ## Words and comments -/

/-- Whether a token is a word or a comment. -/
def Token.isShown (t : Token) : Bool := t.kind != .whitespace && t.kind != .eof

/-- The words and comments among tokens, each as its kind and text. -/
def shownOf (ts : List Token) : List (TokenKind × String) :=
  (ts.filter (·.isShown)).map fun t => (t.kind, t.text)

theorem shownOf_cons (t : Token) (ts : List Token) :
    shownOf (t :: ts) = if t.isShown then (t.kind, t.text) :: shownOf ts else shownOf ts := by
  rw [shownOf, List.filter_cons]
  split <;> rfl

/-- The words and comments of a text. -/
def shown (text : String) : List (TokenKind × String) := shownOf (lexTokens text)

/-- The comments of a text. -/
def comments (text : String) : List String :=
  ((lexTokens text).filter (·.kind == .comment)).map (·.text)

/-- What is shown is words and comments. -/
theorem wordsOf_eq_filter (ts : List Token) :
    wordsOf ts = (shownOf ts).filter (!·.1.isTrivia) := by
  rw [wordsOf, shownOf, List.filter_map, List.filter_filter]
  congr 1
  refine List.filter_congr fun t _ => ?_
  by_cases hspace : t.kind = .whitespace
  · simp [Token.isWord, Token.isShown, Token.isTrivia, hspace, TokenKind.isTrivia]
  · simp [Token.isWord, Token.isShown, Token.isTrivia, bne_iff_ne.2 hspace]

theorem words_eq_filter (text : String) : words text = (shown text).filter (!·.1.isTrivia) :=
  wordsOf_eq_filter _

theorem comments_eq_filter (text : String) :
    comments text = ((shown text).filter (·.1 == .comment)).map (·.2) := by
  rw [comments, shown, shownOf, List.filter_map, List.filter_filter, List.map_map]
  refine congrArg (List.map _) (List.filter_congr fun t _ => ?_)
  by_cases hcomment : t.kind = .comment <;> simp [Token.isShown, hcomment]

variable {afterDot : Bool} {c : Char} {cs ds rest : List Char} {l : Lexeme} {i : Nat}
  {ws vs : List (TokenKind × String)} {text : String}

/-! ## What characters show -/

/-- The words and comments that are read off characters. -/
def shows (afterDot : Bool) (cs : List Char) : List (TokenKind × String) :=
  shownOf ((scan afterDot 0 cs).map (·.token))

theorem shown_eq_shows (text : String) : shown text = shows false text.toList := rfl

/-- Where a text starts makes no difference to what it shows. -/
theorem shownOf_scan (afterDot : Bool) (i : Nat) (cs : List Char) :
    shownOf ((scan afterDot i cs).map (·.token)) = shows afterDot cs := by
  suffices ∀ j, shownOf ((scan afterDot i cs).map (·.token)) =
      shownOf ((scan afterDot j cs).map (·.token)) from this 0
  fun_induction scan afterDot i cs with
  | case1 => intro j; simp [scan, shownOf, Token.isShown]
  | case2 afterDot i c cs l token afterDot' ih =>
    intro j
    rw [scan, List.map_cons, List.map_cons, shownOf_cons, shownOf_cons]
    exact congrArg (fun ws => if token.isShown then (token.kind, token.text) :: ws else ws) (ih _)

theorem shows_nil (afterDot : Bool) : shows afterDot [] = [] := by
  simp [shows, scan, shownOf, Token.isShown]

/-- A word or comment that is read first is shown first. -/
theorem shows_cons (h : (lexeme afterDot c cs).kind ≠ .whitespace) :
    shows afterDot (c :: cs) =
      ((lexeme afterDot c cs).kind, String.ofList (c :: cs.take (lexeme afterDot c cs).more)) ::
        shows (if (lexeme afterDot c cs).kind.isTrivia then afterDot
          else (lexeme afterDot c cs).kind == .dot) (cs.drop (lexeme afterDot c cs).more) := by
  have hproper : ((lexeme afterDot c cs).kind != .eof) = true :=
    bne_iff_ne.2 (proper_lexeme afterDot c cs).kind_ne_eof
  simp only [shows, scan, List.map_cons, shownOf_cons, Token.isShown, bne_iff_ne.2 h, hproper,
    Bool.and_self, if_true, Token.isTrivia]
  exact congrArg _ (shownOf_scan ..)

/-- A blank that is read first is skipped. -/
theorem shows_of_whitespace (h : (lexeme afterDot c cs).kind = .whitespace) :
    shows afterDot (c :: cs) = shows afterDot (cs.drop (lexeme afterDot c cs).more) := by
  simp only [shows, scan, List.map_cons, shownOf_cons, Token.isShown, h, bne_self_eq_false,
    Bool.false_and, Bool.false_eq_true, if_false, Token.isTrivia, TokenKind.isTrivia, if_true]
  exact shownOf_scan ..

theorem shows_drop_blanks (afterDot : Bool) (cs : List Char) :
    shows afterDot (cs.drop (runLength isBlank cs)) = shows afterDot cs := by
  cases cs with
  | nil => rfl
  | cons c cs =>
    cases hc : isBlank c with
    | true =>
      have hl : lexeme afterDot c cs = .token .whitespace (runLength isBlank cs) :=
        lexeme_of_isBlank hc
      rw [runLength_cons_of_pos hc, List.drop_succ_cons, shows_of_whitespace (by rw [hl]; rfl), hl]
      rfl
    | false => rw [runLength_cons_of_neg hc, List.drop_zero]

theorem shows_blank (afterDot : Bool) (cs : List Char) (hc : isBlank c = true) :
    shows afterDot (c :: cs) = shows afterDot cs := by
  rw [← shows_drop_blanks afterDot (c :: cs), runLength_cons_of_pos hc, List.drop_succ_cons,
    shows_drop_blanks]

theorem shows_blanks (afterDot : Bool) (h : ∀ d ∈ cs, isBlank d = true) (rest : List Char) :
    shows afterDot (cs ++ rest) = shows afterDot rest := by
  induction cs with
  | nil => rfl
  | cons c cs ih =>
    rw [List.forall_mem_cons] at h
    rw [List.cons_append, shows_blank _ _ h.1, ih h.2]

/-! ## A text before another one -/

/-- A word or comment is read as before if what follows the text breaks it off, unless the text ends with
a comment that runs to the end of its line. -/
theorem lexeme_append (hl : lexeme afterDot c cs = l) (hfault : l.fault = none)
    (hspace : l.kind ≠ .whitespace)
    (hline : l.kind = .comment → cs.head? = some '/' → cs.drop l.more ≠ []) (hrest : Parts rest) :
    l.more ≤ cs.length ∧ lexeme afterDot c (cs ++ rest) = l := by
  cases htrivia : l.kind.isTrivia with
  | false =>
    obtain ⟨hle, htake⟩ := lexeme_take hl hfault htrivia
    have hread := htake hrest.breaks hle fun _ _ => hrest.head?_ne
    rw [List.take_length] at hread
    exact ⟨hle, hread⟩
  | true =>
    obtain ⟨-, hblank⟩ | ⟨ds, rfl, rfl, hcomment⟩ | ⟨ds, n, rfl, rfl, hn, hcomment⟩ :=
      lexeme_of_isTrivia (hl.symm ▸ htrivia)
    · exact absurd (by rw [← hl, hblank]; rfl) hspace
    · rw [hl] at hcomment
      subst hcomment
      have hlt : runLength (· != '\n') ds < ds.length := by
        have hshort := hline rfl rfl
        rw [Lexeme.token, Nat.add_comm, List.drop_succ_cons, Ne, List.drop_eq_nil_iff] at hshort
        omega
      have hrun : runLength (· != '\n') (ds ++ rest) = runLength (· != '\n') ds := by
        rw [runLength, runLength, List.takeWhile_append, if_neg (by rw [← runLength]; omega)]
      refine ⟨by simp only [Lexeme.token, List.length_cons]; omega, ?_⟩
      rw [List.cons_append, lexeme_slash, slashLexeme, hrun]
    · rw [hl] at hcomment
      subst hcomment
      refine ⟨by simpa [Lexeme.token, Nat.add_comm] using length_le_of_commentEnd? hn, ?_⟩
      rw [List.cons_append, lexeme_slash, slashLexeme, commentEnd?_append hn]

/-- Where a word is read, one is read if less follows. -/
theorem isTrivia_lexeme_of_prefix {b : Bool} (h : (lexeme afterDot c (cs ++ ds)).kind.isTrivia = false) :
    (lexeme b c cs).kind.isTrivia = false := by
  by_contra htrivia
  rw [Bool.not_eq_false] at htrivia
  obtain ⟨hc, -⟩ | ⟨es, rfl, rfl, -⟩ | ⟨es, n, rfl, rfl, hn, -⟩ := lexeme_of_isTrivia htrivia
  · rw [lexeme_of_isBlank hc] at h
    cases h
  · rw [lexeme_slash] at h
    cases h
  · rw [lexeme_slash, List.cons_append, slashLexeme, commentEnd?_append hn] at h
    cases h

/-- No comment that runs to the end of its line stands before the last token, which is the end of the
text. -/
def Closed (ts : List Token) : Prop := ∀ t ∈ ts.dropLast.getLast?, t.isLineComment = false

instance (ts : List Token) : Decidable (Closed ts) :=
  inferInstanceAs (Decidable (∀ t ∈ ts.dropLast.getLast?, t.isLineComment = false))

theorem Closed.tail {t : Token} {ts : List Token} (h : Closed (t :: ts)) : Closed ts := by
  intro u hu
  cases ts with
  | nil => cases hu
  | cons v ts => exact h u (by rw [List.dropLast_cons_cons, List.getLast?_cons, Option.mem_def.1 hu]; rfl)

/-- A comment that runs to the end of its line is followed by that end. -/
theorem drop_ne_nil_of_closed (h : Closed ((scan afterDot i (c :: cs)).map (·.token)))
    (hkind : (lexeme afterDot c cs).kind = .comment) (hhead : cs.head? = some '/') :
    cs.drop (lexeme afterDot c cs).more ≠ [] := by
  intro hnil
  obtain ⟨ds, rfl⟩ := List.head?_eq_some_iff.1 hhead
  have hc : c = '/' := by
    have htrivia : (lexeme afterDot c ('/' :: ds)).kind.isTrivia = true := by rw [hkind]; rfl
    obtain ⟨-, hl⟩ | ⟨_, hc, -⟩ | ⟨_, _, hc, -⟩ := lexeme_of_isTrivia htrivia
    · rw [hl] at hkind
      cases hkind
    · exact hc
    · exact hc
  have htake : ('/' :: ds).take (lexeme afterDot c ('/' :: ds)).more = '/' :: ds := by
    simpa [hnil] using List.take_append_drop (lexeme afterDot c ('/' :: ds)).more ('/' :: ds)
  rw [scan, hnil, scan, htake, hkind, hc] at h
  have hline := h _ rfl
  rw [Token.isLineComment_iff.2 ⟨rfl, ds, String.toList_ofList⟩] at hline
  cases hline

/-- A text that can be moved does not end inside a comment that runs to the end of its line: a mark behind
it would be hidden. -/
theorem Movable.closed (h : Movable text.toList) (herrors : lexErrors text = []) :
    Closed (lexTokens text) := by
  obtain ⟨ts, hts, hend⟩ := exists_lexTokens_eq_concat text
  intro t ht
  rw [hts, List.dropLast_concat] at ht
  by_contra hline
  rw [Bool.not_eq_false] at hline
  obtain ⟨before, rfl⟩ := List.getLast?_eq_some_iff.1 ht
  obtain ⟨hcomment, body, hbody⟩ := Token.isLineComment_iff.1 hline
  have htrivia : t.isTrivia = true := by rw [Token.isTrivia, hcomment]; rfl
  have hmem : t ∈ lexTokens text := by rw [hts]; simp
  have hfeed : '\n' ∉ body ++ [';'] := by
    obtain ⟨hspace, -⟩ | ⟨-, ⟨body', hbody', hfeed⟩ | ⟨body', hbody', -⟩⟩ := toList_of_isTrivia hmem htrivia
    · cases hspace.symm.trans hcomment
    · cases hbody.symm.trans hbody'
      simpa using hfeed
    · cases hbody.symm.trans hbody'
  have hsplit : lexTokens text = before ++ [t, ⟨.eof, text.utf8ByteSize, ""⟩] := by
    rw [hts, List.append_assoc]
    rfl
  have hlast : ∀ u ∈ before.getLast?, u.isLineComment = false := by
    intro u hu
    by_contra hcut
    obtain ⟨us, hus⟩ := List.getLast?_eq_some_iff.1 hu
    rw [hus, List.append_assoc, List.singleton_append] at hsplit
    have hspace := kind_of_isLineComment hsplit (by simpa using hcut) (by simp [hcomment])
    cases hspace.symm.trans hcomment
  have hproper : ∀ u ∈ before, u.kind ≠ .error ∧ u.kind ≠ .eof := fun u hu =>
    ⟨lexErrors_eq_nil.1 herrors u (by rw [hts]; simp [hu]), hend u (by simp [hu])⟩
  have hsemicolon : Parts [';'] := fun d hd => by cases hd; exact .inr (by decide)
  obtain ⟨a, hcut⟩ := readsAs_cut (i := 0) hsplit hproper (.inl rfl) hlast t.text.toList.length hsemicolon
  have hbehind : (tokensText [t, ⟨.eof, text.utf8ByteSize, ""⟩]).toList = t.text.toList := by
    simp [tokensText]
  have htext : (tokensText before).toList ++ t.text.toList = text.toList := by
    rw [← hbehind, ← String.toList_append, ← tokensText_append, ← hsplit, tokensText_lexTokens]
  have hwords : readsAs false text.toList = wordsOf before := by
    have hnone : wordsOf [t, ⟨.eof, text.utf8ByteSize, ""⟩] = [] := by
      simp [wordsOf, Token.isWord, htrivia]
    rw [← words_eq_readsAs, words, hsplit, wordsOf, List.filter_append, List.map_append, ← wordsOf,
      ← wordsOf, hnone, List.append_nil]
  obtain ⟨b, hmove⟩ := h.readsAs_append false hsemicolon
  rw [hbehind, List.take_length, ← List.append_assoc, htext, hbody, List.cons_append, List.cons_append,
    readsAs_lineComment a hfeed, List.append_nil, hmove, hwords, List.append_right_eq_self] at hcut
  rw [readsAs_cons (by rfl)] at hcut
  cases hcut

/-- Whether the last word is a dot, or what stands before all words if there are none. -/
def dotBehind (afterDot : Bool) (ws : List (TokenKind × String)) : Bool :=
  (ws.getLast?.map (·.1 == .dot)).getD afterDot

theorem dotBehind_cons (afterDot : Bool) (w : TokenKind × String) (ws : List (TokenKind × String)) :
    dotBehind afterDot (w :: ws) = dotBehind (w.1 == .dot) ws := by
  cases ws using List.reverseRecOn with
  | nil => rfl
  | append_singleton ws v =>
    rw [← List.cons_append, dotBehind, dotBehind, List.getLast?_concat, List.getLast?_concat]
    rfl

/-- **A text before another one** shows what it shows by itself, and the other one shows what it shows
behind the last word. -/
theorem shows_append (herrors : ∀ t ∈ (scan afterDot i cs).map (·.token), t.kind ≠ .error)
    (hclosed : Closed ((scan afterDot i cs).map (·.token))) (hrest : Parts rest) :
    shows afterDot (cs ++ rest) =
      shows afterDot cs ++ shows (dotBehind afterDot (readsAs afterDot cs)) rest := by
  fun_induction scan afterDot i cs with
  | case1 afterDot => rw [shows_nil, readsAs_nil]; rfl
  | case2 afterDot i c cs l token afterDot' ih =>
    have hline := drop_ne_nil_of_closed (i := i) (by rw [scan]; exact hclosed)
    rw [List.map_cons, List.forall_mem_cons] at herrors
    obtain ⟨hkind, herrors⟩ := herrors
    have ih := ih herrors hclosed.tail
    have hdot : afterDot' = if l.kind.isTrivia then afterDot else l.kind == .dot := rfl
    by_cases hspace : l.kind = .whitespace
    · have htrivia : (lexeme afterDot c cs).kind.isTrivia = true := by
        rw [show (lexeme afterDot c cs).kind = .whitespace from hspace]
        rfl
      obtain ⟨-, hblank⟩ | ⟨hcomment, -⟩ := chars_of_isTrivia htrivia
      · have hsplit : (c :: cs) ++ rest = (c :: cs.take l.more) ++ (cs.drop l.more ++ rest) := by
          rw [List.cons_append, List.cons_append, ← List.append_assoc, List.take_append_drop]
        rw [hdot, show l.kind.isTrivia = true from htrivia, if_pos rfl] at ih
        rw [hsplit, shows_blanks afterDot hblank, ih, shows_of_whitespace hspace,
          readsAs_cons_of_isTrivia htrivia]
      · cases hspace.symm.trans hcomment
    · obtain ⟨hle, hlex⟩ := lexeme_append (show lexeme afterDot c cs = l from rfl)
        ((proper_lexeme afterDot c cs).fault_eq_none.2 hkind) hspace hline hrest
      have htake : (cs ++ rest).take l.more = cs.take l.more := List.take_append_of_le_length hle
      have hdrop : (cs ++ rest).drop l.more = cs.drop l.more ++ rest := List.drop_append_of_le_length hle
      rw [List.cons_append, shows_cons (by rw [hlex]; exact hspace), hlex, htake, hdrop, ← hdot, ih,
        shows_cons (show (lexeme afterDot c cs).kind ≠ .whitespace from hspace)]
      show _ = _ :: (shows afterDot' _ ++ _)
      congr 3
      cases htrivia : l.kind.isTrivia with
      | true => rw [hdot, readsAs_cons_of_isTrivia htrivia, htrivia]; rfl
      | false =>
        rw [readsAs_cons htrivia, dotBehind_cons, hdot, htrivia]
        rfl

/-- A block comment ends with a slash. -/
theorem getLast?_of_commentEnd? (h : commentEnd? 0 cs = some cs.length) : cs.getLast? = some '/' := by
  obtain ⟨body, rest, -, rfl, hlength⟩ := commentEnd?_zero_eq_some_iff.1 h
  have hrest : rest = [] := by
    rw [List.length_append, List.length_cons, List.length_cons] at hlength
    exact List.eq_nil_of_length_eq_zero (by omega)
  rw [hrest, show ['*', '/'] = ['*'] ++ ['/'] from rfl, ← List.append_assoc, List.getLast?_concat]

/-- The last word is no dot if the text does not look so at its end. -/
theorem dotBehind_readsAs (hclosed : Closed ((scan afterDot i cs).map (·.token)))
    (hnil : cs = [] → afterDot = false)
    (hlast : ∀ d ∈ cs.getLast?, isBlank d = false ∧ d ≠ '/' ∧ d ≠ '.') :
    dotBehind afterDot (readsAs afterDot cs) = false := by
  fun_induction scan afterDot i cs with
  | case1 afterDot => rw [readsAs_nil]; exact hnil rfl
  | case2 afterDot i c cs l token afterDot' ih =>
    have hline := drop_ne_nil_of_closed (i := i) (by rw [scan]; exact hclosed)
    have hdot : afterDot' = if l.kind.isTrivia then afterDot else l.kind == .dot := rfl
    have hwhole (hdrop : cs.drop l.more = []) : cs.take l.more = cs := by
      simpa [hdrop] using List.take_append_drop l.more cs
    have hlast' : ∀ d ∈ (cs.drop l.more).getLast?, isBlank d = false ∧ d ≠ '/' ∧ d ≠ '.' := by
      intro d hd
      refine hlast d ?_
      rw [← List.take_append_drop l.more cs, ← List.cons_append, List.getLast?_append, Option.mem_def.1 hd]
      rfl
    have ih := ih hclosed.tail
    cases htrivia : l.kind.isTrivia with
    | true =>
      rw [hdot, if_pos htrivia] at ih
      rw [readsAs_cons_of_isTrivia htrivia]
      refine ih (fun hdrop => ?_) hlast'
      exfalso
      obtain ⟨d, hend⟩ : ∃ d, (c :: cs).getLast? = some d := 
        ⟨_, List.getLast?_eq_some_getLast (List.cons_ne_nil c cs)⟩
      obtain ⟨hspace, hslash, -⟩ := hlast d hend
      obtain ⟨-, hblank⟩ | ⟨hcomment, hforms⟩ := chars_of_isTrivia htrivia
      · rw [hwhole hdrop] at hblank
        exact absurd (hblank d (List.mem_of_getLast? hend)) (by simp [hspace])
      · rw [hwhole hdrop] at hforms
        obtain ⟨body, hbody, -⟩ | ⟨body, hbody, hclosed⟩ := hforms
        · obtain ⟨-, rfl⟩ := List.cons.inj hbody
          exact hline hcomment rfl hdrop
        · rw [hbody, List.getLast?_cons, List.getLast?_cons, getLast?_of_commentEnd? hclosed] at hend
          exact hslash (Option.some.inj hend).symm
    | false =>
      rw [hdot, if_neg (by simp [htrivia])] at ih
      rw [readsAs_cons htrivia, dotBehind_cons]
      refine ih (fun hdrop => beq_eq_false_iff_ne.2 fun hkind => ?_) hlast'
      obtain ⟨rfl, hhead⟩ := head?_ne_of_dot hkind
      have hl : l = .token .dot 0 := lexeme_of_head?_ne hhead
      rw [hl] at hdrop
      rw [show cs = [] from hdrop] at hlast
      exact (hlast '.' rfl).2.2 rfl

/-! ## Texts that go before others -/

/-- A text shows the same whatever follows, and what follows shows the same as by itself. -/
def Leads (cs : List Char) (ws : List (TokenKind × String)) : Prop :=
  ∀ rest, shows false (cs ++ rest) = ws ++ shows false rest

theorem leads_nil : Leads [] [] := fun _ => rfl

theorem Leads.append (hcs : Leads cs ws) (hds : Leads ds vs) : Leads (cs ++ ds) (ws ++ vs) :=
  fun rest => by rw [List.append_assoc, hcs, hds, List.append_assoc]

/-- Texts that go before others, one behind the other. -/
theorem leads_flatMap {α : Type} {f : α → List Char} {g : α → List (TokenKind × String)} {xs : List α}
    (h : ∀ x ∈ xs, Leads (f x) (g x)) : Leads (xs.flatMap f) (xs.flatMap g) := by
  induction xs with
  | nil => exact leads_nil
  | cons x xs ih =>
    rw [List.forall_mem_cons] at h
    rw [List.flatMap_cons, List.flatMap_cons]
    exact h.1.append (ih h.2)

theorem leads_blanks (h : ∀ d ∈ cs, isBlank d = true) : Leads cs [] := shows_blanks false h

theorem leads_blank (h : isBlank c = true) : Leads [c] [] :=
  leads_blanks (List.forall_mem_singleton.2 h)

/-- What follows makes no difference to the words either, and they make none to it. -/
theorem Leads.readsAs_append (h : Leads cs ws) (rest : List Char) :
    readsAs false (cs ++ rest) = readsAs false cs ++ readsAs false rest := by
  have hread (ds : List Char) : readsAs false ds = (shows false ds).filter (!·.1.isTrivia) :=
    wordsOf_eq_filter _
  have hcs : shows false cs = ws := by simpa [shows_nil] using h []
  rw [hread, hread cs, hread rest, h, List.filter_append, hcs]

theorem Leads.shown_eq (h : Leads text.toList ws) : shown text = ws := by
  have hws := h []
  rwa [List.append_nil, shows_nil, List.append_nil] at hws

/-- A mark that is always read by itself. -/
theorem shows_mark {kind : TokenKind} (hc : ∀ afterDot ds, lexeme afterDot c ds = .token kind 0)
    (hkind : kind.isTrivia = false) (hdot : (kind == .dot) = false) (afterDot : Bool)
    (rest : List Char) : shows afterDot (c :: rest) = (kind, String.ofList [c]) :: shows false rest := by
  have hspace : kind ≠ .whitespace := by
    rintro rfl
    cases hkind
  rw [shows_cons (by rw [hc]; exact hspace), hc, Lexeme.token, if_neg (by simp [hkind]), hdot]
  rfl

theorem shows_slash {n : Nat} (h : slashLexeme cs = .token .comment n) :
    shows afterDot ('/' :: cs) =
      (.comment, String.ofList ('/' :: cs.take n)) :: shows afterDot (cs.drop n) := by
  have hl : lexeme afterDot '/' cs = .token .comment n := (lexeme_slash afterDot cs).trans h
  rw [shows_cons (by rw [hl]; simp [Lexeme.token]), hl]
  rfl

/-- A comment that is a text by itself, with the end of its line if it runs up to it. -/
theorem leads_lineComment (h : '\n' ∉ cs) :
    Leads ('/' :: '/' :: (cs ++ ['\n'])) [(.comment, String.ofList ('/' :: '/' :: cs))] := by
  intro rest
  have hrun : runLength (· != '\n') (cs ++ '\n' :: rest) = cs.length := by
    have hbody : ∀ d ∈ cs, (d != '\n') = true := fun d hd => bne_iff_ne.2 fun heq => h (heq ▸ hd)
    rw [runLength, List.takeWhile_append_of_pos hbody]
    simp
  have hl : slashLexeme ('/' :: (cs ++ '\n' :: rest)) = .token .comment (1 + cs.length) := by
    rw [slashLexeme, hrun]
  rw [List.cons_append, List.cons_append, List.append_assoc, List.singleton_append, shows_slash hl,
    Nat.add_comm, List.take_succ_cons, List.drop_succ_cons, List.take_left, List.drop_left,
    shows_blank _ _ (by decide)]
  rfl

theorem leads_blockComment (h : commentEnd? 0 cs = some cs.length) :
    Leads ('/' :: '*' :: cs) [(.comment, String.ofList ('/' :: '*' :: cs))] := by
  intro rest
  have hl : slashLexeme ('*' :: (cs ++ rest)) = .token .comment (1 + cs.length) := by
    rw [slashLexeme, commentEnd?_append h]
  rw [List.cons_append, List.cons_append, shows_slash hl, Nat.add_comm, List.take_succ_cons,
    List.drop_succ_cons, List.take_left, List.drop_left]
  rfl

/-- A text that can be joined with what follows it: it has no faults, and does not end inside a comment
that runs to the end of its line. -/
structure Joinable (text : String) : Prop where
  lexErrors_eq : lexErrors text = []
  closed : Closed (lexTokens text)

namespace Joinable

theorem shows_append (h : Joinable text) (hrest : Parts rest) :
    shows false (text.toList ++ rest) = shown text ++ shows (dotBehind false (words text)) rest :=
  Reshape.shows_append (i := 0) (lexErrors_eq_nil.1 h.lexErrors_eq) h.closed hrest

/-- A mark behind a text hides whether it ends with a dot. -/
theorem leads_mark (h : Joinable text) {kind : TokenKind}
    (hc : ∀ afterDot ds, lexeme afterDot c ds = .token kind 0) (hlone : isLoneMark c = true)
    (hkind : kind.isTrivia = false) (hdot : (kind == .dot) = false) :
    Leads (text.toList ++ [c]) (shown text ++ [(kind, String.ofList [c])]) := by
  intro rest
  rw [List.append_assoc, List.singleton_append, h.shows_append (fun d hd => by cases hd; exact .inr hlone),
    shows_mark hc hkind hdot, List.append_assoc]
  rfl

/-- A blank behind a text that does not end with a dot. -/
theorem leads_blank (h : Joinable text) (hc : isBlank c = true)
    (hlast : ∀ d ∈ text.toList.getLast?, isBlank d = false ∧ d ≠ '/' ∧ d ≠ '.') :
    Leads (text.toList ++ [c]) (shown text) := by
  intro rest
  have hdot : dotBehind false (words text) = false :=
    dotBehind_readsAs (i := 0) h.closed (fun _ => rfl) hlast
  rw [List.append_assoc, List.singleton_append, h.shows_append (fun d hd => by cases hd; exact .inl hc),
    hdot, shows_blank _ _ hc]

end Joinable

end Reshape
