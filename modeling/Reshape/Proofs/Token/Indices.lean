import Mathlib.Data.List.Basic
import Reshape.Proofs.Token.Dots
import Reshape.Proofs.Workspace.Beside

/-!
# Indices in the place of names

A name behind a dot can be replaced by an index. The index is not joined with what follows it, and what
stands before it does not see it: no other token is read in another way.

* `Token.ReadBefore` says that a token is what is read off before a text, `ReadInOrder` that this is so all
  along a list of tokens. `readInOrder_of_scan` and `scan_of_readInOrder` tie it to the scan.
* `Lead` is what stands before a name, and `Alike` compares the text behind a token with the one that has
  indices in it. `readInOrder_withIndices` is by induction on the tokens.
* `indices_replace_names` is the result, for one name and for any number of them.
-/

namespace Reshape

variable {afterDot : Bool} {c d : Char} {cs rest x y : List Char} {i n : Nat} {p : Char → Bool}
  {l : Lexeme}

/-! ## Blanks and comments -/

/-- Behind a text, another one stands in the place of the rest: it starts with the same character, or with a
digit where a word was. -/
def HeadsAlike (rest rest' : List Char) : Prop :=
  rest'.head? = rest.head? ∨
    ∃ d ds e es, rest = d :: ds ∧ rest' = e :: es ∧ isIdentStart d = true ∧ e.isDigit = true

theorem isBlank_of_isDigit (h : c.isDigit = true) : isBlank c = false := by
  have hall : ∀ r ∈ blankRanges, r.2 < 48 ∨ 57 < r.1 := by decide
  rw [Char.isDigit, Bool.and_eq_true, decide_eq_true_eq, decide_eq_true_eq] at h
  have hlo : 48 ≤ c.toNat := UInt32.le_iff_toNat_le.1 h.1
  have hhi : c.toNat ≤ 57 := UInt32.le_iff_toNat_le.1 h.2
  by_contra hblank
  obtain ⟨r, hr, hstart, hstop⟩ := exists_range_of_isBlank (by simpa using hblank)
  have := hall r hr
  omega

theorem head?_drop_runLength (p : Char → Bool) (cs : List Char) :
    ∀ d ∈ (cs.drop (runLength p cs)).head?, p d = false := by
  induction cs with
  | nil => simp
  | cons c cs ih =>
    cases hc : p c with
    | true => rwa [runLength_cons_of_pos hc, List.drop_succ_cons]
    | false => simpa [runLength_cons_of_neg hc] using hc

theorem runLength_append_of_forall (hcs : ∀ d ∈ cs, p d = true)
    (hrest : ∀ d ∈ rest.head?, p d = false) : runLength p (cs ++ rest) = cs.length := by
  induction cs with
  | nil =>
    cases rest with
    | nil => rfl
    | cons d ds => exact runLength_cons_of_neg (hrest d rfl)
  | cons c cs ih =>
    obtain ⟨hc, hcs⟩ := List.forall_mem_cons.1 hcs
    rw [List.cons_append, runLength_cons_of_pos hc, ih hcs, List.length_cons]

theorem runLength_take_append (p : Char → Bool) (cs : List Char)
    (hrest : ∀ d ∈ rest.head?, p d = false) :
    runLength p (cs.take (runLength p cs) ++ rest) = runLength p cs := by
  have htake : cs.take (runLength p cs) = cs.takeWhile p :=
    (List.prefix_iff_eq_take.1 (List.takeWhile_prefix p)).symm
  rw [htake, runLength_append_of_forall (List.all_eq_true.1 List.all_takeWhile) hrest, runLength]

/-- A blank or comment is read as before if what follows starts as before, or if a digit follows in the
place of a word. -/
theorem lexeme_trivia (h : (lexeme afterDot c cs).kind.isTrivia = true)
    (hrest : HeadsAlike (cs.drop (lexeme afterDot c cs).more) rest) :
    lexeme afterDot c (cs.take (lexeme afterDot c cs).more ++ rest) = lexeme afterDot c cs := by
  have hends (p : Char → Bool) {ds : List Char} (hdigit : ∀ e, e.isDigit = true → p e = false)
      (hheads : HeadsAlike (ds.drop (runLength p ds)) rest) : ∀ d ∈ rest.head?, p d = false := by
    intro d hd
    obtain hsame | ⟨-, -, e, es, -, rfl, -, he⟩ := hheads
    · exact head?_drop_runLength p ds d (hsame ▸ hd)
    · cases hd
      exact hdigit _ he
  obtain ⟨hc, hl⟩ | ⟨ds, rfl, rfl, hl⟩ | ⟨ds, n, rfl, rfl, hn, hl⟩ := lexeme_of_isTrivia h
  · rw [hl] at hrest ⊢
    rw [lexeme_of_isBlank hc]
    exact congrArg (Lexeme.token _)
      (runLength_take_append isBlank cs (hends isBlank (fun _ => isBlank_of_isDigit) hrest))
  · rw [hl, Lexeme.token, Nat.add_comm] at hrest ⊢
    dsimp only at hrest ⊢
    rw [List.drop_succ_cons] at hrest
    have hfeed : ∀ d ∈ rest.head?, (d != '\n') = false := by
      intro d hd
      obtain hsame | ⟨e, es, -, -, hes, -, he, -⟩ := hrest
      · exact head?_drop_runLength (· != '\n') ds d (hsame ▸ hd)
      · have hline := head?_drop_runLength (· != '\n') ds e (by rw [hes]; rfl)
        obtain rfl : e = '\n' := by simpa using hline
        exact absurd he (by decide)
    rw [List.take_succ_cons, List.cons_append, lexeme, if_neg (by decide), if_pos rfl, slashLexeme,
      runLength_take_append _ ds hfeed, Nat.add_comm]
    rfl
  · rw [hl, Lexeme.token, Nat.add_comm]
    dsimp only
    rw [List.take_succ_cons, List.cons_append, lexeme, if_neg (by decide), if_pos rfl, slashLexeme,
      commentEnd?_append (commentEnd?_take hn)]
    exact congrArg (Lexeme.token _) (Nat.add_comm 1 n)

/-! ## Tokens that are read off in order -/

namespace Token

/-- The token is what is read off before the given text. -/
def ReadBefore (t : Token) (afterDot : Bool) (rest : List Char) : Prop :=
  ∃ c cs, t.text.toList = c :: cs ∧ lexeme afterDot c (cs ++ rest) = .token t.kind cs.length

/-- Whether what follows the token stands behind a dot, trivia apart. -/
def leavesDot (t : Token) (afterDot : Bool) : Bool := if t.isTrivia then afterDot else t.kind == .dot

end Token

/-- Each token is what is read off before the text of the other ones. -/
def ReadInOrder : Bool → List Token → Prop
  | _, [] => True
  | afterDot, t :: ts =>
    t.ReadBefore afterDot (tokensText ts).toList ∧ ReadInOrder (t.leavesDot afterDot) ts

theorem more_lexeme_le (hfault : (lexeme afterDot c cs).fault = none) :
    (lexeme afterDot c cs).more ≤ cs.length := by
  cases htrivia : (lexeme afterDot c cs).kind.isTrivia with
  | false => exact (lexeme_take rfl hfault htrivia).1
  | true =>
    obtain ⟨-, hl⟩ | ⟨ds, -, rfl, hl⟩ | ⟨ds, n, -, rfl, hn, hl⟩ := lexeme_of_isTrivia htrivia
    · rw [hl]
      exact runLength_le isBlank cs
    · have hrun := runLength_le (· != '\n') ds
      rw [hl, Lexeme.token, List.length_cons]
      dsimp only
      omega
    · have hend := length_le_of_commentEnd? hn
      rw [hl, Lexeme.token, List.length_cons]
      dsimp only
      omega

/-- What is scanned without a fault is read off in order. -/
theorem readInOrder_of_scan {ts : List Token} {e : Token}
    (h : (scan afterDot i cs).map (·.token) = ts ++ [e]) (he : e.text = "")
    (hts : ∀ t ∈ ts, t.kind ≠ .eof ∧ t.kind ≠ .error) : ReadInOrder afterDot ts := by
  induction ts generalizing afterDot i cs with
  | nil => trivial
  | cons t ts ih =>
    obtain ⟨ht, hts⟩ := List.forall_mem_cons.1 hts
    obtain ⟨c, ds, l, -, hl, hkind, htext, hscan⟩ := exists_of_scan_eq_cons h ht.1
    have hfault : l.fault = none := by
      rw [← hl]
      exact (proper_lexeme afterDot c ds).fault_eq_none.2 (by rw [hl, ← hkind]; exact ht.2)
    have hscan' : (scan (t.leavesDot afterDot) t.stop (ds.drop l.more)).map (·.token) = ts ++ [e] :=
      hscan
    have hrest : ds.drop l.more = (tokensText ts).toList := by
      rw [← String.ofList_inj, ← tokensText_scan (t.leavesDot afterDot) t.stop, hscan', tokensText_append,
        String.ofList_toList, tokensText_cons, he]
      simp [tokensText]
    refine ⟨⟨c, _, htext, ?_⟩, ih hscan hts⟩
    have hle : l.more ≤ ds.length := hl ▸ more_lexeme_le (hl ▸ hfault)
    rw [← hrest, List.take_append_drop, hl, hkind, List.length_take, Nat.min_eq_left hle, Lexeme.token,
      ← hfault]

theorem tokens_scan_of_lexeme {t : Token} (htext : t.text.toList = c :: cs)
    (h : lexeme afterDot c (cs ++ rest) = .token t.kind cs.length) :
    (scan afterDot t.start (c :: (cs ++ rest))).map (·.token) =
      t :: (scan (t.leavesDot afterDot) t.stop rest).map (·.token) := by
  obtain ⟨kind, start, text⟩ := t
  obtain rfl : text = String.ofList (c :: cs) := by rw [← htext, String.ofList_toList]
  rw [scan, h]
  dsimp only [Lexeme.token]
  rw [List.take_left, List.drop_left]
  rfl

/-- What is read off in order is scanned. -/
theorem scan_of_readInOrder {ts : List Token} (h : ReadInOrder afterDot ts) (hts : Contiguous i ts) :
    (scan afterDot i (tokensText ts).toList).map (·.token) =
      ts ++ [⟨.eof, i + (tokensText ts).utf8ByteSize, ""⟩] := by
  induction ts generalizing afterDot i with
  | nil =>
    show (scan afterDot i []).map (·.token) = _
    rw [scan]
    rfl
  | cons t ts ih =>
    obtain ⟨⟨c, cs, htext, hl⟩, hrest⟩ := h
    obtain ⟨rfl, hts⟩ := hts
    have hstop : t.stop + (tokensText ts).utf8ByteSize =
        t.start + (tokensText (t :: ts)).utf8ByteSize := by
      rw [tokensText_cons, String.utf8ByteSize_append, Token.stop, Nat.add_assoc]
    rw [← hstop, tokensText_cons, String.toList_append, htext, List.cons_append,
      tokens_scan_of_lexeme htext hl, ih hrest hts, List.cons_append]

/-! ### A token before another text -/

namespace Token.ReadBefore

variable {t : Token} {rest' : List Char}

/-- What stands behind a dot makes no difference to the tokens before it. -/
theorem dot (h : t.ReadBefore afterDot (cs ++ '.' :: x)) (htrivia : t.isTrivia = false)
    (hint : t.kind = .intLiteral → cs = [] → afterDot = true) (y : List Char) :
    t.ReadBefore afterDot (cs ++ '.' :: y) := by
  obtain ⟨c, ds, htext, hl⟩ := h
  refine ⟨c, ds, htext, ?_⟩
  rw [← List.append_assoc] at hl ⊢
  rw [lexeme_dot ?_ ?_ ?_ y, hl]
  · rw [hl]
    exact ⟨rfl, by simp [Lexeme.token]⟩
  · rw [hl]
    exact htrivia
  · rw [hl]
    intro hkind hmore
    exact hint hkind (by simpa [Lexeme.token] using hmore)

theorem trivia (h : t.ReadBefore afterDot rest) (htrivia : t.isTrivia = true)
    (hrest : HeadsAlike rest rest') : t.ReadBefore afterDot rest' := by
  obtain ⟨c, ds, htext, hl⟩ := h
  refine ⟨c, ds, htext, ?_⟩
  have hmore : (lexeme afterDot c (ds ++ rest)).more = ds.length := by
    rw [hl]
    rfl
  have hagain : lexeme afterDot c ((ds ++ rest).take _ ++ rest') = _ :=
    lexeme_trivia (by rw [hl]; exact htrivia) (by rwa [hmore, List.drop_left])
  rwa [hmore, List.take_left, hl] at hagain

end Token.ReadBefore

/-! ### Dots, indices and words -/

theorem lexeme_of_head?_ne (h : cs.head? ≠ some '.') : lexeme afterDot '.' cs = .token .dot 0 := by
  have hplain : operator? '.' cs = some (.token .dot 0) := operator?_dot fun ds hds => h (by rw [hds]; rfl)
  rw [lexeme, if_neg (by decide), if_neg (by decide), if_neg (by decide), if_neg (by decide),
    if_neg (by decide), hplain]

/-- A dot is a dot without another one behind it. -/
theorem head?_ne_of_dot (h : (lexeme afterDot c cs).kind = .dot) : c = '.' ∧ cs.head? ≠ some '.' := by
  obtain hl | hliteral | ⟨-, hword⟩ : operator? c cs = _ ∨ _ :=
    operator?_or_isAtomic_of_notMem (by rw [h]; decide)
  · generalize lexeme afterDot c cs = l at h hl
    unfold operator? at hl
    split at hl <;> cases hl
    case h_33 hne =>
      refine ⟨rfl, fun hhead => ?_⟩
      obtain ⟨ds, hds⟩ := List.head?_eq_some_iff.1 hhead
      exact hne ds hds
    all_goals first
      | cases h
      | exact absurd h (withEq_ne (by simp) (by simp) _)
  · rw [h] at hliteral
    cases hliteral
  · have hfree := isFree_wordLexeme c cs
    rw [← hword, h] at hfree
    cases hfree

theorem operator?_ne_ident (h : operator? c cs = some l) : l.kind ≠ .ident := by
  unfold operator? at h
  split at h <;> cases h <;> first | exact withEq_ne (by simp) (by simp) _ | nofun

/-- A name starts as a word does, and ends where the word ends. -/
theorem isIdentStart_of_ident (h : (lexeme afterDot c cs).kind = .ident) :
    isIdentStart c = true ∧ (lexeme afterDot c cs).more = runLength isIdentContinue cs := by
  obtain hl | hliteral | ⟨hstart, hword⟩ := operator?_or_isAtomic_of_notMem
    (by rw [h]; decide)
  · exact absurd h (operator?_ne_ident hl)
  · rw [h] at hliteral
    cases hliteral
  · exact ⟨hstart, by rw [hword, more_wordLexeme]⟩

theorem isIdentContinue_of_isDigit (h : c.isDigit = true) : isIdentContinue c = true := by
  have hall : ∀ n ∈ List.range' 48 10, memRanges numeralRanges n = true := by decide +kernel
  rw [Char.isDigit, Bool.and_eq_true, decide_eq_true_eq, decide_eq_true_eq] at h
  have hlo : 48 ≤ c.toNat := UInt32.le_iff_toNat_le.1 h.1
  have hhi : c.toNat ≤ 57 := UInt32.le_iff_toNat_le.1 h.2
  have hnumeral := hall c.toNat (List.mem_range'_1.2 ⟨hlo, by omega⟩)
  simp [isIdentContinue, isNumeral, hnumeral]

theorem toDigits_head {n : Nat} (hn : n ≠ 0) : (Nat.toDigits 10 n).head? ≠ some '0' := by
  induction n using Nat.strongRecOn with
  | ind n ih =>
    by_cases hlt : n < 10
    · have hall : ∀ n < 10, n ≠ 0 → [Nat.digitChar n].head? ≠ some '0' := by decide
      rw [Nat.toDigits_of_lt_base hlt]
      exact hall n hlt hn
    · rw [Nat.toDigits_of_base_le (by decide) (by omega), List.head?_append_of_ne_nil _ Nat.toDigits_ne_nil]
      exact ih _ (by omega) (by omega)

theorem exists_toString_eq_cons (n : Nat) :
    ∃ c cs, (toString n).toList = c :: cs ∧ c.isDigit = true ∧ (∀ d ∈ cs, d.isDigit = true) ∧
      (c = '0' → cs = []) := by
  obtain ⟨c, cs, hdigits⟩ := List.exists_cons_of_ne_nil (Nat.toDigits_ne_nil (n := n) (b := 10))
  have hall : ∀ d ∈ c :: cs, d.isDigit = true := fun d hd =>
    Nat.isDigit_of_mem_toDigits (b := 10) (n := n) (by decide) (by decide) (hdigits ▸ hd)
  obtain ⟨hc, hcs⟩ := List.forall_mem_cons.1 hall
  refine ⟨c, cs, Nat.toList_repr.trans hdigits, hc, hcs, ?_⟩
  rintro rfl
  obtain rfl : n = 0 := by
    by_contra hn
    exact toDigits_head hn (by rw [hdigits]; rfl)
  exact (List.cons.inj hdigits).2.symm

namespace Token

variable {t : Token} {rest' : List Char}

/-- A dot is read as before if what follows starts as before, or if a digit follows in the place of a word. -/
theorem ReadBefore.of_dot (h : t.ReadBefore afterDot rest) (hkind : t.kind = .dot)
    (hrest : HeadsAlike rest rest') : t.text.toList = ['.'] ∧ t.ReadBefore afterDot rest' := by
  obtain ⟨c, ds, htext, hl⟩ := h
  obtain ⟨rfl, hhead⟩ := head?_ne_of_dot (by rw [hl]; exact hkind)
  rw [lexeme_of_head?_ne hhead] at hl
  obtain rfl : ds = [] := (List.length_eq_zero_iff.1 (congrArg Lexeme.more hl).symm)
  refine ⟨htext, '.', [], htext, ?_⟩
  rw [lexeme_of_head?_ne, hkind]
  · rfl
  rw [List.nil_append] at hhead ⊢
  obtain hsame | ⟨-, -, e, es, -, rfl, -, he⟩ := hrest
  · rwa [hsame]
  · rintro ⟨⟩
    exact absurd he (by decide)

theorem ReadBefore.of_ident (h : t.ReadBefore afterDot rest) (hkind : t.kind = .ident) :
    (∃ c cs, t.text.toList = c :: cs ∧ isIdentStart c = true) ∧
      ∀ d ∈ rest.head?, isIdentContinue d = false := by
  obtain ⟨c, cs, htext, hl⟩ := h
  obtain ⟨hstart, hmore⟩ := isIdentStart_of_ident (by rw [hl]; exact hkind)
  refine ⟨⟨c, cs, htext, hstart⟩, fun d hd => ?_⟩
  rw [hl] at hmore
  refine head?_drop_runLength isIdentContinue (cs ++ rest) d ?_
  rw [← hmore]
  simpa [Lexeme.token] using hd

/-- **An index is read off behind a dot**, whatever follows it that does not continue a word. -/
theorem readBefore_index (i n : Nat) (hrest : ∀ d ∈ rest.head?, isIdentContinue d = false) :
    (⟨.intLiteral, i, toString n⟩ : Token).ReadBefore true rest := by
  obtain ⟨c, cs, hdigits, hc, hcs, hzero⟩ := exists_toString_eq_cons n
  refine ⟨c, cs, hdigits, ?_⟩
  have hbase : ¬ (c = '0' ∧ ∃ b ∈ (cs ++ rest).head?, b = 'x' ∨ b = 'o' ∨ b = 'b') := by
    rintro ⟨hc, b, hb, hletter⟩
    rw [hzero hc] at hb
    have hword := hrest b hb
    rcases hletter with rfl | rfl | rfl <;> exact absurd hword (by decide)
  have hslash : c ≠ '/' := by
    rintro rfl
    exact absurd hc (by decide)
  have hrun : runLength isDigitOrGroup (cs ++ rest) = cs.length := by
    refine runLength_append_of_forall (fun d hd => ?_) fun d hd => ?_
    · rw [isDigitOrGroup, hcs d hd, Bool.true_or]
    · rw [← Bool.not_eq_true]
      intro hd'
      refine Bool.false_ne_true ((hrest d hd).symm.trans ?_)
      rw [isDigitOrGroup, Bool.or_eq_true, beq_iff_eq] at hd'
      obtain hd' | rfl := hd'
      · exact isIdentContinue_of_isDigit hd'
      · decide
  have hstart : ∀ d ∈ rest.head?, isIdentStart d = false := fun d hd => by
    rw [← Bool.not_eq_true]
    exact fun hd' => Bool.false_ne_true ((hrest d hd).symm.trans (isIdentContinue_of_isIdentStart hd'))
  have hsuffix : suffixLength rest = 0 := by
    cases rest with
    | nil => rfl
    | cons d ds => rw [suffixLength, hstart d rfl, if_neg Bool.false_ne_true]
  have hfloat : rest.head? ≠ some 'f' := fun hf => absurd (hstart 'f' hf) (by decide)
  rw [lexeme, isBlank_of_isDigit hc, if_neg Bool.false_ne_true, if_neg hslash, if_pos hc,
    numberLexeme_eq_decimalLexeme true hbase]
  simp [decimalLexeme, hrun, hsuffix, hfloat]

end Token

/-! ## Names behind dots -/

/-- What the last token before a place is that is not trivia: an integer that does not stand behind a dot, a
dot behind such an integer, another dot, or anything else. -/
inductive Lead
  | other
  | integer
  | integerDot
  | dot
deriving DecidableEq

namespace Lead

/-- Whether it is a dot. -/
def isDot : Lead → Bool
  | dot | integerDot => true
  | other | integer => false

/-- What it is behind one more token. -/
def next (s : Lead) (t : Token) : Lead :=
  if t.isTrivia then s
  else if t.kind = .dot then if s = .integer then .integerDot else .dot
  else if t.kind = .intLiteral ∧ s.isDot = false then .integer
  else .other

variable {s : Lead} {t : Token}

theorem next_of_isTrivia (h : t.isTrivia = true) : s.next t = s := if_pos h

theorem isDot_next (s : Lead) (t : Token) : (s.next t).isDot = t.leavesDot s.isDot := by
  unfold next Token.leavesDot
  split_ifs with htrivia hdot hs hint
  · rfl
  · rw [hdot]
    rfl
  · rw [hdot]
    rfl
  · rw [hint.1]
    rfl
  · exact (beq_eq_false_iff_ne.2 hdot).symm

theorem next_eq_dot (h : s.next t = .dot) (htrivia : t.isTrivia = false) :
    t.kind = .dot ∧ s ≠ .integer := by
  unfold next at h
  rw [htrivia, if_neg Bool.false_ne_true] at h
  split_ifs at h with hdot hs
  exact ⟨hdot, hs⟩

theorem next_eq_integer (htrivia : t.isTrivia = false) (hint : t.kind = .intLiteral)
    (hs : s.isDot = false) : s.next t = .integer := by
  rw [next, htrivia, if_neg Bool.false_ne_true, if_neg (by simp [hint]), if_pos ⟨hint, hs⟩]

theorem of_next_eq_integer (h : s.next t = .integer) (htrivia : t.isTrivia = false) :
    t.kind = .intLiteral ∧ s.isDot = false := by
  unfold next at h
  rw [htrivia, if_neg Bool.false_ne_true] at h
  split_ifs at h with hdot hs hint
  exact hint

theorem next_of_ident (h : t.kind = .ident) : s.next t = .other := by
  rw [next, Token.isTrivia, h, if_neg (by decide), if_neg (by decide), if_neg (by simp)]

end Lead

/-- The text before a place is as it was, up to a dot at least, or up to the place if a dot leads there. A
dot right behind an integer does not count. -/
inductive Alike (s : Lead) (rest rest' : List Char) : Prop
  | same : rest' = rest → Alike s rest rest'
  | dot (cs x y : List Char) : rest = cs ++ '.' :: x → rest' = cs ++ '.' :: y →
      (s = .integer → cs ≠ []) → Alike s rest rest'
  | head : s = .dot → HeadsAlike rest rest' → Alike s rest rest'

namespace Alike

variable {s : Lead} {t : Token} {rest' : List Char}

theorem headsAlike (h : Alike s rest rest') : HeadsAlike rest rest' := by
  obtain rfl | ⟨cs, x, y, rfl, rfl, -⟩ | ⟨-, hheads⟩ := h
  · exact .inl rfl
  · exact .inl (head?_dot cs y x)
  · exact hheads

theorem head?_eq (h : Alike s rest rest') (hs : s ≠ .dot) : rest'.head? = rest.head? := by
  obtain rfl | ⟨cs, x, y, rfl, rfl, -⟩ | ⟨hdot, -⟩ := h
  · rfl
  · exact head?_dot cs y x
  · exact absurd hdot hs

/-- A token is read as before. -/
theorem readBefore (h : Alike (s.next t) rest rest') (ht : t.ReadBefore s.isDot rest) :
    t.ReadBefore s.isDot rest' := by
  cases htrivia : t.isTrivia with
  | true => exact ht.trivia htrivia h.headsAlike
  | false =>
    obtain rfl | ⟨cs, x, y, rfl, rfl, hcs⟩ | ⟨hdot, hheads⟩ := h
    · exact ht
    · refine ht.dot htrivia (fun hint hnil => ?_) y
      by_contra hs
      exact hcs (Lead.next_eq_integer htrivia hint (by simpa using hs)) hnil
    · exact (ht.of_dot (Lead.next_eq_dot hdot htrivia).1 hheads).2

/-- The text is alike from a token on if it is behind it. -/
theorem cons (h : Alike (s.next t) rest rest') (ht : t.ReadBefore s.isDot rest) :
    Alike s (t.text.toList ++ rest) (t.text.toList ++ rest') := by
  obtain ⟨c, cs, htext, -⟩ := id ht
  obtain rfl | ⟨ds, x, y, rfl, rfl, -⟩ | ⟨hdot, hheads⟩ := h
  · exact .same rfl
  · exact .dot (t.text.toList ++ ds) x y (by rw [List.append_assoc]) (by rw [List.append_assoc])
      fun _ => by simp [htext]
  · cases htrivia : t.isTrivia with
    | true =>
      rw [Lead.next_of_isTrivia htrivia] at hdot
      exact .head hdot (.inl (by simp [htext]))
    | false =>
      obtain ⟨hkind, hs⟩ := Lead.next_eq_dot hdot htrivia
      rw [(Token.ReadBefore.of_dot ht hkind hheads).1]
      exact .dot [] rest rest' rfl rfl fun hint => absurd hint hs

end Alike

/-- A token at a place, or an index in its stead. -/
def Token.withIndex (t : Token) (i : Nat) : Option Nat → Token
  | some n => ⟨.intLiteral, i, toString n⟩
  | none => { t with start := i }

/-- Tokens from a place on, with indices in the stead of those that are picked. -/
def withIndices (index : Token → Option Nat) : Nat → List Token → List Token
  | _, [] => []
  | i, t :: ts => t.withIndex i (index t) :: withIndices index (t.withIndex i (index t)).stop ts

/-- All that is picked are names behind a dot that does not stand behind an integer, or behind one that stands
behind a dot itself. -/
def Picks (index : Token → Option Nat) : Lead → List Token → Prop
  | _, [] => True
  | s, t :: ts => ((index t).isSome → t.kind = .ident ∧ s = .dot) ∧ Picks index (s.next t) ts

variable {index : Token → Option Nat} {s : Lead} {ts : List Token}

theorem contiguous_withIndices (index : Token → Option Nat) (i : Nat) (ts : List Token) :
    Contiguous i (withIndices index i ts) := by
  induction ts generalizing i with
  | nil => trivial
  | cons t ts ih =>
    refine ⟨?_, ih _⟩
    cases index t <;> rfl

theorem alike_withIndices (hpicks : Picks index s ts) (h : ReadInOrder s.isDot ts) (i : Nat) :
    Alike s (tokensText ts).toList (tokensText (withIndices index i ts)).toList := by
  induction ts generalizing s i with
  | nil => exact .same rfl
  | cons t ts ih =>
    obtain ⟨ht, hpicks⟩ := hpicks
    obtain ⟨hread, hrest⟩ := h
    rw [withIndices, tokensText_cons, tokensText_cons, String.toList_append, String.toList_append]
    cases hindex : index t with
    | some n =>
      obtain ⟨hkind, rfl⟩ := ht (by rw [hindex]; rfl)
      obtain ⟨⟨c, cs, htext, hc⟩, -⟩ := hread.of_ident hkind
      obtain ⟨d, ds, hdigits, hd, -⟩ := exists_toString_eq_cons n
      have hnew : (t.withIndex i (some n)).text.toList = d :: ds := hdigits
      rw [htext, hnew]
      exact .head rfl (.inr ⟨c, _, d, _, rfl, rfl, hc, hd⟩)
    | none =>
      rw [← Lead.isDot_next] at hrest
      exact (ih hpicks hrest _).cons hread

/-- **Indices are read where names were**, and the other tokens as before. -/
theorem readInOrder_withIndices (hpicks : Picks index s ts) (h : ReadInOrder s.isDot ts) (i : Nat) :
    ReadInOrder s.isDot (withIndices index i ts) := by
  induction ts generalizing s i with
  | nil => trivial
  | cons t ts ih =>
    obtain ⟨ht, hpicks⟩ := hpicks
    obtain ⟨hread, hrest⟩ := h
    rw [← Lead.isDot_next] at hrest
    rw [withIndices]
    cases hindex : index t with
    | some n =>
      obtain ⟨hkind, rfl⟩ := ht (by rw [hindex]; rfl)
      rw [Lead.next_of_ident hkind] at hpicks hrest
      have halike := alike_withIndices hpicks hrest
      refine ⟨Token.readBefore_index i n ?_, ih hpicks hrest _⟩
      rw [(halike _).head?_eq (by decide)]
      exact (hread.of_ident hkind).2
    | none =>
      have halike := alike_withIndices hpicks hrest
      refine ⟨(halike _).readBefore hread, ?_⟩
      have hleads : ({ t with start := i } : Token).leavesDot s.isDot = (s.next t).isDot :=
        (Lead.isDot_next s t).symm
      rw [Token.withIndex, hleads]
      exact ih hpicks hrest _

/-! ## Texts with indices -/

/-- A token is a name behind a dot, and the one before the dot is no integer, or an integer that stands behind
a dot itself. Blanks and comments do not count. -/
structure Selects (before : List Token) (t : Token) : Prop where
  kind_eq : t.kind = .ident
  behind_dot : ∃ ss d, significant before = ss ++ [d] ∧ d.kind = .dot ∧
    ∀ u ∈ ss.getLast?, u.kind = .intLiteral → ∃ v ∈ ss.dropLast.getLast?, v.kind = .dot

/-- A token that stood some way behind the place `i`, and stands as far behind `j`. -/
def Token.shift (t : Token) (i j : Nat) : Token := { t with start := j + (t.start - i) }

/-- The edits that put indices in the place of the tokens that are picked. -/
def indexEdits (index : Token → Option Nat) (ts : List Token) : List TextEdit :=
  ts.filterMap fun t => (index t).map fun n => ⟨t.span, toString n⟩

theorem foldl_next_significant (s : Lead) (ts : List Token) :
    ts.foldl Lead.next s = (significant ts).foldl Lead.next s := by
  induction ts generalizing s with
  | nil => rfl
  | cons t ts ih =>
    cases htrivia : t.isTrivia with
    | true =>
      rw [List.foldl_cons, Lead.next_of_isTrivia htrivia, ih, significant, significant,
        List.filter_cons_of_neg (by simp [htrivia])]
    | false =>
      rw [List.foldl_cons, ih, significant, significant, List.filter_cons_of_pos (by simp [htrivia])]
      rfl

theorem Selects.foldl_next {before : List Token} {t : Token} (h : Selects before t) :
    before.foldl Lead.next .other = .dot := by
  obtain ⟨ss, d, hss, hd, hint⟩ := h.behind_dot
  have htrivia : ∀ u ∈ ss, u.isTrivia = false := fun u hu => by
    have hmem : u ∈ significant before := by rw [hss]; simp [hu]
    simpa using (List.mem_filter.1 hmem).2
  rw [foldl_next_significant, hss, List.foldl_concat]
  have hne : ss.foldl Lead.next .other ≠ .integer := by
    intro hinteger
    cases ss using List.reverseRecOn with
    | nil => cases hinteger
    | append_singleton us u _ =>
      rw [List.foldl_concat] at hinteger
      obtain ⟨hkind, hdot⟩ := Lead.of_next_eq_integer hinteger (htrivia u (by simp))
      obtain ⟨v, hv, hkind'⟩ := hint u (by simp) hkind
      rw [List.dropLast_concat] at hv
      obtain ⟨ws, rfl⟩ := List.getLast?_eq_some_iff.1 hv
      rw [List.foldl_concat, Lead.isDot_next, Token.leavesDot, htrivia v (by simp), hkind'] at hdot
      cases hdot
  rw [Lead.next, Token.isTrivia, hd, if_neg (by decide), if_pos rfl, if_neg hne]

theorem picks_of_forall (h : ∀ before t behind, ts = before ++ t :: behind → (index t).isSome →
    t.kind = .ident ∧ before.foldl Lead.next s = .dot) : Picks index s ts := by
  induction ts generalizing s with
  | nil => trivial
  | cons t ts ih =>
    refine ⟨fun ht => h [] t ts rfl ht, ih fun before u behind hts hu => ?_⟩
    rw [hts] at h
    exact h (t :: before) u behind rfl hu

theorem withIndices_append (index : Token → Option Nat) (i : Nat) (ts us : List Token) :
    withIndices index i (ts ++ us) = withIndices index i ts ++
      withIndices index (i + (tokensText (withIndices index i ts)).utf8ByteSize) us := by
  induction ts generalizing i with
  | nil => simp [withIndices, tokensText]
  | cons t ts ih =>
    have hstart : (t.withIndex i (index t)).start = i := by cases index t <;> rfl
    rw [List.cons_append, withIndices, withIndices, ih, List.cons_append, tokensText_cons,
      String.utf8ByteSize_append, Token.stop, hstart, Nat.add_assoc]

theorem mem_withIndices {u : Token} (h : u ∈ withIndices index i ts) :
    u.kind = .intLiteral ∨ ∃ t ∈ ts, u.kind = t.kind := by
  induction ts generalizing i with
  | nil => cases h
  | cons t ts ih =>
    obtain rfl | h := List.mem_cons.1 h
    · cases index t with
      | some n => exact .inl rfl
      | none => exact .inr ⟨t, by simp, rfl⟩
    · exact (ih h).imp_right fun ⟨t', ht', hkind⟩ => ⟨t', by simp [ht'], hkind⟩

/-- Tokens of which none is picked are moved together. -/
theorem withIndices_of_none (hnone : ∀ t ∈ ts, index t = none) {j : Nat} (hts : Contiguous i ts) :
    withIndices index j ts = ts.map (·.shift i j) := by
  induction ts generalizing i j with
  | nil => rfl
  | cons t ts ih =>
    obtain ⟨ht, hnone⟩ := List.forall_mem_cons.1 hnone
    obtain ⟨rfl, hts⟩ := hts
    rw [withIndices, ht, Token.withIndex, ih hnone hts, List.map_cons]
    refine congrArg₂ List.cons (by simp [Token.shift]) (List.map_congr_left fun u hu => ?_)
    have hle := (bounds_of_contiguous hts hu).1
    rw [Token.stop] at hle
    simp only [Token.shift, Token.stop, Token.mk.injEq, true_and, and_true]
    omega

theorem spliceFrom_indexEdits (u : List Char) (hts : Contiguous (i + byteLength u) ts) (j : Nat) :
    spliceFrom i (u ++ (tokensText ts).toList) (indexEdits index ts) =
      .ok (u ++ (tokensText (withIndices index j ts)).toList) := by
  induction ts generalizing i j u with
  | nil => rfl
  | cons t ts ih =>
    obtain ⟨hstart, hts⟩ := hts
    have hstop : t.stop = i + byteLength (u ++ t.text.toList) := by
      rw [Token.stop, hstart, utf8ByteSize_eq_byteLength, byteLength_append, Nat.add_assoc]
    rw [withIndices, tokensText_cons, tokensText_cons, String.toList_append, String.toList_append,
      ← List.append_assoc, ← List.append_assoc]
    cases hindex : index t with
    | some n =>
      have hedits : indexEdits index (t :: ts) = ⟨t.span, toString n⟩ :: indexEdits index ts := by
        simp [indexEdits, hindex]
      rw [hedits]
      exact spliceFrom_cons hstart hstop (ih [] hts _)
    | none =>
      have hedits : indexEdits index (t :: ts) = indexEdits index ts := by simp [indexEdits, hindex]
      rw [hedits]
      exact ih (u ++ t.text.toList) (hstop ▸ hts) _

theorem mem_indexEdits {e : TextEdit} (h : e ∈ indexEdits index ts) :
    ∃ t ∈ ts, (index t).isSome ∧ e.span = t.span := by
  obtain ⟨t, ht, he⟩ := List.mem_filterMap.1 h
  obtain ⟨n, hn, rfl⟩ := Option.map_eq_some_iff.1 he
  exact ⟨t, ht, by rw [hn]; rfl, rfl⟩

/-- The indices can be put in the place of the tokens that are picked. -/
theorem applyEdits_indexEdits {text : String}
    (hindex : ∀ t ∈ lexTokens text, (index t).isSome → t.kind ≠ .eof) :
    applyEdits text (indexEdits index (lexTokens text)) =
      .ok (tokensText (withIndices index 0 (lexTokens text))) := by
  have hcontiguous := contiguous_lexTokens text
  have hlt : ∀ e ∈ indexEdits index (lexTokens text), e.span.start < e.span.stop := fun e he => by
    obtain ⟨t, ht, hsome, hspan⟩ := mem_indexEdits he
    have hpos : 0 < t.text.utf8ByteSize := Nat.pos_of_ne_zero fun hzero =>
      text_ne_empty_of_mem_lexTokens ht (hindex t ht hsome) (String.utf8ByteSize_eq_zero_iff.1 hzero)
    rw [hspan]
    exact Nat.lt_add_of_pos_right hpos
  have hle := fun e he => (hlt e he).le
  have hascending : (indexEdits index (lexTokens text)).Pairwise fun d e => d.span.stop ≤ e.span.start := by
    refine List.Pairwise.filterMap _ (fun t u htu d hd e he => ?_) (pairwise_of_contiguous hcontiguous)
    obtain ⟨n, -, rfl⟩ := Option.map_eq_some_iff.1 hd
    obtain ⟨m, -, rfl⟩ := Option.map_eq_some_iff.1 he
    exact htu
  have hsorted : sortEdits (indexEdits index (lexTokens text)) = indexEdits index (lexTokens text) := by
    refine List.mergeSort_of_pairwise (hascending.imp_of_mem fun {d e} hd _ hde => ?_)
    exact TextEdit.le_iff.2 (.inl ((hlt d hd).trans_le hde))
  have hbeside : AllBeside (indexEdits index (lexTokens text)) :=
    hascending.imp_of_mem fun {d e} hd _ hde => ⟨.inl hde, fun heq => by
      have := hlt d hd
      rw [heq] at this hde
      omega⟩
  have hin : ∀ e ∈ indexEdits index (lexTokens text), e.span.stop ≤ text.utf8ByteSize := fun e he => by
    obtain ⟨t, ht, -, hspan⟩ := mem_indexEdits he
    have hstop := (bounds_of_contiguous hcontiguous ht).2
    rwa [tokensText_lexTokens, Nat.zero_add, ← show e.span.stop = t.stop from congrArg Span.stop hspan]
      at hstop
  have hsplice : spliceFrom 0 _ (indexEdits index (lexTokens text)) = _ :=
    spliceFrom_indexEdits [] hcontiguous 0
  rw [tokensText_lexTokens, List.nil_append, List.nil_append] at hsplice
  rw [applyEdits, checkEdits_sortEdits hle hin, if_pos hbeside, hsorted]
  dsimp only
  rw [hsplice]
  exact congrArg Except.ok String.ofList_toList

/-- A text with indices in the place of names has no faults, and its tokens are those of the text with the
indices. -/
theorem lexTokens_withIndices {text : String} (herrors : lexErrors text = [])
    (hindex : ∀ before behind t, lexTokens text = before ++ t :: behind → (index t).isSome →
      Selects before t) :
    lexErrors (tokensText (withIndices index 0 (lexTokens text))) = [] ∧
      lexTokens (tokensText (withIndices index 0 (lexTokens text))) =
        withIndices index 0 (lexTokens text) := by
  obtain ⟨ts, hts, hne⟩ := exists_lexTokens_eq_concat text
  have hend : index ⟨.eof, text.utf8ByteSize, ""⟩ = none := by
    by_contra hsome
    have hselects := hindex ts [] _ hts (Option.isSome_iff_ne_none.2 hsome)
    cases hselects.kind_eq
  have hread : ReadInOrder Lead.other.isDot ts := readInOrder_of_scan hts rfl fun t ht =>
    ⟨hne t ht, lexErrors_eq_nil.1 herrors t (by rw [hts]; simp [ht])⟩
  have hpicks : Picks index .other ts := picks_of_forall fun before t behind heq ht => by
    have hselects := hindex before (behind ++ [_]) t (by rw [hts, heq]; simp; rfl) ht
    exact ⟨hselects.kind_eq, hselects.foldl_next⟩
  have htokens : withIndices index 0 (lexTokens text) = withIndices index 0 ts ++
      [⟨.eof, 0 + (tokensText (withIndices index 0 ts)).utf8ByteSize, ""⟩] := by
    rw [hts, withIndices_append, withIndices, hend]
    rfl
  have htext : tokensText (withIndices index 0 (lexTokens text)) = tokensText (withIndices index 0 ts) := by
    rw [htokens, tokensText_append]
    simp [tokensText]
  have hlex : lexTokens (tokensText (withIndices index 0 (lexTokens text))) =
      withIndices index 0 (lexTokens text) := by
    rw [htext, htokens]
    exact scan_of_readInOrder (readInOrder_withIndices hpicks hread 0) (contiguous_withIndices index 0 ts)
  refine ⟨lexErrors_eq_nil.2 fun u hu => ?_, hlex⟩
  rw [hlex] at hu
  obtain hkind | ⟨t, ht, hkind⟩ := mem_withIndices hu
  · simp [hkind]
  · rw [hkind]
    exact lexErrors_eq_nil.1 herrors t ht

/-! ### One index -/

variable {before behind : List Token} {t : Token}

theorem indexEdits_of_none (hnone : ∀ t ∈ ts, index t = none) : indexEdits index ts = [] :=
  List.filterMap_eq_nil_iff.2 fun t ht => by rw [hnone t ht]; rfl

/-- The picks that consist of one token. -/
def onlyAt (t : Token) (n : Nat) (u : Token) : Option Nat := if u = t then some n else none

theorem onlyAt_self (t : Token) (n : Nat) : onlyAt t n t = some n := if_pos rfl

theorem onlyAt_of_notMem (ht : t ∉ ts) (n : Nat) : ∀ u ∈ ts, onlyAt t n u = none := by
  rintro u hu
  refine if_neg ?_
  rintro rfl
  exact ht hu

theorem indexEdits_onlyAt (hbefore : t ∉ before) (hbehind : t ∉ behind) (n : Nat) :
    indexEdits (onlyAt t n) (before ++ t :: behind) = [⟨t.span, toString n⟩] := by
  have hfirst := indexEdits_of_none (onlyAt_of_notMem hbefore n)
  have hlast := indexEdits_of_none (onlyAt_of_notMem hbehind n)
  rw [indexEdits] at hfirst hlast ⊢
  rw [List.filterMap_append, hfirst, List.filterMap_cons, onlyAt_self, hlast]
  rfl

theorem withIndices_onlyAt (hbefore : t ∉ before) (hbehind : t ∉ behind)
    (hts : Contiguous 0 (before ++ t :: behind)) (n : Nat) :
    withIndices (onlyAt t n) 0 (before ++ t :: behind) =
      before ++ ⟨.intLiteral, t.start, toString n⟩ ::
        behind.map (·.shift t.stop (t.start + (toString n).utf8ByteSize)) := by
  obtain ⟨hfirst, hstart, hlast⟩ := contiguous_append.1 hts
  have hsame : withIndices (onlyAt t n) 0 before = before := by
    rw [withIndices_of_none (onlyAt_of_notMem hbefore n) hfirst]
    simp [Token.shift]
  rw [withIndices_append, hsame, ← hstart, withIndices, onlyAt_self,
    withIndices_of_none (onlyAt_of_notMem hbehind n) hlast]
  rfl

/-- **Indices in the place of names are lexically safe.** In a text without lexical faults, let a name stand
behind a dot, and let the token before the dot be no integer, or an integer that stands behind a dot itself.
The text with the name replaced by the digits of an index has no faults either, and the same tokens, but for
the index in the place of the name, and for the places of the tokens behind it. The same holds of any number
of such names that are replaced together, as in a chain of them. -/
theorem indices_replace_names {text : String} (herrors : lexErrors text = []) :
    (∀ (before behind : List Token) (t : Token) (n : Nat),
      lexTokens text = before ++ t :: behind → Selects before t →
      ∃ out, applyEdits text [⟨t.span, toString n⟩] = .ok out ∧ lexErrors out = [] ∧
        lexTokens out = before ++ ⟨.intLiteral, t.start, toString n⟩ ::
          behind.map (·.shift t.stop (t.start + (toString n).utf8ByteSize))) ∧
    ∀ index : Token → Option Nat,
      (∀ before behind t, lexTokens text = before ++ t :: behind → (index t).isSome → Selects before t) →
      ∃ out, applyEdits text (indexEdits index (lexTokens text)) = .ok out ∧ lexErrors out = [] ∧
        lexTokens out = withIndices index 0 (lexTokens text) := by
  have hall (index : Token → Option Nat) (hindex : ∀ before behind t,
      lexTokens text = before ++ t :: behind → (index t).isSome → Selects before t) :
      ∃ out, applyEdits text (indexEdits index (lexTokens text)) = .ok out ∧ lexErrors out = [] ∧
        lexTokens out = withIndices index 0 (lexTokens text) := by
    refine ⟨_, applyEdits_indexEdits fun t ht hsome => ?_, lexTokens_withIndices herrors hindex⟩
    obtain ⟨before, behind, hsplit⟩ := List.append_of_mem ht
    simp [(hindex before behind t hsplit hsome).kind_eq]
  refine ⟨fun before behind t n htokens ht => ?_, hall⟩
  have hnodup : (before ++ t :: behind).Nodup := by
    rw [← htokens]
    exact (pairwise_start_lexTokens text).imp fun hlt heq => hlt.ne (congrArg Token.start heq)
  have hnotMem := (List.nodup_cons.1 (List.nodup_middle.1 hnodup)).1
  rw [List.mem_append, not_or] at hnotMem
  obtain ⟨hbefore, hbehind⟩ := hnotMem
  obtain ⟨out, hout, hfaults, hlex⟩ := hall (onlyAt t n) fun before' behind' u htokens' hsome => by
    obtain rfl : u = t := by
      by_contra hne
      simp [onlyAt, hne] at hsome
    rw [htokens] at htokens'
    rwa [← ((List.append_cons_inj_of_notMem hbefore hbehind).1 htokens').1]
  have hcontiguous := contiguous_lexTokens text
  rw [htokens] at hcontiguous hout hlex
  rw [indexEdits_onlyAt hbefore hbehind] at hout
  rw [withIndices_onlyAt hbefore hbehind hcontiguous] at hlex
  exact ⟨out, hout, hfaults, hlex⟩

/-- Two names in a chain before two dots. -/
theorem indices_replace_names_chain :
    let index : Token → Option Nat := fun t =>
      if t.text = "a" then some 0 else if t.text = "b" then some 12 else none
    lexErrors "p.a.b..c" = [] ∧
      (∀ before behind t, lexTokens "p.a.b..c" = before ++ t :: behind → (index t).isSome →
        Selects before t) ∧
      applyEdits "p.a.b..c" [⟨⟨2, 3⟩, "0"⟩, ⟨⟨4, 5⟩, "12"⟩] = .ok "p.0.12..c" ∧
      lexErrors "p.0.12..c" = [] ∧
      lexTokens "p.0.12..c" = [⟨.ident, 0, "p"⟩, ⟨.dot, 1, "."⟩, ⟨.intLiteral, 2, "0"⟩, ⟨.dot, 3, "."⟩,
        ⟨.intLiteral, 4, "12"⟩, ⟨.dotDot, 6, ".."⟩, ⟨.ident, 8, "c"⟩, ⟨.eof, 9, ""⟩] := by
  intro index
  have htokens : lexTokens "p.a.b..c" = [⟨.ident, 0, "p"⟩, ⟨.dot, 1, "."⟩, ⟨.ident, 2, "a"⟩,
      ⟨.dot, 3, "."⟩, ⟨.ident, 4, "b"⟩, ⟨.dotDot, 5, ".."⟩, ⟨.ident, 7, "c"⟩, ⟨.eof, 8, ""⟩] := by
    decide +kernel
  have herrors : lexErrors "p.a.b..c" = [] := by
    rw [lexErrors_eq_nil, htokens]
    decide
  have hindex : ∀ before behind t, lexTokens "p.a.b..c" = before ++ t :: behind → (index t).isSome →
      Selects before t := by
    intro before behind t hsplit hsome
    rw [htokens] at hsplit
    rcases before with _ | ⟨u₁, _ | ⟨u₂, _ | ⟨u₃, _ | ⟨u₄, _ | ⟨u₅, before⟩⟩⟩⟩⟩
    case cons.cons.nil =>
      cases hsplit
      exact ⟨rfl, [⟨.ident, 0, "p"⟩], ⟨.dot, 1, "."⟩, rfl, rfl, by simp⟩
    case cons.cons.cons.cons.nil =>
      cases hsplit
      exact ⟨rfl, [⟨.ident, 0, "p"⟩, ⟨.dot, 1, "."⟩, ⟨.ident, 2, "a"⟩], ⟨.dot, 3, "."⟩, rfl, rfl, by simp⟩
    case cons.cons.cons.cons.cons =>
      simp only [List.cons_append, List.cons.injEq] at hsplit
      obtain ⟨-, -, -, -, -, hrest⟩ := hsplit
      have hnone : ∀ u ∈ before ++ t :: behind, (index u).isSome = false := by
        rw [← hrest]
        decide
      rw [hnone t (by simp)] at hsome
      cases hsome
    all_goals
      cases hsplit
      exact absurd hsome (by decide)
  obtain ⟨out, hout, hfaults, hlex⟩ := (indices_replace_names herrors).2 index hindex
  have hedits : indexEdits index (lexTokens "p.a.b..c") = [⟨⟨2, 3⟩, "0"⟩, ⟨⟨4, 5⟩, "12"⟩] := by
    rw [htokens]
    rfl
  rw [htokens] at hlex
  obtain rfl : out = "p.0.12..c" := by
    rw [← tokensText_lexTokens out, hlex]
    rfl
  exact ⟨herrors, hindex, hedits ▸ hout, hfaults, hlex⟩

end Reshape
