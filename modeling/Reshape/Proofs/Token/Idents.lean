import Reshape.Proofs.Token.Marks

/-!
# Writing names and signs

The marks of which expressions are made can be read: names, and signs that may touch the next one.

* `Ident` is a name: a word that is neither a keyword nor the underscore.
* `Ident.legible_mark` says that a name is read as such, `Mark.legible_of_lexeme` and
  `Mark.legible_of_joint` reduce signs to an evaluation of the scanner.
* `kind_of_mem_lexTokens_of_self` says that the word `Self` is no name.
-/

namespace Reshape

/-- Whether a text is a name: a word that is neither a keyword nor the underscore. -/
def isName (text : String) : Bool :=
  match text.toList with
  | [] => false
  | c :: cs =>
    isIdentStart c && cs.all isIdentContinue && (Keyword.ofWord? text).isNone && text != "_"

/-- A name. -/
@[ext] structure Ident where
  text : String
  isName_eq : isName text = true

/-- The word of a name. -/
def Ident.mark (n : Ident) : Mark := ⟨.ident, n.text, false, rfl⟩

variable {c : Char} {cs rest : List Char}

/-! ## Characters of words -/

/-- The code points of blanks, and those of the digits and signs in the first half of the first
block. -/
def nonWordPoints : List Nat :=
  (blankRanges ++ [(0x21, 0x40)]).flatMap fun (r : Nat × Nat) => List.range' r.1 (r.2 + 1 - r.1)

theorem not_mem_nonWordPoints (h : isIdentStart c = true) : c.toNat ∉ nonWordPoints := by
  have hall : ∀ n ∈ nonWordPoints, memRanges letterRanges n = false ∧ n ≠ '_'.toNat := by
    decide +kernel
  intro hmem
  obtain ⟨hletter, hline⟩ := hall _ hmem
  rw [isIdentStart, isLetter, hletter, Bool.false_or, beq_iff_eq] at h
  exact hline (congrArg Char.toNat h)

theorem mem_nonWordPoints {n : Nat} {r : Nat × Nat} (hr : r ∈ blankRanges ++ [(0x21, 0x40)])
    (hlo : r.1 ≤ n) (hhi : n ≤ r.2) : n ∈ nonWordPoints := by
  simp only [nonWordPoints, List.mem_flatMap, List.mem_range'_1]
  exact ⟨r, hr, hlo, by omega⟩

theorem exists_range_of_isBlank (h : isBlank c = true) :
    ∃ r ∈ blankRanges, r.1 ≤ c.toNat ∧ c.toNat ≤ r.2 := by
  have hascending : AscendingRanges blankRanges := by
    unfold AscendingRanges
    decide
  simpa only [isBlank, memRanges_eq_any hascending, List.any_eq_true, Bool.and_eq_true,
    decide_eq_true_eq] using h

theorem isBlank_eq_false (h : isIdentStart c = true) : isBlank c = false := by
  rw [← Bool.not_eq_true]
  intro hblank
  obtain ⟨r, hr, hlo, hhi⟩ := exists_range_of_isBlank hblank
  exact not_mem_nonWordPoints h (mem_nonWordPoints (List.mem_append_left _ hr) hlo hhi)

theorem isDigit_eq_false (h : isIdentStart c = true) : c.isDigit = false := by
  rw [← Bool.not_eq_true, Char.isDigit]
  simp only [Bool.and_eq_true, decide_eq_true_eq, ge_iff_le, UInt32.le_iff_toNat_le]
  rintro ⟨hlo, hhi⟩
  have hlo' : 48 ≤ c.toNat := hlo
  have hhi' : c.toNat ≤ 57 := hhi
  have hmem : c.toNat ∈ nonWordPoints :=
    mem_nonWordPoints (r := (0x21, 0x40)) (by simp) (by omega) (by omega)
  exact not_mem_nonWordPoints h hmem

theorem operator?_eq_none (h : isIdentStart c = true) (cs : List Char) : operator? c cs = none := by
  unfold operator?
  split
  all_goals first
    | rfl
    | exact absurd h (by decide)

/-- What may follow a name in what is written: nothing, or a blank. -/
def StartsBlank (rest : List Char) : Prop := ∀ c ∈ rest.head?, c = ' '

/-- A word is not the start of a raw string. -/
theorem rawStringAhead_append (hcs : cs.all isIdentContinue = true) (hrest : StartsBlank rest) :
    rawStringAhead (cs ++ rest) = false := by
  have hhead : ∀ d ∈ (cs ++ rest).head?, d ≠ '#' ∧ d ≠ '"' := by
    cases cs with
    | nil =>
      intro d hd
      rw [hrest d hd]
      decide
    | cons e es =>
      rintro d ⟨⟩
      have he : isIdentContinue e = true := by
        rw [List.all_cons, Bool.and_eq_true] at hcs
        exact hcs.1
      constructor <;> rintro rfl <;> revert he <;> decide
  cases hcat : cs ++ rest with
  | nil => rfl
  | cons d ds =>
    obtain ⟨hhash, hquote⟩ := hhead d (by simp [hcat])
    simp [rawStringAhead, hhash, hquote]

theorem prefixed?_eq_none (hcs : cs.all isIdentContinue = true) (hrest : StartsBlank rest) :
    prefixed? c (cs ++ rest) = none := by
  have hcons {d : Char} {ds : List Char} (heq : cs ++ rest = d :: ds) (hd : d ≠ ' ') :
      isIdentContinue d = true ∧ ∃ es, es.all isIdentContinue = true ∧ ds = es ++ rest := by
    cases cs with
    | nil =>
      refine absurd (hrest d ?_) hd
      rw [← List.nil_append rest, heq]
      rfl
    | cons e es =>
      cases heq
      rw [List.all_cons, Bool.and_eq_true] at hcs
      exact ⟨hcs.1, es, hcs.2, rfl⟩
  unfold prefixed?
  split
  · rw [rawStringAhead_append hcs hrest]
    rfl
  · next heq => exact absurd (hcons heq (by decide)).1 (by decide)
  · next heq => exact absurd (hcons heq (by decide)).1 (by decide)
  · next heq =>
    obtain ⟨-, es, hes, rfl⟩ := hcons heq (by decide)
    rw [rawStringAhead_append hes hrest]
    rfl
  · rfl

/-- A word is read up to what follows it. -/
theorem runLength_append (hcs : cs.all isIdentContinue = true) (hrest : StartsBlank rest) :
    runLength isIdentContinue (cs ++ rest) = cs.length := by
  have htail : rest.takeWhile isIdentContinue = [] := by
    cases rest with
    | nil => rfl
    | cons d ds =>
      rw [hrest d (by simp), List.takeWhile_cons_of_neg (by decide)]
  rw [runLength, List.takeWhile_append_of_pos (List.all_eq_true.1 hcs), htail, List.append_nil]

/-! ## Legible marks -/

/-- A name is read as such. -/
theorem Ident.legible_mark (n : Ident) : n.mark.Legible := by
  intro afterDot rest hrest
  have hblank : StartsBlank rest := fun d hd => (hrest d hd).resolve_right fun h => by cases h.1
  have hname := n.isName_eq
  unfold isName at hname
  split at hname
  · cases hname
  · next c cs htext =>
    simp only [Bool.and_eq_true, Option.isNone_iff_eq_none] at hname
    obtain ⟨⟨⟨hc, hcs⟩, hkeyword⟩, -⟩ := hname
    refine ⟨c, cs, htext, ?_⟩
    have hsign (d : Char) (hd : isIdentStart d = false) : c ≠ d := by
      rintro rfl
      rw [hc] at hd
      cases hd
    have hword : String.ofList (c :: cs) = n.text := by rw [← htext, String.ofList_toList]
    rw [lexeme, isBlank_eq_false hc, if_neg Bool.false_ne_true, if_neg (hsign '/' (by decide)),
      isDigit_eq_false hc, if_neg Bool.false_ne_true, if_neg (hsign '"' (by decide)),
      if_neg (hsign '\'' (by decide)), operator?_eq_none hc]
    dsimp only
    rw [prefixed?_eq_none hcs hblank]
    dsimp only
    rw [if_pos hc, wordLexeme, runLength_append hcs hblank, List.take_left, hword, hkeyword]
    rfl

/-! ## The word `Self` -/

theorem lexeme_self (afterDot : Bool) (cs : List Char) :
    lexeme afterDot 'S' cs = wordLexeme 'S' cs := by
  have hstart : isIdentStart 'S' = true := by decide
  have hprefixed : prefixed? 'S' cs = none := by
    unfold prefixed?
    split <;> first | rfl | (next heq => exact absurd heq (by decide))
  rw [lexeme, isBlank_eq_false hstart, isDigit_eq_false hstart, operator?_eq_none hstart, hprefixed,
    hstart]
  rfl

theorem kind_of_mem_scan_of_self {afterDot : Bool} {start : Nat} {cs : List Char} {t : Token}
    (h : t ∈ (scan afterDot start cs).map (·.token)) (htext : t.text = "Self") :
    t.kind = .keyword .selfTypeKw := by
  fun_induction scan afterDot start cs with
  | case1 =>
    obtain rfl := List.mem_singleton.1 h
    exact absurd (show "" = "Self" from htext) (by decide)
  | case2 afterDot start c cs l token afterDot' ih =>
    obtain rfl | h := List.mem_cons.1 h
    · have hword : c :: cs.take l.more = ['S', 'e', 'l', 'f'] := by
        simpa [token] using congrArg String.toList htext
      obtain ⟨rfl, -⟩ := List.cons.inj hword
      have hmore : l.more = runLength isIdentContinue cs := by
        show (lexeme afterDot 'S' cs).more = _
        rw [lexeme_self, wordLexeme]
        split <;> rfl
      show (lexeme afterDot 'S' cs).kind = _
      rw [lexeme_self, wordLexeme, ← hmore, hword]
      rfl
    · exact ih h

/-- The word `Self` is read as the keyword wherever it stands. -/
theorem kind_of_mem_lexTokens_of_self {text : String} {t : Token} (h : t ∈ lexTokens text)
    (htext : t.text = "Self") : t.kind = .keyword .selfTypeKw :=
  kind_of_mem_scan_of_self h htext

namespace Mark

variable {m : Mark}

/-- A mark that nothing touches is read as such at the end of a text and before a blank. -/
theorem legible_of_lexeme (htext : m.text.toList = c :: cs) (hjoint : m.joint = false)
    (hend : ∀ afterDot, lexeme afterDot c cs = .token m.kind cs.length)
    (hblank : ∀ afterDot rest, lexeme afterDot c (cs ++ ' ' :: rest) = .token m.kind cs.length) :
    m.Legible := by
  intro afterDot rest hrest
  refine ⟨c, cs, htext, ?_⟩
  cases rest with
  | nil =>
    rw [List.append_nil]
    exact hend afterDot
  | cons d ds =>
    obtain rfl | ⟨htouch, -⟩ := hrest d rfl
    · exact hblank afterDot ds
    · rw [hjoint] at htouch
      cases htouch

/-- A mark that an equals sign would change is read as such before anything else. -/
theorem legible_of_joint {joined : TokenKind} (htext : m.text.toList = [c])
    (hlex : ∀ afterDot rest, lexeme afterDot c rest = withEq m.kind joined rest) : m.Legible := by
  intro afterDot rest hrest
  refine ⟨c, [], htext, ?_⟩
  rw [List.nil_append, hlex]
  unfold withEq
  split
  · obtain heq | ⟨-, hne⟩ := hrest '=' rfl
    · cases heq
    · exact absurd rfl hne
  · rfl

end Mark

end Reshape
