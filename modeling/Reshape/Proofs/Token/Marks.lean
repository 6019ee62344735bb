import Mathlib.Data.List.Chain
import Reshape.Proofs.Grammar.Lookahead

/-!
# Writing tokens

Tokens that are written one after the other, with a blank between any two that are not to touch, are
read back as they were written. What is seen ahead in them is a matter of what was written alone.

* A `Mark` is a token to be written. `written` is the text of marks and `layout` are the tokens with
  their places.
* `Mark.Legible` says that a mark is read as such before everything that may follow it, and
  `Legible` that this holds all along a list of marks.
* `lexTokens_written` is the result, by induction on the marks; `lexErrors_written` says that there
  are no faults.
* `kindAt_layout`, `jointAhead_layout` and `infixAhead_layout` are what is seen ahead.
-/

namespace Reshape

/-- A token to be written: its kind and text, and whether the next one is to touch it. -/
structure Mark where
  kind : TokenKind
  text : String
  joint : Bool
  isTrivia_eq : kind.isTrivia = false

namespace Mark

/-- Whether a blank stands behind a mark with others behind it. -/
def spaced (m : Mark) (ms : List Mark) : Bool := !m.joint && !ms.isEmpty

/-- The token of a mark at a place. -/
def token (m : Mark) (i : Nat) : Token := ⟨m.kind, i, m.text⟩

@[simp] theorem isTrivia_token (m : Mark) (i : Nat) : (m.token i).isTrivia = false := m.isTrivia_eq

/-- The text of a mark and the blank behind it. -/
def chars (m : Mark) (ms : List Mark) : List Char :=
  m.text.toList ++ if m.spaced ms then [' '] else []

/-- The token of a mark and the one of the blank behind it. -/
def tokens (m : Mark) (i : Nat) (ms : List Mark) : List Token :=
  m.token i :: if m.spaced ms then [⟨.whitespace, (m.token i).stop, " "⟩] else []

/-- The place behind a mark and the blank behind it. -/
def stop (m : Mark) (i : Nat) (ms : List Mark) : Nat :=
  (m.token i).stop + if m.spaced ms then 1 else 0

end Mark

/-- The characters of marks, with blanks between them. -/
def markChars : List Mark → List Char
  | [] => []
  | m :: ms => m.chars ms ++ markChars ms

/-- The text of marks, with blanks between them. -/
def written (ms : List Mark) : String := String.ofList (markChars ms)

/-- The tokens of marks from a place on, with blanks between them and the end of the text behind
them. -/
def layout (i : Nat) : List Mark → List Token
  | [] => [⟨.eof, i, ""⟩]
  | m :: ms => m.tokens i ms ++ layout (m.stop i ms) ms

variable {m : Mark} {ms ms' : List Mark} {i : Nat}

/-! ## What is seen ahead -/

@[simp] theorem fromSignificant_layout : fromSignificant (layout i ms) = layout i ms := by
  cases ms with
  | nil => rfl
  | cons m ms =>
    rw [layout, Mark.tokens, List.cons_append, fromSignificant, List.dropWhile_cons_of_neg]
    simp

/-- A mark that was stepped over leaves the others ahead. -/
theorem fromSignificant_tail_layout :
    fromSignificant (layout i (m :: ms)).tail = layout (m.stop i ms) ms := by
  rw [layout, Mark.tokens, List.cons_append, List.tail_cons]
  split
  · rw [List.singleton_append, fromSignificant, List.dropWhile_cons_of_pos (by rfl)]
    exact fromSignificant_layout
  · exact fromSignificant_layout

@[simp] theorem tokenAt?_layout_zero : tokenAt? 0 (layout i (m :: ms)) = some (m.token i) := by
  simp [layout, Mark.tokens, tokenAt?]

theorem tokenAt?_layout_succ (n : Nat) :
    tokenAt? (n + 1) (layout i (m :: ms)) = tokenAt? n (layout (m.stop i ms) ms) := by
  rw [← fromSignificant_tail_layout, tokenAt?_fromSignificant]
  simp [layout, Mark.tokens, tokenAt?]

/-- The kind of the mark with `n` others before it. -/
def markKind : Nat → List Mark → TokenKind
  | _, [] => .eof
  | 0, m :: _ => m.kind
  | n + 1, _ :: ms => markKind n ms

@[simp] theorem markKind_nil (n : Nat) : markKind n [] = .eof := by cases n <;> rfl

@[simp] theorem markKind_cons_zero : markKind 0 (m :: ms) = m.kind := rfl

@[simp] theorem markKind_cons_succ (n : Nat) : markKind (n + 1) (m :: ms) = markKind n ms := rfl

@[simp] theorem kindAt_layout (n : Nat) : kindAt n (layout i ms) = markKind n ms := by
  induction ms generalizing i n with
  | nil => cases n <;> rfl
  | cons m ms ih =>
    cases n with
    | zero => simp [kindAt, Mark.token]
    | succ n =>
      rw [kindAt, tokenAt?_layout_succ, markKind_cons_succ, ← ih (i := m.stop i ms) n, kindAt]

@[simp] theorem textAt_layout : textAt 0 (layout i (m :: ms)) = m.text := by
  simp [textAt, Mark.token]

/-- Whether the first mark is to touch the second one and both are of the given kinds. -/
def touching (first second : TokenKind) : List Mark → Bool
  | [] => false
  | m :: ms => m.kind == first && markKind 0 ms == second && m.joint

/-- Marks touch each other exactly where that was asked for. -/
theorem jointAhead_layout {first second : TokenKind} (h : second ≠ .eof) :
    jointAhead first second (layout i ms) = touching first second ms := by
  obtain _ | ⟨m, _ | ⟨u, ms⟩⟩ := ms
  · rfl
  · have hend : tokenAt? 0 (layout (m.stop i []) []) = some ⟨.eof, m.stop i [], ""⟩ := rfl
    simp [jointAhead, tokenAt?_layout_succ, hend, touching, beq_false_of_ne h.symm]
  · by_cases hjoint : m.joint = true
    · simp [jointAhead, tokenAt?_layout_succ, touching, Mark.token, Mark.stop, Mark.spaced,
        Token.stop, hjoint]
    · simp [jointAhead, tokenAt?_layout_succ, touching, Mark.token, Mark.stop, Mark.spaced,
        Token.stop, hjoint]

/-- Where marks stand makes no difference to the operator that is ahead. -/
theorem infixAhead_layout (i : Nat) (ms : List Mark) :
    infixAhead (layout i ms) = infixAhead (layout 0 ms) := by
  simp only [infixAhead, jointAhead_layout (i := i), jointAhead_layout (i := 0), kindAt_layout,
    ne_eq, reduceCtorEq, not_false_eq_true]

/-- A name has no exclamation mark behind it. -/
theorem macroAhead_layout (hkind : m.kind = .ident) (hcolons : markKind 0 ms ≠ .colonColon)
    (hbang : markKind 0 ms ≠ .bang) : macroAhead (layout i (m :: ms)) = false := by
  have hrest : wordsThenBang false (layout (m.stop i ms) ms) = false := by
    cases ms with
    | nil => rfl
    | cons u us =>
      simp_all [layout, Mark.tokens, wordsThenBang, Mark.token, u.isTrivia_eq, Token.isTrivia]
  have hword : wordsThenBang true (layout i (m :: ms)) = false := by
    rw [layout, Mark.tokens, List.cons_append, wordsThenBang, if_neg (by simp), if_pos rfl]
    split
    · simpa [wordsThenBang, Token.isTrivia, TokenKind.isTrivia] using fun _ => hrest
    · simpa using fun _ => hrest
  rw [macroAhead, kindAt_layout, markKind_cons_zero, hkind, if_neg (by simp)]
  exact hword

/-! ## How much is left -/

/-- The number of tokens of marks and of the blanks between them. -/
def width : List Mark → Nat
  | [] => 1
  | m :: ms => 1 + (if m.spaced ms then 1 else 0) + width ms

@[simp] theorem length_layout : (layout i ms).length = width ms := by
  induction ms generalizing i with
  | nil => rfl
  | cons m ms ih =>
    simp only [layout, Mark.tokens, List.cons_append, List.length_cons, List.length_append, ih,
      width]
    split <;> simp <;> omega

/-- Marks before others make more tokens. -/
theorem width_lt_width_append (h : ms ≠ []) : width ms' < width (ms ++ ms') := by
  induction ms with
  | nil => exact absurd rfl h
  | cons m ms ih =>
    rw [List.cons_append, width]
    by_cases hms : ms = []
    · subst hms
      rw [List.nil_append]
      omega
    · have := ih hms
      omega

/-! ## Reading what was written -/

/-- What may follow the text of a mark: nothing, or a blank. What touches a mark does not start with
an equals sign. -/
def Mark.MayPrecede (m : Mark) (rest : List Char) : Prop :=
  ∀ c ∈ rest.head?, c = ' ' ∨ m.joint = true ∧ c ≠ '='

/-- A mark is read as such, whatever follows it that may. -/
def Mark.Legible (m : Mark) : Prop :=
  ∀ afterDot rest, m.MayPrecede rest → ∃ c cs, m.text.toList = c :: cs ∧
    lexeme afterDot c (cs ++ rest) = .token m.kind cs.length

/-- The second mark may touch the first one. -/
def Mark.MayTouch (m u : Mark) : Prop := m.joint = true → u.text.toList.head? ≠ some '='

/-- Marks are read as such one after the other, and nothing is to touch the last one. -/
structure Legible (ms : List Mark) : Prop where
  each : ∀ m ∈ ms, m.Legible
  chain : ms.IsChain Mark.MayTouch
  last : ∀ m ∈ ms.getLast?, m.joint = false

namespace Legible

theorem nil : Legible [] := ⟨by simp, .nil, by simp⟩

theorem singleton (h : m.Legible) (hjoint : m.joint = false) : Legible [m] where
  each := by simpa using h
  chain := .singleton m
  last := by simpa using hjoint

/-- Two marks of which the first one is to touch the second. -/
theorem pair {u : Mark} (h : m.Legible) (h' : u.Legible) (htouch : m.MayTouch u)
    (hjoint : u.joint = false) : Legible [m, u] where
  each := by simp [h, h']
  chain := by simpa using htouch
  last := by simpa using hjoint

theorem append (h : Legible ms) (h' : Legible ms') : Legible (ms ++ ms') where
  each := by
    simp only [List.mem_append]
    rintro m (hm | hm)
    · exact h.each m hm
    · exact h'.each m hm
  chain := by
    refine h.chain.append h'.chain fun m hm u _ hjoint => ?_
    rw [h.last m hm] at hjoint
    cases hjoint
  last := by
    cases ms' using List.reverseRecOn with
    | nil => simpa using h.last
    | append_singleton us u _ => simpa [← List.append_assoc] using h'.last

theorem cons (h : m.Legible) (hjoint : m.joint = false) (h' : Legible ms) : Legible (m :: ms) :=
  (singleton h hjoint).append h'

theorem tail (h : Legible (m :: ms)) : Legible ms where
  each u hu := h.each u (List.mem_cons_of_mem m hu)
  chain := h.chain.tail
  last u hu := by
    cases ms with
    | nil => cases hu
    | cons v vs => exact h.last u (by simpa using hu)

end Legible

theorem Mark.Legible.kind_ne_error (h : m.Legible) : m.kind ≠ .error := by
  obtain ⟨c, cs, -, hlex⟩ := h false [] (by simp [Mark.MayPrecede])
  have hproper := proper_lexeme false c (cs ++ [])
  rw [hlex] at hproper
  exact hproper.fault_eq_none.1 rfl

/-- A mark does not start with a blank. -/
theorem Mark.Legible.exists_eq_cons (h : m.Legible) :
    ∃ c cs, m.text.toList = c :: cs ∧ isBlank c = false := by
  obtain ⟨c, cs, htext, hlex⟩ := h false [] (by simp [Mark.MayPrecede])
  refine ⟨c, cs, htext, ?_⟩
  rw [← Bool.not_eq_true]
  intro hblank
  have hkind : TokenKind.whitespace = m.kind := by
    rw [lexeme, if_pos hblank] at hlex
    exact congrArg Lexeme.kind hlex
  have htrivia := m.isTrivia_eq
  rw [← hkind] at htrivia
  cases htrivia

theorem Legible.mayPrecede (h : Legible (m :: ms)) :
    m.MayPrecede ((if m.spaced ms then [' '] else []) ++ markChars ms) := by
  cases ms with
  | nil => simp [Mark.MayPrecede, Mark.spaced, markChars]
  | cons u us =>
    by_cases hjoint : m.joint = true
    · obtain ⟨c, cs, htext, -⟩ := (h.each u (by simp)).exists_eq_cons
      have htouch := (List.isChain_cons_cons.1 h.chain).1 hjoint
      rw [htext] at htouch
      have hne : c = ' ' ∨ c ≠ '=' := .inr (by simpa using htouch)
      simpa [Mark.MayPrecede, Mark.spaced, hjoint, markChars, Mark.chars, htext] using hne
    · simp [Mark.MayPrecede, Mark.spaced, hjoint]

/-- A lexeme that does not end a text is scanned before the rest. -/
theorem scan_of_lexeme {afterDot : Bool} {c : Char} {cs rest : List Char} {kind : TokenKind}
    (h : lexeme afterDot c (cs ++ rest) = .token kind cs.length) :
    ∃ afterDot', (scan afterDot i (c :: (cs ++ rest))).map (·.token) =
      ⟨kind, i, String.ofList (c :: cs)⟩ ::
        (scan afterDot' (⟨kind, i, String.ofList (c :: cs)⟩ : Token).stop rest).map (·.token) := by
  rw [scan, h]
  dsimp only [Lexeme.token]
  rw [List.take_left, List.drop_left]
  exact ⟨_, rfl⟩

theorem tokens_scan_markChars (h : Legible ms) (afterDot : Bool) (i : Nat) :
    (scan afterDot i (markChars ms)).map (·.token) = layout i ms := by
  induction ms generalizing afterDot i with
  | nil =>
    rw [markChars, scan]
    rfl
  | cons m ms ih =>
    obtain ⟨c, cs, htext, hlex⟩ := h.each m (by simp) afterDot _ h.mayPrecede
    obtain ⟨afterDot', hscan⟩ := scan_of_lexeme (i := i) hlex
    have htoken : m.token i = ⟨m.kind, i, String.ofList (c :: cs)⟩ := by
      rw [← htext, String.ofList_toList, Mark.token]
    rw [markChars, Mark.chars, htext, List.append_assoc, List.cons_append, hscan, layout,
      Mark.tokens, List.cons_append, ← htoken, Mark.stop]
    refine congrArg _ ?_
    split
    · next hspaced =>
      obtain ⟨u, us, rfl⟩ : ∃ u us, ms = u :: us := by
        cases ms with
        | nil => simp [Mark.spaced] at hspaced
        | cons u us => exact ⟨u, us, rfl⟩
      obtain ⟨d, ds, hu, hblank⟩ := (h.each u (by simp)).exists_eq_cons
      have hspace : lexeme afterDot' ' ' ([] ++ markChars (u :: us)) = .token .whitespace 0 := by
        rw [lexeme, if_pos (by rfl)]
        simp [markChars, Mark.chars, hu, runLength, hblank]
      obtain ⟨afterDot'', hscan'⟩ := scan_of_lexeme (i := (m.token i).stop) hspace
      rw [List.singleton_append]
      refine hscan'.trans ?_
      rw [ih h.tail]
      rfl
    · exact ih h.tail _ _

/-- What was written is read back. -/
theorem lexTokens_written (h : Legible ms) : lexTokens (written ms) = layout 0 ms := by
  rw [lexTokens, scanText, written, String.toList_ofList]
  exact tokens_scan_markChars h false 0

theorem mem_layout {t : Token} (h : t ∈ layout i ms) :
    t.kind = .eof ∨ t.kind = .whitespace ∨ ∃ m ∈ ms, t.kind = m.kind := by
  induction ms generalizing i with
  | nil => exact .inl (by simp_all [layout])
  | cons m ms ih =>
    rw [layout, Mark.tokens, List.cons_append, List.mem_cons, List.mem_append] at h
    obtain rfl | h | h := h
    · exact .inr (.inr ⟨m, by simp, rfl⟩)
    · split at h
      · exact .inr (.inl (by simp_all))
      · cases h
    · obtain heof | hspace | ⟨u, hu, hkind⟩ := ih h
      · exact .inl heof
      · exact .inr (.inl hspace)
      · exact .inr (.inr ⟨u, List.mem_cons_of_mem m hu, hkind⟩)

theorem lexErrors_written (h : Legible ms) : lexErrors (written ms) = [] := by
  rw [lexErrors_eq_nil, lexTokens_written h]
  intro t ht
  obtain hkind | hkind | ⟨m, hm, hkind⟩ := mem_layout ht
  · simp [hkind]
  · simp [hkind]
  · exact hkind ▸ (h.each m hm).kind_ne_error

end Reshape
