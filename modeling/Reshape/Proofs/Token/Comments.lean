import Mathlib.Data.List.Basic
import Reshape.Proofs.Token.Spacing

/-!
# Block comments are those of a nested grammar

A text that starts like a block comment is scanned with a counter of the comments that are open. The
counter finds what a grammar says: a block comment is an opening delimiter, a body and a closing
delimiter, and a body consists of comments and of characters at which no delimiter starts.

* `CommentBody` and `IsBlockComment` are the grammar.
* `commentEnd?_body` says that the counter passes a body at any depth, by induction on the body.
* `exists_bodies_of_commentEnd?` is the converse: where the counter comes to an end it has passed one
  body for each comment that was open, by induction on the scan.
* `head?_lexTokens_blockComment` puts both together for the first token of a text.
-/

namespace Reshape

/-! ## The grammar -/

/-- What stands between the delimiters of a block comment. Whether a delimiter starts at its last
character shows once the closing delimiter stands behind it. -/
inductive CommentBody : List Char → Prop
  | nil : CommentBody []
  | comment {inner body : List Char} : CommentBody inner → CommentBody body →
      CommentBody ('/' :: '*' :: (inner ++ '*' :: '/' :: body))
  | char {c : Char} {body : List Char} : ¬ ['/', '*'] <+: c :: (body ++ ['*', '/']) →
      ¬ ['*', '/'] <+: c :: (body ++ ['*', '/']) → CommentBody body → CommentBody (c :: body)

/-- A block comment: a body between its delimiters. -/
def IsBlockComment (cs : List Char) : Prop :=
  ∃ body, CommentBody body ∧ cs = '/' :: '*' :: (body ++ ['*', '/'])

/-! ## The scan passes bodies -/

section Scan

variable {depth n : Nat} {c : Char} {cs body rest : List Char}

/-- A character at which no delimiter starts is passed. -/
theorem commentEnd?_cons (hopen : ¬ ['/', '*'] <+: c :: cs) (hclose : ¬ ['*', '/'] <+: c :: cs)
    (depth : Nat) : commentEnd? depth (c :: cs) = (commentEnd? depth cs).map (· + 1) := by
  have hmark (d e : Char) (ds : List Char) : [d, e] <+: d :: e :: ds := ⟨ds, rfl⟩
  rw [commentEnd?]
  · rintro ds rfl rfl
    exact hopen (hmark ..)
  · rintro ds - rfl rfl
    exact hclose (hmark ..)
  · rintro k ds - rfl rfl
    exact hclose (hmark ..)

/-- Two characters start a list whatever follows the two delimiters behind it. -/
theorem prefix_around (a b c : Char) (body rest : List Char) :
    [a, b] <+: c :: (body ++ '*' :: '/' :: rest) ↔ [a, b] <+: c :: (body ++ ['*', '/']) := by
  cases body <;> simp [List.cons_prefix_cons]

theorem commentEnd?_body (h : CommentBody body) (depth : Nat) (rest : List Char) :
    commentEnd? depth (body ++ '*' :: '/' :: rest) =
      (commentEnd? depth ('*' :: '/' :: rest)).map (· + body.length) := by
  induction h generalizing depth rest with
  | nil => simp
  | @comment inner body _ _ ihinner ihbody =>
    have hinner : commentEnd? (depth + 1) (inner ++ '*' :: '/' :: (body ++ '*' :: '/' :: rest)) =
        (commentEnd? depth ('*' :: '/' :: rest)).map (· + (inner.length + body.length + 2)) := by
      rw [ihinner, commentEnd?, ihbody, Option.map_map, Option.map_map]
      congr 1
      funext n
      simp only [Function.comp_apply]
      omega
    simp only [List.cons_append, List.append_assoc]
    rw [commentEnd?, hinner, Option.map_map]
    congr 1
    funext n
    simp only [Function.comp_apply, List.length_cons, List.length_append]
    omega
  | @char c body hopen hclose _ ih =>
    rw [List.cons_append, commentEnd?_cons (mt (prefix_around ..).1 hopen)
      (mt (prefix_around ..).1 hclose), ih, Option.map_map]
    rfl

/-- The scan of an open comment ends behind the body that stands there. -/
theorem commentEnd?_zero_body (h : CommentBody body) (rest : List Char) :
    commentEnd? 0 (body ++ '*' :: '/' :: rest) = some (body.length + 2) := by
  rw [commentEnd?_body h, commentEnd?, Option.map_some, Nat.add_comm]

/-- Where the scan ends it has passed a body with its closing delimiter for each open comment. -/
theorem exists_bodies_of_commentEnd? (h : commentEnd? depth cs = some n) :
    ∃ (bodies : List (List Char)) (rest : List Char), bodies.length = depth + 1 ∧ (∀ body ∈ bodies, CommentBody body) ∧
      cs = bodies.flatMap (· ++ ['*', '/']) ++ rest := by
  fun_induction commentEnd? depth cs generalizing n with
  | case1 => cases h
  | case2 depth cs ih =>
    obtain ⟨m, hm, rfl⟩ := Option.map_eq_some_iff.1 h
    obtain ⟨_ | ⟨inner, _ | ⟨body, bodies⟩⟩, rest, hlength, hbodies, rfl⟩ := ih hm
    · cases hlength
    · cases hlength
    · -- The two innermost bodies become one, with the comment that was opened inside it.
      refine ⟨('/' :: '*' :: (inner ++ '*' :: '/' :: body)) :: bodies, rest,
        Nat.succ.inj hlength, ?_, by simp⟩
      simp only [List.forall_mem_cons] at hbodies ⊢
      exact ⟨.comment hbodies.1 hbodies.2.1, hbodies.2.2⟩
  | case3 cs => exact ⟨[[]], cs, rfl, by simp [CommentBody.nil], rfl⟩
  | case4 depth cs ih =>
    obtain ⟨m, hm, rfl⟩ := Option.map_eq_some_iff.1 h
    obtain ⟨bodies, rest, hlength, hbodies, rfl⟩ := ih hm
    exact ⟨[] :: bodies, rest, by simp [hlength], List.forall_mem_cons.2 ⟨.nil, hbodies⟩, rfl⟩
  | case5 depth c cs hopen hclose hclose' ih =>
    obtain ⟨m, hm, rfl⟩ := Option.map_eq_some_iff.1 h
    obtain ⟨_ | ⟨body, bodies⟩, rest, hlength, hbodies, rfl⟩ := ih hm
    · cases hlength
    have hcons : (body :: bodies).flatMap (· ++ ['*', '/']) ++ rest =
        body ++ '*' :: '/' :: (bodies.flatMap (· ++ ['*', '/']) ++ rest) := by simp
    have hnotopen : ¬ ['/', '*'] <+: c :: (body ++ ['*', '/']) := by
      rw [← prefix_around, ← hcons]
      rintro ⟨ds, hds⟩
      exact hopen ds (List.cons.inj hds).1.symm (List.cons.inj hds).2.symm
    have hnotclose : ¬ ['*', '/'] <+: c :: (body ++ ['*', '/']) := by
      rw [← prefix_around, ← hcons]
      rintro ⟨ds, hds⟩
      obtain ⟨hc, hrest⟩ := List.cons.inj hds
      cases depth with
      | zero => exact hclose ds rfl hc.symm hrest.symm
      | succ depth => exact hclose' depth ds rfl hc.symm hrest.symm
    refine ⟨(c :: body) :: bodies, rest, hlength, ?_, by simp⟩
    simp only [List.forall_mem_cons] at hbodies ⊢
    exact ⟨.char hnotopen hnotclose hbodies.1, hbodies.2⟩

/-- The scan of an open comment ends if and only if a body and the closing delimiter stand there. -/
theorem commentEnd?_zero_eq_some_iff : commentEnd? 0 cs = some n ↔
    ∃ body rest, CommentBody body ∧ cs = body ++ '*' :: '/' :: rest ∧ n = body.length + 2 := by
  constructor
  · intro h
    obtain ⟨bodies, rest, hlength, hbodies, rfl⟩ := exists_bodies_of_commentEnd? h
    obtain ⟨body, rfl⟩ := List.length_eq_one_iff.1 hlength
    have hbody : CommentBody body := hbodies body (List.mem_singleton_self body)
    refine ⟨body, rest, hbody, by simp, ?_⟩
    rw [List.flatMap_singleton, List.append_assoc] at h
    exact Option.some.inj (h.symm.trans (commentEnd?_zero_body hbody rest))
  · rintro ⟨body, rest, hbody, rfl, rfl⟩
    exact commentEnd?_zero_body hbody rest

end Scan

/-! ## The first token of a text -/

section Token

variable {cs p q : List Char}

/-- At most one prefix of a text is a block comment. -/
theorem IsBlockComment.eq_of_prefix (hp : IsBlockComment p) (hpre : p <+: cs)
    (hq : IsBlockComment q) (hqre : q <+: cs) : p = q := by
  obtain ⟨body, hbody, rfl⟩ := hp
  obtain ⟨body', hbody', rfl⟩ := hq
  obtain ⟨rest, rfl⟩ := hpre
  obtain ⟨rest', hrest'⟩ := hqre
  have htail : body' ++ '*' :: '/' :: rest' = body ++ '*' :: '/' :: rest := by
    simpa using hrest'
  have hlength : body.length + 2 = body'.length + 2 := Option.some.inj <| by
    rw [← commentEnd?_zero_body hbody rest, ← htail, commentEnd?_zero_body hbody' rest']
  rw [(List.append_inj htail.symm (by omega)).1]

/-- Behind an opening delimiter a block comment is scanned if there is one, and else everything is
taken. -/
theorem lexeme_blockComment (afterDot : Bool) (cs : List Char) :
    (∃ p, IsBlockComment p ∧ p <+: '/' :: '*' :: cs ∧
        lexeme afterDot '/' ('*' :: cs) = .token .comment (p.length - 1)) ∨
      (¬ ∃ p, IsBlockComment p ∧ p <+: '/' :: '*' :: cs) ∧
        lexeme afterDot '/' ('*' :: cs) = .faulty .unterminatedBlockComment (1 + cs.length) := by
  rw [lexeme_slash, slashLexeme]
  cases hend : commentEnd? 0 cs with
  | some n =>
    obtain ⟨body, rest, hbody, rfl, rfl⟩ := commentEnd?_zero_eq_some_iff.1 hend
    refine .inl ⟨'/' :: '*' :: (body ++ ['*', '/']), ⟨body, hbody, rfl⟩, ⟨rest, by simp⟩, ?_⟩
    simp [Nat.add_comm]
  | none =>
    refine .inr ⟨?_, rfl⟩
    rintro ⟨p, ⟨body, hbody, rfl⟩, rest, hrest⟩
    have hcs : cs = body ++ '*' :: '/' :: rest := by simpa using hrest.symm
    rw [hcs, commentEnd?_zero_body hbody] at hend
    cases hend

end Token

/-- The tokens of a scan lie at or behind the place where it starts. -/
theorem start_le_of_mem_scan {afterDot : Bool} {i : Nat} {cs : List Char} {s : ScannedToken}
    (h : s ∈ scan afterDot i cs) : i ≤ s.token.start :=
  (bounds_of_contiguous (contiguous_scan afterDot i cs) (List.mem_map_of_mem h)).1

/-- **A text that starts like a block comment** either has a prefix in the grammar of block comments,
and then its first token is the comment that covers the shortest one, and nothing is wrong up to its
end; or it has none, and then the whole text is one token that is an error, and what is wrong is that
the comment does not end. -/
theorem head?_lexTokens_blockComment {text : String} (h : text.startsWith "/*" = true) :
    ((∃ p, IsBlockComment p ∧ p <+: text.toList) →
      ∃ p, IsBlockComment p ∧ p <+: text.toList ∧
        (∀ q, IsBlockComment q → q <+: text.toList → p.length ≤ q.length) ∧
        (lexTokens text).head? = some ⟨.comment, 0, String.ofList p⟩ ∧
        ∀ e ∈ lexErrors text, (String.ofList p).utf8ByteSize ≤ e.1.start) ∧
    ((¬ ∃ p, IsBlockComment p ∧ p <+: text.toList) →
      (lexTokens text).head? = some ⟨.error, 0, text⟩ ∧
        lexErrors text = [(⟨0, text.utf8ByteSize⟩, .unterminatedBlockComment)]) := by
  obtain ⟨cs, hcs⟩ : ∃ cs, '/' :: '*' :: cs = text.toList := String.startsWith_string_iff.1 h
  have hscan : scanText text = scan false 0 ('/' :: '*' :: cs) := by rw [scanText, hcs]
  rw [lexTokens, lexErrors, hscan, ← hcs, scan]
  obtain ⟨p, hp, hpre, hlex⟩ | ⟨hnone, hlex⟩ := lexeme_blockComment false cs
  · refine ⟨fun _ => ⟨p, hp, hpre, fun q hq hqre => ?_, ?_⟩,
      fun hnone => absurd ⟨p, hp, hpre⟩ hnone⟩
    · exact Nat.le_of_eq (congrArg List.length (hp.eq_of_prefix hpre hq hqre))
    have hchars : '/' :: ('*' :: cs).take (p.length - 1) = p := by
      obtain ⟨body, -, rfl⟩ := hp
      exact (List.prefix_iff_eq_take.1 hpre).symm
    rw [hlex, Lexeme.token, hchars]
    refine ⟨rfl, fun e he => ?_⟩
    rw [List.filterMap_cons_none rfl] at he
    obtain ⟨s, hs, f, -, rfl⟩ : ∃ s ∈ scan _ _ _, ∃ f, s.fault = some f ∧ (s.token.span, f) = e := by
      simpa using List.mem_filterMap.1 he
    simpa [Token.span, Token.stop] using start_le_of_mem_scan hs
  · refine ⟨fun hsome => absurd hsome hnone, fun _ => ?_⟩
    have hlength : ('*' :: cs).length ≤ 1 + cs.length := by simp [Nat.add_comm]
    have htake : ('*' :: cs).take (1 + cs.length) = '*' :: cs := List.take_of_length_le hlength
    have hdrop : ('*' :: cs).drop (1 + cs.length) = [] := List.drop_of_length_le hlength
    rw [hlex, Lexeme.faulty, htake, hdrop, hcs, String.ofList_toList, scan]
    refine ⟨rfl, ?_⟩
    simp [Token.span, Token.stop]

/-- A comment inside a comment is closed by itself, and a star does not close and open at once. -/
theorem head?_lexTokens_blockComment_nested :
    (∃ p, IsBlockComment p ∧ p <+: "/*/**/*/x".toList ∧
      (∀ q, IsBlockComment q → q <+: "/*/**/*/x".toList → p.length ≤ q.length) ∧
      (lexTokens "/*/**/*/x").head? = some ⟨.comment, 0, String.ofList p⟩ ∧
      ∀ e ∈ lexErrors "/*/**/*/x", (String.ofList p).utf8ByteSize ≤ e.1.start) ∧
    (lexTokens "/*/").head? = some ⟨.error, 0, "/*/"⟩ ∧
      lexErrors "/*/" = [(⟨0, 3⟩, .unterminatedBlockComment)] := by
  have hcomment : IsBlockComment ['/', '*', '/', '*', '*', '/', '*', '/'] :=
    ⟨['/', '*', '*', '/'], .comment .nil .nil, rfl⟩
  have hnone : ¬ ∃ p, IsBlockComment p ∧ p <+: "/*/".toList := by
    obtain ⟨p, -, -, hlex⟩ | ⟨hnone, -⟩ := lexeme_blockComment false ['/']
    · have hkind : (lexeme false '/' ['*', '/']).kind = .error := by decide
      rw [hlex] at hkind
      cases hkind
    · exact hnone
  exact ⟨(head?_lexTokens_blockComment (String.startsWith_string_iff.2 ⟨_, rfl⟩)).1
      ⟨_, hcomment, ['x'], rfl⟩,
    (head?_lexTokens_blockComment (String.startsWith_string_iff.2 ⟨_, rfl⟩)).2 hnone⟩

end Reshape
