import Reshape.Convert.Declaration
import Reshape.Proofs.Convert.FieldLists
import Reshape.Proofs.Convert.FieldTypes

/-!
# Where clauses behind positional fields

The where clause of a struct is taken over as it is written, without the blanks and the comma that end
it, and a semicolon is put behind it on the same line. The clause of a faultless file is read again as
it was. The semicolon is read as one unless what ends the clause is a comment that runs to the end of its
line, which swallows it.

* `exists_trimClause` says what trimming leaves, `Node.exists_kept` which tokens of a clause are left.
* `Node.exists_clauseAt` says what stands between a clause and the place of the fields.
* `words_declarationEdit` is the result. `semicolon_swallowed` are edits whose semicolon is lost.
-/

namespace Reshape

open Reshape.Tree

/-! ## Trimming -/

theorem trimBlanksEnd_append {cs ds : List Char} (hds : ∀ d ∈ ds, isBlank d = true) :
    trimBlanksEnd (cs ++ ds) = trimBlanksEnd cs := by
  rw [trimBlanksEnd, List.reverse_append, List.dropWhile_append_of_pos fun d hd =>
    hds d (List.mem_reverse.1 hd), trimBlanksEnd]

/-- Nothing but blanks and commas is taken off a clause, if there is at most one comma behind it. -/
theorem exists_trimClause {cs ds : List Char} (hds : ∀ d ∈ ds, isBlank d = true) {comma : List Char}
    (hcomma : comma = [] ∨ comma = [',']) :
    ∃ off, cs = trimClause (cs ++ (ds ++ comma)) ++ off ∧ ∀ d ∈ off, isLoose d = true := by
  have hblanks (es : List Char) : ∃ off, es = trimBlanksEnd es ++ off ∧ ∀ d ∈ off, isLoose d = true := by
    obtain ⟨off, hoff, hblank⟩ := exists_trimBlanksEnd es
    exact ⟨off, hoff, fun d hd => isLoose_of_isBlank (hblank d hd)⟩
  have hcommas (es : List Char) : ∃ off, es = (es.reverse.dropWhile (· = ',')).reverse ++ off ∧
      ∀ d ∈ off, isLoose d = true := by
    obtain ⟨hoff, hmark, -⟩ := trimmed_append (fun d => decide (d = ',')) es
    exact ⟨_, hoff, fun d hd => by rw [of_decide_eq_true (hmark d hd)]; decide⟩
  -- Parts that are loose are taken off one after the other.
  have htrans {es fs gs : List Char} (h : ∃ off, es = fs ++ off ∧ ∀ d ∈ off, isLoose d = true)
      (h' : ∃ off, fs = gs ++ off ∧ ∀ d ∈ off, isLoose d = true) :
      ∃ off, es = gs ++ off ∧ ∀ d ∈ off, isLoose d = true := by
    obtain ⟨off, rfl, hoff⟩ := h
    obtain ⟨off', rfl, hoff'⟩ := h'
    exact ⟨off' ++ off, List.append_assoc .., List.forall_mem_append.2 ⟨hoff', hoff⟩⟩
  rw [trimClause]
  obtain rfl | rfl := hcomma
  · rw [List.append_nil, trimBlanksEnd_append hds]
    exact htrans (hblanks cs) (htrans (hcommas _) (hblanks _))
  · have hend : trimBlanksEnd (cs ++ (ds ++ [','])) = cs ++ ds ++ [','] := by
      rw [← List.append_assoc]
      simp [trimBlanksEnd, show isBlank ',' = false by decide]
    rw [hend, List.reverse_append, List.reverse_singleton, List.singleton_append,
      List.dropWhile_cons_of_pos (by decide)]
    obtain rfl | ⟨es, e, rfl⟩ := List.eq_nil_or_concat ds
    · rw [List.append_nil]
      exact htrans (hcommas cs) (hblanks _)
    · have he : e ≠ ',' := by
        rintro rfl
        have := hds ',' (by simp)
        revert this
        decide
      rw [List.concat_eq_append] at hds ⊢
      have hkeep : ((cs ++ (es ++ [e])).reverse.dropWhile (· = ',')).reverse = cs ++ (es ++ [e]) := by
        simp [he]
      rw [hkeep, trimBlanksEnd_append hds]
      exact hblanks cs

/-! ## The tokens of a clause -/

/-- Tokens without the comma that ends them. -/
def dropComma (ts : List Token) : List Token :=
  if ts.getLast?.any (·.kind == .comma) then ts.dropLast else ts

/-- Whether what ends a node, blanks and commas apart, is a comment that runs to the end of its line. -/
def Node.endsInLineComment (n : Node) : Bool :=
  (n.tree.leaves.filter fun t => t.kind != .whitespace && t.kind != .comma).getLast?.any
    (·.isLineComment)

/-- The tokens of a clause are those that are kept when it is trimmed, blanks, and a comma or none. -/
structure Kept (tokens kept blanks comma : List Token) : Prop where
  tokens_eq : tokens = kept ++ (blanks ++ comma)
  last : ∀ t ∈ kept.getLast?, t.kind ≠ .whitespace
  lastWord : ∀ t ∈ (significant kept).getLast?, t.kind ≠ .comma
  blanks_kind : ∀ t ∈ blanks, t.kind = .whitespace
  comma_eq : comma = [] ∨ ∃ c, comma = [c] ∧ c.kind = .comma

theorem significant_append (ts us : List Token) :
    significant (ts ++ us) = significant ts ++ significant us :=
  List.filter_append ..

theorem significant_singleton {t : Token} (h : t.isTrivia = false) : significant [t] = [t] := by
  simp [significant, h]

theorem isTrivia_of_kind_eq {t : Token} {k : TokenKind} (h : t.kind = k) : t.isTrivia = k.isTrivia := by
  rw [Token.isTrivia, h]

theorem wordsOf_append (ts us : List Token) : wordsOf (ts ++ us) = wordsOf ts ++ wordsOf us := by
  simp [wordsOf]

theorem wordsOf_significant (ts : List Token) : wordsOf (significant ts) = wordsOf ts := by
  rw [wordsOf, significant, List.filter_filter, wordsOf]
  congr 1
  refine List.filter_congr fun t _ => ?_
  cases h : t.isTrivia <;> simp [Token.isWord, h]

theorem wordsOf_of_isTrivia {ts : List Token} (h : ∀ t ∈ ts, t.isTrivia = true) : wordsOf ts = [] := by
  rw [← wordsOf_significant, significant_of_isTrivia h]
  rfl

namespace Kept

variable {ts kept blanks comma : List Token}

theorem significant_blanks (h : Kept ts kept blanks comma) : significant blanks = [] :=
  significant_of_isTrivia fun t ht => isTrivia_of_kind_eq (h.blanks_kind t ht)

/-- What is kept does not end with a comma. -/
theorem kind_ne_comma (h : Kept ts kept blanks comma) : ∀ t ∈ kept.getLast?, t.kind ≠ .comma := by
  intro t ht hcomma
  obtain ⟨us, rfl⟩ := List.getLast?_eq_some_iff.1 ht
  refine h.lastWord t ?_ hcomma
  rw [significant_append, significant_singleton (isTrivia_of_kind_eq hcomma), List.getLast?_concat]
  rfl

/-- The words that are kept are those of the clause without a comma at its end. -/
theorem wordsOf_eq (h : Kept ts kept blanks comma) :
    wordsOf kept = wordsOf (dropComma (significant ts)) := by
  rw [h.tokens_eq, significant_append, significant_append, h.significant_blanks, List.nil_append]
  obtain rfl | ⟨c, rfl, hc⟩ := h.comma_eq
  · rw [show significant [] = [] from rfl, List.append_nil, dropComma, if_neg, wordsOf_significant]
    cases hkept : (significant kept).getLast? with
    | none => simp
    | some t => simpa using h.lastWord t hkept
  · rw [significant_singleton (isTrivia_of_kind_eq hc), dropComma, List.getLast?_concat,
      if_pos (by simp [hc]), List.dropLast_concat, wordsOf_significant]

/-- What ends the clause, blanks and commas apart, is what ends the tokens that are kept. -/
theorem getLast?_filter (h : Kept ts kept blanks comma) :
    (ts.filter fun t => t.kind != .whitespace && t.kind != .comma).getLast? = kept.getLast? := by
  have hblanks : blanks.filter (fun t => t.kind != .whitespace && t.kind != .comma) = [] :=
    List.filter_eq_nil_iff.2 fun t ht => by simp [h.blanks_kind t ht]
  have hcomma : comma.filter (fun t => t.kind != .whitespace && t.kind != .comma) = [] := by
    obtain rfl | ⟨c, rfl, hc⟩ := h.comma_eq
    · rfl
    · simp [hc]
  rw [h.tokens_eq, List.filter_append, List.filter_append, hblanks, hcomma, List.append_nil,
    List.append_nil]
  obtain rfl | ⟨us, u, rfl⟩ := List.eq_nil_or_concat kept
  · rfl
  · rw [List.concat_eq_append] at h ⊢
    rw [List.filter_append, List.filter_cons_of_pos (by
      simp [h.last u (by simp), h.kind_ne_comma u (by simp)]), List.filter_nil, List.getLast?_concat,
      List.getLast?_concat]

end Kept

/-- Blanks are taken off tokens whose last significant one is no comma. -/
theorem exists_kept_of_significant {ts : List Token}
    (h : ∀ t ∈ (significant ts).getLast?, t.kind ≠ .comma) : ∃ kept blanks, Kept ts kept blanks [] := by
  obtain ⟨hts, hblanks, hlast⟩ := trimmed_append (fun t : Token => t.kind == .whitespace) ts
  generalize (ts.reverse.dropWhile fun t : Token => t.kind == .whitespace).reverse = kept at hts hlast
  generalize (ts.reverse.takeWhile fun t : Token => t.kind == .whitespace).reverse = blanks at *
  have hkind : ∀ t ∈ blanks, t.kind = .whitespace := fun t ht => beq_iff_eq.1 (hblanks t ht)
  have hnil : significant blanks = [] :=
    significant_of_isTrivia fun t ht => isTrivia_of_kind_eq (hkind t ht)
  rw [hts, significant_append, hnil, List.append_nil] at h
  exact ⟨kept, blanks, by rw [List.append_nil, hts], fun t ht => by simpa using hlast t ht, h, hkind,
    .inl rfl⟩

namespace Node

variable {text : String} {n clause : Node}

theorem mem_leaves_of_mem_constituents {k : TokenKind} (h : .token k ∈ n.constituents) :
    ∃ u ∈ n.tree.leaves, u.kind = k ∧ u.isTrivia = false := by
  obtain ⟨t, ht, hconst⟩ := List.mem_filterMap.1 h
  obtain ⟨u, rfl, htrivia, hkind⟩ := constituent?_eq_token.1 hconst
  refine ⟨u, ?_, hkind, htrivia⟩
  rw [tree, leaves, forestLeaves_eq_flatMap]
  exact List.mem_flatMap.2 ⟨_, ht, by simp [leaves]⟩

/-- A predicate of a where clause has a last word, which is no comma. -/
theorem lastWord_of_wherePred (h : Faultless text) (hn : Below (ofTree (parseFile text).tree) n)
    (hkind : n.kind = .wherePred) :
    ∃ u, (significant n.tree.leaves).getLast? = some u ∧ u.kind ≠ .comma := by
  obtain ⟨first, t, hfits, hinside, -, -, hlast⟩ := fits_of_below h hn (by simp [hkind])
  obtain ⟨hcomma, hcolon⟩ : t.last ≠ some .comma ∧ .token .colon ∈ t.inside := by
    rw [hkind] at hfits
    exact hfits
  obtain ⟨v, hv, -, htrivia⟩ := mem_leaves_of_mem_constituents (hinside ▸ hcolon)
  have hne : significant n.tree.leaves ≠ [] :=
    List.ne_nil_of_mem (List.mem_filter.2 ⟨hv, by simp [htrivia]⟩)
  have hsome := List.getLast?_eq_some_getLast hne
  refine ⟨_, hsome, fun hkind => hcomma ?_⟩
  rw [hlast _ hsome, hkind]

/-- The trees before the comma that ends a where clause end with a predicate and trivia. -/
theorem lastWord_of_comma (h : Faultless text) (hn : Below (ofTree (parseFile text).tree) clause)
    {before : List Tree} {c : Token} (helements : clause.elements = before ++ [.leaf c])
    {xs : List Constituent} (hbefore : before.filterMap (·.constituent?) = xs ++ [.node .wherePred]) :
    ∀ u ∈ (significant (forestLeaves before)).getLast?, u.kind ≠ .comma := by
  obtain ⟨front, back, rfl, -, hback⟩ := List.filterMap_eq_append_iff.1 hbefore
  obtain ⟨trivia, x, rest, rfl, -, hx, hrest⟩ := List.filterMap_eq_cons_iff.1 hback
  have hsplit : clause.elements = (front ++ trivia) ++ x :: (rest ++ [.leaf c]) := by simp [helements]
  have hx := constituent?_eq_node.1 hx
  obtain ⟨m, hm, rfl⟩ := exists_child_of_append hx hsplit
  obtain ⟨v, hv, hcomma⟩ := lastWord_of_wherePred h (hn.child hm) (Option.some.inj hx)
  intro u hu
  rw [forestLeaves_append, forestLeaves_append, forestLeaves, significant_append, significant_append,
    significant_append, significant_of_isTrivia (isTrivia_of_constituents hrest), List.append_nil,
    ← List.append_assoc, List.getLast?_append, hv] at hu
  cases hu
  exact hcomma

/-- What is left of a where clause when it is trimmed. -/
theorem exists_kept (h : Faultless text) (hn : Below (ofTree (parseFile text).tree) clause)
    (hkind : clause.kind = .whereClause) :
    ∃ kept blanks comma, Kept clause.tree.leaves kept blanks comma ∧
      ∃ u, kept.head? = some u ∧ u.kind = .keyword .whereKw := by
  obtain ⟨first, t, hfits, hinside, hflush, hfirst, hlast⟩ := fits_of_below h hn (by simp [hkind])
  obtain ⟨hstage, rfl, hword, hcomma⟩ : t.flush = true ∧ first = .keyword .whereKw ∧
      .token (.keyword .whereKw) ∈ t.inside ∧
      (t.last = some .comma → ∃ xs, t.inside = xs ++ [.node .wherePred, .token .comma]) := by
    rw [hkind] at hfits
    exact hfits
  obtain ⟨kept, blanks, comma, hkept⟩ :
      ∃ kept blanks comma, Kept clause.tree.leaves kept blanks comma := by
    by_cases hend : t.last = some .comma
    · obtain ⟨xs, hxs⟩ := hcomma hend
      have hsplit : clause.constituents = (xs ++ [.node .wherePred]) ++ .token .comma :: [] := by
        rw [← hinside, hxs]
        simp
      obtain ⟨before, x, behind, helements, hbefore, hx, hbehind⟩ := exists_elements hsplit
      obtain ⟨c, rfl, -, hc⟩ := constituent?_eq_token.1 hx
      -- No trivia stand behind the comma.
      obtain rfl | ⟨us, x, rfl⟩ := List.eq_nil_or_concat behind
      · obtain ⟨kept, blanks, hkept⟩ :=
          exists_kept_of_significant (lastWord_of_comma h hn helements hbefore)
        refine ⟨kept, blanks, [c], ⟨?_, hkept.last, hkept.lastWord, hkept.blanks_kind, .inr ⟨c, rfl, hc⟩⟩⟩
        rw [tree, leaves, helements, forestLeaves_append, hkept.tokens_eq, List.append_nil,
          List.append_assoc]
        rfl
      · rw [List.concat_eq_append] at helements hbehind
        obtain ⟨v, rfl, hv⟩ := constituent?_eq_none.1 (List.filterMap_eq_nil_iff.1 hbehind x (by simp))
        have hall := hflush hstage (.leaf v) (by
          rw [helements, ← List.cons_append, ← List.append_assoc, List.getLast?_concat]
          rfl)
        simp [token?, hv] at hall
    · obtain ⟨kept, blanks, hkept⟩ := exists_kept_of_significant fun u hu hcomma => hend (by
        rw [hlast u hu, hcomma])
      exact ⟨kept, blanks, [], hkept⟩
  refine ⟨kept, blanks, comma, hkept, ?_⟩
  obtain ⟨v, hv, -, -⟩ := mem_leaves_of_mem_constituents (hinside ▸ hword)
  obtain ⟨u, us, hleaves⟩ := List.exists_cons_of_ne_nil (List.ne_nil_of_mem hv)
  have hu := hfirst u (by rw [hleaves]; rfl)
  have htokens := hkept.tokens_eq
  rw [hleaves] at htokens
  cases kept with
  | cons w ws =>
    obtain ⟨rfl, -⟩ := List.cons.inj htokens
    exact ⟨u, rfl, hu⟩
  | nil =>
    have hmem : u ∈ blanks ++ comma := by
      rw [← List.nil_append (blanks ++ comma), ← htokens]
      exact List.mem_cons_self
    obtain hmem | hmem := List.mem_append.1 hmem
    · rw [hkept.blanks_kind u hmem] at hu
      cases hu
    · obtain rfl | ⟨c, rfl, hc⟩ := hkept.comma_eq
      · cases hmem
      · rw [List.mem_singleton.1 hmem, hc] at hu
        cases hu

end Node

/-! ## The words of a trimmed clause -/

section

variable {text : String} {before gap ts behind kept blanks comma : List Token}

/-- Trimming a clause takes nothing off the tokens that are kept but what is loose at their end. -/
theorem Kept.exists_trimClause (h : Kept ts kept blanks comma)
    (hts : ∀ t ∈ ts, t ∈ lexTokens text) :
    ∃ off, (tokensText kept).toList = trimClause (tokensText ts).toList ++ off ∧
      ∀ d ∈ off, isLoose d = true := by
  have hblanks : ∀ d ∈ (tokensText blanks).toList, isBlank d = true := by
    intro d hd
    rw [tokensText, String.toList_join, List.mem_flatMap] at hd
    obtain ⟨_, hd', hd⟩ := hd
    obtain ⟨t, ht, rfl⟩ := List.mem_map.1 hd'
    have hkind := h.blanks_kind t ht
    have hmem : t ∈ lexTokens text := hts t (by rw [h.tokens_eq]; simp [ht])
    obtain ⟨-, hblank⟩ | ⟨hcomment, -⟩ := toList_of_isTrivia hmem (isTrivia_of_kind_eq hkind)
    · exact hblank d hd
    · cases hkind.symm.trans hcomment
  have hcomma : (tokensText comma).toList = [] ∨ (tokensText comma).toList = [','] := by
    obtain rfl | ⟨c, rfl, hc⟩ := h.comma_eq
    · exact .inl rfl
    · right
      have hmem : c ∈ lexTokens text := hts c (by rw [h.tokens_eq]; simp)
      rw [tokensText_cons, String.toList_append, toList_of_comma hmem hc]
      rfl
  have htext : (tokensText ts).toList =
      (tokensText kept).toList ++ ((tokensText blanks).toList ++ (tokensText comma).toList) := by
    rw [h.tokens_eq, tokensText_append, tokensText_append, String.toList_append, String.toList_append]
  rw [htext]
  exact Reshape.exists_trimClause hblanks hcomma

theorem parts_semicolon : Parts [';'] := by
  rintro d ⟨⟩
  exact .inr rfl

theorem readsAs_semicolon (afterDot : Bool) : readsAs afterDot [';'] = [(.semicolon, ";")] := by
  rw [readsAs_cons (by rfl)]
  exact congrArg _ (readsAs_nil _)

theorem head?_significant (hgap : ∀ t ∈ gap, t.isTrivia = true)
    (hfirst : ∃ u, kept.head? = some u ∧ u.kind = .keyword .whereKw) :
    ∀ w ∈ (significant (gap ++ kept)).head?, w.kind ≠ .intLiteral ∧ w.kind ≠ .floatLiteral := by
  obtain ⟨u, hu, hkind⟩ := hfirst
  obtain ⟨us, rfl⟩ := List.head?_eq_some_iff.1 hu
  rw [significant_append, significant_of_isTrivia hgap, List.nil_append, significant,
    List.filter_cons_of_pos (by simp [isTrivia_of_kind_eq hkind, TokenKind.isTrivia])]
  rintro w ⟨⟩
  simp [hkind]

/-- Tokens that end firmly are followed by the semicolon. -/
theorem readsAs_semicolon_of_firm (herrors : lexErrors text = [])
    (htokens : lexTokens text = before ++ ((gap ++ kept) ++ behind)) (hbehind : behind ≠ [])
    (hgap : ∀ t ∈ gap, t.isTrivia = true)
    (hfirst : ∃ u, kept.head? = some u ∧ u.kind = .keyword .whereKw)
    (hlast : ∀ t ∈ kept.getLast?, t.isLineComment = false) :
    readsAs false ((tokensText gap).toList ++ ((tokensText kept).toList ++ [';'])) =
      wordsOf kept ++ [(.semicolon, ";")] := by
  have hne : kept ≠ [] := by
    rintro rfl
    obtain ⟨u, ⟨⟩, -⟩ := hfirst
  obtain ⟨a, ha⟩ := readsAs_middle herrors htokens hbehind (head?_significant hgap hfirst)
    (fun t ht => hlast t (by rwa [List.getLast?_append_of_ne_nil _ hne] at ht)) 0 parts_semicolon false
  rw [List.take_zero, List.nil_append, readsAs_semicolon, tokensText_append, String.toList_append,
    List.append_assoc, wordsOf_append, wordsOf_of_isTrivia hgap, List.nil_append] at ha
  exact ha

/-- A comment that runs to the end of its line swallows the semicolon. -/
theorem readsAs_semicolon_swallowed {t : Token} {front : List Token} {left off : List Char}
    (herrors : lexErrors text = [])
    (htokens : lexTokens text = before ++ ((gap ++ (front ++ [t])) ++ behind))
    (hgap : ∀ t ∈ gap, t.isTrivia = true)
    (hfirst : ∃ u, (front ++ [t]).head? = some u ∧ u.kind = .keyword .whereKw)
    (hline : t.isLineComment = true) (htext : t.text.toList = '/' :: '/' :: (left ++ off)) :
    readsAs false ((tokensText gap).toList ++
        (((tokensText front).toList ++ '/' :: '/' :: left) ++ [';'])) = wordsOf (front ++ [t]) := by
  obtain ⟨hcomment, -⟩ := Token.isLineComment_iff.1 hline
  have htrivia : t.isTrivia = true := isTrivia_of_kind_eq hcomment
  have hfeed : '\n' ∉ left ++ [';'] := by
    have hmem : t ∈ lexTokens text := by rw [htokens]; simp
    obtain ⟨hspace, -⟩ | ⟨-, ⟨body, hbody, hfeed⟩ | ⟨body, hbody, -⟩⟩ := toList_of_isTrivia hmem htrivia
    · cases hspace.symm.trans hcomment
    · cases htext.symm.trans hbody
      rw [List.mem_append, not_or] at hfeed ⊢
      exact ⟨hfeed.1, by decide⟩
    · cases htext.symm.trans hbody
  have hall : lexTokens text = before ++ ((gap ++ front) ++ t :: behind) := by
    rw [htokens]
    simp
  -- Behind a comment like this one there is a blank and not another comment.
  have hlast : ∀ v ∈ (gap ++ front).getLast?, v.isLineComment = false := by
    intro v hv
    by_contra hcut
    obtain ⟨us, hus⟩ := List.getLast?_eq_some_iff.1 hv
    rw [hus, List.append_assoc, ← List.append_assoc] at hall
    have hspace := kind_of_isLineComment hall (by simpa using hcut) (by simp [hcomment])
    cases hspace.symm.trans hcomment
  have hword : ∀ w ∈ (significant (gap ++ front)).head?, w.kind ≠ .intLiteral ∧ w.kind ≠ .floatLiteral :=
    fun w hw => head?_significant hgap hfirst w (by
      rw [← List.append_assoc, significant_append, List.head?_append, Option.mem_def.1 hw]
      rfl)
  obtain ⟨a, ha⟩ := readsAs_middle herrors hall (List.cons_ne_nil t behind) hword hlast (2 + left.length)
    parts_semicolon false
  have hcut : (tokensText (t :: behind)).toList.take (2 + left.length) = '/' :: '/' :: left := by
    rw [tokensText_cons, String.toList_append, htext, Nat.add_comm, List.cons_append, List.cons_append,
      List.take_succ_cons, List.take_succ_cons, List.append_assoc, List.take_left]
  have hone : wordsOf [t] = [] := wordsOf_of_isTrivia (by simpa using htrivia)
  rw [hcut, List.cons_append, List.cons_append, readsAs_lineComment a hfeed, tokensText_append,
    String.toList_append, List.append_assoc, wordsOf_append, wordsOf_of_isTrivia hgap] at ha
  rw [wordsOf_append, hone, List.append_assoc]
  exact ha

/-- The marks that start a comment are not loose. -/
theorem exists_left {cs ds body off : List Char} (h : cs ++ '/' :: '/' :: body = ds ++ off)
    (hoff : ∀ d ∈ off, isLoose d = true) :
    ∃ left, body = left ++ off ∧ ds = cs ++ '/' :: '/' :: left := by
  have hmarks : Firm (cs ++ ['/', '/']) := Firm.append_left cs ⟨'/', rfl, by decide⟩
  have hsplit : (cs ++ ['/', '/']) ++ body = ds ++ off := by simpa using h
  obtain ⟨left, hds, hbody⟩ | ⟨rest, hcs, hrest⟩ := List.append_eq_append_iff.1 hsplit
  · exact ⟨left, hbody, by simp [hds]⟩
  · rw [hcs] at hmarks
    have hnil := hmarks.eq_of_append fun d hd => hoff d (by rw [hrest]; exact List.mem_append_left _ hd)
    rw [hnil, List.append_nil] at hcs
    rw [hnil, List.nil_append] at hrest
    exact ⟨[], hrest.symm, hcs.symm⟩

/-- The clause is read as the words that are kept, and the semicolon behind it is read as one unless a
comment swallows it. -/
theorem readsAs_trimClause (herrors : lexErrors text = []) (h : Kept ts kept blanks comma)
    (htokens : lexTokens text = before ++ (gap ++ (ts ++ behind))) (hbehind : behind ≠ [])
    (hgap : ∀ t ∈ gap, t.isTrivia = true)
    (hfirst : ∃ u, kept.head? = some u ∧ u.kind = .keyword .whereKw) :
    readsAs false ((tokensText gap).toList ++ (trimClause (tokensText ts).toList ++ [';'])) =
      wordsOf kept ++ if kept.getLast?.any (·.isLineComment) then [] else [(.semicolon, ";")] := by
  have hmem : ∀ t ∈ ts, t ∈ lexTokens text := fun t ht => by rw [htokens]; simp [ht]
  obtain ⟨off, hoff, hloose⟩ := h.exists_trimClause hmem
  obtain ⟨front, t, rfl⟩ := (List.eq_nil_or_concat kept).resolve_left fun hnil => by
    obtain ⟨u, hu, -⟩ := hfirst
    rw [hnil] at hu
    cases hu
  rw [List.concat_eq_append] at *
  have hall : lexTokens text = before ++ ((gap ++ (front ++ [t])) ++ (blanks ++ comma ++ behind)) := by
    rw [htokens, h.tokens_eq]
    simp
  have hrest : blanks ++ comma ++ behind ≠ [] := fun hnil => hbehind (List.append_eq_nil_iff.1 hnil).2
  have htext : (tokensText (front ++ [t])).toList = (tokensText front).toList ++ t.text.toList := by
    rw [tokensText_append, String.toList_append, tokensText_cons, String.toList_append]
    simp [tokensText]
  rw [List.getLast?_concat, Option.any_some]
  cases hline : t.isLineComment with
  | false =>
    have heof : t.kind ≠ .eof :=
      kind_ne_eof_of_append (hall.trans (List.append_assoc ..).symm) hrest t (by simp)
    have hfirm : Firm (tokensText (front ++ [t])).toList := by
      rw [htext]
      exact (firm_of_mem_lexTokens herrors (hmem t (by rw [h.tokens_eq]; simp)) heof
        (h.last t (by simp)) (h.kind_ne_comma t (by simp)) hline).append_left _
    -- Nothing is loose at the end of what is kept.
    rw [hoff] at hfirm
    rw [hfirm.eq_of_append hloose, List.append_nil] at hoff
    rw [← hoff]
    exact readsAs_semicolon_of_firm herrors hall hrest hgap hfirst (by simpa using hline)
  | true =>
    obtain ⟨-, body, hbody⟩ := Token.isLineComment_iff.1 hline
    rw [htext, hbody] at hoff
    obtain ⟨left, rfl, hleft⟩ := exists_left hoff hloose
    rw [hleft, readsAs_semicolon_swallowed herrors hall hgap hfirst hline hbody]
    exact (List.append_nil _).symm

end

/-! ## The place of the clause -/

namespace Node

variable {text : String} {n clause : Node}

/-- Behind the name or the generic parameters of a struct, and trivia, stands its where clause. -/
structure ClauseAt (n clause : Node) (anchor : Nat) where
  front : List Tree
  trivia : List Tree
  behind : List Tree
  elements_eq : n.elements = front ++ (trivia ++ clause.tree :: behind)
  anchor_eq : anchor = n.span.start + byteLength (tokensText (forestLeaves front)).toList
  trivia_eq : trivia.filterMap (·.constituent?) = []
  behind_eq : behind.filterMap (·.constituent?) = [.node .recordFieldList]

/-- Where the constituents before a where clause are known, so is its place. -/
theorem clauseAt_of_constituents (hn : n.PlacedIn text) {k : NodeKind} {xs : List Constituent}
    (h : n.constituents = xs ++ .node k :: [.node .whereClause, .node .recordFieldList])
    (hk : .node k ∉ xs) (hwhere : .node .whereClause ∉ xs) (hne : k ≠ .whereClause)
    (hclause : n.whereClause? = some clause) :
    ∃ m, n.childOfKind? k = some m ∧ Nonempty (ClauseAt n clause m.span.stop) := by
  obtain ⟨m, before, rest, hm, hmkind, helements, hbefore, hrest⟩ :=
    exists_child? (p := (· == k)) h (beq_self_eq_true k) fun l hl => by
      rw [beq_eq_false_iff_ne]
      rintro rfl
      exact hk hl
  obtain ⟨trivia, t, behind, rfl, htrivia, ht, hbehind⟩ := List.filterMap_eq_cons_iff.1 hrest
  have hsplit : n.elements = (before ++ m.tree :: trivia) ++ t :: behind := by simp [helements]
  have hnil : trivia.filterMap (·.constituent?) = [] := List.filterMap_eq_nil_iff.2 htrivia
  obtain ⟨m', hm', rfl, -⟩ := child?_of_elements (p := (· == .whereClause)) hsplit
    (constituent?_eq_node.1 ht) rfl fun l hl => by
      have hmconst : m.tree.constituent? = some (.node k) := by rw [← hmkind]; rfl
      rw [List.filterMap_append, List.filterMap_cons_some hmconst, hnil, hbefore] at hl
      rw [beq_eq_false_iff_ne]
      rintro rfl
      obtain hl | hl := List.mem_append.1 hl
      · exact hwhere hl
      · cases List.mem_singleton.1 hl
        exact hne rfl
  have hsame : n.childOfKind? .whereClause = some m' := hm'
  obtain rfl : m' = clause := Option.some.inj (hsame.symm.trans hclause)
  refine ⟨m, hm, ⟨⟨before ++ [m.tree], trivia, behind, by simp [helements], ?_, hnil, hbehind⟩⟩⟩
  have hcovers := hn.covers.2
  rw [helements, show before ++ m.tree :: (trivia ++ m'.tree :: behind) =
    (before ++ [m.tree]) ++ (trivia ++ m'.tree :: behind) by simp] at hcovers
  obtain ⟨i, hfront, -⟩ := forestCovers_append.1 hcovers
  have hstop := hfront.stop_eq
  obtain ⟨j, -, hlast⟩ := forestCovers_append.1 hfront
  have hspan : m.span = ⟨j, i⟩ := (forestCovers_singleton.1 hlast).span_eq
  rw [hspan, hstop, utf8ByteSize_eq_byteLength]

/-- The where clause of a struct with named fields stands between its name or generic parameters and the
fields. -/
theorem exists_clauseAt (h : Faultless text) (hn : Below (ofTree (parseFile text).tree) n)
    (hkind : n.kind = .structDef) (hlist : .node .recordFieldList ∈ n.constituents)
    (hclause : n.whereClause? = some clause) :
    ∃ anchor, fieldAnchor? n = some anchor ∧ Nonempty (ClauseAt n clause anchor) := by
  obtain ⟨first, t, hfits, hinside, -⟩ := fits_of_below h hn (by simp [hkind])
  have hrecord : IsRecord t.inside := by
    rw [hkind] at hfits
    exact hfits
  rw [hinside] at hrecord
  obtain ⟨pre, g, w, hpre, hg, hw, hconst⟩ := hrecord hlist
  have hno {k : NodeKind} (hk : (Constituent.node k).leads = false) : .node k ∉ pre := fun hmem => by
    rw [hpre _ hmem] at hk
    cases hk
  have hwhere : .node .whereClause ∈ n.constituents := by
    have hmem := node_mem_constituents (List.mem_of_find?_eq_some hclause)
    rwa [beq_iff_eq.1 (List.find?_some (p := fun c : Node => c.kind == .whereClause) hclause)] at hmem
  have hw : w = [.node .whereClause] := by
    refine hw.resolve_left ?_
    rintro rfl
    rw [hconst] at hwhere
    obtain rfl | rfl := hg <;> simp [hno (k := .whereClause) rfl] at hwhere
  subst hw
  have hplaced := placedIn_of_below hn
  rw [fieldAnchor?, genericParams?, name?]
  obtain rfl | rfl := hg
  · have hsplit : n.constituents =
        pre ++ .node .name :: [.node .whereClause, .node .recordFieldList] := hconst
    obtain ⟨m, hm, hat⟩ :=
      clauseAt_of_constituents hplaced hsplit (hno rfl) (hno rfl) (by simp) hclause
    have hnone : n.childOfKind? .genericParamList = none := child?_eq_none fun l hl => by
      rw [beq_eq_false_iff_ne]
      rintro rfl
      rw [hsplit] at hl
      simp [hno (k := .genericParamList) rfl] at hl
    rw [hnone, hm]
    exact ⟨_, rfl, hat⟩
  · have hsplit : n.constituents = (pre ++ [.node .name]) ++
        .node .genericParamList :: [.node .whereClause, .node .recordFieldList] := by
      rw [hconst]
      simp
    obtain ⟨m, hm, hat⟩ := clauseAt_of_constituents hplaced hsplit
      (by simp [hno (k := .genericParamList) rfl]) (by simp [hno (k := .whereClause) rfl]) (by simp)
      hclause
    rw [hm]
    exact ⟨_, rfl, hat⟩

namespace ClauseAt

variable {anchor : Nat} (p : ClauseAt n clause anchor)

theorem leaves_eq : n.tree.leaves = forestLeaves p.front ++
    (forestLeaves p.trivia ++ (clause.tree.leaves ++ forestLeaves p.behind)) := by
  rw [tree, leaves, p.elements_eq, forestLeaves_append, forestLeaves_append, forestLeaves]

/-- The text that is taken over is that of the trivia before the clause, and that of the clause without
what is trimmed off. -/
theorem clauseBehind?_eq (hn : n.PlacedIn text) (hclause : n.whereClause? = some clause) :
    clauseBehind? n anchor = some ((tokensText (forestLeaves p.trivia)).toList ++
      trimClause (tokensText clause.tree.leaves).toList) := by
  have hcovers := hn.covers.2
  rw [p.elements_eq] at hcovers
  obtain ⟨i, hfront, hcovers⟩ := forestCovers_append.1 hcovers
  obtain ⟨j, htrivia, m, hself, -⟩ := forestCovers_append.1 hcovers
  have hspan : clause.span = ⟨j, m⟩ := hself.span_eq
  have hi := hfront.stop_eq
  have hj := htrivia.stop_eq
  have hm := hself.stop_eq
  have hanchor := p.anchor_eq
  rw [utf8ByteSize_eq_byteLength] at hi hj hm
  have htext : n.text.toList = (tokensText (forestLeaves p.front)).toList ++
      ((tokensText (forestLeaves p.trivia)).toList ++ (clause.tree.text.toList ++
        (tokensText (forestLeaves p.behind)).toList)) := by
    rw [Node.text, Tree.text, p.leaves_eq]
    simp [tokensText_append, Tree.text]
  rw [clauseBehind?, hclause]
  dsimp only
  rw [hspan, htext]
  generalize (tokensText (forestLeaves p.front)).toList = front at *
  generalize (tokensText (forestLeaves p.trivia)).toList = gap at *
  generalize (tokensText (forestLeaves p.behind)).toList = rest at *
  have hstart : anchor - n.span.start = byteLength front := by omega
  have hmiddle : j - n.span.start = byteLength (front ++ gap) := by
    rw [byteLength_append]
    omega
  have hstop : m - n.span.start = byteLength (front ++ gap ++ clause.tree.text.toList) := by
    rw [byteLength_append, byteLength_append]
    omega
  have hgap := sliceChars?_append front gap (clause.tree.text.toList ++ rest)
  have hclause := sliceChars?_append (front ++ gap) clause.tree.text.toList rest
  simp only [hstart, hmiddle, hstop]
  rw [← List.append_assoc front, hgap, ← List.append_assoc (front ++ gap), hclause]
  rfl

/-- The brace that ends the fields stands behind the clause. -/
theorem leaves_behind_ne_nil (h : Faultless text) (hn : Below (ofTree (parseFile text).tree) n) :
    forestLeaves p.behind ≠ [] := by
  obtain ⟨between, t, rest, hbehind, -, ht, -⟩ := List.filterMap_eq_cons_iff.1 p.behind_eq
  have hkind := constituent?_eq_node.1 ht
  have hsplit : n.elements =
      (p.front ++ (p.trivia ++ clause.tree :: between)) ++ t :: rest := by
    rw [p.elements_eq, hbehind]
    simp
  obtain ⟨m, hm, rfl⟩ := exists_child_of_append hkind hsplit
  have hmkind : m.kind = .recordFieldList := Option.some.inj hkind
  obtain ⟨first, s, hfits, hinside, -⟩ := fits_of_below h (hn.child hm) (by simp [hmkind])
  have hlast : s.inside.getLast? = some (.token .rBrace) := by
    rw [hmkind] at hfits
    exact hfits
  obtain ⟨u, hu, -⟩ := mem_leaves_of_mem_constituents (hinside ▸ List.mem_of_getLast? hlast)
  rw [hbehind, forestLeaves_append, forestLeaves]
  exact List.ne_nil_of_mem (List.mem_append_right _ (List.mem_append_left _ hu))

end ClauseAt

end Node

/-! ## The edit -/

theorem isBlank_of_mem_lineIndent {text : String} {offset : Nat} :
    ∀ c ∈ (lineIndent text offset).toList, isBlank c = true := by
  intro c hc
  rw [lineIndent, String.toList_ofList] at hc
  have hwhile : c = ' ' ∨ c = '\t' := by simpa using List.all_eq_true.1 List.all_takeWhile c hc
  obtain rfl | rfl := hwhile <;> decide

/-- **The words behind a conversion.** Where a struct of a faultless file has a where clause, the edit of
its declaration is read as the positional fields, then the clause without the comma at its end, and then
the semicolon. But the semicolon is lost if what ends the clause, blanks and commas apart, is a comment
that runs to the end of its line. -/
theorem words_declarationEdit {w : Workspace} (hw : w.Coherent) {d : DeclId} {decl : Decl}
    {source : SourceFile} {shape : Shape} {plan : Plan} {n clause : Node}
    (hdecl : (Decls.ofWorkspace w).decl? d = some decl) (hfile : w.file? decl.file = some source)
    (h : Faultless source.text) (hn : (Target.decl d).node? (.ofWorkspace w) = some n)
    (hkind : n.kind = .structDef)
    (hshape : Shape.ofTarget? (.ofWorkspace w) (.decl d) = some shape)
    (hplan : Plan.ofShape shape = .ok plan) (hclause : n.whereClause? = some clause) :
    ∃ e, declarationEdit? (.ofWorkspace w) (.decl d) plan = some e ∧
      words e.replacement = words (plan.tupleFieldList (lineIndent n.root.text n.span.start)) ++
        (wordsOf (dropComma (significant clause.tree.leaves)) ++
          if clause.endsInLineComment then [] else [(.semicolon, ";")]) := by
  obtain ⟨n', list, hn', hbelow, hlist, hlistKind, hfields⟩ :=
    @Plan.exists_of_ofTarget? (.decl d) _ _ hw _ _ _ hdecl hfile hshape hplan
  obtain rfl : n' = n := Option.some.inj (hn'.symm.trans hn)
  have hplaced := Node.placedIn_of_below hbelow
  have hlistBelow : Node.Below _ list := hbelow.child? hlist
  have hlistConst : .node .recordFieldList ∈ n'.constituents :=
    hlistKind ▸ Node.node_mem_constituents (List.mem_of_find?_eq_some hlist)
  obtain ⟨anchor, hanchor, ⟨p⟩⟩ := Node.exists_clauseAt h hbelow hkind hlistConst hclause
  have hclauseBelow : Node.Below _ clause := hbelow.childOfKind? hclause
  have hclauseKind : clause.kind = .whereClause :=
    beq_iff_eq.1 (List.find?_some (p := fun c : Node => c.kind == .whereClause) hclause)
  obtain ⟨kept, blanks, comma, hkept, hfirst⟩ := Node.exists_kept h hclauseBelow hclauseKind
  obtain ⟨before, rest, htokens, -⟩ := Node.snug_of_below h hbelow (by simp [hkind])
  have hgap : ∀ t ∈ forestLeaves p.trivia, t.isTrivia = true := isTrivia_of_constituents p.trivia_eq
  have hall : lexTokens source.text = (before ++ forestLeaves p.front) ++ (forestLeaves p.trivia ++
      (clause.tree.leaves ++ (forestLeaves p.behind ++ rest))) := by
    rw [htokens, p.leaves_eq]
    simp
  have hbehind : forestLeaves p.behind ++ rest ≠ [] :=
    fun hnil => p.leaves_behind_ne_nil h hbelow (List.append_eq_nil_iff.1 hnil).1
  have hcopied := Plan.copied_of_fields h hlistBelow hlistKind hfields
  have hedit : declarationEdit? (.ofWorkspace w) (.decl d) plan = some ⟨⟨anchor, n'.span.stop⟩,
      plan.tupleFieldList (lineIndent n'.root.text n'.span.start) ++
        String.ofList ((tokensText (forestLeaves p.trivia)).toList ++
          trimClause (tokensText clause.tree.leaves).toList) ++ ";"⟩ := by
    rw [declarationEdit?, hn, Option.bind_some]
    exact structEdit?_eq hanchor (p.clauseBehind?_eq hplaced hclause) _
  refine ⟨_, hedit, ?_⟩
  have hends : clause.endsInLineComment = kept.getLast?.any (·.isLineComment) := by
    rw [Node.endsInLineComment, hkept.getLast?_filter]
  rw [words_eq_readsAs, words_eq_readsAs, String.toList_append, String.toList_append,
    String.toList_ofList, List.append_assoc, List.append_assoc,
    (Plan.leads_tupleFieldList hcopied isBlank_of_mem_lineIndent).readsAs_append, hends, ← hkept.wordsOf_eq]
  exact congrArg _ (readsAs_trimClause h.lexErrors_eq hkept hall hbehind hgap hfirst)

/-- The where clause of the first declaration of a file. -/
def clauseOfFirst (text : String) : Option Node :=
  ((Target.decl 0).node? (.ofWorkspace (.ofText text))).bind (·.whereClause?)

/-- The words of the edit that makes the fields of the first declaration of a file positional. -/
def editWordsOfFirst (text : String) : Option (List (TokenKind × String)) :=
  (planOfFirst text).bind fun plan =>
    (declarationEdit? (.ofWorkspace (.ofText text)) (.decl 0) plan).map fun e => words e.replacement

set_option maxRecDepth 100000 in
/-- A clause that a comma ends, with a comment before the comma. -/
theorem words_declarationEdit_comma : ∃ (n clause : Node) (plan : Plan) (e : TextEdit),
    (Target.decl 0).node? (.ofWorkspace (.ofText "struct S<T> where T: A/**/, \x7b a: T \x7d")) = some n ∧
      n.whereClause? = some clause ∧
      planOfFirst "struct S<T> where T: A/**/, \x7b a: T \x7d" = some plan ∧
      declarationEdit? (.ofWorkspace (.ofText "struct S<T> where T: A/**/, \x7b a: T \x7d")) (.decl 0)
        plan = some e ∧
      words e.replacement = words (plan.tupleFieldList (lineIndent n.root.text n.span.start)) ++
        (wordsOf (dropComma (significant clause.tree.leaves)) ++ [(.semicolon, ";")]) := by
  obtain ⟨decl, hdecl, hdeclFile⟩ := Option.map_eq_some_iff.1
    (by decide +kernel :
      ((Decls.ofWorkspace (.ofText "struct S<T> where T: A/**/, \x7b a: T \x7d")).decl? 0).map (·.file) =
        some 0)
  obtain ⟨source, hfile, htext⟩ := Option.map_eq_some_iff.1
    (by decide +kernel :
      ((Workspace.ofText "struct S<T> where T: A/**/, \x7b a: T \x7d").file? 0).map (·.text) =
        some "struct S<T> where T: A/**/, \x7b a: T \x7d")
  obtain ⟨n, hn, hkind⟩ := Option.map_eq_some_iff.1
    (by decide +kernel : ((Target.decl 0).node? (.ofWorkspace
      (.ofText "struct S<T> where T: A/**/, \x7b a: T \x7d"))).map (·.kind) = some .structDef)
  obtain ⟨clause, hclause, hends⟩ := Option.map_eq_some_iff.1
    (by decide +kernel : (clauseOfFirst "struct S<T> where T: A/**/, \x7b a: T \x7d").map
      (·.endsInLineComment) = some false)
  obtain ⟨plan, hplan⟩ := Option.isSome_iff_exists.1
    (by decide +kernel : (planOfFirst "struct S<T> where T: A/**/, \x7b a: T \x7d").isSome)
  obtain ⟨shape, hshape, hok⟩ := exists_shape_of_planOfFirst hplan
  have h : Faultless source.text := by
    rw [htext]
    exact ⟨by decide +kernel, by decide +kernel⟩
  rw [clauseOfFirst, hn, Option.bind_some] at hclause
  obtain ⟨e, he, hwords⟩ := words_declarationEdit (Workspace.reachable_ofFiles _).coherent hdecl
    (hdeclFile ▸ hfile) h hn hkind hshape hok hclause
  rw [hends] at hwords
  exact ⟨n, clause, plan, e, hn, hclause, hplan, he, hwords⟩

set_option maxRecDepth 100000 in
/-- The semicolon behind a comment is lost, where the comment ends the clause and where a comma that is
dropped stands behind it. -/
theorem semicolon_swallowed :
    (Faultless "struct S<T> where T: // note\n\x7b a: T \x7d" ∧
      (clauseOfFirst "struct S<T> where T: // note\n\x7b a: T \x7d").map
          (fun c => wordsOf (dropComma (significant c.tree.leaves))) =
        some [(.keyword .whereKw, "where"), (.ident, "T"), (.colon, ":")] ∧
      editWordsOfFirst "struct S<T> where T: // note\n\x7b a: T \x7d" =
        some [(.lParen, "("), (.ident, "T"), (.rParen, ")"), (.keyword .whereKw, "where"), (.ident, "T"),
          (.colon, ":")]) ∧
    Faultless "struct S<T> where T: A // note\n, \x7b a: T \x7d" ∧
      (clauseOfFirst "struct S<T> where T: A // note\n, \x7b a: T \x7d").map
          (fun c => wordsOf (dropComma (significant c.tree.leaves))) =
        some [(.keyword .whereKw, "where"), (.ident, "T"), (.colon, ":"), (.ident, "A")] ∧
      editWordsOfFirst "struct S<T> where T: A // note\n, \x7b a: T \x7d" =
        some [(.lParen, "("), (.ident, "T"), (.rParen, ")"), (.keyword .whereKw, "where"), (.ident, "T"),
          (.colon, ":"), (.ident, "A")] :=
  ⟨⟨⟨by decide +kernel, by decide +kernel⟩, by decide +kernel, by decide +kernel⟩,
    ⟨by decide +kernel, by decide +kernel⟩, by decide +kernel, by decide +kernel⟩

end Reshape
