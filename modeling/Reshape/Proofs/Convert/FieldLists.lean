import Reshape.Proofs.Convert.FieldTokens
import Reshape.Proofs.Convert.Plans
import Reshape.Proofs.Syntax.Constituents

/-!
# Fields of files in lists

The parts of a field are copied to a list of positional fields, as they are written or trimmed. In a
faultless file they are texts that can be copied: by itself, each of them has the words that it has in the
file, and what is written behind it is neither commented out by it nor grown together with it.

* `Node.readsAs_text` says how the text of a node is read in another place, and `Node.joinable_of_kind`
  that the parts of fields can be joined with other texts.
* `Node.suffix_of_attr` and `Node.suffix_of_visibility` say how attributes and visibilities end.
* `isComment_trimEnd` is for documentation, which is trimmed.
* `PlannedField.Of.copied` is the result for a field, `Plan.copied_of_fields` for all fields of a plan.
-/

namespace Reshape

open Reshape.Tree

/-! ## Parts of fields by themselves -/

namespace Node

variable {text : String} {n : Node} {xs : List Constituent} {x : Constituent}

/-- Behind a node that the end of the text is behind there is a token. -/
theorem exists_behind (h : Faultless text) (hn : Below (ofTree (parseFile text).tree) n)
    (hkind : n.kind ≠ .sourceFile) (hstop : n.span.stop < text.utf8ByteSize)
    (hne : n.tree.leaves ≠ []) :
    ∃ before u behind, lexTokens text = before ++ (n.tree.leaves ++ u :: behind) ∧ u.kind ≠ .eof ∧
      ((∀ t ∈ n.tree.leaves.getLast?, t.isTrivia = false) ∨ u.isTrivia = false) := by
  obtain ⟨before, behind, htokens, hcontiguous, hsnug⟩ := snug_of_below h hn hkind
  obtain ⟨ts, hts, hend⟩ := exists_lexTokens_eq_concat text
  cases behind with
  | nil =>
    -- The last token is that of the end of the text.
    have hlast : n.tree.leaves.getLast? = some ⟨.eof, text.utf8ByteSize, ""⟩ := by
      have hboth := congrArg List.getLast? (htokens.symm.trans hts)
      rwa [List.append_nil, List.getLast?_append_of_ne_nil _ hne, List.getLast?_concat] at hboth
    have hstop' := (placedIn_of_below hn).covers.first_last.2.1 _ hlast
    simp only [Token.stop] at hstop'
    omega
  | cons u behind =>
    refine ⟨before, u, behind, by rw [htokens, List.append_assoc], fun heof => ?_,
      hsnug.imp_right fun hu => hu u rfl⟩
    have hmem : u ∈ lexTokens text := by rw [htokens]; simp
    rw [hts, List.mem_append, List.mem_singleton] at hmem
    obtain hmem | rfl := hmem
    · exact hend u hmem heof
    · have hstart : text.utf8ByteSize = n.span.stop := hcontiguous.1
      omega

/-- The text of a node is read as the words of the node wherever it stands, if it does not start with a
numeral and the end of the text is behind it. -/
theorem readsAs_text (h : Faultless text) (hn : Below (ofTree (parseFile text).tree) n)
    (hkind : n.kind ≠ .sourceFile) (hstop : n.span.stop < text.utf8ByteSize)
    (hfirst : ∀ u ∈ n.tree.leaves.head?, u.kind ≠ .intLiteral ∧ u.kind ≠ .floatLiteral)
    (afterDot : Bool) {rest : List Char} (hrest : Parts rest) :
    ∃ afterDot', readsAs afterDot (n.text.toList ++ rest) =
      wordsOf n.tree.leaves ++ readsAs afterDot' rest := by
  rw [Node.text, Tree.text]
  by_cases hne : n.tree.leaves = []
  · rw [hne]
    exact ⟨afterDot, rfl⟩
  obtain ⟨before, u, behind, htokens, hu, hsnug⟩ := exists_behind h hn hkind hstop hne
  have hhead := isTrivia_head_of_below h hn hkind
  refine readsAs_middle h.lexErrors_eq htokens (List.cons_ne_nil u behind) ?_ ?_ 0 hrest afterDot
  · intro t ht
    obtain ⟨v, vs, hleaves⟩ := List.exists_cons_of_ne_nil hne
    rw [hleaves] at hfirst hhead ht
    rw [significant, List.filter_cons_of_pos (by simp [hhead v rfl])] at ht
    exact hfirst t ht
  · intro t ht
    by_contra hline
    rw [Bool.not_eq_false] at hline
    obtain ⟨hcomment, -⟩ := Token.isLineComment_iff.1 hline
    have htrivia : t.isTrivia = true := by
      rw [Token.isTrivia, hcomment]
      rfl
    -- A blank would stand behind the comment, but trivia do not stand on both sides of the end.
    obtain ⟨us, hleaves⟩ := List.getLast?_eq_some_iff.1 ht
    have hblank : u.isTrivia = true := by
      rw [hleaves, List.append_assoc, ← List.append_assoc before] at htokens
      rw [Token.isTrivia, kind_of_isLineComment htokens hline hu]
      rfl
    obtain hsnug | hsnug := hsnug
    · rw [hsnug t ht] at htrivia
      cases htrivia
    · rw [hblank] at hsnug
      cases hsnug

theorem isNumeral_of_fits {k : NodeKind} {first : TokenKind} {t : Stage} (h : Fits k first t)
    (hk : k.isType = true) : first.isNumeral = false := by
  unfold Fits at h
  split at h <;> first | exact h hk | cases hk

/-- The parts of fields do not start with a numeral. -/
theorem first_of_kind (h : Faultless text) (hn : Below (ofTree (parseFile text).tree) n)
    (hkind : n.kind.isType = true ∨ n.kind = .attr ∨ n.kind = .visibility) :
    n.kind ≠ .sourceFile ∧
      ∀ u ∈ n.tree.leaves.head?, u.kind ≠ .intLiteral ∧ u.kind ≠ .floatLiteral := by
  have hroot : n.kind ≠ .sourceFile := by
    rintro hroot
    rw [hroot] at hkind
    revert hkind
    decide
  obtain ⟨first, t, hfits, -, -, hfirst, -⟩ := fits_of_below h hn hroot
  have hnumeral : first.isNumeral = false := by
    obtain hkind | hkind | hkind := hkind
    · exact isNumeral_of_fits hfits hkind
    · rw [hkind] at hfits
      rw [show first = .pound from hfits.1]
      rfl
    · rw [hkind] at hfits
      rw [show first = .keyword .pubKw from hfits.1]
      rfl
  refine ⟨hroot, fun u hu => ?_⟩
  rw [hfirst u hu]
  simpa [TokenKind.isNumeral] using hnumeral

/-- The parts of fields can be moved. -/
theorem movable_of_kind (h : Faultless text) (hn : Below (ofTree (parseFile text).tree) n)
    (hstop : n.span.stop < text.utf8ByteSize)
    (hkind : n.kind.isType = true ∨ n.kind = .attr ∨ n.kind = .visibility) : Movable n.text.toList := by
  obtain ⟨hroot, hfirst⟩ := first_of_kind h hn hkind
  exact ⟨_, fun afterDot _ hrest => readsAs_text h hn hroot hstop hfirst afterDot hrest⟩

/-- By itself, a part of a field has the words that it has in the file. -/
theorem words_of_kind (h : Faultless text) (hn : Below (ofTree (parseFile text).tree) n)
    (hstop : n.span.stop < text.utf8ByteSize)
    (hkind : n.kind.isType = true ∨ n.kind = .attr ∨ n.kind = .visibility) :
    words n.text = wordsOf n.tree.leaves := by
  obtain ⟨hroot, hfirst⟩ := first_of_kind h hn hkind
  obtain ⟨a, ha⟩ := readsAs_text h hn hroot hstop hfirst false parts_nil
  rwa [List.append_nil, readsAs_nil, List.append_nil] at ha

theorem mem_lexTokens_of_mem_leaves (h : Faultless text) (hn : Below (ofTree (parseFile text).tree) n)
    (hkind : n.kind ≠ .sourceFile) {t : Token} (ht : t ∈ n.tree.leaves) : t ∈ lexTokens text := by
  obtain ⟨before, behind, htokens, -⟩ := snug_of_below h hn hkind
  rw [htokens]
  simp [ht]

/-- The parts of fields can be joined with other texts. -/
theorem joinable_of_kind (h : Faultless text) (hn : Below (ofTree (parseFile text).tree) n)
    (hstop : n.span.stop < text.utf8ByteSize)
    (hkind : n.kind.isType = true ∨ n.kind = .attr ∨ n.kind = .visibility) : Joinable n.text := by
  obtain ⟨hroot, -⟩ := first_of_kind h hn hkind
  have herrors : lexErrors n.text = [] := by
    rw [lexErrors_eq_nil_iff_words, words_of_kind h hn hstop hkind]
    intro w hw
    obtain ⟨t, ht, rfl⟩ := List.mem_map.1 hw
    exact lexErrors_eq_nil.1 h.lexErrors_eq t
      (mem_lexTokens_of_mem_leaves h hn hroot (List.mem_filter.1 ht).1)
  exact ⟨herrors, (movable_of_kind h hn hstop hkind).closed herrors⟩

/-! ## How attributes and visibilities end -/

/-- The last constituent of a node is its last tree, if no trivia stand behind it. -/
theorem exists_elements_concat (hx : n.constituents = xs ++ [x])
    (hflush : ∀ u ∈ n.elements.getLast?, u.token?.all (!·.isTrivia) = true) :
    ∃ before t, n.elements = before ++ [t] ∧ t.constituent? = some x := by
  obtain ⟨before, t, behind, helements, -, ht, hbehind⟩ := exists_elements hx
  obtain rfl | ⟨trees, u, rfl⟩ := List.eq_nil_or_concat behind
  · exact ⟨before, t, helements, ht⟩
  · rw [List.concat_eq_append] at helements hbehind
    rw [List.filterMap_append, List.append_eq_nil_iff] at hbehind
    obtain ⟨v, rfl, hv⟩ := constituent?_eq_none.1 (List.filterMap_eq_nil_iff.1 hbehind.2 u (by simp))
    have hlast := hflush (.leaf v) (by
      rw [helements, ← List.cons_append, ← List.append_assoc, List.getLast?_concat]
      rfl)
    simp [token?, hv] at hlast

/-- A node ends with the token that is its last constituent. -/
theorem exists_leaves_concat {k : TokenKind} (hx : n.constituents.getLast? = some (.token k))
    (hflush : ∀ u ∈ n.elements.getLast?, u.token?.all (!·.isTrivia) = true) :
    ∃ before u, n.tree.leaves = before ++ [u] ∧ u.isTrivia = false ∧ u.kind = k := by
  obtain ⟨xs, hxs⟩ := List.getLast?_eq_some_iff.1 hx
  obtain ⟨before, t, helements, ht⟩ := exists_elements_concat hxs hflush
  obtain ⟨u, rfl, hu, hk⟩ := constituent?_eq_token.1 ht
  refine ⟨forestLeaves before, u, ?_, hu, hk⟩
  rw [tree, leaves, helements, forestLeaves_append]
  rfl

/-- The last token of a node ends its text. -/
theorem suffix_of_leaves {before : List Token} {u : Token} (hleaves : n.tree.leaves = before ++ [u]) :
    u.text.toList <:+ n.text.toList := by
  refine ⟨(tokensText before).toList, ?_⟩
  rw [Node.text, Tree.text, hleaves, tokensText_append, String.toList_append, tokensText_cons,
    String.toList_append]
  simp [tokensText]

/-- An attribute ends with a bracket. -/
theorem suffix_of_attr (h : Faultless text) (hn : Below (ofTree (parseFile text).tree) n)
    (hkind : n.kind = .attr) : "]".toList <:+ n.text.toList := by
  obtain ⟨first, s, hfits, hinside, hflush, -, hlast⟩ := fits_of_below h hn (by simp [hkind])
  obtain ⟨-, hstage, hbracket, htree⟩ : first = .pound ∧ s.flush = true ∧ s.last = some .rBracket ∧
      s.inside.getLast? = some (.node .tokenTree) := by
    rw [hkind] at hfits
    exact hfits
  rw [hinside] at htree
  obtain ⟨xs, hxs⟩ := List.getLast?_eq_some_iff.1 htree
  obtain ⟨before, t, helements, ht⟩ := exists_elements_concat hxs (hflush hstage)
  obtain ⟨m, hm, rfl⟩ := exists_child_of_append (constituent?_eq_node.1 ht) helements
  have hmkind : m.kind = .tokenTree := Option.some.inj (constituent?_eq_node.1 ht)
  -- The token that closes the tree is the last one of the attribute.
  obtain ⟨_, s', hfits', hinside', hflush', -⟩ := fits_of_below h (hn.child hm) (by simp [hmkind])
  obtain ⟨hstage', k, hk⟩ : s'.flush = true ∧ ∃ k, s'.inside.getLast? = some (.token k) := by
    rw [hmkind] at hfits'
    exact hfits'
  rw [hinside'] at hk
  obtain ⟨inside, u, hleaves, hu, -⟩ := exists_leaves_concat hk (hflush' hstage')
  have hall : n.tree.leaves = (forestLeaves before ++ inside) ++ [u] := by
    rw [tree, leaves, helements, forestLeaves_append, List.append_assoc, ← hleaves]
    simp [forestLeaves]
  have hukind : u.kind = .rBracket := by
    have hend := hlast u (by rw [hall, significant, List.filter_append,
      List.filter_cons_of_pos (by simp [hu]), List.filter_nil, List.getLast?_concat]; rfl)
    exact Option.some.inj (hend.symm.trans hbracket)
  have hmem := mem_lexTokens_of_mem_leaves h hn (by simp [hkind]) (t := u) (by simp [hall])
  have hsuffix := suffix_of_leaves hall
  rwa [toList_of_mark? hmem (m := ']') (by rw [hukind]; rfl)] at hsuffix

/-- A visibility ends with the word or with a parenthesis. -/
theorem suffix_of_visibility (h : Faultless text) (hn : Below (ofTree (parseFile text).tree) n)
    (hkind : n.kind = .visibility) :
    "pub".toList <:+ n.text.toList ∨ ")".toList <:+ n.text.toList := by
  obtain ⟨first, s, hfits, hinside, hflush, -⟩ := fits_of_below h hn (by simp [hkind])
  obtain ⟨-, hstage, k, hk, hend⟩ : first = .keyword .pubKw ∧ s.flush = true ∧
      ∃ k, (k = .keyword .pubKw ∨ k = .rParen) ∧ s.inside.getLast? = some (.token k) := by
    rw [hkind] at hfits
    exact hfits
  rw [hinside] at hend
  obtain ⟨before, u, hleaves, -, hukind⟩ := exists_leaves_concat hend (hflush hstage)
  have hmem := mem_lexTokens_of_mem_leaves h hn (by simp [hkind]) (t := u) (by simp [hleaves])
  have hsuffix := suffix_of_leaves hleaves
  obtain rfl | rfl := hk
  · rw [toList_of_keyword hmem hukind] at hsuffix
    exact .inl hsuffix
  · rw [toList_of_mark? hmem (m := ')') (by rw [hukind]; rfl)] at hsuffix
    exact .inr hsuffix

end Node

/-! ## Documentation by itself -/

/-- The documentation of a field is trimmed comments of its file. -/
theorem Shape.exists_of_mem_docs {text : String} {list n : Node} {d : String}
    (hlist : Node.Below (.ofTree (parseFile text).tree) list) (hn : n ∈ list.children)
    (hd : d ∈ Shape.docs n) :
    ∃ t ∈ lexTokens text, t.isTrivia = true ∧ isOuterDoc t.text = true ∧ d = trimEnd t.text := by
  have hdocs {ts : List Token} (hts : ∀ t ∈ ts, t ∈ lexTokens text ∧ t.isTrivia = true)
      (hd : d ∈ docsAmong ts) :
      ∃ t ∈ lexTokens text, t.isTrivia = true ∧ isOuterDoc t.text = true ∧ d = trimEnd t.text := by
    obtain ⟨t, ht, rfl⟩ := List.mem_map.1 hd
    obtain ⟨hmem, htrivia⟩ := hts t (List.mem_filter.1 ht).1
    exact ⟨t, hmem, htrivia, (List.mem_filter.1 ht).2, rfl⟩
  rw [docs, Node.parent?_of_mem_children hn] at hd
  obtain hd | hd := List.mem_append.1 hd
  · refine hdocs (fun t ht => ?_) hd
    obtain ⟨x, hx, hxt⟩ := List.mem_filterMap.1 ht
    have hwhile := List.mem_reverse.1 hx
    have hmem : x ∈ list.elements :=
      List.mem_of_mem_take (List.mem_reverse.1 ((List.takeWhile_sublist _).subset hwhile))
    have htrivia := List.all_eq_true.1 List.all_takeWhile x hwhile
    rw [hxt] at htrivia
    exact ⟨Node.mem_lexTokens_of_below hlist (List.mem_filterMap.2 ⟨x, hmem, hxt⟩), htrivia⟩
  · refine hdocs (fun t ht => ?_) hd
    obtain ⟨hmem, hcomment⟩ := List.mem_filter.1 ht
    refine ⟨Node.mem_lexTokens_of_below (hlist.child hn) hmem, ?_⟩
    rw [Token.isTrivia, beq_iff_eq.1 hcomment]
    rfl

variable {cs : List Char} {d : String}

/-- A comment that a slash starts is a token by itself. -/
theorem isComment_of_slashLexeme (hd : d.toList = '/' :: cs)
    (h : slashLexeme cs = .token .comment cs.length) : IsComment d := by
  have hl : lexeme false '/' cs = .token .comment cs.length := (lexeme_slash false cs).trans h
  have htext : String.ofList ('/' :: cs) = d := by rw [← hd, String.ofList_toList]
  have hstop : d.utf8ByteSize = (String.ofList ('/' :: cs)).utf8ByteSize := by rw [htext]
  rw [IsComment, lexTokens, scanText, hd, scan, hl]
  simp [Lexeme.token, scan, htext, Token.stop]

/-- What a text begins with is left when it is trimmed, if it ends with another character than a blank. -/
theorem prefix_trimEnd {p : List Char} {s : String} (hp : p <+: s.toList) (hfirm : Firm p) :
    p <+: (trimEnd s).toList := by
  obtain ⟨off, hoff, hblank⟩ := exists_trimBlanksEnd s.toList
  obtain ⟨rest, hrest⟩ := hp
  rw [trimEnd, String.toList_ofList]
  obtain ⟨left, hleft, -⟩ | ⟨left, hleft, hsplit⟩ := List.append_eq_append_iff.1 (hrest.trans hoff)
  · exact ⟨left, hleft.symm⟩
  · have hnil : left = [] := by
      rw [hleft] at hfirm
      exact hfirm.eq_of_append fun e he =>
        isLoose_of_isBlank (hblank e (by rw [hsplit]; exact List.mem_append_left _ he))
    rw [hnil, List.append_nil] at hleft
    exact ⟨[], by rw [hleft, List.append_nil]⟩

theorem trimEnd_prefix_self (s : String) : (trimEnd s).toList <+: s.toList := by
  obtain ⟨off, hoff, -⟩ := exists_trimBlanksEnd s.toList
  rw [trimEnd, String.toList_ofList]
  exact ⟨off, hoff.symm⟩

/-- The documentation of a field is single comments. -/
theorem isComment_trimEnd {text : String} {t : Token} (ht : t ∈ lexTokens text)
    (htrivia : t.isTrivia = true) (hdoc : isOuterDoc t.text = true) :
    isOuterDoc (trimEnd t.text) = true ∧ IsComment (trimEnd t.text) := by
  have hkept := hdoc
  rw [isOuterDoc, Bool.or_eq_true, Bool.and_eq_true, Bool.and_eq_true, Bool.and_eq_true] at hdoc
  obtain ⟨-, hblank⟩ | ⟨-, ⟨body, hbody, hfeed⟩ | ⟨body, hbody, hclosed⟩⟩ := toList_of_isTrivia ht htrivia
  · have hslash : '/' ∈ t.text.toList := by
      obtain ⟨hstart, -⟩ | ⟨⟨hstart, -⟩, -⟩ := hdoc <;>
        exact (String.startsWith_string_iff.1 hstart).subset (by decide)
    exact absurd (hblank '/' hslash) (by decide)
  · obtain ⟨hline, hfour⟩ := hdoc.resolve_right fun h => by
      obtain ⟨rest, hrest⟩ := String.startsWith_string_iff.1 h.1.1
      cases hrest.trans hbody
    have hpre := trimEnd_prefix_self t.text
    have hstart := prefix_trimEnd (String.startsWith_string_iff.1 hline) ⟨'/', rfl, by decide⟩
    have hnotFour : (trimEnd t.text).startsWith "////" = false := by
      by_contra hmore
      rw [Bool.not_eq_false, String.startsWith_string_iff] at hmore
      simp [String.startsWith_string_iff.2 (hmore.trans hpre)] at hfour
    obtain ⟨ds, hds⟩ := hstart
    have htrim : (trimEnd t.text).toList = '/' :: '/' :: '/' :: ds := hds.symm
    rw [htrim, hbody, List.cons_prefix_cons, List.cons_prefix_cons] at hpre
    refine ⟨?_, isComment_of_slashLexeme htrim ?_⟩
    · simp [isOuterDoc, String.startsWith_string_iff.2 ⟨ds, hds⟩, hnotFour]
    · have hall : ∀ e ∈ '/' :: ds, (e != '\n') = true := fun e he =>
        bne_iff_ne.2 fun heq => hfeed (heq ▸ hpre.2.2.subset he)
      have hrun : runLength (· != '\n') ('/' :: ds) = ('/' :: ds).length := by
        rw [runLength, ← List.append_nil ('/' :: ds), List.takeWhile_append_of_pos hall,
          List.takeWhile_nil]
      rw [slashLexeme, hrun]
      exact congrArg (Lexeme.token .comment) (Nat.add_comm 1 _)
  · -- Nothing is taken off a comment that ends with a mark.
    have hfirm : Firm t.text.toList := by
      have hend := firm_commentEnd? hclosed
      rw [List.take_length] at hend
      rw [hbody]
      exact (hend.cons _).cons _
    have htrim : trimEnd t.text = t.text := by
      rw [trimEnd, hfirm.trimBlanksEnd_eq, String.ofList_toList]
    rw [htrim]
    refine ⟨hkept, isComment_of_slashLexeme hbody ?_⟩
    rw [slashLexeme, hclosed]
    exact congrArg (Lexeme.token .comment) (Nat.add_comm 1 body.length)

/-! ## Planned fields -/

variable {f : PlannedField} {text : String} {list n : Node}

/-- What stands in a field of a faultless file ends before the file does. -/
theorem Node.below_of_field {m : Node} (h : Faultless text)
    (hlist : Node.Below (.ofTree (parseFile text).tree) list) (hkind : list.kind = .recordFieldList)
    (hn : n ∈ list.children) (hm : m ∈ n.children) :
    Node.Below (.ofTree (parseFile text).tree) m ∧ m.span.stop < text.utf8ByteSize := by
  have hsize := Node.stop_lt_size_of_mem_children h hlist hkind hn
  have hstop := (Span.contains_iff.1 ((Node.placedIn_of_below (hlist.child hn)).child hm).2).2
  exact ⟨(hlist.child hn).child hm, by omega⟩

theorem joinable_empty : Joinable "" := ⟨by decide +kernel, by decide +kernel⟩

/-- A planned field of a faultless file can be copied. -/
theorem PlannedField.Of.copied (hf : f.Of n) (h : Faultless text)
    (hlist : Node.Below (.ofTree (parseFile text).tree) list) (hkind : list.kind = .recordFieldList)
    (hn : n ∈ list.children) : f.Copied := by
  refine ⟨?_, fun v hv => ?_, fun a ha => ?_, fun d hd => ?_⟩
  · obtain htype | ⟨m, hm, hmkind, htype⟩ := hf.typeText_eq_or
    · rw [htype]
      exact joinable_empty
    · obtain ⟨hbelow, hstop⟩ := Node.below_of_field h hlist hkind hn hm
      rw [htype]
      exact Node.joinable_of_kind h hbelow hstop (.inl hmkind)
  · obtain ⟨m, hm, hmkind, rfl⟩ := hf.exists_of_visibility hv
    obtain ⟨hbelow, hstop⟩ := Node.below_of_field h hlist hkind hn hm
    exact ⟨Node.joinable_of_kind h hbelow hstop (.inr (.inr hmkind)),
      Node.suffix_of_visibility h hbelow hmkind⟩
  · obtain ⟨m, hm, hmkind, rfl⟩ := hf.exists_of_mem_attributes ha
    obtain ⟨hbelow, hstop⟩ := Node.below_of_field h hlist hkind hn hm
    exact ⟨Node.joinable_of_kind h hbelow hstop (.inr (.inl hmkind)), Node.suffix_of_attr h hbelow hmkind⟩
  · rw [hf.docs_eq] at hd
    obtain ⟨t, ht, htrivia, hdoc, rfl⟩ := Shape.exists_of_mem_docs hlist hn hd
    exact isComment_trimEnd ht htrivia hdoc

/-- **The planned fields of a faultless file can be copied.** -/
theorem Plan.copied_of_fields {plan : Plan} (h : Faultless text)
    (hlist : Node.Below (.ofTree (parseFile text).tree) list) (hkind : list.kind = .recordFieldList)
    (hfields : List.Forall₂ PlannedField.Of list.recordFields plan.fields) :
    ∀ f ∈ plan.fields, f.Copied := by
  intro f hf
  obtain ⟨i, hi, rfl⟩ := List.mem_iff_getElem.1 hf
  have hof := hfields.get (hfields.length_eq ▸ hi) hi
  exact hof.copied h hlist hkind (List.mem_filter.1 (List.getElem_mem _)).1

end Reshape
