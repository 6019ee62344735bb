import Mathlib.Data.List.Basic
import Reshape.Proofs.Text.Boundary
import Reshape.Proofs.Token.Scanning

/-!
# The tokens of a text tile it

Whatever a text is, its tokens cut it into pieces, and nothing but the empty token at the end is
left over. The scan comes to an end because every lexeme takes a character.

* `Tiles` says that tokens follow each other from the start of a text to its end, cut it between
  characters, and stand for the pieces.
* `exists_cut_of_mem` finds the piece of a token, by induction on the tokens before it.
* `map_fst_lexErrors` ties the faults of a text to its tokens that are no tokens.
* `tiles_lexTokens` puts both together.
-/

namespace Reshape

/-- Tokens cut a text into pieces: each starts where the one before it ends, at a boundary of
characters, and stands for its piece. An empty token at the end of the text comes last, the only one
of its kind, and the others are not empty. -/
structure Tiles (text : String) (tokens : List Token) : Prop where
  contiguous : Contiguous 0 tokens
  isBoundary : ∀ t ∈ tokens,
    isBoundary t.start text.toList = true ∧ isBoundary t.stop text.toList = true
  text_eq : ∀ t ∈ tokens, t.text = sliceText text t.start t.stop
  ends : ∃ ts, tokens = ts ++ [⟨.eof, text.utf8ByteSize, ""⟩] ∧
    ∀ t ∈ ts, t.kind ≠ .eof ∧ t.start < t.stop

/-- Tokens without a gap cut the text that they stand for. -/
theorem exists_cut_of_mem {ts : List Token} {before : List Char}
    (h : Contiguous (byteLength before) ts) {t : Token} (ht : t ∈ ts) :
    ∃ left right, before ++ (tokensText ts).toList = left ++ t.text.toList ++ right ∧
      byteLength left = t.start := by
  induction ts generalizing before with
  | nil => cases ht
  | cons u ts ih =>
    obtain ⟨hstart, hrest⟩ := h
    rw [tokensText_cons, String.toList_append]
    obtain rfl | ht := List.mem_cons.1 ht
    · exact ⟨before, (tokensText ts).toList, (List.append_assoc ..).symm, hstart.symm⟩
    · have hstop : u.stop = byteLength (before ++ u.text.toList) := by
        rw [Token.stop, hstart, utf8ByteSize_eq_byteLength, byteLength_append]
      rw [← List.append_assoc]
      exact ih (hstop ▸ hrest) ht

/-- The faults of a text are at its tokens that are no tokens, in order, one at each. -/
theorem map_fst_lexErrors (text : String) :
    (lexErrors text).map (·.1) =
      ((lexTokens text).filter (·.kind == .error)).map (·.span) := by
  have hfault : ∀ t ∈ scanText text, (t.fault.map fun f => (t.token.span, f)).map (·.1) =
      if t.token.kind == .error then some t.token.span else none := by
    intro t ht
    have hnone := fault_eq_none_of_mem_scan ht
    cases hf : t.fault with
    | none => simp [hnone.1 hf]
    | some f =>
      have herror : t.token.kind = .error :=
        Decidable.byContradiction fun hne => by simp [hnone.2 hne] at hf
      simp [herror]
  rw [lexErrors, lexTokens, List.map_filterMap, List.filterMap_congr hfault, List.filter_map,
    List.map_map, ← List.filterMap_eq_map, List.filterMap_filter]
  rfl

/-- **The tokens of a text tile it**, and its faults are those of the tokens that are no tokens, one
at each, in order. -/
theorem tiles_lexTokens (text : String) :
    Tiles text (lexTokens text) ∧
      (lexErrors text).map (·.1) =
        ((lexTokens text).filter (·.kind == .error)).map (·.span) := by
  have hcut : ∀ t ∈ lexTokens text, ∃ left right,
      text.toList = left ++ t.text.toList ++ right ∧ byteLength left = t.start := by
    intro t ht
    have hchain : Contiguous (byteLength []) (lexTokens text) := contiguous_lexTokens text
    have hcut := exists_cut_of_mem hchain ht
    rwa [tokensText_lexTokens] at hcut
  have hstop (t : Token) (left : List Char) (hleft : byteLength left = t.start) :
      byteLength (left ++ t.text.toList) = t.stop := by
    rw [byteLength_append, hleft, ← utf8ByteSize_eq_byteLength, Token.stop]
  refine ⟨⟨contiguous_lexTokens text, fun t ht => ?_, fun t ht => ?_, ?_⟩, map_fst_lexErrors text⟩
  · obtain ⟨left, right, htext, hleft⟩ := hcut t ht
    refine ⟨isBoundary_iff.2 ⟨left, t.text.toList ++ right, ?_, hleft⟩,
      isBoundary_iff.2 ⟨left ++ t.text.toList, right, htext, hstop t left hleft⟩⟩
    rw [htext, List.append_assoc]
  · obtain ⟨left, right, htext, hleft⟩ := hcut t ht
    rw [sliceText, htext, ← hstop t left hleft, ← hleft, sliceChars_append, String.ofList_toList]
  · obtain ⟨ts, hts, hne⟩ := exists_lexTokens_eq_concat text
    refine ⟨ts, hts, fun t ht => ⟨hne t ht, ?_⟩⟩
    have hmem : t ∈ lexTokens text := hts ▸ List.mem_append_left _ ht
    have htext := text_ne_empty_of_mem_lexTokens hmem (hne t ht)
    have hpos : 0 < t.text.utf8ByteSize := by
      rw [Nat.pos_iff_ne_zero]
      exact fun hzero => htext (String.utf8ByteSize_eq_zero_iff.1 hzero)
    rw [Token.stop]
    omega

end Reshape
