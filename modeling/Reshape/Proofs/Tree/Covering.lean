import Reshape.Proofs.Parse.Lossless
import Reshape.Proofs.Text.Boundary

/-!
# Trees without gaps

The place of a node of a parse is where its tokens stand: it begins with the first of them, ends
with the last, and the children lie side by side in between.

* `Tree.Covers` says so of a tree and a range of offsets.
* `Sketch.covers_plant` is this for trees of sketches, given tokens without gaps.
* `Parse.Planted.covers` is the case of a parse, `planted_parseFile` says that files have one.
-/

namespace Reshape

namespace Tree

mutual

/-- The tokens of a tree lie side by side from offset `i` to offset `j`, and every node in it has
the place that its tokens have. -/
def Covers : Tree → Nat → Nat → Prop
  | leaf t, i, j => t.start = i ∧ t.stop = j
  | node _ s ts, i, j => s = ⟨i, j⟩ ∧ ForestCovers ts i j

/-- The trees of a list lie side by side from offset `i` to offset `j`. -/
def ForestCovers : List Tree → Nat → Nat → Prop
  | [], i, j => i = j
  | t :: ts, i, j => ∃ m, Covers t i m ∧ ForestCovers ts m j

end

theorem forestCovers_append {ts us : List Tree} {i j : Nat} :
    ForestCovers (ts ++ us) i j ↔ ∃ m, ForestCovers ts i m ∧ ForestCovers us m j := by
  induction ts generalizing i with
  | nil =>
    constructor
    · exact fun h => ⟨i, rfl, h⟩
    · rintro ⟨m, rfl, h⟩
      exact h
  | cons t ts ih =>
    constructor
    · rintro ⟨m, ht, h⟩
      obtain ⟨n, hts, hus⟩ := ih.1 h
      exact ⟨n, ⟨m, ht, hts⟩, hus⟩
    · rintro ⟨n, ⟨m, ht, hts⟩, hus⟩
      exact ⟨m, ht, ih.2 ⟨n, hts, hus⟩⟩

theorem forestCovers_singleton {t : Tree} {i j : Nat} : ForestCovers [t] i j ↔ Covers t i j := by
  constructor
  · rintro ⟨m, h, rfl⟩
    exact h
  · exact fun h => ⟨j, h, rfl⟩

mutual

/-- A tree is as long as the text of its tokens. -/
theorem Covers.stop_eq :
    (t : Tree) → {i j : Nat} → Covers t i j → j = i + t.text.utf8ByteSize
  | leaf t, i, j, ⟨hi, hj⟩ => by
    rw [← hi, ← hj]
    simp [text, leaves, tokensText, Token.stop]
  | node k s ts, i, j, ⟨_, h⟩ => ForestCovers.stop_eq ts h

/-- Trees side by side are as long as the text of their tokens. -/
theorem ForestCovers.stop_eq :
    (ts : List Tree) → {i j : Nat} → ForestCovers ts i j →
      j = i + (tokensText (forestLeaves ts)).utf8ByteSize
  | [], i, j, h => by simpa [ForestCovers, forestLeaves, tokensText, eq_comm] using h
  | t :: ts, i, j, ⟨m, ht, hts⟩ => by
    have h₁ := Covers.stop_eq t ht
    have h₂ := ForestCovers.stop_eq ts hts
    have hsum : (tokensText (forestLeaves (t :: ts))).utf8ByteSize =
        t.text.utf8ByteSize + (tokensText (forestLeaves ts)).utf8ByteSize := by
      rw [forestLeaves, tokensText_append, String.utf8ByteSize_append]
      rfl
    omega

end

theorem Covers.le {t : Tree} {i j : Nat} (h : Covers t i j) : i ≤ j := by
  have := h.stop_eq
  omega

theorem ForestCovers.le {ts : List Tree} {i j : Nat} (h : ForestCovers ts i j) : i ≤ j := by
  have := h.stop_eq
  omega

theorem Covers.span_eq {t : Tree} {i j : Nat} (h : Covers t i j) : t.span = ⟨i, j⟩ := by
  cases t with
  | leaf t =>
    obtain ⟨rfl, rfl⟩ := h
    rfl
  | node k s ts => exact h.1

end Tree

namespace Tree

mutual

/-- A tree begins where its first token does and ends where its last one does. -/
theorem Covers.first_last :
    (t : Tree) → {i j : Nat} → Covers t i j → (∀ u ∈ t.leaves.head?, u.start = i) ∧
      (∀ u ∈ t.leaves.getLast?, u.stop = j) ∧ (t.leaves = [] → i = j)
  | leaf t, i, j, ⟨hi, hj⟩ => by simp [leaves, hi, hj]
  | node k s ts, i, j, ⟨_, h⟩ => ForestCovers.first_last ts h

/-- Trees side by side begin where their first token does and end where their last one does. -/
theorem ForestCovers.first_last :
    (ts : List Tree) → {i j : Nat} → ForestCovers ts i j →
      (∀ u ∈ (forestLeaves ts).head?, u.start = i) ∧
        (∀ u ∈ (forestLeaves ts).getLast?, u.stop = j) ∧ (forestLeaves ts = [] → i = j)
  | [], i, j, h => ⟨by simp [forestLeaves], by simp [forestLeaves], fun _ => h⟩
  | t :: ts, i, j, ⟨m, ht, hts⟩ => by
    obtain ⟨hfirst, hlast, hnil⟩ := Covers.first_last t ht
    obtain ⟨hfirst', hlast', hnil'⟩ := ForestCovers.first_last ts hts
    rw [forestLeaves]
    by_cases hempty : t.leaves = []
    · obtain rfl := hnil hempty
      simpa [hempty] using ⟨hfirst', hlast', hnil'⟩
    · refine ⟨?_, ?_, fun h => absurd (List.append_eq_nil_iff.1 h).1 hempty⟩
      · obtain ⟨u, us, hcons⟩ := List.exists_cons_of_ne_nil hempty
        rw [hcons] at hfirst ⊢
        exact hfirst
      · by_cases hempty' : forestLeaves ts = []
        · obtain rfl := hnil' hempty'
          simpa [hempty'] using hlast
        · rw [List.getLast?_append, Option.or_of_isSome (by simpa using hempty')]
          exact hlast'

end

end Tree

/-! ## Trees of sketches -/

open Reshape.Tree

mutual

/-- The tree of a sketch covers the tokens that it takes. -/
theorem Sketch.covers_plant :
    (s : Sketch) → (g : Supply) → Contiguous g.offset g.tokens →
      (s.plant g).1.Covers g.offset (s.plant g).2.offset ∧
        Contiguous (s.plant g).2.offset (s.plant g).2.tokens
  | .plain k c, g, h => by
    obtain ⟨hc, hg⟩ := Contents.covers_plant c g h
    exact ⟨⟨rfl, hc⟩, hg⟩
  | .around k s c, g, h => by
    obtain ⟨hs, hg⟩ := Sketch.covers_plant s g h
    obtain ⟨hc, hg'⟩ := Contents.covers_plant c (s.plant g).2 hg
    exact ⟨⟨rfl, _, hs, hc⟩, hg'⟩

/-- The trees of contents cover the tokens that they take. -/
theorem Contents.covers_plant :
    (c : Contents) → (g : Supply) → Contiguous g.offset g.tokens →
      ForestCovers (c.plant g).1 g.offset (c.plant g).2.offset ∧
        Contiguous (c.plant g).2.offset (c.plant g).2.tokens
  | .nothing, g, h => ⟨rfl, h⟩
  | .token c, g, h => by
    obtain ⟨hc, hg⟩ := Contents.covers_plant c g h
    simp only [Contents.plant]
    split
    · exact ⟨hc, hg⟩
    · next t rest hcons =>
      rw [hcons] at hg
      exact ⟨forestCovers_append.2 ⟨_, hc, forestCovers_singleton.2 ⟨hg.1, rfl⟩⟩, hg.2⟩
  | .node c s, g, h => by
    obtain ⟨hc, hg⟩ := Contents.covers_plant c g h
    obtain ⟨hs, hg'⟩ := Sketch.covers_plant s (c.plant g).2 hg
    exact ⟨forestCovers_append.2 ⟨_, hc, forestCovers_singleton.2 hs⟩, hg'⟩

end

/-! ## Trees of parses -/

theorem Parse.Planted.covers {p : Parse} {text : String} (h : p.Planted text) :
    p.tree.Covers 0 text.utf8ByteSize := by
  have htext := h.lossless.2
  obtain ⟨s, htree, -⟩ := h
  obtain ⟨hcovers, -⟩ := s.covers_plant ⟨lexTokens text, 0⟩ (contiguous_lexTokens text)
  rw [← htree] at hcovers
  have hstop := hcovers.stop_eq
  rw [htext] at hstop
  rw [hstop, Nat.zero_add] at hcovers
  exact hcovers

theorem planted_parseFile (text : String) : (parseFile text).Planted text := by
  unfold parseFile parseWith
  exact planted_sourceFile text _

end Reshape
