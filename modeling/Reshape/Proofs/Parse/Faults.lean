import Reshape.Proofs.Parse.Margins

/-!
# Errors in parses without problems

What is no token has a fault, and faults of tokens are problems from the start. A form that gives up says
so before it leaves an error behind, with one exception: an item that turns out to be none leaves the
qualifiers of a function that it took, and where statements are read nobody asks whether an item was read.

`errors_of_ok` says which errors there may be in a tree without problems.
-/

namespace Reshape

open Reshape.Tree Grammar ParserState

namespace Node

variable {n m : Node}

theorem kind_mem_of_mem_children (h : m ∈ n.children) :
    m.kind ∈ n.tree.children.filterMap (·.kind?) := by
  obtain ⟨-, before, behind, helements⟩ := exists_of_mem_children h
  refine List.mem_filterMap.2 ⟨m.tree, ?_, rfl⟩
  show m.tree ∈ n.elements
  rw [helements]
  simp

/-- **Errors without problems.** In a parse in which no problem was found, all tokens are tokens. A node
that is an error has nothing but qualifiers of functions in it, and stands in a block. -/
theorem errors_of_ok {text : String} {depth : Nat} {g : Grammar Unit}
    (hg : g = sourceFile ∨ g = loneExpr) (hend : (parserAfter depth g text).exhausted = false)
    (hok : (parseWithin depth g text).ok = true) :
    (∀ t ∈ (parseWithin depth g text).tree.leaves, t.kind ≠ .error) ∧
      ∀ n, Below (ofTree (parseWithin depth g text).tree) n → n.kind = .errorNode →
        n.children = [] ∧ (∀ t ∈ n.tree.leaves, t.isTrivia = true ∨ t.qualifies = true) ∧
          ∃ m, n.parent? = some m ∧ m.kind = .blockExpr := by
  have hnil : (parseWithin depth g text).problems = [] := List.isEmpty_iff.1 hok
  obtain ⟨e, htree, -, hclean⟩ := neat_parse hg hend
  obtain ⟨hfaults, hroot⟩ := hclean hnil
  refine ⟨?_, fun n hn hkind => ?_⟩
  · have hleaves : (parseWithin depth g text).tree.leaves = lexTokens text := by
      obtain rfl | rfl := hg
      · exact (planted_sourceFile text depth).lossless.1
      · exact (planted_loneExpr text depth).lossless.1
    rw [hleaves]
    exact lexErrors_eq_nil.1 hfaults
  · have hne : n ≠ ofTree (parseWithin depth g text).tree := by
      rintro rfl
      rw [htree] at hkind
      cases hkind
    obtain ⟨s, i, hneat, hgrows⟩ := neat_of_below hg hend hn hne
    have hs : some n.kind = some s.kind := hgrows.kind?_eq
    obtain ⟨hbare, htokens⟩ := hneat.bare hnil ((Option.some.inj hs).symm.trans hkind)
    refine ⟨?_, hgrows.leaves_eq ▸ htokens, ?_⟩
    · refine List.eq_nil_iff_forall_not_mem.2 fun c hc => ?_
      have hmem := kind_mem_of_mem_children hc
      rw [hgrows.childKinds_eq, hbare] at hmem
      cases hmem
    · cases hn with
      | refl => exact absurd rfl hne
      | @child m _ hm hchild =>
        have hmem := hkind ▸ kind_mem_of_mem_children hchild
        refine ⟨m, parent?_of_mem_children hchild, ?_⟩
        by_cases hroot' : m = ofTree (parseWithin depth g text).tree
        · rw [hroot', htree] at hmem
          exact absurd ((Contents.kinds_plant e _).subst hmem) hroot
        · obtain ⟨s, i, hneat, hgrows⟩ := neat_of_below hg hend hm hroot'
          have hs : some m.kind = some s.kind := hgrows.kind?_eq
          rw [hgrows.childKinds_eq] at hmem
          exact (Option.some.inj hs).trans (hneat.spotless hnil hmem)

set_option maxRecDepth 100000 in
/-- A qualifier without an item behind it is such an error. -/
theorem errors_of_ok_qualifier :
    (parseWithin 100 sourceFile "fn f() \x7b const unsafe \x7b \x7d \x7d").ok = true ∧ ∃ n m : Node,
      Below (ofTree (parseWithin 100 sourceFile "fn f() \x7b const unsafe \x7b \x7d \x7d").tree) n ∧
        n.kind = .errorNode ∧ n.children = [] ∧
        (∀ t ∈ n.tree.leaves, t.isTrivia = true ∨ t.qualifies = true) ∧ n.parent? = some m ∧
        m.kind = .blockExpr := by
  have hend : (parserAfter 100 sourceFile "fn f() \x7b const unsafe \x7b \x7d \x7d").exhausted =
      false := by
    decide +kernel
  have hok : (parseWithin 100 sourceFile "fn f() \x7b const unsafe \x7b \x7d \x7d").ok = true := by
    decide +kernel
  obtain ⟨n, hn⟩ := Option.isSome_iff_exists.1
    (by decide +kernel : ((ofTree (parseWithin 100 sourceFile
      "fn f() \x7b const unsafe \x7b \x7d \x7d").tree).descendants.find?
        (·.kind == .errorNode)).isSome = true)
  have hbelow := below_of_mem_descendants (List.mem_of_find?_eq_some hn)
  have hkind : n.kind = .errorNode := by simpa using List.find?_some hn
  obtain ⟨hchildren, htokens, m, hm, hblock⟩ := (errors_of_ok (.inl rfl) hend hok).2 n hbelow hkind
  exact ⟨hok, n, m, hbelow, hkind, hchildren, htokens, hm, hblock⟩

set_option maxRecDepth 100000 in
/-- No problem is found where a block has a qualifier without an item behind it, and yet there is an
error. -/
theorem error_without_problem : (parseFile "fn f() \x7b const unsafe \x7b \x7d \x7d").ok = true ∧
    ∃ n ∈ (ofTree (parseFile "fn f() \x7b const unsafe \x7b \x7d \x7d").tree).descendants,
      n.kind = .errorNode := by
  decide +kernel

end Node

end Reshape
