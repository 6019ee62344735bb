import Reshape.Proofs.Expr.Reading
import Reshape.Proofs.Parse.Termination

/-!
# Printing and parsing terms

What is written of a term is parsed as that term, and as no other one.

* `ParsesAs` says that a text is parsed as a term, without problems. `parseExpr_written` reduces it to
  what the grammar of expressions reads.
* `Term.parsesAs_print` is the round trip. `Term.parens_of_level` and `Term.parens_of_unary` say which
  operands are written without parentheses, and so how operators group.
* `Term.parseExpr_print` puts these together.
-/

namespace Reshape

open ParserState Grammar

/-- A text is parsed as a term: nothing is wrong with it, and its tree is that of the term, with the
end of the text behind it. -/
structure ParsesAs (text : String) (e : Term) : Prop where
  problems_eq : (parseExpr text).problems = []
  skeletons_eq : (parseExpr text).tree.skeletons =
    [.node .sourceFile [e.skeleton, .token .eof ""]]

variable {ms : List Mark}

/-- A parser that has opened the root before what was written. -/
theorem faces_openNode_initial (h : Legible ms) :
    (ParserState.initial (written ms)).openNode.Faces (lexTokens (written ms)) []
      ⟨ms, [], false⟩ where
  left_eq := by
    rw [left_openNode, left]
    exact ⟨0, (congrArg fromSignificant (lexTokens_written h)).trans fromSignificant_layout⟩
  shows := Shows.openRoot (s := .initial (written ms)) rfl
  problems_eq := by
    show (lexProblems (written ms)).reverse = []
    rw [lexProblems, lexErrors_written h]
    rfl
  ended hended := by cases hended

/-- Nothing is skipped at the end of a text. -/
theorem reads_skipToEnd (fault : Fault) {v : Prospect} (h : markKind 0 v.ahead = .eof) :
    Reads (sourceFile.skipToEnd fault) v () v := by
  refine .loop_last (reads_isAt_bind.2 ?_)
  rw [if_pos (by simp [h])]
  exact .pure _ _

/-- What is read as an expression up to its end is the tree of its text. -/
theorem parseExpr_written {x : Skeleton} (h : Legible ms)
    (hreads : Reads expr ⟨ms, [], false⟩ true ⟨[], [x], true⟩) :
    (parseExpr (written ms)).problems = [] ∧
      (parseExpr (written ms)).tree.skeletons = [.node .sourceFile [x, .token .eof ""]] := by
  obtain ⟨d, r, hexpr, hr⟩ := hreads _ _ _ (faces_openNode_initial h)
  obtain ⟨e, t, hskip, ht⟩ := reads_skipToEnd .trailingToken rfl _ _ r hr
  obtain ⟨i, hi⟩ := ht.left_eq
  have hshows := ht.shows.advance (t := ⟨.eof, i, ""⟩) (congrArg List.head? hi)
  have hbody : Runs (max d e) (do let _ ← expr; sourceFile.skipToEnd .trailingToken; advance)
      (ParserState.initial (written ms)).openNode () t.advance := by
    simp only [runs_bind, runs_advance]
    exact ⟨true, r, hexpr.mono (Nat.le_max_left d e), (), t, hskip.mono (Nat.le_max_right d e),
      rfl⟩
  have hlone : Runs (max d e) loneExpr (.initial (written ms)) ()
      (t.advance.record (.close .sourceFile)) :=
    runs_iff.2 ⟨some .sourceFile, t.advance,
      runs_bind.2 ⟨(), t.advance, hbody, runs_pure.2 ⟨rfl, rfl⟩⟩, rfl⟩
  obtain ⟨-, hafter⟩ := (steady_loneExpr.progress (written ms)).bounded hlone
  rw [parseExpr, parseWith, parseWithin, hafter]
  refine ⟨?_, hshows.skeletons_treeOfOps .sourceFile⟩
  have hproblems : t.advance.problems = [] := by
    rw [ParserState.advance, step]
    split <;> exact ht.problems_eq
  show List.mergeSort t.advance.problems.reverse _ = []
  rw [hproblems, List.reverse_nil, List.mergeSort_nil]

namespace Term

/-- What is written of a term is parsed as that term. -/
theorem parsesAs_print (e : Term) : ParsesAs (e.print true) e := by
  have hreads := (e.readsBack [] (.of_eq_zero rfl)).expr rfl [] false
  rw [List.append_nil] at hreads
  obtain ⟨hproblems, hskeletons⟩ := parseExpr_written (e.legible_marks true) hreads
  exact ⟨hproblems, hskeletons⟩

/-- Parentheses stand where the powers ask for them. -/
example (a b c : Term) (ha : a = name ⟨"a", by decide⟩) (hb : b = name ⟨"b", by decide⟩)
    (hc : c = name ⟨"c", by decide⟩) :
    (binary .sub (unary .neg a) (binary .sub b (question (unary .deref c)))).print true =
      "- a - ( b - ( * c ) ? )" := by
  subst ha hb hc
  decide +kernel

/-! ## Grouping -/

section

variable (op op' : BinOp) (u : UnOp) (x y z : Term)

/-- Operators of one level group to the right if they assign, else to the left. -/
theorem parens_of_level (h : op.power.left = op'.power.left) :
    (binary op x y).parensLeft op' = op.assigns ∧
      (binary op' y z).parensRight op = !op.assigns := by
  obtain ⟨hassigns, hleft, hright⟩ | ⟨hassigns, hleft, hright⟩ := op.power_sides
  all_goals rw [hassigns]
  · exact ⟨decide_eq_true (show op.power.right ≤ op'.power.left by omega),
      parensRight_eq_false.2 (show op.power.right ≤ op'.power.left by omega)⟩
  · exact ⟨parensLeft_eq_false.2 (show op'.power.left < op.power.right by omega),
      decide_eq_true (show op'.power.left < op.power.right by omega)⟩

/-- An operator before an operand binds more strongly than infix operators. -/
theorem parens_of_unary :
    (unary u x).parensLeft op = false ∧ (unary u x).parensRight op = false ∧
      (binary op x y).parensOperand = true := by
  have hleft := op.left_lt_prefixPower
  have hright : op.power.right < postfixPower + 1 := op.right_lt_prefixPower.trans (by decide)
  exact ⟨parensLeft_eq_false.2 hleft, parensRight_eq_false.2 hright.le, decide_eq_true hleft⟩

end

/-- **Printing and parsing a term gives it back.** A text with parentheses where the powers of
operators ask for them, and around fields that are called, is parsed without problems as the term it
was written for, and as no other one. Operators of one level need no parentheses where they group to
the left, those that assign where they group to the right. An operator before an operand needs none
beside an infix operator, and a postfix operator none behind an operator before the operand. -/
theorem parseExpr_print :
    (∀ e : Term, ParsesAs (e.print true) e ∧ ∀ e', ParsesAs (e.print true) e' → e' = e) ∧
      (∀ (op op' : BinOp) (x y z : Term), op.power.left = op'.power.left →
        (binary op x y).parensLeft op' = op.assigns ∧
          (binary op' y z).parensRight op = !op.assigns) ∧
      (∀ (op : BinOp) (u : UnOp) (x y : Term),
        (unary u x).parensLeft op = false ∧ (unary u x).parensRight op = false ∧
          (binary op x y).parensOperand = true) ∧
      ∀ (u : UnOp) (x y : Term) (n : Ident) (args : List Term),
        (field x n).parensOperand = false ∧ (call x args).parensOperand = false ∧
          (index x y).parensOperand = false ∧ (question x).parensOperand = false ∧
          (unary u x).parensBase = true := by
  refine ⟨fun e => ⟨e.parsesAs_print, fun e' h => ?_⟩, parens_of_level, parens_of_unary,
    fun u x y n args => ⟨rfl, rfl, rfl, rfl, rfl⟩⟩
  have hskeletons := h.skeletons_eq.symm.trans e.parsesAs_print.skeletons_eq
  simp only [List.cons.injEq, Skeleton.node.injEq, true_and, and_true] at hskeletons
  exact skeleton_injective e' e hskeletons

/-- The kind of the first node in a node. -/
def firstKind? : Skeleton → Option NodeKind
  | .node _ (.node k _ :: _) => some k
  | _ => none

/-- Without parentheses around it, a field that is called is parsed as a method. -/
theorem not_parsesAs_print_field : ¬ ∀ e : Term, ParsesAs (e.print false) e := by
  intro h
  have hcall := h (call (field (name ⟨"a", by decide⟩) ⟨"f", by decide⟩) [])
  have hkind := congrArg (·.map firstKind?) hcall.skeletons_eq
  have hmethod : (parseExpr (print false (call (field (name ⟨"a", by decide⟩) ⟨"f", by decide⟩)
      []))).tree.skeletons.map firstKind? = [some .methodCallExpr] := by
    decide +kernel
  rw [hmethod] at hkind
  cases hkind

end Term

end Reshape
