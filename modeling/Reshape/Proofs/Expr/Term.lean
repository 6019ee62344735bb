import Reshape.Grammar.Expressions
import Reshape.Proofs.Grammar.Reading
import Reshape.Proofs.Token.Idents

/-!
# Terms

Expressions of names, infix operators, operators before an operand, fields, calls, indices and
question marks, and how they are written.

* `BinOp` and `UnOp` are the operators, `Term` the expressions. `Term.skeleton` is the skeleton of
  the tree that an expression should have; different expressions have different ones
  (`Term.skeleton_injective`).
* `Term.front` and `Term.tail` say how strongly an expression binds at its two ends. `Term.marks`
  writes it with parentheses around the parts that bind too weakly for their place.
* `Term.legible_marks` says that what is written can be read.
-/

namespace Reshape

/-- The skeleton of a name where it is used. -/
def Ident.skeleton (n : Ident) : Skeleton := .node .nameRef [n.mark.skeleton]

/-! ## Operators -/

/-- The infix operators. -/
inductive BinOp
  | assign | addAssign | subAssign | mulAssign | divAssign | remAssign | xorAssign | andAssign
  | orAssign | shlAssign | shrAssign
  | or | and
  | eq | ne | lt | gt | le | ge
  | bitOr | bitXor | bitAnd
  | shl | shr
  | add | sub
  | mul | div | rem
deriving DecidableEq

namespace BinOp

/-- The tokens of an infix operator. Those of shifts touch each other. -/
def marks : BinOp → List Mark
  | assign => [⟨.eq, "=", false, rfl⟩]
  | addAssign => [⟨.compoundAssign, "+=", false, rfl⟩]
  | subAssign => [⟨.compoundAssign, "-=", false, rfl⟩]
  | mulAssign => [⟨.compoundAssign, "*=", false, rfl⟩]
  | divAssign => [⟨.compoundAssign, "/=", false, rfl⟩]
  | remAssign => [⟨.compoundAssign, "%=", false, rfl⟩]
  | xorAssign => [⟨.compoundAssign, "^=", false, rfl⟩]
  | andAssign => [⟨.compoundAssign, "&=", false, rfl⟩]
  | orAssign => [⟨.compoundAssign, "|=", false, rfl⟩]
  | shlAssign => [⟨.lt, "<", true, rfl⟩, ⟨.ltEq, "<=", false, rfl⟩]
  | shrAssign => [⟨.gt, ">", true, rfl⟩, ⟨.gtEq, ">=", false, rfl⟩]
  | or => [⟨.pipePipe, "||", false, rfl⟩]
  | and => [⟨.ampAmp, "&&", false, rfl⟩]
  | eq => [⟨.eqEq, "==", false, rfl⟩]
  | ne => [⟨.notEq, "!=", false, rfl⟩]
  | lt => [⟨.lt, "<", false, rfl⟩]
  | gt => [⟨.gt, ">", false, rfl⟩]
  | le => [⟨.ltEq, "<=", false, rfl⟩]
  | ge => [⟨.gtEq, ">=", false, rfl⟩]
  | bitOr => [⟨.pipe, "|", false, rfl⟩]
  | bitXor => [⟨.caret, "^", false, rfl⟩]
  | bitAnd => [⟨.amp, "&", false, rfl⟩]
  | shl => [⟨.lt, "<", true, rfl⟩, ⟨.lt, "<", false, rfl⟩]
  | shr => [⟨.gt, ">", true, rfl⟩, ⟨.gt, ">", false, rfl⟩]
  | add => [⟨.plus, "+", false, rfl⟩]
  | sub => [⟨.minus, "-", false, rfl⟩]
  | mul => [⟨.star, "*", false, rfl⟩]
  | div => [⟨.slash, "/", false, rfl⟩]
  | rem => [⟨.percent, "%", false, rfl⟩]

/-- How strongly an infix operator binds on either side, by itself. -/
def power (op : BinOp) : InfixOp := (infixAhead (layout 0 op.marks)).getD ⟨0, 0, 0⟩

/-- Whether an infix operator assigns. -/
def assigns (op : BinOp) : Bool := op.power.left == 2

/-- An operator that assigns associates to the right, any other one to the left. -/
theorem power_sides (op : BinOp) :
    op.assigns = true ∧ op.power.left = 2 ∧ op.power.right = 1 ∨
      op.assigns = false ∧ 2 < op.power.left ∧ op.power.right = op.power.left + 1 := by
  cases op <;> decide

/-- Operators before an operand bind more strongly than infix operators on either side. -/
theorem left_lt_prefixPower (op : BinOp) : op.power.left < Grammar.prefixPower := by
  cases op <;> decide

theorem right_lt_prefixPower (op : BinOp) : op.power.right < Grammar.prefixPower := by
  cases op <;> decide

/-- An infix operator is read as the one or two tokens that it has. -/
theorem marks_cases (op : BinOp) :
    (∃ m, op.marks = [m] ∧ op.power.tokens = 1) ∨
      ∃ m u, op.marks = [m, u] ∧ op.power.tokens = 2 := by
  cases op
  case shlAssign | shrAssign | shl | shr => exact .inr ⟨_, _, rfl, rfl⟩
  all_goals exact .inl ⟨_, rfl, rfl⟩

end BinOp

/-- The operators before an operand. -/
inductive UnOp
  | neg | not | deref | ref | refMut
deriving DecidableEq

namespace UnOp

/-- The tokens of an operator before an operand. -/
def marks : UnOp → List Mark
  | neg => [⟨.minus, "-", false, rfl⟩]
  | not => [⟨.bang, "!", false, rfl⟩]
  | deref => [⟨.star, "*", false, rfl⟩]
  | ref => [⟨.amp, "&", false, rfl⟩]
  | refMut => [⟨.amp, "&", false, rfl⟩, ⟨.keyword .mutKw, "mut", false, rfl⟩]

/-- The kind of the node of an operator and its operand. -/
def nodeKind : UnOp → NodeKind
  | neg | not | deref => .prefixExpr
  | ref | refMut => .refExpr

end UnOp

namespace Mark

/-- An opening parenthesis. -/
def lParen : Mark := ⟨.lParen, "(", false, rfl⟩

/-- A closing parenthesis. -/
def rParen : Mark := ⟨.rParen, ")", false, rfl⟩

/-- An opening bracket. -/
def lBracket : Mark := ⟨.lBracket, "[", false, rfl⟩

/-- A closing bracket. -/
def rBracket : Mark := ⟨.rBracket, "]", false, rfl⟩

/-- A comma. -/
def comma : Mark := ⟨.comma, ",", false, rfl⟩

/-- A dot. -/
def dot : Mark := ⟨.dot, ".", false, rfl⟩

/-- A question mark. -/
def question : Mark := ⟨.question, "?", false, rfl⟩

end Mark

/-! ## Terms -/

/-- An expression. -/
inductive Term
  | name (n : Ident)
  | unary (op : UnOp) (e : Term)
  | binary (op : BinOp) (l r : Term)
  | field (e : Term) (n : Ident)
  | call (f : Term) (args : List Term)
  | index (e i : Term)
  | question (e : Term)

/-- Marks with parentheses around them, if asked for. -/
def enclosed (b : Bool) (ms : List Mark) : List Mark :=
  if b then .lParen :: (ms ++ [.rParen]) else ms

namespace Term

open Grammar

/-- How strongly an expression binds at its front. Where a place asks for more, an infix operator at
the front is left to what is around. -/
def front : Term → Nat
  | binary op _ _ => op.power.left
  | _ => postfixPower + 1

/-- How strongly an expression binds at its end. The operator there takes all operators that follow
and bind at least as strongly. -/
def tail : Term → Nat
  | binary op _ _ => op.power.right
  | unary _ _ => prefixPower
  | _ => postfixPower + 1

/-- Whether an expression is the access of a field. -/
def isField : Term → Bool
  | field _ _ => true
  | _ => false

/-- Whether a left operand needs parentheses: an operator at its end takes what follows. -/
def parensLeft (l : Term) (op : BinOp) : Bool := l.tail ≤ op.power.left

/-- Whether a right operand needs parentheses: an operator at its front binds too weakly. -/
def parensRight (r : Term) (op : BinOp) : Bool := r.front < op.power.right

/-- Whether the operand of an operator before it needs parentheses. -/
def parensOperand (e : Term) : Bool := e.front < prefixPower

/-- Whether what a postfix operator is applied to needs parentheses. -/
def parensBase (e : Term) : Bool := e.tail ≤ postfixPower

section

variable {e : Term} {op : BinOp}

theorem parensLeft_eq_false : e.parensLeft op = false ↔ op.power.left < e.tail := by
  simp [parensLeft]

theorem parensRight_eq_false : e.parensRight op = false ↔ op.power.right ≤ e.front := by
  simp [parensRight]

theorem parensOperand_eq_false : e.parensOperand = false ↔ prefixPower ≤ e.front := by
  simp [parensOperand]

theorem parensBase_eq_false : e.parensBase = false ↔ postfixPower < e.tail := by
  simp [parensBase]

end

mutual

/-- How an expression is written: with parentheses around the parts that bind too weakly for their
place, and around a field that is called, if `callees` says so. -/
def marks (callees : Bool) : Term → List Mark
  | name n => [n.mark]
  | unary op e => op.marks ++ enclosed e.parensOperand (e.marks callees)
  | binary op l r =>
    enclosed (l.parensLeft op) (l.marks callees) ++
      (op.marks ++ enclosed (r.parensRight op) (r.marks callees))
  | field e n => enclosed e.parensBase (e.marks callees) ++ [.dot, n.mark]
  | call f args =>
    enclosed (f.parensBase || callees && f.isField) (f.marks callees) ++
      .lParen :: (argMarks callees args ++ [.rParen])
  | index e i =>
    enclosed e.parensBase (e.marks callees) ++ .lBracket :: (i.marks callees ++ [.rBracket])
  | question e => enclosed e.parensBase (e.marks callees) ++ [.question]

/-- How arguments are written, with commas between them. -/
def argMarks (callees : Bool) : List Term → List Mark
  | [] => []
  | e :: es => e.marks callees ++ if es.isEmpty then [] else .comma :: argMarks callees es

end

mutual

/-- The skeleton of the tree of an expression. -/
def skeleton : Term → Skeleton
  | name n => .node .pathExpr [.node .path [.node .pathSegment [n.skeleton]]]
  | unary op e => .node op.nodeKind (op.marks.map Mark.skeleton ++ [e.skeleton])
  | binary op l r => .node .binExpr (l.skeleton :: (op.marks.map Mark.skeleton ++ [r.skeleton]))
  | field e n => .node .fieldExpr [e.skeleton, Mark.dot.skeleton, n.skeleton]
  | call f args =>
    .node .callExpr [f.skeleton,
      .node .argList (Mark.lParen.skeleton :: (argSkeletons args ++ [Mark.rParen.skeleton]))]
  | index e i =>
    .node .indexExpr [e.skeleton, Mark.lBracket.skeleton, i.skeleton, Mark.rBracket.skeleton]
  | question e => .node .tryExpr [e.skeleton, Mark.question.skeleton]

/-- The skeletons of arguments, with commas between them. -/
def argSkeletons : List Term → List Skeleton
  | [] => []
  | e :: es => e.skeleton :: if es.isEmpty then [] else Mark.comma.skeleton :: argSkeletons es

end

section

variable (callees : Bool) (e e' : Term) (es : List Term)

theorem argMarks_singleton : argMarks callees [e] = e.marks callees := by
  rw [argMarks, List.isEmpty_nil, if_pos rfl, List.append_nil]

theorem argMarks_cons_cons :
    argMarks callees (e :: e' :: es) =
      e.marks callees ++ .comma :: argMarks callees (e' :: es) := by
  rw [argMarks, if_neg (by simp)]

theorem argSkeletons_singleton : argSkeletons [e] = [e.skeleton] := by
  rw [argSkeletons, List.isEmpty_nil, if_pos rfl]

theorem argSkeletons_cons_cons :
    argSkeletons (e :: e' :: es) =
      e.skeleton :: Mark.comma.skeleton :: argSkeletons (e' :: es) := by
  rw [argSkeletons, if_neg (by simp)]

end

/-- The text of an expression. -/
def print (callees : Bool) (e : Term) : String := written (e.marks callees)

end Term

/-! ## Trees of different terms -/

/-- The text of a token. -/
def Skeleton.text : Skeleton → String
  | .token _ w => w
  | .node _ _ => ""

namespace BinOp

/-- The skeletons of the tokens of an infix operator. -/
def skeletons (op : BinOp) : List Skeleton := op.marks.map Mark.skeleton

/-- The infix operators. -/
def all : List BinOp :=
  [assign, addAssign, subAssign, mulAssign, divAssign, remAssign, xorAssign, andAssign, orAssign,
    shlAssign, shrAssign, or, and, eq, ne, lt, gt, le, ge, bitOr, bitXor, bitAnd, shl, shr, add,
    sub, mul, div, rem]

/-- Infix operators are told apart by the texts of their tokens. -/
theorem find?_skeletons (op : BinOp) :
    all.find? (fun op' => op'.skeletons.map (·.text) == op.skeletons.map (·.text)) = some op := by
  cases op <;> rfl

theorem skeletons_injective {op op' : BinOp} (h : op.skeletons = op'.skeletons) : op = op' := by
  have hfind := find?_skeletons op
  rw [h, find?_skeletons op'] at hfind
  exact (Option.some.inj hfind).symm

end BinOp

@[simp] theorem UnOp.nodeKind_ne (op : UnOp) {k : NodeKind} (h : k ≠ .prefixExpr)
    (h' : k ≠ .refExpr) : op.nodeKind ≠ k := by
  cases op
  case neg | not | deref => exact h.symm
  case ref | refMut => exact h'.symm

@[simp] theorem UnOp.ne_nodeKind (op : UnOp) {k : NodeKind} (h : k ≠ .prefixExpr)
    (h' : k ≠ .refExpr) : k ≠ op.nodeKind :=
  (op.nodeKind_ne h h').symm

namespace Term

mutual

/-- Terms with the same tree are the same. -/
theorem skeleton_injective : (e e' : Term) → e.skeleton = e'.skeleton → e = e'
  | name n, e', h => by
    cases e' with
    | name n' =>
      have htext : n.text = n'.text := by
        simpa [skeleton, Ident.skeleton, Mark.skeleton, Ident.mark] using h
      rw [Ident.ext htext]
    | _ => simp [skeleton] at h
  | unary op e, e', h => by
    cases e' with
    | unary op' e' =>
      have hop : op = op' ∧ e.skeleton = e'.skeleton := by
        cases op <;> cases op' <;>
          simp_all [skeleton, UnOp.marks, UnOp.nodeKind, Mark.skeleton]
      rw [hop.1, skeleton_injective e e' hop.2]
    | _ => simp [skeleton] at h
  | binary op l r, e', h => by
    cases e' with
    | binary op' l' r' =>
      simp only [skeleton, Skeleton.node.injEq, List.cons.injEq, true_and] at h
      obtain ⟨hop, hr⟩ := List.append_inj' h.2 rfl
      rw [BinOp.skeletons_injective hop, skeleton_injective l l' h.1,
        skeleton_injective r r' (List.cons.inj hr).1]
    | _ => simp [skeleton] at h
  | field e n, e', h => by
    cases e' with
    | field e' n' =>
      have hparts : e.skeleton = e'.skeleton ∧ n.text = n'.text := by
        simpa [skeleton, Ident.skeleton, Mark.skeleton, Ident.mark] using h
      rw [skeleton_injective e e' hparts.1, Ident.ext hparts.2]
    | _ => simp [skeleton] at h
  | call f args, e', h => by
    cases e' with
    | call f' args' =>
      have hparts : f.skeleton = f'.skeleton ∧ argSkeletons args = argSkeletons args' := by
        simpa [skeleton] using h
      rw [skeleton_injective f f' hparts.1, argSkeletons_injective args args' hparts.2]
    | _ => simp [skeleton] at h
  | index e i, e', h => by
    cases e' with
    | index e' i' =>
      have hparts : e.skeleton = e'.skeleton ∧ i.skeleton = i'.skeleton := by
        simpa [skeleton] using h
      rw [skeleton_injective e e' hparts.1, skeleton_injective i i' hparts.2]
    | _ => simp [skeleton] at h
  | question e, e', h => by
    cases e' with
    | question e' =>
      have hpart : e.skeleton = e'.skeleton := by simpa [skeleton] using h
      rw [skeleton_injective e e' hpart]
    | _ => simp [skeleton] at h

theorem argSkeletons_injective :
    (es es' : List Term) → argSkeletons es = argSkeletons es' → es = es'
  | [], [], _ => rfl
  | [], e' :: es', h => by simp [argSkeletons] at h
  | e :: es, [], h => by simp [argSkeletons] at h
  | e :: es, e' :: es', h => by
    simp only [argSkeletons, List.cons.injEq] at h
    have htail : es = es' := by
      cases es with
      | nil => cases es' <;> simp_all
      | cons f fs =>
        cases es' with
        | nil => simp at h
        | cons f' fs' => exact argSkeletons_injective (f :: fs) (f' :: fs') (by simpa using h.2)
    rw [skeleton_injective e e' h.1, htail]

end

end Term

/-! ## What is written can be read -/

section

open Mark

theorem BinOp.legible_marks (op : BinOp) : Legible op.marks := by
  cases op
  case shlAssign | shrAssign | shl | shr =>
    exact .pair (legible_of_joint rfl fun _ _ => rfl)
      (legible_of_lexeme rfl rfl (fun _ => rfl) fun _ _ => rfl) (fun _ => by decide) rfl
  all_goals exact .singleton (legible_of_lexeme rfl rfl (fun _ => rfl) fun _ _ => rfl) rfl

theorem UnOp.legible_marks (op : UnOp) : Legible op.marks := by
  cases op
  case refMut =>
    exact .cons (legible_of_lexeme rfl rfl (fun _ => rfl) fun _ _ => rfl) rfl
      (.singleton (legible_of_lexeme rfl rfl (fun _ => rfl) fun _ _ => rfl) rfl)
  all_goals exact .singleton (legible_of_lexeme rfl rfl (fun _ => rfl) fun _ _ => rfl) rfl

/-- A sign of one character is read as such. -/
theorem legible_sign {m : Mark} {ms : List Mark}
    (h : m ∈ [lParen, rParen, lBracket, rBracket, comma, dot, Mark.question]) (hms : Legible ms) :
    Legible (m :: ms) := by
  have hm : m.Legible ∧ m.joint = false := by
    simp only [List.mem_cons, List.not_mem_nil, or_false] at h
    rcases h with rfl | rfl | rfl | rfl | rfl | rfl | rfl
    all_goals exact ⟨legible_of_lexeme rfl rfl (fun _ => rfl) fun _ _ => rfl, rfl⟩
  exact hms.cons hm.1 hm.2

end

theorem Legible.enclosed {ms : List Mark} (h : Legible ms) (b : Bool) :
    Legible (enclosed b ms) := by
  cases b with
  | false => exact h
  | true => exact legible_sign (by simp) (h.append (legible_sign (by simp) .nil))

namespace Term

mutual

/-- What is written of an expression can be read. -/
theorem legible_marks (callees : Bool) : (e : Term) → Legible (e.marks callees)
  | name n => .singleton n.legible_mark rfl
  | unary op e => op.legible_marks.append ((legible_marks callees e).enclosed _)
  | binary op l r =>
    ((legible_marks callees l).enclosed _).append
      (op.legible_marks.append ((legible_marks callees r).enclosed _))
  | field e n =>
    ((legible_marks callees e).enclosed _).append
      (legible_sign (by simp) (.singleton n.legible_mark rfl))
  | call f args =>
    ((legible_marks callees f).enclosed _).append
      (legible_sign (by simp)
        ((legible_argMarks callees args).append (legible_sign (by simp) .nil)))
  | index e i =>
    ((legible_marks callees e).enclosed _).append
      (legible_sign (by simp) ((legible_marks callees i).append (legible_sign (by simp) .nil)))
  | question e => ((legible_marks callees e).enclosed _).append (legible_sign (by simp) .nil)

/-- What is written of arguments can be read. -/
theorem legible_argMarks (callees : Bool) : (es : List Term) → Legible (argMarks callees es)
  | [] => .nil
  | e :: es => by
    refine (legible_marks callees e).append ?_
    split
    · exact .nil
    · exact legible_sign (by simp) (legible_argMarks callees es)

end

end Term

end Reshape
