import Reshape.Grammar.Rules
import Reshape.Proofs.Grammar.Lookahead

/-!
# What nodes consist of

Where no problem is found, the tokens and nodes in a node are those of the form that its kind names.

* A `Constituent` is what stands in a node, trivia apart. A `Stage` is a place in a run: what stands in
  the innermost open node so far, and what is ahead.
* `Fits` says which constituents a finished node of a kind has. Only kinds are looked at of which
  something has to be known.
* `IsValued` says that an expression stands behind the first mark of a form. Until then a stage
  `Awaits` the mark: what was read are no expressions, except for macro calls, which may stand for
  patterns and types.
* `Grammar.Reaches` is a judgement on grammars, by recursion on the term: from a stage, a run that finds
  no problem ends in stages that satisfy a property, and all nodes that it finishes fit.
* Most grammars only have to be `Grammar.Fit`: their nodes fit, and nothing is asked of their ends.
-/

namespace Reshape

/-- What stands in a node, trivia apart. -/
inductive Constituent
  | token (k : TokenKind)
  | node (k : NodeKind)
deriving DecidableEq

/-- A place in a run: the tokens ahead, the kind of the significant token that was taken last, and what
stands in the innermost open node. The node is `flush` if no trivia stand behind that, and `closed` if
nothing was read since the last node in it was finished. -/
structure Stage where
  ahead : List Token
  last : Option TokenKind
  inside : List Constituent
  flush : Bool
  closed : Bool

namespace Stage

variable {s t : Stage} {k : TokenKind}

/-- The kind of the next token. -/
abbrev next (s : Stage) : TokenKind := kindAt 0 s.ahead

/-- Behind the next token. -/
def take (s : Stage) : Stage where
  ahead := (fromSignificant s.ahead).tail
  last := ((nextToken? s.ahead).map (·.kind)).or s.last
  inside := s.inside ++ ((nextToken? s.ahead).map fun t => .token t.kind).toList
  flush := (nextToken? s.ahead).isSome
  closed := false

/-- At the start of a node. -/
def enter (s : Stage) : Stage := ⟨fromSignificant s.ahead, s.last, [], true, false⟩

/-- Behind a node of the given kind that ends at the second stage. -/
def leave (s t : Stage) (k : NodeKind) : Stage :=
  ⟨t.ahead, t.last, s.inside ++ [.node k], true, true⟩

/-- Behind a node that was abandoned with nothing in it. -/
def pass (s t : Stage) : Stage := ⟨t.ahead, t.last, s.inside, false, false⟩

/-- Behind a node of the given class, which is the only thing that was read since. -/
def Adds (s t : Stage) (p : NodeKind → Bool) : Prop :=
  t.closed = true ∧ ∃ k, p k = true ∧ t.inside = s.inside ++ [.node k]

theorem prefix_take : s.inside <+: s.take.inside := List.prefix_append ..

theorem prefix_leave {l : NodeKind} : s.inside <+: (s.leave t l).inside := List.prefix_append ..

theorem Adds.isPrefix {p : NodeKind → Bool} (h : s.Adds t p) : s.inside <+: t.inside := by
  obtain ⟨-, k, -, hinside⟩ := h
  exact hinside ▸ List.prefix_append ..

@[simp] theorem kindAt_enter {n : Nat} : kindAt n s.enter.ahead = kindAt n s.ahead :=
  kindAt_congr (fromSignificant_idem _) n

@[simp] theorem next_enter : s.enter.next = s.next := kindAt_enter

@[simp] theorem last_enter : s.enter.last = s.last := rfl

@[simp] theorem inside_enter : s.enter.inside = [] := rfl

@[simp] theorem last_leave {l : NodeKind} : (s.leave t l).last = t.last := rfl

@[simp] theorem inside_leave {l : NodeKind} : (s.leave t l).inside = s.inside ++ [.node l] := rfl

@[simp] theorem flush_leave {l : NodeKind} : (s.leave t l).flush = true := rfl

@[simp] theorem adds_leave {l : NodeKind} {p : NodeKind → Bool} :
    s.Adds (s.leave t l) p ↔ p l = true := by
  constructor
  · rintro ⟨-, k, hk, hinside⟩
    rw [inside_leave, List.append_cancel_left_eq] at hinside
    cases hinside
    exact hk
  · exact fun hl => ⟨rfl, l, hl, rfl⟩

@[simp] theorem last_pass : (s.pass t).last = t.last := rfl

theorem nextToken?_eq (h : s.next = k) (hk : k ≠ .eof) :
    ∃ t ts, fromSignificant s.ahead = t :: ts ∧ t.kind = k := by
  cases hs : fromSignificant s.ahead with
  | nil => exact absurd (h.symm.trans (kindAt_eq_eof hs 0)) hk
  | cons t ts =>
    refine ⟨t, ts, rfl, ?_⟩
    have htrivia : t.isTrivia = false := by
      have hhead := List.head?_dropWhile_not (·.isTrivia) s.ahead
      rw [← fromSignificant, hs] at hhead
      exact hhead
    rw [← h, next, kindAt, ← tokenAt?_fromSignificant, hs]
    simp [tokenAt?, htrivia]

theorem last_take (h : s.next = k) (hk : k ≠ .eof) : s.take.last = some k := by
  obtain ⟨t, ts, hs, ht⟩ := nextToken?_eq h hk
  simp [take, nextToken?, hs, ht]

theorem inside_take (h : s.next = k) (hk : k ≠ .eof) :
    s.take.inside = s.inside ++ [.token k] := by
  obtain ⟨t, ts, hs, ht⟩ := nextToken?_eq h hk
  simp [take, nextToken?, hs, ht]

theorem flush_take (h : s.next = k) (hk : k ≠ .eof) : s.take.flush = true := by
  obtain ⟨t, ts, hs, ht⟩ := nextToken?_eq h hk
  simp [take, nextToken?, hs]

/-- The next token is not there any more behind it. -/
theorem kindAt_take (h : s.next ≠ .eof) (n : Nat) : kindAt n s.take.ahead = kindAt (n + 1) s.ahead := by
  obtain ⟨t, ts, hs, -⟩ := nextToken?_eq rfl h
  have htrivia : t.isTrivia = false := by
    have hhead := List.head?_dropWhile_not (·.isTrivia) s.ahead
    rw [← fromSignificant, hs] at hhead
    exact hhead
  rw [take, hs, kindAt, kindAt, ← tokenAt?_fromSignificant (n + 1), hs]
  simp [tokenAt?, htrivia]

/-- The next token but one is next behind the next one. -/
theorem next_take (h : s.next ≠ .eof) : s.take.next = kindAt 1 s.ahead := kindAt_take h 0

end Stage

/-! ## Forms -/

/-- Whether a kind of token is a numeral. -/
def TokenKind.isNumeral (k : TokenKind) : Bool := k = .intLiteral ∨ k = .floatLiteral

/-- Binders of lifetimes before a type. -/
def binders : Nat → List Constituent
  | 0 => []
  | n + 1 => .token (.keyword .forKw) :: .node .genericParamList :: binders n

/-- A type or a macro call, with binders of lifetimes before it. -/
def IsTyped (xs : List Constituent) : Prop :=
  ∃ n k, (NodeKind.isType k = true ∨ k = .macroCall) ∧ xs = binders n ++ [.node k]

/-- Attributes, a visibility or none, a name, a colon and a type. -/
def IsField (xs : List Constituent) : Prop :=
  ∃ as v ty, (∀ a ∈ as, a = .node .attr) ∧ (v = [] ∨ v = [.node .visibility]) ∧ IsTyped ty ∧
    xs = as ++ v ++ .node .name :: .token .colon :: ty

/-- Whether a constituent may stand before the word that starts an item. -/
def Constituent.leads : Constituent → Bool
  | .token k => k != .eq
  | .node .attr | .node .visibility => true
  | _ => false

/-- With named fields, an item is made of a name, generic parameters, a where clause and the fields,
with what may lead before them. -/
def IsRecord (xs : List Constituent) : Prop :=
  .node .recordFieldList ∈ xs → ∃ pre g w, (∀ x ∈ pre, x.leads = true) ∧
    (g = [] ∨ g = [.node .genericParamList]) ∧ (w = [] ∨ w = [.node .whereClause]) ∧
    xs = pre ++ .node .name :: (g ++ (w ++ [.node .recordFieldList]))

/-- Whether nodes of a kind may stand for patterns. -/
def NodeKind.matches (k : NodeKind) : Bool := k == .macroCall || k.isPattern

/-- Whether a constituent may stand before the mark that a value stands behind: the only expressions there
are macro calls, which stand for patterns or types. -/
def Constituent.precedes (mark : TokenKind) : Constituent → Bool
  | .token k => k != mark
  | .node k => k == .macroCall || !k.isExpr

/-- Behind the first mark there stands an expression. -/
def IsValued (mark : TokenKind) (xs : List Constituent) : Prop :=
  ∃ pre k post, (∀ x ∈ pre, x.precedes mark = true) ∧ NodeKind.isExpr k = true ∧
    xs = pre ++ .token mark :: .node k :: post

/-- There is no mark, or an expression stands behind the first one. -/
def MayBeValued (mark : TokenKind) (xs : List Constituent) : Prop :=
  IsValued mark xs ∨ ∀ x ∈ xs, x.precedes mark = true

/-- A finished node of a kind that starts with the given kind of token and ends at a stage is of the
form that its kind names. -/
def Fits (k : NodeKind) (first : TokenKind) (s : Stage) : Prop :=
  match k with
  | .structDef => IsRecord s.inside
  | .recordFieldList => s.inside.getLast? = some (.token .rBrace)
  | .recordField => s.flush = true ∧ IsField s.inside
  | .attr => first = .pound ∧ s.flush = true ∧ s.last = some .rBracket ∧
      s.inside.getLast? = some (.node .tokenTree)
  | .tokenTree => s.flush = true ∧ ∃ k, s.inside.getLast? = some (.token k)
  | .visibility => first = .keyword .pubKw ∧ s.flush = true ∧
      ∃ k, (k = .keyword .pubKw ∨ k = .rParen) ∧ s.inside.getLast? = some (.token k)
  | .whereClause => s.flush = true ∧ first = .keyword .whereKw ∧
      .token (.keyword .whereKw) ∈ s.inside ∧
      (s.last = some .comma → ∃ xs, s.inside = xs ++ [.node .wherePred, .token .comma])
  | .wherePred => s.last ≠ some .comma ∧ .token .colon ∈ s.inside
  | .macroCall => ∃ k, .token k ∈ s.inside
  | .letStmt | .constItem | .staticItem => MayBeValued .eq s.inside
  | .letExpr => IsValued .eq s.inside
  | .matchArm => IsValued .fatArrow s.inside
  | .forExpr => IsValued (.keyword .inKw) s.inside
  | k => k.isType = true → first.isNumeral = false

/-- Whether nodes of a kind may consist of anything. -/
def NodeKind.isPlain : NodeKind → Bool
  | .structDef | .recordFieldList | .recordField | .attr | .tokenTree | .visibility | .whereClause
  | .wherePred | .macroCall | .letStmt | .constItem | .staticItem | .letExpr | .matchArm | .forExpr => false
  | k => !k.isType

theorem fits_of_isPlain {k : NodeKind} (h : k.isPlain = true) (first : TokenKind) (s : Stage) :
    Fits k first s := by
  unfold NodeKind.isPlain at h
  split at h
  iterate 15 cases h
  unfold Fits
  split
  iterate 15 contradiction
  simp_all

/-! ## A judgement on grammars -/

/-- What stages a named form leads to. -/
def Rule.Leads : Rule → Stage → Stage → Prop
  | .type, s, t => t.flush = true ∧ t.last ≠ some .comma ∧
      ∃ xs, IsTyped xs ∧ t.inside = s.inside ++ xs
  | .bounds, s, t => t.flush = true ∧ (s.last ≠ some .comma → t.last ≠ some .comma) ∧
      t.inside = s.inside ++ [.node .typeBoundList]
  | .tokenTree, s, t => t.flush = true ∧ t.inside = s.inside ++ [.node .tokenTree] ∧
      ∃ closer, Grammar.closerOf? s.next = some closer ∧ t.last = some closer
  | .pathType, _, t => t.last ≠ some .comma
  | .pattern, s, t => s.Adds t NodeKind.matches
  | .expr _ _, s, t | .atom _, s, t | .ifExpr, s, t | .block, s, t => s.Adds t NodeKind.isExpr
  | _, _, _ => True

/-! ## Before and behind a mark -/

theorem IsValued.mono {mark : TokenKind} {xs ys : List Constituent} (h : IsValued mark xs)
    (hxs : xs <+: ys) : IsValued mark ys := by
  obtain ⟨pre, k, post, hpre, hk, rfl⟩ := h
  obtain ⟨zs, rfl⟩ := hxs
  exact ⟨pre, k, post ++ zs, hpre, hk, by simp⟩

theorem precedes_of_leads {x : Constituent} (h : x.leads = true) : x.precedes .eq = true := by
  unfold Constituent.leads at h
  split at h <;> first | exact h | rfl | cases h

theorem precedes_of_matches {mark : TokenKind} {k : NodeKind} (h : k.matches = true) :
    (Constituent.node k).precedes mark = true := by
  cases k <;> first | rfl | cases h

theorem precedes_of_isTyped {mark : TokenKind} (hmark : mark ≠ .keyword .forKw)
    {xs : List Constituent} (h : IsTyped xs) : ∀ x ∈ xs, x.precedes mark = true := by
  obtain ⟨n, k, hk, rfl⟩ := h
  have hbinders : ∀ x ∈ binders n, x.precedes mark = true := by
    induction n with
    | zero => exact fun x hx => by cases hx
    | succ n ih =>
      refine List.forall_mem_cons.2 ⟨?_, List.forall_mem_cons.2 ⟨rfl, ih⟩⟩
      simpa [Constituent.precedes] using hmark.symm
  refine List.forall_mem_append.2 ⟨hbinders, List.forall_mem_singleton.2 ?_⟩
  obtain hk | rfl := hk
  · cases k <;> first | rfl | cases hk
  · rfl

namespace Stage

/-- Nothing but what may stand before a mark was read in the innermost open node. -/
def Awaits (s : Stage) (mark : TokenKind) : Prop := ∀ x ∈ s.inside, x.precedes mark = true

namespace Awaits

variable {s t : Stage} {mark k : TokenKind} {l : NodeKind}

theorem enter : s.enter.Awaits mark := fun _ hx => by cases hx

theorem append {xs : List Constituent} (h : s.Awaits mark) (ht : t.inside = s.inside ++ xs)
    (hxs : ∀ x ∈ xs, x.precedes mark = true) : t.Awaits mark := by
  rw [Awaits, ht]
  exact List.forall_mem_append.2 ⟨h, hxs⟩

theorem take (h : s.Awaits mark) (hat : s.next = k) (hk : k ≠ mark ∧ k ≠ .eof) :
    s.take.Awaits mark :=
  h.append (inside_take hat hk.2) (by simp [Constituent.precedes, hk.1])

theorem leave (h : s.Awaits mark) (hl : (Constituent.node l).precedes mark = true) :
    (s.leave t l).Awaits mark :=
  h.append rfl (by simpa using hl)

theorem adds (h : s.Awaits mark) (ht : s.Adds t NodeKind.matches) : t.Awaits mark := by
  obtain ⟨-, l, hl, hinside⟩ := ht
  exact h.append hinside (by simpa using precedes_of_matches hl)

theorem type (h : s.Awaits mark) (hmark : mark ≠ .keyword .forKw) (ht : Rule.type.Leads s t) :
    t.Awaits mark := by
  obtain ⟨-, -, xs, hxs, hinside⟩ := ht
  exact h.append hinside (precedes_of_isTyped hmark hxs)

/-- An expression behind the mark is the value. -/
theorem isValued (h : s.Awaits mark) (hat : s.next = mark) (hmark : mark ≠ .eof)
    (ht : s.take.Adds t NodeKind.isExpr) : IsValued mark t.inside := by
  obtain ⟨-, l, hl, hinside⟩ := ht
  exact ⟨s.inside, l, [], h, hl, by simp [hinside, inside_take hat hmark]⟩

end Awaits

end Stage

namespace Grammar

/-- From a stage, a run that finds no problem ends with values and in stages that satisfy a property,
and all nodes that are finished on the way fit. -/
def Reaches : {α : Type} → Grammar α → Stage → (α → Stage → Prop) → Prop
  | _, .pure a, s, P => P a s
  | _, .bind g f, s, P => g.Reaches s fun a s => (f a).Reaches s P
  | _, .ahead, s, P => P s.ahead s
  | _, .advance, s, P => P () s.take
  | _, .report _, _, _ | _, .reportFrom _ _ _, _, _ => True
  | _, .node body, s, P => body.Reaches s.enter fun (k?, a) t =>
      (∀ k ∈ k?, Fits k s.next t ∧ P a (s.leave t k)) ∧
        (k? = none → P a (s.leave t .errorNode) ∧ (t.inside = [] → P a (s.pass t)))
  | _, .wrap body, s, P => ∀ xs flush, body.Reaches ⟨s.ahead, s.last, xs, flush, false⟩ fun k t =>
      (∀ first, Fits k first t) ∧ ∀ ys, (s.closed = true → ∃ l, s.inside = ys ++ [.node l]) →
        P () ⟨t.ahead, t.last, ys ++ [.node k], true, true⟩
  | _, .iterate init body, s, P => ∃ I : _ → Stage → Prop, I init s ∧
      ∀ x s, I x s → (body x).Reaches s fun (y, more) s => if more then I y s else P y s
  | _, .call r, s, P => ∀ found t, r.Leads s t → P found t

/-- The nodes that a grammar reads fit. -/
abbrev Fit {α : Type} (g : Grammar α) (s : Stage) : Prop := g.Reaches s fun _ _ => True

variable {α β σ : Type} {g : Grammar α} {s : Stage} {P P' : α → Stage → Prop} {Q : Unit → Stage → Prop}
  {R : Bool → Stage → Prop}

theorem Reaches.mono (h : g.Reaches s P) (hP : ∀ a t, P a t → P' a t) : g.Reaches s P' := by
  induction g generalizing s with
  | pure a => exact hP a s h
  | bind g f ihg ihf => exact ihg h fun a t hf => ihf a hf hP
  | ahead => exact hP _ s h
  | advance => exact hP () _ h
  | report fault => trivial
  | reportFrom fault origin note => trivial
  | node body ih =>
    exact ih h fun x t hx => ⟨fun k hk => ⟨(hx.1 k hk).1, hP _ _ (hx.1 k hk).2⟩,
      fun hnone => ⟨hP _ _ (hx.2 hnone).1, fun ht => hP _ _ ((hx.2 hnone).2 ht)⟩⟩
  | wrap body ih => exact fun xs flush => ih (h xs flush) fun k t hk =>
      ⟨hk.1, fun ys hys => hP _ _ (hk.2 ys hys)⟩
  | iterate init body ih =>
    obtain ⟨I, hI, hround⟩ := h
    refine ⟨I, hI, fun x s hx => ih x (hround x s hx) fun (y, more) t hy => ?_⟩
    cases more with
    | true => exact hy
    | false => exact hP y t hy
  | call r => exact fun found t ht => hP found t (h found t ht)

theorem Fit.reaches (hg : g.Fit s) (h : ∀ a t, P a t) : g.Reaches s P := hg.mono fun a t _ => h a t

/-! ### Terms -/

@[simp] theorem reaches_pure {a : α} : (Pure.pure a : Grammar α).Reaches s P ↔ P a s := Iff.rfl

@[simp] theorem reaches_pure_eq {a : α} : (Grammar.pure a).Reaches s P ↔ P a s := Iff.rfl

@[simp] theorem reaches_bind {g : Grammar β} {f : β → Grammar α} :
    (g >>= f).Reaches s P ↔ g.Reaches s fun b s => (f b).Reaches s P :=
  Iff.rfl

@[simp] theorem reaches_ite {p : Prop} [Decidable p] {g h : Grammar α} :
    (if p then g else h).Reaches s P ↔ if p then g.Reaches s P else h.Reaches s P := by
  split <;> rfl

@[simp] theorem reaches_advance : advance.Reaches s Q ↔ Q () s.take := Iff.rfl

@[simp] theorem reaches_report {fault : Fault} : (report fault).Reaches s Q ↔ True := Iff.rfl

@[simp] theorem reaches_reportFrom {fault : Fault} {origin : Span} {note : String} :
    (reportFrom fault origin note).Reaches s Q ↔ True :=
  Iff.rfl

@[simp] theorem reaches_call {r : Rule} :
    (call r).Reaches s R ↔ ∀ found t, r.Leads s t → R found t :=
  Iff.rfl

/-! ### Common grammars -/

@[simp] theorem reaches_peek {n : Nat} {P : TokenKind → Stage → Prop} :
    (peek n).Reaches s P ↔ P (kindAt n s.ahead) s :=
  Iff.rfl

@[simp] theorem reaches_test {p : List Token → Bool} : (test p).Reaches s R ↔ R (p s.ahead) s := Iff.rfl

@[simp] theorem reaches_isAt {k : TokenKind} : (isAt k).Reaches s R ↔ R (s.next == k) s := Iff.rfl

@[simp] theorem reaches_isAtAny {ks : List TokenKind} :
    (isAtAny ks).Reaches s R ↔ R (ks.contains s.next) s :=
  Iff.rfl

@[simp] theorem reaches_remaining {P : Nat → Stage → Prop} :
    remaining.Reaches s P ↔ P (fromSignificant s.ahead).length s :=
  Iff.rfl

@[simp] theorem reaches_nextSpan {P : Span → Stage → Prop} :
    nextSpan.Reaches s P ↔ P (((nextToken? s.ahead).map (·.span)).getD (.empty 0)) s :=
  Iff.rfl

@[simp] theorem reaches_eat {k : TokenKind} :
    (eat k).Reaches s R ↔ if s.next = k then R true s.take else R false s := by
  simp [eat]

@[simp] theorem reaches_expect {k : TokenKind} :
    (expect k).Reaches s R ↔ (s.next = k → R true s.take) := by
  by_cases h : s.next = k <;> simp [expect, h]

@[simp] theorem reaches_skipFaulty {fault : Fault} : (skipFaulty fault).Reaches s Q ↔ True := Iff.rfl

theorem reaches_node {body : Grammar (Option NodeKind × α)} :
    (node body).Reaches s P ↔ body.Reaches s.enter fun x t =>
      (∀ k ∈ x.1, Fits k s.next t ∧ P x.2 (s.leave t k)) ∧
        (x.1 = none → P x.2 (s.leave t .errorNode) ∧ (t.inside = [] → P x.2 (s.pass t))) :=
  Iff.rfl

theorem reaches_nodeOf {k : NodeKind} {body : Grammar Unit} :
    (nodeOf k body).Reaches s Q ↔
      body.Reaches s.enter fun _ t => Fits k s.next t ∧ Q () (s.leave t k) := by
  simp [nodeOf, reaches_node]

theorem reaches_nodeBy {body : Grammar NodeKind} :
    (nodeBy body).Reaches s Q ↔
      body.Reaches s.enter fun k t => Fits k s.next t ∧ Q () (s.leave t k) := by
  simp [nodeBy, reaches_node]

/-- A repetition keeps what its rounds keep. -/
theorem reaches_loop {body : Grammar Bool} (I : Stage → Prop) (hs : I s)
    (hround : ∀ t, I t → body.Reaches t fun more t => if more then I t else Q () t) :
    (loop body).Reaches s Q :=
  ⟨fun _ => I, hs, fun _ t ht => (hround t ht).mono fun more t h => by simpa using h⟩

/-- An operator takes the node before it with it. -/
theorem reaches_wrap {p q : NodeKind → Bool} {t : Stage} (ht : s.Adds t p) {body : Grammar NodeKind}
    (h : ∀ u, body.Reaches u fun k u => (∀ first, Fits k first u) ∧ q k = true) :
    (wrap body).Reaches t fun _ u => s.Adds u q := by
  obtain ⟨hclosed, l, -, hinside⟩ := ht
  refine fun xs flush => (h _).mono fun k u hk => ⟨hk.1, fun ys hys => ⟨rfl, k, hk.2, ?_⟩⟩
  obtain ⟨m, hm⟩ := hys hclosed
  obtain ⟨rfl, -⟩ := List.append_inj' (hm.symm.trans hinside) rfl
  rfl

/-! ### Grammars whose nodes fit -/

@[simp] theorem fit_iterate {init : σ} {body : σ → Grammar (σ × Bool)}
    (h : ∀ x t, (body x).Fit t) : (iterate init body).Fit s :=
  ⟨fun _ _ => True, trivial, fun x t _ => (h x t).reaches fun _ _ => by simp⟩

@[simp] theorem fit_loop {body : Grammar Bool} (h : ∀ t, body.Fit t) : (loop body).Fit s :=
  reaches_loop (fun _ => True) trivial fun t _ => (h t).reaches fun _ _ => by simp

@[simp] theorem fit_loopUntil {closer : TokenKind} {body : Grammar Bool} (h : ∀ t, body.Fit t) :
    (loopUntil closer body).Fit s := by
  simp [loopUntil, h]

@[simp] theorem fit_commaOrEnd {closer : TokenKind} {before : Nat} :
    (commaOrEnd closer before).Fit s := by
  simp [commaOrEnd]

@[simp] theorem fit_commaList {closer : TokenKind} {element : Grammar Unit} (h : ∀ t, element.Fit t) :
    (commaList closer element).Fit s := by
  simp [commaList, h]

@[simp] theorem fit_wrap {body : Grammar NodeKind}
    (h : ∀ t, body.Reaches t fun k t => ∀ first, Fits k first t) : (wrap body).Fit s :=
  fun _ _ => (h _).mono fun _ _ hk => ⟨hk, fun _ _ => trivial⟩

end Grammar

end Reshape
