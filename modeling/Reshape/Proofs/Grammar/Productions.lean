import Reshape.Proofs.Grammar.Constituents

/-!
# The forms fit

One lemma for each grammar says what `Grammar.Reaches` comes to for it. For most of them it is enough
that their nodes fit. More is said of those that read the parts of structs: attributes, visibilities,
generic parameters, types, bounds and where clauses. No type and no bound ends with a comma, so that a
comma behind a predicate is the one that separates it from the next. A pattern is one node, and so is an
expression with all its operators, so that the value of a form is the node behind its mark.
`Grammar.reaches_grammar` is what comes of it for the named forms.
-/

namespace Reshape

namespace Grammar

variable {s : Stage} {P : NodeKind → Stage → Prop} {Q : Unit → Stage → Prop} {R : Bool → Stage → Prop}

attribute [simp] fits_of_isPlain reaches_nodeOf reaches_nodeBy NodeKind.isPlain NodeKind.isType
  NodeKind.isExpr NodeKind.isPattern NodeKind.matches

/-! ## Parts of many forms -/

@[simp] theorem fit_type : type.Fit s := by simp [type]

@[simp] theorem fit_expr : expr.Fit s := by simp [expr]

@[simp] theorem fit_headExpr : headExpr.Fit s := by simp [headExpr]

@[simp] theorem fit_delimited : delimited.Fit s := by simp [delimited]

@[simp] theorem fit_bounds : bounds.Fit s := by simp [bounds]

@[simp] theorem fit_block : block.Fit s := by simp [block]

@[simp] theorem fit_singlePattern : singlePattern.Fit s := by simp [singlePattern]

theorem reaches_type : type.Reaches s fun _ t => Rule.type.Leads s t := by
  simp [type]

@[simp] theorem last_type : type.Reaches s fun _ t => ¬ t.last = some .comma :=
  Reaches.mono reaches_type fun _ _ h => h.2.1

@[simp] theorem reaches_expr : expr.Reaches s fun _ t => s.Adds t NodeKind.isExpr := by
  simp [expr, Rule.Leads]

@[simp] theorem reaches_headExpr : headExpr.Reaches s fun _ t => s.Adds t NodeKind.isExpr := by
  simp [headExpr, Rule.Leads]

@[simp] theorem reaches_block : block.Reaches s fun _ t => s.Adds t NodeKind.isExpr := by
  simp [block, Rule.Leads]

@[simp] theorem reaches_singlePattern : singlePattern.Reaches s fun _ t => s.Adds t NodeKind.matches := by
  simp [singlePattern, Rule.Leads]

theorem reaches_delimited : delimited.Reaches s fun _ t => Rule.tokenTree.Leads s t := by
  simp [delimited]

theorem reaches_bounds : bounds.Reaches s fun _ t => Rule.bounds.Leads s t := by
  simp [bounds]

/-! ## Token trees, names and attributes -/

theorem ne_of_closerOf? {k closer : TokenKind} (h : closerOf? k = some closer) :
    k ≠ .eof ∧ closer ≠ .comma ∧ closer ≠ .eof := by
  unfold closerOf? at h
  split at h <;> cases h <;> simp

/-- A token tree is a node that ends with the delimiter that closes it. -/
theorem reaches_tokenTree : tokenTree.Reaches s fun _ t => Rule.tokenTree.Leads s t := by
  simp only [tokenTree, reaches_bind, reaches_peek]
  split
  · trivial
  · next closer hcloser =>
    obtain ⟨-, -, heof⟩ := ne_of_closerOf? hcloser
    simp only [reaches_bind, reaches_nextSpan, reaches_nodeOf, reaches_advance]
    refine reaches_loop (fun _ => True) trivial fun t _ => ?_
    simp only [reaches_bind, reaches_peek, reaches_ite]
    -- Only the closing delimiter ends the repetition without a problem.
    split
    · next hat =>
      exact ⟨⟨Stage.flush_take hat heof, closer, by simp [Stage.inside_take hat heof]⟩, rfl, rfl, closer,
        hcloser, Stage.last_take hat heof⟩
    · simp

@[simp] theorem fit_nameRef : nameRef.Fit s := by simp [nameRef]

@[simp] theorem fit_name : name.Fit s := by simp [name]

theorem reaches_name : name.Reaches s fun _ t => t.inside = s.inside ++ [.node .name] := by
  by_cases h : s.next = .ident <;> simp [name, h]

/-- An attribute ends with the bracket that closes it. -/
theorem reaches_attrEnd (h : s.next = .lBracket) : delimited.Reaches s fun _ t =>
    t.flush = true ∧ t.last = some .rBracket ∧ t.inside.getLast? = some (.node .tokenTree) := by
  refine Reaches.mono reaches_delimited fun _ t ht => ?_
  obtain ⟨hflush, hinside, closer, hcloser, hlast⟩ := ht
  rw [h] at hcloser
  cases hcloser
  exact ⟨hflush, hlast, by simp [hinside]⟩

theorem reaches_outerAttributes : outerAttributes.Reaches s fun _ t =>
    ∃ as, (∀ a ∈ as, a = .node .attr) ∧ t.inside = s.inside ++ as := by
  refine ⟨fun _ t => ∃ as, (∀ a ∈ as, a = .node .attr) ∧ t.inside = s.inside ++ as,
    ⟨[], by simp⟩, ?_⟩
  rintro any t ⟨as, has, ht⟩
  simp only [reaches_bind, reaches_peek, reaches_ite, reaches_nodeOf, reaches_advance, reaches_pure]
  split
  · next hat =>
    refine (reaches_attrEnd ?_).mono fun _ u hu => ⟨⟨hat.1, hu⟩, as ++ [.node .attr], ?_, by simp [ht]⟩
    · rw [Stage.next_take (by simp [hat.1]), Stage.kindAt_enter, hat.2]
    · simpa [or_imp, forall_and] using has
  · exact ⟨as, has, ht⟩

@[simp] theorem fit_outerAttributes : outerAttributes.Fit s :=
  Reaches.mono reaches_outerAttributes fun _ _ _ => trivial

@[simp] theorem fit_innerAttributes : innerAttributes.Fit s := by
  refine fit_loop fun t => ?_
  simp only [reaches_bind, reaches_peek, reaches_ite, reaches_nodeOf, reaches_advance, reaches_pure]
  split
  · next hat =>
    obtain ⟨hpound, hbang, hbracket⟩ := hat
    have hnext : t.enter.take.next = .bang := by
      rw [Stage.next_take (by simp [hpound]), Stage.kindAt_enter, hbang]
    refine (reaches_attrEnd ?_).mono fun _ u hu => ⟨⟨hpound, hu⟩, trivial⟩
    rw [Stage.next_take (by simp [hnext]), Stage.kindAt_take (by simp [hpound]), Stage.kindAt_enter,
      hbracket]
  · trivial

@[simp] theorem fit_literalOrNegated : literalOrNegated.Fit s := by simp [literalOrNegated]

/-! ## Paths -/

@[simp] theorem fit_lifetimeBounds : optGenericParams.lifetimeBounds.Fit s := by
  simp [optGenericParams.lifetimeBounds]

theorem reaches_lifetimeBounds (h : s.last ≠ some .comma) :
    optGenericParams.lifetimeBounds.Reaches s fun _ t =>
      t.last ≠ some .comma ∧ s.inside <+: t.inside := by
  refine reaches_loop (fun t => t.last ≠ some .comma ∧ s.inside <+: t.inside)
    ⟨h, List.prefix_rfl⟩ fun t ht => ?_
  rw [reaches_bind, reaches_eat]
  split
  · next hat =>
    have hinside : s.inside <+: t.take.inside := by
      rw [Stage.inside_take hat (by simp)]
      exact ht.2.trans (List.prefix_append _ _)
    rw [reaches_ite, if_pos rfl, reaches_eat]
    split
    · next hplus =>
      rw [if_pos rfl]
      refine ⟨by simp [Stage.last_take hplus], ?_⟩
      rw [Stage.inside_take hplus (by simp)]
      exact hinside.trans (List.prefix_append _ _)
    · simpa [Stage.last_take hat] using hinside
  · simpa using ht

@[simp] theorem fit_constArg : optGenericParams.constArg.Fit s := by
  simp [optGenericParams.constArg]

/-- Generic parameters are a node if there are any. -/
theorem reaches_optGenericParams : optGenericParams.Reaches s fun _ t =>
    if s.next = .lt then t.inside = s.inside ++ [.node .genericParamList] else t = s := by
  simp only [optGenericParams, reaches_bind, reaches_isAt, reaches_ite, beq_iff_eq]
  split
  · next hat =>
    simp only [reaches_nodeOf, reaches_bind, reaches_advance]
    refine (fit_loopUntil fun t => ?_).reaches fun _ t => by simp
    simp only [reaches_bind, reaches_remaining]
    refine Fit.reaches fit_outerAttributes fun _ u => ?_
    rw [reaches_peek]
    split <;> simp
  · simp

@[simp] theorem fit_optGenericParams : optGenericParams.Fit s :=
  Reaches.mono reaches_optGenericParams fun _ _ _ => trivial

/-- A binder of lifetimes is a word and generic parameters, if there is one. -/
theorem reaches_optForBinder : optForBinder.Reaches s fun _ t =>
    t = s ∨ t.inside = s.inside ++ binders 1 := by
  simp only [optForBinder, reaches_bind, reaches_peek, reaches_ite, reaches_advance, reaches_pure]
  split
  · next hat =>
    have hnext : s.take.next = .lt := (Stage.next_take (by simp [hat.1])).trans hat.2
    refine Reaches.mono reaches_optGenericParams fun _ t ht => .inr ?_
    rw [if_pos hnext] at ht
    rw [ht, Stage.inside_take hat.1 (by simp)]
    simp [binders]
  · exact .inl trivial

@[simp] theorem fit_optForBinder : optForBinder.Fit s :=
  Reaches.mono reaches_optForBinder fun _ _ _ => trivial

theorem reaches_retType : retType.Reaches s fun _ t => t.last ≠ some .comma := by
  simp only [retType, reaches_nodeOf, reaches_bind, reaches_advance]
  exact Reaches.mono reaches_type fun _ t ht => ⟨by simp, ht.2.1⟩

@[simp] theorem fit_retType : retType.Fit s := Reaches.mono reaches_retType fun _ _ _ => trivial

@[simp] theorem fit_genericArg : genericArg.Fit s := by
  simp only [genericArg, reaches_bind, reaches_peek]
  split <;> simp

theorem reaches_genericArgList {joined : Bool} :
    (genericArgList joined).Reaches s fun _ t => t.last ≠ some .comma := by
  have hlist (t : Stage) : (commaList .gt genericArg).Reaches t fun _ t =>
      t.next = .gt → t.take.last ≠ some .comma := by
    refine (fit_commaList fun t => fit_genericArg).reaches fun _ t ht => ?_
    simp [Stage.last_take ht (by simp)]
  cases joined <;> simpa [genericArgList] using hlist _

@[simp] theorem fit_genericArgList {joined : Bool} : (genericArgList joined).Fit s :=
  Reaches.mono reaches_genericArgList fun _ _ _ => trivial

theorem reaches_segmentArgs {place : PathPlace} (h : s.last ≠ some .comma) :
    (segmentArgs place).Reaches s fun _ t => t.last ≠ some .comma := by
  cases place with
  | inType =>
    simp only [segmentArgs, reaches_bind, reaches_isAt, reaches_peek, reaches_ite, reaches_pure]
    split
    · exact reaches_genericArgList
    · split
      · exact reaches_genericArgList
      · split
        · simp only [reaches_nodeOf, reaches_bind, reaches_advance, reaches_expect]
          refine (fit_commaList fun t => fit_type).reaches fun _ t hat => ⟨by simp, ?_⟩
          split
          · exact reaches_retType
          · simp [Stage.last_take hat]
        · exact h
  | inExpr =>
    simp only [segmentArgs, reaches_bind, reaches_peek, reaches_ite, reaches_pure]
    split
    · exact reaches_genericArgList
    · exact h
  | inUse => exact h

theorem ne_of_isPathWord {k : TokenKind} (h : k.isPathWord = true) : k ≠ .comma ∧ k ≠ .eof := by
  refine ⟨?_, ne_eof_of_isPathWord h⟩
  rintro rfl
  cases h

/-- A segment of a path starts with a word or an angle bracket, and does not end with a comma. -/
theorem reaches_pathSegment {place : PathPlace} : (pathSegment place).Reaches s fun _ t =>
    startsPath s.next = true ∧ t.last ≠ some .comma := by
  simp only [pathSegment, reaches_nodeOf, reaches_bind, reaches_peek, reaches_ite, Stage.next_enter]
  have hargs (t : Stage) (hstart : startsPath s.next = true) (ht : t.last ≠ some .comma) :
      (segmentArgs place).Reaches t fun _ t => Fits .pathSegment s.next t ∧
        startsPath s.next = true ∧ (s.leave t .pathSegment).last ≠ some .comma :=
    (reaches_segmentArgs ht).mono fun _ u hu => ⟨by simp, hstart, hu⟩
  split
  · next hword =>
    have hnext : s.enter.enter.next = s.next := by simp
    obtain ⟨hcomma, heof⟩ := ne_of_isPathWord hword
    simp only [nameRef, reaches_nodeOf, reaches_advance]
    refine ⟨by simp, hargs _ (by simp [startsPath, hword]) ?_⟩
    simp [Stage.last_take hnext heof, hcomma]
  · split
    · next hat =>
      simp only [reaches_advance]
      refine Fit.reaches fit_type fun _ t => ?_
      simp only [reaches_eat, reaches_expect, reaches_call]
      have hgt (u : Stage) (hu : u.next = .gt) : (segmentArgs place).Reaches u.take fun _ t =>
          Fits .pathSegment s.next t ∧ startsPath s.next = true ∧
            (s.leave t .pathSegment).last ≠ some .comma :=
        hargs _ (by simp [startsPath, hat.1]) (by simp [Stage.last_take hu])
      split
      · exact fun _ u _ => hgt u
      · exact hgt t
    · trivial

@[simp] theorem fit_pathSegment {place : PathPlace} : (pathSegment place).Fit s :=
  Reaches.mono reaches_pathSegment fun _ _ _ => trivial

theorem reaches_path {place : PathPlace} : (path place).Reaches s fun _ t =>
    startsPath s.next = true ∧ t.last ≠ some .comma := by
  have hloop (t : Stage) (hstart : startsPath s.next = true) (ht : t.last ≠ some .comma) :
      (loop do
        if (← peek 0) = .colonColon ∧ (← peek 1).isPathWord then
          advance
          pathSegment place
          return true
        else return false).Reaches t fun _ t => Fits .path s.next t ∧ startsPath s.next = true ∧
          (s.leave t .path).last ≠ some .comma := by
    refine reaches_loop (fun t => t.last ≠ some .comma) ht fun u hu => ?_
    simp only [reaches_bind, reaches_peek, reaches_ite, reaches_advance, reaches_pure]
    split
    · exact Reaches.mono reaches_pathSegment fun _ _ h => h.2
    · exact ⟨by simp, hstart, hu⟩
  simp only [path, reaches_nodeOf, reaches_bind, reaches_eat, Stage.next_enter]
  split
  · next hat =>
    exact Reaches.mono reaches_pathSegment fun _ t ht => hloop t (by simp [startsPath, hat]) ht.2
  · exact Reaches.mono reaches_pathSegment fun _ t ht => hloop t (by simpa using ht.1) ht.2

@[simp] theorem fit_path {place : PathPlace} : (path place).Fit s :=
  Reaches.mono reaches_path fun _ _ _ => trivial

theorem isNumeral_of_startsPath {k : TokenKind} (h : startsPath k = true) : k.isNumeral = false := by
  cases k <;> first | rfl | cases h

theorem fits_of_isType {k : NodeKind} {first : TokenKind} (hk : k.isType = true)
    (h : first.isNumeral = false) (t : Stage) : Fits k first t := by
  unfold Fits
  split
  iterate 15 cases hk
  exact fun _ => h

/-- Behind a type that is a single node. -/
theorem leads_leave {t : Stage} {k : NodeKind} (hk : k.isType = true ∨ k = .macroCall)
    (ht : t.last ≠ some .comma) : Rule.type.Leads s (s.leave t k) :=
  ⟨rfl, ht, [.node k], ⟨0, k, hk, rfl⟩, rfl⟩

theorem reaches_typeOf {k : NodeKind} {body : Grammar Unit} (hk : k.isType = true)
    (h : body.Reaches s.enter fun _ t => s.next.isNumeral = false ∧ t.last ≠ some .comma) :
    (nodeOf k body).Reaches s fun _ t => Rule.type.Leads s t :=
  reaches_nodeOf.2 (h.mono fun _ t ht => ⟨fits_of_isType hk ht.1 t, leads_leave (.inl hk) ht.2⟩)

theorem reaches_pathType : pathType.Reaches s fun _ t => Rule.type.Leads s t := by
  refine reaches_typeOf rfl (Reaches.mono reaches_path fun _ t ht => ⟨?_, ht.2⟩)
  rw [Stage.next_enter] at ht
  exact isNumeral_of_startsPath ht.1

@[simp] theorem fit_pathType : pathType.Fit s := Reaches.mono reaches_pathType fun _ _ _ => trivial

/-- Where a token is taken that is not the last one, it stands in the node. -/
theorem exists_token_mem_take (h : s.take.next ≠ .eof) : ∃ k, .token k ∈ s.take.inside := by
  cases hs : nextToken? s.ahead with
  | some t => exact ⟨t.kind, by simp [Stage.take, hs]⟩
  | none =>
    rw [nextToken?, List.head?_eq_none_iff] at hs
    have hahead : s.take.ahead = [] := by rw [Stage.take, hs]; rfl
    exact absurd (kindAt_eq_eof (by rw [hahead]; rfl) 0) h

theorem reaches_macroBody : macroBody.Reaches s fun _ t =>
    (∃ k, .token k ∈ t.inside) ∧ t.last ≠ some .comma := by
  simp only [macroBody, reaches_bind, reaches_advance]
  refine Fit.reaches fit_path fun _ t => Reaches.mono reaches_delimited fun _ u hu => ?_
  obtain ⟨-, hinside, closer, hcloser, hlast⟩ := hu
  obtain ⟨hnext, hcomma, -⟩ := ne_of_closerOf? hcloser
  obtain ⟨k, hk⟩ := exists_token_mem_take hnext
  exact ⟨⟨k, hinside ▸ List.mem_append_left _ hk⟩, by simpa [hlast] using hcomma⟩

theorem fits_macroBody (first : TokenKind) :
    macroBody.Reaches s fun _ t => Fits .macroCall first t :=
  Reaches.mono reaches_macroBody fun _ _ h => h.1

@[simp] theorem fit_macroBody : macroBody.Fit s := Reaches.mono reaches_macroBody fun _ _ _ => trivial

/-! ## Visibilities and where clauses -/

theorem reaches_optVisibility : optVisibility.Reaches s fun _ t =>
    ∃ v, (v = [] ∨ v = [.node .visibility]) ∧ t.inside = s.inside ++ v := by
  simp only [optVisibility, reaches_bind, reaches_isAt, reaches_ite, beq_iff_eq, reaches_pure]
  split
  · next hat =>
    simp only [reaches_nodeOf, reaches_bind, reaches_advance, reaches_isAt, reaches_ite]
    have hdone {t : Stage} {k : TokenKind} (ht : t.next = k) (hk : k = .keyword .pubKw ∨ k = .rParen) :
        Fits .visibility s.next t.take ∧
          ∃ v, (v = [] ∨ v = [.node .visibility]) ∧
            (s.leave t.take .visibility).inside = s.inside ++ v := by
      have heof : k ≠ .eof := by obtain rfl | rfl := hk <;> simp
      exact ⟨⟨hat, Stage.flush_take ht heof, k, hk, by simp [Stage.inside_take ht heof]⟩, _, .inr rfl, rfl⟩
    have hpub := hdone (s.next_enter.trans hat) (.inl rfl)
    split
    · next hopen =>
      have hparen : s.enter.take.next ≠ .eof := by simp [beq_iff_eq.1 hopen]
      simp only [reaches_peek]
      split
      iterate 3
        next hword =>
          simp only [reaches_bind, reaches_peek, reaches_ite, reaches_advance, reaches_pure]
          split
          · next hclose =>
            have hnext : s.enter.take.take.next ≠ .eof := by
              simp [Stage.next_take hparen, hword]
            refine hdone ?_ (.inr rfl)
            rw [Stage.next_take hnext, Stage.kindAt_take hparen, hclose]
          · exact hpub
      · simp only [reaches_bind, reaches_advance, reaches_expect, reaches_pure]
        exact Fit.reaches fit_path fun _ t ht => hdone ht (.inr rfl)
      · exact hpub
    · exact hpub
  · exact ⟨[], .inl rfl, by simp⟩

@[simp] theorem fit_optVisibility : optVisibility.Fit s :=
  Reaches.mono reaches_optVisibility fun _ _ _ => trivial

/-- A predicate has a colon, and does not end with a comma. -/
theorem reaches_wherePred : (do
      if ← isAt .lifetime then
        advance
        let _ ← expect .colon
        optGenericParams.lifetimeBounds
      else
        optForBinder
        type
        let _ ← expect .colon
        bounds : Grammar Unit).Reaches s fun _ t =>
      t.last ≠ some .comma ∧ .token .colon ∈ t.inside := by
  simp only [reaches_bind, reaches_isAt, reaches_ite, reaches_advance, reaches_expect]
  split
  · intro hat
    refine (reaches_lifetimeBounds (by simp [Stage.last_take hat])).mono fun _ t ht => ⟨ht.1, ?_⟩
    exact ht.2.subset (by simp [Stage.inside_take hat])
  · refine Fit.reaches fit_optForBinder fun _ t => Fit.reaches fit_type fun _ u hat => ?_
    refine Reaches.mono reaches_bounds fun _ v hv => ⟨hv.2.1 (by simp [Stage.last_take hat]), ?_⟩
    rw [hv.2.2, Stage.inside_take hat (by simp)]
    simp

/-- A where clause is a node, if there is one. -/
theorem reaches_optWhereClause : optWhereClause.Reaches s fun _ t =>
    ∃ w, (w = [] ∨ w = [.node .whereClause]) ∧ t.inside = s.inside ++ w := by
  simp only [optWhereClause, reaches_bind, reaches_isAt, reaches_ite, beq_iff_eq]
  split
  · next hat =>
    simp only [reaches_nodeOf, reaches_bind, reaches_advance]
    -- A comma that ends the clause stands behind a predicate, which does not end with one.
    refine reaches_loop (fun t => t.flush = true ∧ .token (.keyword .whereKw) ∈ t.inside ∧
      (t.last = some .comma → ∃ xs, t.inside = xs ++ [.node .wherePred, .token .comma])) ?_
      fun t ht => ?_
    · have hnext : s.enter.next = .keyword .whereKw := by simpa using hat
      simp [Stage.flush_take hnext, Stage.last_take hnext, Stage.inside_take hnext]
    rw [reaches_bind, reaches_test, reaches_ite]
    split
    · rw [reaches_pure, if_neg Bool.false_ne_true]
      exact ⟨⟨ht.1, hat, ht.2⟩, _, .inr rfl, rfl⟩
    · rw [reaches_bind, reaches_nodeOf]
      refine Reaches.mono reaches_wherePred fun _ u hu => ⟨hu, ?_⟩
      rw [reaches_eat]
      split
      · next hcomma =>
        rw [if_pos rfl]
        rw [Stage.inside_take hcomma (by simp), Stage.inside_leave, List.append_assoc]
        exact ⟨Stage.flush_take hcomma (by simp), List.mem_append_left _ ht.2.1,
          fun _ => ⟨t.inside, rfl⟩⟩
      · rw [if_neg Bool.false_ne_true]
        exact ⟨⟨rfl, hat, List.mem_append_left _ ht.2.1, fun hlast => absurd hlast hu.1⟩, _, .inr rfl,
          rfl⟩
  · exact ⟨[], .inl rfl, by simp⟩

@[simp] theorem fit_optWhereClause : optWhereClause.Fit s :=
  Reaches.mono reaches_optWhereClause fun _ _ _ => trivial

/-! ## Types and bounds -/

/-- A bound does not end with a comma. Where there is none, nothing is read. -/
theorem reaches_bound : bound.Reaches s fun found t =>
    if found then t.last ≠ some .comma else s.last ≠ some .comma → t.last ≠ some .comma := by
  rw [bound, reaches_node, reaches_bind, reaches_peek]
  split
  · next hat => simp [Stage.last_take hat]
  · simp only [reaches_bind, reaches_advance, reaches_pure]
    refine Reaches.mono reaches_pathType fun _ t ht => ?_
    simpa using ht.2.1
  · simp only [reaches_bind, reaches_advance, reaches_expect, reaches_pure]
    refine Fit.reaches fit_optForBinder fun _ t => Fit.reaches fit_pathType fun _ u hat => ?_
    simp [Stage.last_take hat]
  · simp only [reaches_bind, reaches_pure]
    refine Fit.reaches fit_optForBinder fun _ t => Reaches.mono reaches_pathType fun _ u hu => ?_
    simpa using hu.2.1
  · simp only [reaches_bind, reaches_test, reaches_ite, reaches_pure]
    split
    · refine Reaches.mono reaches_pathType fun _ t ht => ?_
      simpa using ht.2.1
    · simp

theorem reaches_boundsBody : boundsBody.Reaches s fun _ t => Rule.bounds.Leads s t := by
  rw [boundsBody, reaches_nodeOf]
  refine reaches_loop (fun t => s.last ≠ some .comma → t.last ≠ some .comma) id fun t ht => ?_
  rw [reaches_bind]
  refine Reaches.mono reaches_bound fun found u hu => ?_
  cases found with
  | true =>
    rw [if_pos rfl, reaches_eat]
    split
    · next hplus => simp [Stage.last_take hplus]
    · simpa [Rule.Leads] using fun _ => hu
  | false => simpa [Rule.Leads] using fun hs => hu (ht hs)

theorem reaches_pointerParams : pointerParams.Reaches s fun _ t => t.last ≠ some .comma := by
  simp only [pointerParams, reaches_nodeOf, reaches_bind, reaches_advance, reaches_expect]
  refine (fit_commaList fun t => ?_).reaches fun _ t hat => ?_
  · simp
  · simp [Stage.last_take hat]

/-- The parameters and the result of a function pointer. -/
theorem reaches_pointerEnd : (do
      let _ ← expect (.keyword .fnKw)
      if ← isAt .lParen then pointerParams
      else report (.missing .lParen)
      if ← isAt .arrow then retType : Grammar Unit).Reaches s fun _ t => t.last ≠ some .comma := by
  simp only [reaches_bind, reaches_expect, reaches_isAt, reaches_ite, reaches_report, reaches_pure]
  intro _
  split
  · refine Reaches.mono reaches_pointerParams fun _ t ht => ?_
    split
    · exact reaches_retType
    · exact ht
  · trivial

theorem reaches_fnPtrType (h : s.next.isNumeral = false) :
    fnPtrType.Reaches s fun _ t => Rule.type.Leads s t := by
  refine reaches_typeOf rfl ?_
  have hend (t : Stage) := Reaches.mono reaches_pointerEnd (s := t) fun _ _ ht => And.intro h ht
  rw [reaches_bind]
  refine Fit.reaches (by simp) fun _ t => ?_
  rw [reaches_bind, reaches_test, reaches_ite]
  split
  · rw [reaches_bind, reaches_advance, reaches_bind]
    exact Fit.reaches (by simp) fun _ u => hend u
  · exact hend t

theorem reaches_ptrType (h : s.next.isNumeral = false) :
    ptrType.Reaches s fun _ t => Rule.type.Leads s t :=
  reaches_typeOf rfl (by simp [h])

theorem reaches_sliceOrArrayType (h : s.next.isNumeral = false) :
    sliceOrArrayType.Reaches s fun _ t => Rule.type.Leads s t := by
  have hclosed {t : Stage} {k : NodeKind} (hk : k.isType = true) (hat : t.next = .rBracket) :
      Fits k s.next t.take ∧ Rule.type.Leads s (s.leave t.take k) :=
    ⟨fits_of_isType hk h _, leads_leave (.inl hk) (by simp [Stage.last_take hat])⟩
  simp only [sliceOrArrayType, reaches_nodeBy, reaches_bind, reaches_advance, reaches_eat,
    reaches_expect, reaches_pure, reaches_pure_eq, reaches_ite]
  refine Fit.reaches fit_type fun _ t => ?_
  split
  · rw [if_pos trivial]
    exact Fit.reaches fit_expr fun _ u hat => hclosed rfl hat
  · exact fun hat => hclosed rfl hat

theorem reaches_pathOrMacroType : pathOrMacroType.Reaches s fun _ t => Rule.type.Leads s t := by
  rw [pathOrMacroType, reaches_bind, reaches_test, reaches_ite]
  split
  · exact reaches_nodeOf.2 (Reaches.mono reaches_macroBody fun _ t ht =>
      ⟨ht.1, leads_leave (.inr rfl) ht.2⟩)
  · exact reaches_pathType

/-- Bounds behind a word, as a type. -/
theorem reaches_boundsOf {k : NodeKind} {w : Keyword} (hk : k.isType = true) (h : s.next = .keyword w) :
    (nodeOf k do advance; bounds).Reaches s fun _ t => Rule.type.Leads s t := by
  have hnext : s.enter.next = .keyword w := by simpa using h
  refine reaches_typeOf hk ?_
  rw [reaches_bind, reaches_advance]
  refine Reaches.mono reaches_bounds fun _ t ht => ⟨by rw [h]; rfl, ht.2.1 ?_⟩
  simp [Stage.last_take hnext]

/-- A single token, as a type. -/
theorem reaches_tokenOf {k : NodeKind} {l : TokenKind} (hk : k.isType = true) (h : s.next = l)
    (hl : l.isNumeral = false ∧ l ≠ .comma ∧ l ≠ .eof) :
    (nodeOf k advance).Reaches s fun _ t => Rule.type.Leads s t := by
  have hnext : s.enter.next = l := by simpa using h
  exact reaches_typeOf hk ⟨h ▸ hl.1, by simp [Stage.last_take hnext hl.2.2, hl.2.1]⟩

theorem leads_of_binders {t u : Stage} (h : t = s ∨ t.inside = s.inside ++ binders 1)
    (hu : Rule.type.Leads t u) : Rule.type.Leads s u := by
  obtain ⟨hflush, hlast, xs, ⟨n, k, hk, rfl⟩, hinside⟩ := hu
  obtain rfl | ht := h
  · exact ⟨hflush, hlast, _, ⟨n, k, hk, rfl⟩, hinside⟩
  · exact ⟨hflush, hlast, _, ⟨n + 1, k, hk, rfl⟩, by simp [hinside, ht, binders]⟩

/-- A type is one node, with binders of lifetimes before it. -/
theorem reaches_typeBody : typeBody.Reaches s fun _ t => Rule.type.Leads s t := by
  rw [typeBody, reaches_bind, reaches_peek]
  split
  case h_1 hat | h_2 hat =>
    have hnumeral : s.next.isNumeral = false := by rw [Stage.next, hat]; rfl
    exact reaches_typeOf rfl (by simp [hnumeral])
  case h_3 hat => exact reaches_ptrType (by rw [Stage.next, hat]; rfl)
  case h_4 hat => exact reaches_sliceOrArrayType (by rw [Stage.next, hat]; rfl)
  case h_5 hat =>
    refine reaches_typeOf rfl ?_
    simp only [reaches_bind, reaches_advance, reaches_expect]
    refine (fit_commaList fun t => fit_type).reaches fun _ t hclose => ⟨by rw [Stage.next, hat]; rfl, ?_⟩
    simp [Stage.last_take hclose]
  case h_6 hat => exact reaches_tokenOf rfl hat (by simp [TokenKind.isNumeral])
  case h_7 hat | h_8 hat => exact reaches_boundsOf rfl hat
  case h_9 hat | h_10 hat => exact reaches_fnPtrType (by rw [Stage.next, hat]; rfl)
  case h_11 =>
    rw [reaches_bind]
    exact Reaches.mono reaches_optForBinder fun _ t ht =>
      Reaches.mono reaches_type fun _ u hu => leads_of_binders ht hu
  case h_12 hat =>
    simp only [reaches_bind, reaches_test, reaches_ite]
    split
    · exact reaches_tokenOf rfl hat (by simp [TokenKind.isNumeral])
    · split
      · exact reaches_fnPtrType (by rw [Stage.next, hat]; rfl)
      · exact reaches_pathOrMacroType
  case h_13 =>
    rw [reaches_bind, reaches_test, reaches_ite]
    split
    · exact reaches_pathOrMacroType
    · trivial

/-! ## Patterns -/

@[simp] theorem fit_barredPatterns : barredPatterns.Fit s := by simp [barredPatterns]

/-- Alternatives are one node, as a single pattern is. -/
theorem reaches_patternAlternatives : patternAlternatives.Reaches s fun _ t =>
    s.Adds t NodeKind.matches := by
  simp only [patternAlternatives, reaches_bind, reaches_isAt, reaches_ite]
  split
  · simp
  · refine Reaches.mono reaches_singlePattern fun found t ht => ?_
    split
    · show if _ then _ else _
      split
      · exact reaches_wrap ht fun u => by simp
      · exact ht
    · exact ht

@[simp] theorem fit_patternAlternatives : patternAlternatives.Fit s :=
  Reaches.mono reaches_patternAlternatives fun _ _ _ => trivial

@[simp] theorem reaches_identPattern : identPattern.Reaches s fun _ t => s.Adds t NodeKind.matches := by
  simp [identPattern]

@[simp] theorem fit_identPattern : identPattern.Fit s :=
  Reaches.mono reaches_identPattern fun _ _ _ => trivial

@[simp] theorem reaches_literalPattern : literalPattern.Reaches s fun _ t => s.Adds t NodeKind.matches := by
  simp only [literalPattern, reaches_bind, reaches_nodeOf, reaches_peek, reaches_ite]
  refine Fit.reaches fit_literalOrNegated fun _ t => ⟨by simp, ?_⟩
  split
  · exact reaches_wrap (p := NodeKind.matches) (by simp) fun u => by simp
  · simp

@[simp] theorem fit_recordPatternField : recordPatternField.Fit s := by simp [recordPatternField]

@[simp] theorem fit_recordPatternFields : recordPatternFields.Fit s := by simp [recordPatternFields]

@[simp] theorem reaches_pathPattern : pathPattern.Reaches s fun _ t => s.Adds t NodeKind.matches := by
  simp only [pathPattern, reaches_nodeBy, reaches_bind, reaches_test, reaches_ite]
  split
  · simpa using fits_macroBody _
  · refine Fit.reaches fit_path fun _ t => ?_
    rw [reaches_peek]
    split <;> simp

@[simp] theorem reaches_parenPattern : parenPattern.Reaches s fun _ t => s.Adds t NodeKind.matches := by
  simp only [parenPattern, reaches_nodeBy, reaches_bind, reaches_advance]
  refine Fit.reaches ?_ fun x t => ?_
  · simp
  · simp
    split <;> simp

/-- A pattern is one node. -/
theorem reaches_singlePatternBody : singlePatternBody.Reaches s fun _ t =>
    s.Adds t NodeKind.matches := by
  simp only [singlePatternBody, reaches_bind, reaches_peek]
  split <;> simp [singlePatternBody.isAtPath]

/-! ## Expressions -/

@[simp] theorem fit_exprList {closer : TokenKind} : (exprList closer).Fit s := by simp [exprList]

@[simp] theorem fit_argList : argList.Fit s := by simp [argList]

@[simp] theorem reaches_parenOrTuple : parenOrTuple.Reaches s fun _ t => s.Adds t NodeKind.isExpr := by
  simp only [parenOrTuple, reaches_nodeBy, reaches_bind, reaches_advance]
  refine Fit.reaches ?_ fun x t => ?_
  · simp
  · simp
    split <;> simp

@[simp] theorem reaches_arrayExpr : arrayExpr.Reaches s fun _ t => s.Adds t NodeKind.isExpr := by
  simp [arrayExpr]

@[simp] theorem fit_recordField : recordField.Fit s := by simp [recordField]

@[simp] theorem fit_recordFields : recordFields.Fit s := by simp [recordFields]

@[simp] theorem reaches_pathExpr {noRecord : Bool} :
    (pathExpr noRecord).Reaches s fun _ t => s.Adds t NodeKind.isExpr := by
  simpa [pathExpr] using fun _ => fits_macroBody _

@[simp] theorem fit_closureParams : closureParams.Fit s := by simp [closureParams]

@[simp] theorem reaches_closureExpr {noRecord : Bool} :
    (closureExpr noRecord).Reaches s fun _ t => s.Adds t NodeKind.isExpr := by
  simp [closureExpr]

@[simp] theorem reaches_ifBody : ifBody.Reaches s fun _ t => s.Adds t NodeKind.isExpr := by
  simp only [ifBody, reaches_nodeOf, reaches_bind, reaches_advance, reaches_isAt, reaches_ite]
  refine Fit.reaches fit_headExpr fun _ t => ?_
  split
  · refine Fit.reaches fit_block fun _ u => ?_
    simp
    intro _
    split <;> simp
  · trivial

/-- The body of an arm stands behind its arrow. -/
@[simp] theorem fit_matchArm : matchArm.Fit s := by
  have hend {t : Stage} (ht : t.Awaits .fatArrow) : (do
      let _ ← expect .fatArrow
      if ← test blockLikeAhead then
        let _ ← call (.atom false)
      else
        let _ ← expr
      let _ ← eat .comma : Grammar Unit).Reaches t fun _ u => Fits .matchArm s.next u := by
    simp only [reaches_bind, reaches_expect, reaches_test, reaches_ite, reaches_call, reaches_eat,
      reaches_pure]
    intro hat
    have hbody {u : Stage} (hu : t.take.Adds u NodeKind.isExpr) :
        if u.next = .comma then Fits .matchArm s.next u.take else Fits .matchArm s.next u := by
      have hvalued := ht.isValued hat (by simp) hu
      split
      · exact hvalued.mono Stage.prefix_take
      · exact hvalued
    split
    · exact fun _ u hu => hbody hu
    · exact Reaches.mono reaches_expr fun _ u hu => hbody hu
  rw [matchArm, Fit, reaches_nodeOf]
  simp only [and_true]
  rw [reaches_bind]
  refine Reaches.mono reaches_outerAttributes fun _ t ht => ?_
  rw [reaches_bind]
  refine Reaches.mono reaches_patternAlternatives fun _ u hu => ?_
  obtain ⟨as, has, ht⟩ := ht
  have hbefore : u.Awaits .fatArrow := by
    refine (Stage.Awaits.enter.append ht fun a ha => ?_).adds hu
    rw [has a ha]
    rfl
  rw [reaches_bind, reaches_isAt, reaches_ite]
  split
  · rw [reaches_bind]
    exact reaches_nodeOf.2 (Fit.reaches (by simp) fun _ v => ⟨by simp, hend (hbefore.leave rfl)⟩)
  · exact hend hbefore

@[simp] theorem fit_matchArms : matchArms.Fit s := by simp [matchArms]

@[simp] theorem reaches_matchExpr : matchExpr.Reaches s fun _ t => s.Adds t NodeKind.isExpr := by
  simp [matchExpr]

/-! ## Operators -/

theorem reaches_dotPostfix {t : Stage} (ht : s.Adds t NodeKind.isExpr) :
    dotPostfix.Reaches t fun _ u => s.Adds u NodeKind.isExpr := by
  refine reaches_wrap ht fun u => ?_
  simp only [reaches_bind, reaches_advance, reaches_peek]
  split <;> simp

theorem reaches_postfixOp {t : Stage} (ht : s.Adds t NodeKind.isExpr) :
    postfixOp.Reaches t fun _ u => s.Adds u NodeKind.isExpr := by
  simp only [postfixOp, reaches_bind, reaches_peek]
  split
  · exact reaches_wrap ht fun u => by simp
  · exact reaches_dotPostfix ht
  · exact reaches_wrap ht fun u => by simp
  · exact reaches_wrap ht fun u => by simp
  · exact ht

@[simp] theorem fit_rangeEnd {noRecord : Bool} : (rangeEnd noRecord).Fit s := by simp [rangeEnd]

theorem reaches_binaryOp {power : Nat} {noRecord : Bool} {t : Stage} (ht : s.Adds t NodeKind.isExpr) :
    (binaryOp power noRecord).Reaches t fun _ u => s.Adds u NodeKind.isExpr := by
  simp only [binaryOp, reaches_bind, reaches_peek, reaches_ite, reaches_pure]
  split
  · split
    · exact ht
    · exact reaches_wrap ht fun u => by simp
  · split
    · split
      · exact ht
      · exact reaches_wrap ht fun u => by simp
    · rw [Reaches]
      split
      · exact ht
      · simp only [reaches_ite, reaches_bind, reaches_pure]
        split
        · exact ht
        · exact reaches_wrap ht fun u => by simp

/-- With the operators behind it an operand is still one node. -/
theorem reaches_operators {power : Nat} {noRecord : Bool} {t : Stage} (ht : s.Adds t NodeKind.isExpr) :
    (operators power noRecord).Reaches t fun _ u => s.Adds u NodeKind.isExpr := by
  refine reaches_loop (s.Adds · NodeKind.isExpr) ht fun u hu => ?_
  have hbinary {v : Stage} (hv : s.Adds v NodeKind.isExpr) :
      (binaryOp power noRecord).Reaches v fun more w =>
        if more then s.Adds w NodeKind.isExpr else s.Adds w NodeKind.isExpr := by
    simpa using reaches_binaryOp hv
  simp only [reaches_ite, reaches_bind]
  split
  · refine Reaches.mono (reaches_postfixOp hu) fun more v hv => ?_
    split
    · exact hv
    · exact hbinary hv
  · exact hbinary hu

@[simp] theorem fit_operand {noRecord : Bool} : (operand noRecord).Fit s := by simp [operand]

theorem reaches_leftSide {noRecord : Bool} :
    (leftSide noRecord).Reaches s fun _ t => s.Adds t NodeKind.isExpr := by
  simp only [leftSide, reaches_bind, reaches_peek]
  split <;> simp [Rule.Leads]

/-- An expression is one node. -/
theorem reaches_exprBody {power : Nat} {noRecord : Bool} :
    (exprBody power noRecord).Reaches s fun _ t => s.Adds t NodeKind.isExpr := by
  simp only [exprBody, reaches_bind, reaches_ite, reaches_pure]
  refine Reaches.mono reaches_leftSide fun _ t ht => ?_
  split
  · exact reaches_operators ht
  · exact ht

/-! ## Statements and operands -/

/-- The initializer of a statement stands behind its equals sign. -/
theorem fit_letStatement (h : s.next = .keyword .letKw) : letStatement.Fit s := by
  have hend {t : Stage} (ht : t.Awaits .eq) : (do
      if ← eat .eq then
        if !(← expr) then report (.expected "an initializer")
        if ← isAt (.keyword .elseKw) then
          nodeOf .letElse do advance; block
      let _ ← expect .semicolon : Grammar Unit).Reaches t fun _ u => Fits .letStmt s.next u := by
    simp only [reaches_bind, reaches_eat, reaches_expect, reaches_isAt, reaches_ite, reaches_nodeOf,
      reaches_advance, reaches_pure]
    split
    · next hat =>
      refine Reaches.mono reaches_expr fun found u hu => ?_
      have hvalued := ht.isValued hat (by simp) hu
      split
      · trivial
      split
      · exact Fit.reaches fit_block fun _ v =>
          ⟨by simp, fun _ => .inl (hvalued.mono (Stage.prefix_leave.trans Stage.prefix_take))⟩
      · exact fun _ => .inl (hvalued.mono Stage.prefix_take)
    · exact fun hat => .inr (ht.take hat (by simp))
  rw [letStatement, Fit, reaches_nodeOf]
  simp only [and_true]
  rw [reaches_bind, reaches_advance, reaches_bind]
  refine Reaches.mono reaches_patternAlternatives fun _ t ht => ?_
  have hbefore : t.Awaits .eq :=
    (Stage.Awaits.enter.take (s.next_enter.trans h) (by simp)).adds ht
  rw [reaches_bind, reaches_eat]
  split
  · next hat =>
    rw [if_pos rfl, reaches_bind]
    exact Reaches.mono reaches_type fun _ u hu =>
      hend ((hbefore.take hat (by simp)).type (by simp) hu)
  · exact hend hbefore

@[simp] theorem fit_statementEnd {needsSemicolon : Bool} : (statementEnd needsSemicolon).Fit s := by
  simp only [statementEnd, reaches_bind, reaches_peek]
  split <;> simp

@[simp] theorem fit_exprStatement : exprStatement.Fit s := by
  simp only [exprStatement, reaches_bind, reaches_test, reaches_ite, reaches_call]
  split
  · intro found t ht
    split
    · split
      · exact Reaches.mono (reaches_operators ht) fun _ u _ => fit_statementEnd
      · exact fit_statementEnd
    · trivial
  · simp

@[simp] theorem fit_statement : statement.Fit s := by
  simp only [statement, reaches_bind, reaches_eat, reaches_isAt, reaches_test, reaches_ite, beq_iff_eq]
  split
  · trivial
  · rw [if_neg Bool.false_ne_true]
    split
    · next hlet => exact fit_letStatement hlet
    · simp

@[simp] theorem fit_blockBody : (blockBody statement).Fit s := by simp [blockBody]

@[simp] theorem reaches_blockExpr : blockExpr.Reaches s fun _ t => s.Adds t NodeKind.isExpr := by
  simp [blockExpr]

theorem reaches_body : labeledLoop.body.Reaches s fun _ t => s.inside <+: t.inside := by
  simp only [labeledLoop.body, reaches_bind, reaches_isAt, reaches_ite, reaches_report]
  split
  · exact Reaches.mono reaches_block fun _ t ht => ht.isPrefix
  · trivial

@[simp] theorem fit_body : labeledLoop.body.Fit s := Reaches.mono reaches_body fun _ _ _ => trivial

/-- What a loop goes through stands behind the word `in`. -/
@[simp] theorem reaches_labeledLoop : labeledLoop.Reaches s fun _ t => s.Adds t NodeKind.isExpr := by
  have hfor {t : Stage} (ht : t.Awaits (.keyword .inKw)) (hat : t.next = .keyword .forKw) :
      patternAlternatives.Reaches t.take fun _ u => u.next = .keyword .inKw →
        headExpr.Reaches u.take fun _ v => labeledLoop.body.Reaches v fun _ w =>
          Fits .forExpr s.next w := by
    refine Reaches.mono reaches_patternAlternatives fun _ u hu hin => ?_
    refine Reaches.mono reaches_headExpr fun _ v hv => ?_
    have hvalued := ((ht.take hat (by simp)).adds hu).isValued hin (by simp) hv
    exact Reaches.mono reaches_body fun _ w hw => hvalued.mono hw
  simp only [labeledLoop, reaches_nodeBy, reaches_bind, reaches_isAt, reaches_ite, reaches_nodeOf,
    reaches_advance, reaches_expect, reaches_peek]
  split
  · intro _
    refine ⟨by simp, ?_⟩
    split
    case h_3 hat => simpa using hfor (Stage.Awaits.enter.leave rfl) hat
    all_goals simp
  · split
    case h_3 hat => simpa using hfor Stage.Awaits.enter hat
    all_goals simp

/-- What is matched stands behind the equals sign. -/
theorem reaches_letExpr {noRecord : Bool} (h : s.next = .keyword .letKw) :
    (letExpr noRecord).Reaches s fun _ t => s.Adds t NodeKind.isExpr := by
  simp only [letExpr, reaches_nodeOf, reaches_bind, reaches_advance, reaches_expect, reaches_call,
    reaches_pure]
  refine Reaches.mono reaches_patternAlternatives fun _ t ht hat _ u hu => ⟨?_, by simp⟩
  exact ((Stage.Awaits.enter.take (s.next_enter.trans h) (by simp)).adds ht).isValued hat (by simp) hu

@[simp] theorem fit_optValue {noRecord : Bool} : (optValue noRecord).Fit s := by simp [optValue]

@[simp] theorem reaches_asyncBlock : asyncBlock.Reaches s fun _ t => s.Adds t NodeKind.isExpr := by
  simp [asyncBlock]

/-- An operand is one node. -/
theorem reaches_atomBody {noRecord : Bool} :
    (atomBody noRecord).Reaches s fun _ t => s.Adds t NodeKind.isExpr := by
  simp only [atomBody, reaches_bind, reaches_peek]
  split
  case h_24 hat => exact reaches_letExpr hat
  all_goals simp [Rule.Leads]

/-! ## Items -/

@[simp] theorem fit_items {closer : TokenKind} : (items closer).Fit s := by simp [items]

@[simp] theorem fit_bracedItems : bracedItems.Fit s := by simp [bracedItems]

@[simp] theorem fit_receiver : receiver.Fit s := by simp [receiver]

@[simp] theorem fit_parameter {first : Bool} : (parameter first).Fit s := by simp [parameter]

@[simp] theorem fit_parameters : parameters.Fit s := by simp [parameters]

@[simp] theorem fit_braceListGoesOn {before : Nat} {fault : Fault} {starts : List TokenKind} :
    (braceListGoesOn before fault starts).Fit s := by
  simp [braceListGoesOn]

theorem reaches_tupleFieldList : tupleFieldList.Reaches s fun _ t =>
    t.inside = s.inside ++ [.node .tupleFieldList] := by
  simp [tupleFieldList]

@[simp] theorem fit_tupleFieldList : tupleFieldList.Fit s :=
  Reaches.mono reaches_tupleFieldList fun _ _ _ => trivial

@[simp] theorem fit_assocItems : assocItems.Fit s := by simp [assocItems]

@[simp] theorem fit_nameOrUnderscore : nameOrUnderscore.Fit s := by simp [nameOrUnderscore]

@[simp] theorem fit_useTreeEnd : useTreeEnd.Fit s := by
  simp only [useTreeEnd, reaches_bind, reaches_peek]
  split <;> simp

@[simp] theorem fit_useTreeBody : useTreeBody.Fit s := by
  simp only [useTreeBody, reaches_nodeOf, reaches_bind, reaches_peek]
  split <;> simp

/-- A field has the parts of one, and nothing behind its type. -/
theorem reaches_field : (do
      let _ ← outerAttributes
      let _ ← optVisibility
      name
      let _ ← expect .colon
      type : Grammar Unit).Reaches s fun _ t =>
        t.flush = true ∧ ∃ xs, IsField xs ∧ t.inside = s.inside ++ xs := by
  simp only [reaches_bind, reaches_expect]
  refine Reaches.mono reaches_outerAttributes fun _ t ht => ?_
  refine Reaches.mono reaches_optVisibility fun _ u hu => ?_
  refine Reaches.mono reaches_name fun _ n hn hcolon => ?_
  refine Reaches.mono reaches_type fun _ e he => ?_
  obtain ⟨as, has, ht⟩ := ht
  obtain ⟨v, hv, hu⟩ := hu
  obtain ⟨hflush, -, ty, hty, he⟩ := he
  refine ⟨hflush, _, ⟨as, v, ty, has, hv, hty, rfl⟩, ?_⟩
  simp [he, Stage.inside_take hcolon, hn, hu, ht]

/-- A list of fields ends with a brace. -/
theorem reaches_recordFieldList : recordFieldList.Reaches s fun _ t =>
    t.inside = s.inside ++ [.node .recordFieldList] := by
  simp only [recordFieldList, reaches_nodeOf, reaches_bind, reaches_advance, reaches_expect]
  refine (fit_loopUntil fun t => ?_).reaches fun _ t hclose => ⟨?_, rfl⟩
  · rw [Fit, reaches_bind, reaches_remaining, reaches_bind, reaches_nodeOf]
    refine Reaches.mono reaches_field fun _ u hu => ?_
    obtain ⟨hflush, xs, hxs, hinside⟩ := hu
    exact ⟨⟨hflush, by rwa [hinside]⟩, fit_braceListGoesOn⟩
  · simp [Fits, Stage.inside_take hclose]

@[simp] theorem fit_recordFieldList : recordFieldList.Fit s :=
  Reaches.mono reaches_recordFieldList fun _ _ _ => trivial

@[simp] theorem fit_variantList : variantList.Fit s := by
  simp only [variantList, reaches_nodeOf, reaches_bind, reaches_advance]
  refine (fit_loopUntil fun t => ?_).reaches fun _ t => by simp
  rw [Fit, reaches_bind, reaches_remaining, reaches_bind, reaches_nodeOf]
  simp only [reaches_bind]
  refine Fit.reaches fit_outerAttributes fun _ u => Fit.reaches fit_optVisibility fun _ v =>
    Fit.reaches fit_name fun _ n => ?_
  rw [reaches_peek]
  split <;> simp

theorem leads_take (hs : ∀ x ∈ s.inside, x.leads = true) {k : TokenKind} (hat : s.next = k)
    (hk : k ≠ .eq ∧ k ≠ .eof) : ∀ x ∈ s.take.inside, x.leads = true := by
  rw [Stage.inside_take hat hk.2]
  exact List.forall_mem_append.2 ⟨hs, by simp [Constituent.leads, hk.1]⟩

theorem reaches_qualifiers (hs : ∀ x ∈ s.inside, x.leads = true) :
    qualifiers.Reaches s fun _ t => ∀ x ∈ t.inside, x.leads = true := by
  refine reaches_loop (fun t => ∀ x ∈ t.inside, x.leads = true) hs fun t ht => ?_
  simp only [reaches_bind, reaches_test, reaches_ite, reaches_advance, reaches_eat, reaches_pure]
  split
  · next hat =>
    have hword := leads_take ht rfl
      ⟨kindAt_ne_eq_of_qualifierAhead hat, kindAt_ne_eof_of_qualifierAhead hat⟩
    split
    · split
      · next hname => exact leads_take hword hname (by simp)
      · exact hword
    · exact hword
  · exact ht

theorem reaches_structDef (hs : ∀ x ∈ s.inside, x.leads = true) {k : TokenKind} (hat : s.next = k)
    (hk : k ≠ .eq ∧ k ≠ .eof) : structDef.Reaches s fun k t => k = .structDef ∧ IsRecord t.inside := by
  have hother {xs : List Constituent} (h : .node .recordFieldList ∉ xs) : IsRecord xs :=
    fun hmem => absurd hmem h
  simp only [structDef, reaches_bind, reaches_advance]
  refine Reaches.mono reaches_name fun _ t ht => Reaches.mono reaches_optGenericParams fun _ u hu => ?_
  obtain ⟨g, hg, hinside⟩ : ∃ g, (g = [] ∨ g = [.node .genericParamList]) ∧
      u.inside = s.take.inside ++ .node .name :: g := by
    split at hu
    · exact ⟨_, .inr rfl, by simp [hu, ht]⟩
    · exact ⟨_, .inl rfl, by simp [hu, ht]⟩
  have hpre := leads_take hs hat hk
  have hlacks : Constituent.node .recordFieldList ∉ u.inside := by
    intro hmem
    rw [hinside, List.mem_append, List.mem_cons] at hmem
    obtain hmem | hmem | hmem := hmem
    · exact Bool.false_ne_true (hpre _ hmem)
    · cases hmem
    · obtain rfl | rfl := hg <;> simp at hmem
  have hlater {t v : Stage} {w : List Constituent} (ht : Constituent.node .recordFieldList ∉ t.inside)
      (hw : w = [] ∨ w = [.node .whereClause]) (hv : v.inside = t.inside ++ w)
      (hat : v.next = .semicolon) :
      IsRecord v.take.inside := by
    refine hother ?_
    rw [Stage.inside_take hat (by simp), hv]
    obtain rfl | rfl := hw <;> simpa using ht
  rw [reaches_peek]
  split
  iterate 2
    simp only [reaches_bind, reaches_isAt, reaches_ite, reaches_expect, reaches_pure]
    refine Reaches.mono reaches_optWhereClause fun _ v hclause => ?_
    obtain ⟨w, hw, hv⟩ := hclause
    split
    · exact Reaches.mono reaches_recordFieldList fun _ e he =>
        ⟨trivial, fun _ => ⟨_, g, w, hpre, hg, hw, by simp [he, hv, hinside]⟩⟩
    · exact fun hat => ⟨trivial, hlater hlacks hw hv hat⟩
  · simp only [reaches_bind, reaches_expect, reaches_pure]
    refine Reaches.mono reaches_tupleFieldList fun _ l hl =>
      Reaches.mono reaches_optWhereClause fun _ v hclause hat => ?_
    obtain ⟨w, hw, hv⟩ := hclause
    exact ⟨trivial, hlater (by simpa [hl] using hlacks) hw hv hat⟩
  · next hat => exact ⟨rfl, hlater hlacks (.inl rfl) (by simp) hat⟩
  · trivial

@[simp] theorem fits_fnDef : fnDef.Reaches s fun k t => ∀ first, Fits k first t := by simp [fnDef]

@[simp] theorem fits_enumDef : enumDef.Reaches s fun k t => ∀ first, Fits k first t := by simp [enumDef]

@[simp] theorem fits_implDef : implDef.Reaches s fun k t => ∀ first, Fits k first t := by simp [implDef]

@[simp] theorem fits_traitDef : traitDef.Reaches s fun k t => ∀ first, Fits k first t := by
  simp [traitDef]

@[simp] theorem fits_modItem : modItem.Reaches s fun k t => ∀ first, Fits k first t := by simp [modItem]

@[simp] theorem fits_useItem : useItem.Reaches s fun k t => ∀ first, Fits k first t := by simp [useItem]

theorem awaits_nameOrUnderscore (h : s.Awaits .eq) :
    nameOrUnderscore.Reaches s fun _ t => t.Awaits .eq := by
  simp only [nameOrUnderscore, reaches_bind, reaches_test, reaches_ite, reaches_advance]
  split
  · next hat => exact h.take (kindAt_of_contextualAhead hat) (by simp)
  · exact Reaches.mono reaches_name fun _ t ht => h.append ht (by simp [Constituent.precedes])

/-- The value of an item stands behind its equals sign. -/
theorem fits_valueItem (hs : ∀ x ∈ s.inside, x.leads = true) {w : Keyword} (hat : s.next = .keyword w)
    {k : NodeKind} (hk : k = .constItem ∨ k = .staticItem) :
    (valueItem k).Reaches s fun k t => ∀ first, Fits k first t := by
  have hend {t : Stage} (ht : t.Awaits .eq) : (do
      if ← eat .eq then
        let _ ← expr
      let _ ← expect .semicolon
      return k : Grammar NodeKind).Reaches t fun k u => ∀ first, Fits k first u := by
    have hfits {u : Stage} (hu : MayBeValued .eq u.inside) : ∀ first, Fits k first u := by
      obtain rfl | rfl := hk <;> exact fun _ => hu
    simp only [reaches_bind, reaches_eat, reaches_expect, reaches_ite, reaches_pure]
    split
    · next hat =>
      refine Reaches.mono reaches_expr fun _ u hu _ => hfits (.inl ?_)
      exact (ht.isValued hat (by simp) hu).mono Stage.prefix_take
    · exact fun hat => hfits (.inr (ht.take hat (by simp)))
  have hname {t : Stage} (ht : t.Awaits .eq) : (do
      nameOrUnderscore
      if ← eat .colon then type
      else report (.missing .colon)
      if ← eat .eq then
        let _ ← expr
      let _ ← expect .semicolon
      return k : Grammar NodeKind).Reaches t fun k u => ∀ first, Fits k first u := by
    rw [reaches_bind]
    refine Reaches.mono (awaits_nameOrUnderscore ht) fun _ u hu => ?_
    rw [reaches_bind, reaches_eat]
    split
    · next hat =>
      rw [if_pos rfl, reaches_bind]
      exact Reaches.mono reaches_type fun _ v hv => hend ((hu.take hat (by simp)).type (by simp) hv)
    · trivial
  have hword : s.take.Awaits .eq :=
    Stage.Awaits.take (fun x hx => precedes_of_leads (hs x hx)) hat (by simp)
  rw [valueItem, reaches_bind, reaches_advance, reaches_bind, reaches_eat]
  split
  · next hmut => exact hname (hword.take hmut (by simp))
  · exact hname hword

@[simp] theorem fits_typeAlias : typeAlias.Reaches s fun k t => ∀ first, Fits k first t := by
  simp [typeAlias]

@[simp] theorem fits_macroItem : macroItem.Reaches s fun k t => ∀ first, Fits k first t := by
  have htake {t : Stage} (h : ∃ k, .token k ∈ t.inside) : ∃ k, .token k ∈ t.take.inside :=
    h.imp fun k hk => List.mem_append_left _ hk
  have hend {t : Stage} {p : Prop} [Decidable p] (h : ∃ k, .token k ∈ t.inside) :
      delimited.Reaches t fun _ u =>
        if p then (eat .semicolon).Reaches u fun _ v => ∀ first, Fits .macroCall first v
        else ∀ first, Fits .macroCall first u := by
    refine Reaches.mono reaches_delimited fun _ u hu => ?_
    have hinside : ∃ k, .token k ∈ u.inside := h.imp fun k hk => hu.2.1 ▸ List.mem_append_left _ hk
    rw [reaches_eat]
    split
    · split
      · exact fun _ => htake hinside
      · exact fun _ => hinside
    · exact fun _ => hinside
  simp only [macroItem, reaches_bind, reaches_expect, reaches_isAt, reaches_ite, reaches_advance]
  refine Fit.reaches fit_path fun _ t hat => ?_
  have hbang : ∃ k, .token k ∈ t.take.inside := ⟨.bang, by simp [Stage.inside_take hat]⟩
  split
  · exact hend (htake hbang)
  · exact hend hbang

theorem fits_structDef (hs : ∀ x ∈ s.inside, x.leads = true) {k : TokenKind} (hat : s.next = k)
    (hk : k ≠ .eq ∧ k ≠ .eof) : structDef.Reaches s fun k t => ∀ first, Fits k first t := by
  refine (reaches_structDef hs hat hk).mono fun k t ht first => ?_
  rw [ht.1]
  exact ht.2

/-- An item fits, behind what may lead before it. -/
theorem fits_bareItem? (hs : ∀ x ∈ s.inside, x.leads = true) :
    bareItem?.Reaches s fun k? t => ∀ k ∈ k?, ∀ first, Fits k first t := by
  simp only [bareItem?, reaches_bind, reaches_peek]
  split
  case h_2 hat => simpa using fits_structDef hs hat (by simp)
  case h_8 hat => simpa using fits_valueItem hs hat (.inl rfl)
  case h_9 hat => simpa using fits_valueItem hs hat (.inr rfl)
  case h_11 =>
    rw [reaches_bind, reaches_peek]
    split <;> simp
  case h_12 =>
    simp only [reaches_bind, reaches_test, reaches_peek, reaches_ite]
    split
    · next hat =>
      rw [Bool.and_eq_true] at hat
      simpa using fits_structDef hs (kindAt_of_contextualAhead hat.1) (by simp)
    · split <;> simp
  all_goals simp

theorem leads_of_mem {as v : List Constituent} (has : ∀ a ∈ as, a = .node .attr)
    (hv : v = [] ∨ v = [.node .visibility]) : ∀ x ∈ as ++ v, x.leads = true := by
  intro x hx
  obtain hx | hx := List.mem_append.1 hx
  · rw [has x hx]
    rfl
  · obtain rfl | rfl := hv
    · cases hx
    · rw [List.mem_singleton.1 hx]
      rfl

@[simp] theorem fit_itemBody : itemBody.Fit s := by
  simp only [itemBody, reaches_node, reaches_bind]
  refine Reaches.mono reaches_outerAttributes fun attributed t ht => ?_
  refine Reaches.mono reaches_optVisibility fun visible u hu => ?_
  obtain ⟨as, has, ht⟩ := ht
  obtain ⟨v, hv, hu⟩ := hu
  have hleads : ∀ x ∈ u.inside, x.leads = true := by
    rw [hu, ht]
    exact leads_of_mem has hv
  refine (reaches_qualifiers hleads).mono fun _ q hq => (fits_bareItem? hq).mono fun k? e he => ?_
  cases k? with
  | some k => simpa using he k rfl _
  | none => simp

@[simp] theorem fit_sourceFile : sourceFile.Fit s := by simp [sourceFile, sourceFile.skipToEnd]

/-- The named forms lead where it says, and their nodes fit. -/
theorem reaches_grammar (r : Rule) : r.grammar.Reaches s fun _ t => r.Leads s t := by
  cases r <;> simp only [Rule.grammar, reaches_bind, reaches_pure]
  case type => exact reaches_typeBody
  case bounds => exact reaches_boundsBody
  case tokenTree => exact reaches_tokenTree
  case pathType => exact Reaches.mono reaches_pathType fun _ _ h => h.2.1
  case pattern => exact reaches_singlePatternBody
  case expr => exact reaches_exprBody
  case atom => exact reaches_atomBody
  case block => exact reaches_blockExpr
  case ifExpr => exact reaches_ifBody
  all_goals simp [Rule.Leads]

end Grammar

end Reshape
