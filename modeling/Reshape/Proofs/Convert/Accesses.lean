import Reshape.Proofs.Convert.Gathering

/-!
# Which field accesses a conversion rewrites

* `FieldAccess` is a field access in a file of a workspace that names one of the planned fields. The
  inferred type of its receiver decides whether it is a reference (`FieldAccess.fieldReference?_eq`).
* `FieldAccess.exists_mem_references` says that the place of an access that is one is among the
  references, and `FieldAccess.fieldReference?_of_mem_references` that nothing but the access or a
  token of a macro call can be there.
* `convert_rewrites_accesses` is what comes of it. An access is left alone just where the type of its
  receiver is known and is not the struct. A placeholder is such a type, although nothing is known of
  what it stands for: `convert_skips_placeholder` is a conversion that leaves an access to a field
  that is gone.
-/

namespace Reshape

/-- A field access by name in a file, where the name is one of those given. -/
structure FieldAccess (ds : Decls) (names : List String) where
  file : FileId
  node : Node
  nameRef : Node
  receiver : Node
  name : String
  exists_root : ∃ root, (file, root) ∈ ds.roots ∧ node ∈ root.descendants
  kind_eq : node.kind = .fieldExpr
  nameRef?_eq : node.nameRef? = some nameRef
  expr?_eq : node.expr? = some receiver
  isIndex_eq : nameRef.isIndex = false
  refText?_eq : nameRef.refText? = some name
  name_mem : name ∈ names

namespace FieldAccess

variable {ds : Decls} {names : List String}

/-- The type of the receiver, as far as it can be inferred. -/
def type? (a : FieldAccess ds names) : Option Ty := (View.mk ds a.file).typeOf? a.receiver

theorem nameRef_mem_children (a : FieldAccess ds names) : a.nameRef ∈ a.node.children :=
  Node.mem_children_of_nameRef? a.nameRef?_eq

theorem kind_nameRef (a : FieldAccess ds names) : a.nameRef.kind = .nameRef :=
  Node.kind_of_nameRef? a.nameRef?_eq

/-- The type of the receiver decides whether an access is a reference, and of which kind. -/
theorem fieldReference?_eq (a : FieldAccess ds names) (d : DeclId) :
    (View.mk ds a.file).fieldReference? d names a.node =
      match a.type? with
      | some t => if t.decl? = some d then some ⟨a.file, a.nameRef.span, .field a.nameRef⟩ else none
      | none => some ⟨a.file, a.nameRef.span, .unknownReceiver a.nameRef⟩ := by
  have hname : names.contains a.name = true := List.contains_iff_mem.2 a.name_mem
  simp only [View.fieldReference?, a.nameRef?_eq, a.expr?_eq, a.isIndex_eq, a.refText?_eq,
    Option.bind_some, Option.any_some, hname, Bool.not_true, Bool.or_self, Bool.false_eq_true,
    if_false]
  rfl

end FieldAccess

/-! ## One reference for each place -/

namespace Reference

variable {r : Reference} {rs : List Reference}

theorem exists_mem_dedupBehind (last : Reference) (h : r ∈ rs) :
    last.samePlace r = true ∨ ∃ s ∈ dedup.dedupBehind last rs, s.samePlace r = true := by
  have hrefl (r : Reference) : r.samePlace r = true := samePlace_iff.2 ⟨rfl, rfl⟩
  induction rs generalizing last with
  | nil => cases h
  | cons t ts ih =>
    rw [dedup.dedupBehind]
    split
    · next hlast =>
      obtain rfl | h := List.mem_cons.1 h
      · exact .inl hlast
      · exact ih last h
    · obtain rfl | h := List.mem_cons.1 h
      · exact .inr ⟨r, List.mem_cons_self, hrefl r⟩
      · obtain hsame | ⟨s, hs, hsame⟩ := ih t h
        · exact .inr ⟨t, List.mem_cons_self, hsame⟩
        · exact .inr ⟨s, List.mem_cons_of_mem _ hs, hsame⟩

/-- No place is lost. -/
theorem exists_mem_dedup (h : r ∈ rs) : ∃ s ∈ dedup rs, s.samePlace r = true := by
  cases rs with
  | nil => cases h
  | cons t ts =>
    obtain rfl | h := List.mem_cons.1 h
    · exact ⟨r, List.mem_cons_self, samePlace_iff.2 ⟨rfl, rfl⟩⟩
    · obtain hsame | ⟨s, hs, hsame⟩ := exists_mem_dedupBehind t h
      · exact ⟨t, List.mem_cons_self, hsame⟩
      · exact ⟨s, List.mem_cons_of_mem _ hs, hsame⟩

end Reference

/-- What is found in one of the three ways is among the references, or another one is in its place. -/
theorem exists_mem_references_of_found {ds : Decls} {target : Target} {names : List String}
    {file : FileId} {root : Node} {r : Reference} (hroot : (file, root) ∈ ds.roots)
    (h : r ∈ (View.mk ds file).pathReferences target root.descendants ∨
      r ∈ (View.mk ds file).fieldReferences target names root.descendants ∨
      r ∈ (View.mk ds file).macroReferences target names root.descendants) :
    ∃ s ∈ references ds target names, s.file = r.file ∧ s.span = r.span := by
  obtain ⟨s, hs, hsame⟩ : ∃ s ∈ references ds target names, s.samePlace r = true := by
    rw [references]
    refine Reference.exists_mem_dedup ((List.mergeSort_perm _ _).mem_iff.2
      (List.mem_flatMap.2 ⟨(file, root), hroot, ?_⟩))
    simpa only [List.mem_append, or_assoc] using h
  exact ⟨s, hs, Reference.samePlace_iff.1 hsame⟩

namespace FieldAccess

variable {w : Workspace} {names : List String} {d : DeclId} {r : Reference}

/-- There is a reference at the name of an access if the type of the receiver is not known, or is the
struct. -/
theorem exists_mem_references {ds : Decls} (a : FieldAccess ds names)
    (htype : ∀ t, a.type? = some t → t.decl? = some d) :
    ∃ r ∈ references ds (.decl d) names, r.file = a.file ∧ r.span = a.nameRef.span := by
  obtain ⟨root, hroot, hnode⟩ := a.exists_root
  obtain ⟨r, hr, hfile, hspan⟩ : ∃ r, (View.mk ds a.file).fieldReference? d names a.node = some r ∧
      r.file = a.file ∧ r.span = a.nameRef.span := by
    rw [a.fieldReference?_eq]
    cases htype? : a.type? with
    | none => exact ⟨_, rfl, rfl, rfl⟩
    | some t => exact ⟨_, if_pos (htype t htype?), rfl, rfl⟩
  have hfield : r ∈ (View.mk ds a.file).fieldReferences (.decl d) names root.descendants := by
    refine List.mem_filterMap.2 ⟨a.node, List.mem_filter.2 ⟨hnode, ?_⟩, hr⟩
    exact beq_iff_eq.2 a.kind_eq
  obtain ⟨s, hs, hsfile, hsspan⟩ := exists_mem_references_of_found hroot (.inr (.inl hfield))
  exact ⟨s, hs, hsfile.trans hfile, hsspan.trans hspan⟩

theorem holds_node (hw : w.Coherent) (a : FieldAccess (.ofWorkspace w) names) :
    w.Holds a.file a.node := by
  obtain ⟨root, hroot, hnode⟩ := a.exists_root
  exact hw.holds_of_mem_roots hroot (Node.below_of_mem_descendants hnode)

theorem holds_nameRef (hw : w.Coherent) (a : FieldAccess (.ofWorkspace w) names) :
    w.Holds a.file a.nameRef :=
  (a.holds_node hw).below (Node.Below.refl.child a.nameRef_mem_children)

/-- The name of an access stands in the access only. -/
theorem eq_node {ds : Decls} (a : FieldAccess ds names) {n : Node}
    (h : n.nameRef? = some a.nameRef) : n = a.node := by
  have hparent := Node.parent?_of_mem_children (Node.mem_children_of_nameRef? h)
  rw [Node.parent?_of_mem_children a.nameRef_mem_children, Option.some.injEq] at hparent
  exact hparent.symm

/-- What is found in the place of the name of an access is the access, unless it is a token of a
macro call. -/
theorem fieldReference?_of_mem_references (hw : w.Coherent)
    (a : FieldAccess (.ofWorkspace w) names) (hname : a.name ≠ "")
    (hown : (Target.decl d).ownName (.ofWorkspace w) ≠ "")
    (hr : r ∈ references (.ofWorkspace w) (.decl d) names) (hfile : r.file = a.file)
    (hspan : r.span = a.nameRef.span) :
    (∃ t, r.kind = .macroToken t) ∨
      (View.mk (.ofWorkspace w) a.file).fieldReference? d names a.node = some r := by
  obtain ⟨file, root, hroot, hmem⟩ := exists_of_mem_references hr
  have hholds {n : Node} (hn : n ∈ root.descendants) : w.Holds file n :=
    hw.holds_of_mem_roots hroot (Node.below_of_mem_descendants hn)
  obtain hpath | hfield | hmacro := hmem
  · obtain ⟨p, hp, rfl, last, hlast, hmeant⟩ := View.exists_of_mem_pathReferences hpath
    obtain ⟨segment, hsegment, hkind, m, hm, htext⟩ := Node.exists_of_lastName?_eq_some hlast
    obtain rfl : file = a.file := hfile
    have hbelow : Node.Below p segment := Node.Below.refl.child hsegment
    have hin : p.span.contains m.span = true :=
      (hholds hp).contains (hbelow.childOfKind? hm)
    have hne : last ≠ "" := by
      obtain rfl | rfl := hmeant
      · exact hown
      · simp
    -- The last name of the path would be that of the access, but it stands in a segment.
    have heq : m = a.nameRef :=
      (a.holds_nameRef hw).eq_of_nameRef ((hholds hp).below (hbelow.childOfKind? hm))
        a.kind_nameRef (Node.kind_of_nameRef? hm) (hspan ▸ hin) htext hne
    rw [heq] at hm
    rw [a.eq_node hm, a.kind_eq] at hkind
    cases hkind
  · obtain ⟨d', htarget, access, haccess, -, hfound⟩ := View.exists_of_mem_fieldReferences hfield
    cases htarget
    obtain ⟨m, hm, hmfile, hmspan, -⟩ := View.exists_of_fieldReference?_eq_some hfound
    obtain rfl : file = a.file := hmfile.symm.trans hfile
    have hin : m.span.contains a.nameRef.span = true := by
      rw [← hmspan, hspan]
      exact Span.contains_refl _
    have heq : a.nameRef = m :=
      ((hholds haccess).below (Node.Below.refl.childOfKind? hm)).eq_of_nameRef (a.holds_nameRef hw)
        (Node.kind_of_nameRef? hm) a.kind_nameRef hin a.refText?_eq hname
    rw [← heq] at hm
    rw [a.eq_node hm] at hfound
    exact .inr hfound
  · obtain ⟨t, rfl⟩ := View.exists_of_mem_macroReferences hmacro
    exact .inl ⟨t, rfl⟩

/-- An access is rewritten by a change: one of the edits of its file has the place of the field for
the name, or is around a part of a pattern that is left out and has the access in it. -/
def RewrittenBy {plan : Plan} (a : FieldAccess (.ofWorkspace w) plan.fieldNames) (d : DeclId)
    (c : SourceChange) : Prop :=
  ∃ source i e, w.file? a.file = some source ∧ plan.indexOf? a.name = some i ∧
    HasEdit c.edits a.file e ∧ e.Settles source.text
      ((classify plan (references (.ofWorkspace w) (.decl d) plan.fieldNames)).1.filter
        (·.file == a.file)) a.nameRef.span (toString i)

end FieldAccess

/-! ## Conversions -/

section

variable {w : Workspace} {p : FilePosition} {config : Config} {cancelled : Bool} {c : SourceChange}
  {d : DeclId} {plan : Plan} {r : Reference}

/-- Where the receiver of an access is not known not to be the struct, it is the struct, and the
access is a site. -/
theorem FieldAccess.exists_site (hw : w.Coherent)
    (hplan : planAt (.ofWorkspace w) p = .ok (.decl d, plan))
    (a : FieldAccess (.ofWorkspace w) plan.fieldNames) {sites : List Site}
    (hclassify : classify plan (references (.ofWorkspace w) (.decl d) plan.fieldNames) = (sites, []))
    (htype : ∀ t, a.type? = some t → t.decl? = some d) :
    (∃ t, a.type? = some t ∧ t.decl? = some d) ∧
      ∃ i, plan.indexOf? a.name = some i ∧ ⟨a.file, a.nameRef.span, .access i⟩ ∈ sites := by
  have hname := ne_empty_of_mem_fieldNames hw hplan a.name_mem
  obtain ⟨r, hr, hfile, hspan⟩ := a.exists_mem_references htype
  obtain ⟨s, hs, hsite⟩ := exists_site_of_classify hclassify hr
  obtain ⟨t, hkind⟩ | hfound :=
    a.fieldReference?_of_mem_references hw hname (ownName_ne_empty hw hplan) hr hfile hspan
  · simp [Site.ofReference, hkind] at hsite
  · rw [a.fieldReference?_eq] at hfound
    cases htype? : a.type? with
    | none =>
      rw [htype?] at hfound
      cases hfound
      simp [Site.ofReference] at hsite
    | some t =>
      obtain ⟨i, hi⟩ := Plan.exists_indexOf? a.name_mem
      have hdecl := htype t htype?
      simp only [htype?, hdecl, if_true, Option.some.injEq] at hfound
      subst hfound
      simp only [Site.ofReference, a.refText?_eq, Option.getD_some, hi] at hsite
      cases hsite
      exact ⟨⟨t, rfl, hdecl⟩, i, hi, hs⟩

/-- The sites of accesses are rewritten. -/
theorem FieldAccess.rewrittenBy (hw : w.Coherent) (h : convert w p config cancelled = .ok c)
    (hplan : planAt (.ofWorkspace w) p = .ok (.decl d, plan))
    (a : FieldAccess (.ofWorkspace w) plan.fieldNames)
    (htype : ∀ t, a.type? = some t → t.decl? = some d) :
    (∃ t, a.type? = some t ∧ t.decl? = some d) ∧ a.RewrittenBy d c := by
  obtain ⟨-, target, plan', sites, c₀, e, hplan', hclassify, hfold, -, hvalidate⟩ := convert_eq_ok h
  rw [hplan] at hplan'
  cases hplan'
  obtain ⟨hknown, i, hi, hsite⟩ := a.exists_site hw hplan hclassify htype
  obtain ⟨shape, -, hshape⟩ := planAt_eq_ok hplan
  have hsound : ∀ s ∈ sites.filter (·.file == a.file), s.Sound plan.size := fun s hs =>
    (standing_of_classify (fun r => standing_of_mem_references hw) hshape hclassify
      (List.mem_filter.1 hs).1).sound
  have hfile : a.file ∈ (Decls.ofWorkspace w).files.filter fun f => sites.any (·.file == f) := by
    obtain ⟨root, hroot, -⟩ := a.exists_root
    refine List.mem_filter.2 ⟨List.mem_map.2 ⟨_, hroot, rfl⟩, List.any_eq_true.2 ⟨_, hsite, ?_⟩⟩
    exact beq_iff_eq.2 rfl
  obtain ⟨source, es, hsource, hes, hedits⟩ := (hasEdit_foldlM_rewriteFile hfold).2 a.file hfile
  obtain ⟨e', he', hsettles⟩ := (rewriteSites_settles hsound hes).2 _
    (List.mem_filter.2 ⟨hsite, beq_iff_eq.2 rfl⟩) i rfl
  have hkept : HasEdit c.edits a.file e' :=
    SourceChange.hasEdit_of_validate hvalidate (hasEdit_addEdit.2 (.inr (hedits e' he')))
  rw [RewrittenBy, hclassify]
  exact ⟨hknown, source, i, e', hsource, hi, hkept, hsettles⟩

/-- An access whose receiver is of another type is not found. -/
theorem FieldAccess.span_ne_of_mem_references (hw : w.Coherent)
    (h : convert w p config cancelled = .ok c)
    (hplan : planAt (.ofWorkspace w) p = .ok (.decl d, plan))
    (a : FieldAccess (.ofWorkspace w) plan.fieldNames) {t : Ty} (htype : a.type? = some t)
    (hdecl : t.decl? ≠ some d) (hr : r ∈ references (.ofWorkspace w) (.decl d) plan.fieldNames)
    (hfile : r.file = a.file) : r.span ≠ a.nameRef.span := by
  intro hspan
  obtain ⟨-, target, plan', sites, c₀, e, hplan', hclassify, -⟩ := convert_eq_ok h
  rw [hplan] at hplan'
  cases hplan'
  obtain ⟨s, -, hsite⟩ := exists_site_of_classify hclassify hr
  have hname := ne_empty_of_mem_fieldNames hw hplan a.name_mem
  obtain ⟨token, hkind⟩ | hfound :=
    a.fieldReference?_of_mem_references hw hname (ownName_ne_empty hw hplan) hr hfile hspan
  · simp [Site.ofReference, hkind] at hsite
  · simp [a.fieldReference?_eq, htype, hdecl] at hfound

/-- **Which accesses are rewritten.** If a struct is converted, the type of the receiver of every
access to one of its fields is known. The access is rewritten or its receiver is not the struct,
unless all that is known is a placeholder: then the access is not among the references. -/
theorem convert_rewrites_accesses (hw : w.Reachable) (h : convert w p config cancelled = .ok c)
    (hplan : planAt (.ofWorkspace w) p = .ok (.decl d, plan))
    (a : FieldAccess (.ofWorkspace w) plan.fieldNames) :
    ∃ t, a.type? = some t ∧
      ((∀ q, t ≠ .param q) → a.RewrittenBy d c ∨ t.decl? ≠ some d) ∧
      ∀ q, t = .param q → ∀ r ∈ references (.ofWorkspace w) (.decl d) plan.fieldNames,
        r.file = a.file → r.span ≠ a.nameRef.span := by
  by_cases hstruct : ∀ t, a.type? = some t → t.decl? = some d
  · obtain ⟨⟨t, htype, hdecl⟩, hrewritten⟩ := a.rewrittenBy hw.coherent h hplan hstruct
    refine ⟨t, htype, fun _ => .inl hrewritten, ?_⟩
    rintro q rfl
    cases hdecl
  · push Not at hstruct
    obtain ⟨t, htype, hdecl⟩ := hstruct
    exact ⟨t, htype, fun _ => .inr hdecl, fun q _ r hr =>
      a.span_ne_of_mem_references hw.coherent h hplan htype hdecl hr⟩

set_option maxRecDepth 100000 in
/-- The struct `S` is converted, and the receiver of the access is of another struct. -/
theorem convert_rewrites_accesses_other :
    ∃ w : Workspace, w = .ofFiles [("a.rs", "struct S{f:u8}struct A{f:u8}fn g(a:A){a.f;}")] ∧
      w.Reachable ∧ ∃ c plan, convert w ⟨0, 7⟩ {} false = .ok c ∧
        planAt (.ofWorkspace w) ⟨0, 7⟩ = .ok (.decl 0, plan) ∧
        ∃ (a : FieldAccess (.ofWorkspace w) plan.fieldNames) (t : Ty), a.type? = some t ∧
          ((∀ q, t ≠ .param q) → a.RewrittenBy 0 c ∨ t.decl? ≠ some 0) := by
  refine ⟨_, rfl, Workspace.reachable_ofFiles _, ?_⟩
  have hconvert : ((convert (.ofFiles [("a.rs", "struct S{f:u8}struct A{f:u8}fn g(a:A){a.f;}")]) ⟨0, 7⟩
      {} false).toOption.map (·.edits)) = some [(0, [⟨⟨8, 14⟩, "(u8);"⟩])] := by
    decide +kernel
  have hplan : ((planAt (.ofWorkspace (.ofFiles [("a.rs",
      "struct S{f:u8}struct A{f:u8}fn g(a:A){a.f;}")])) ⟨0, 7⟩).toOption.map
        fun x => (x.1, x.2.fieldNames)) = some (.decl 0, ["f"]) := by
    decide +kernel
  have hfound : ((Decls.ofWorkspace (.ofFiles [("a.rs",
      "struct S{f:u8}struct A{f:u8}fn g(a:A){a.f;}")])).root? 0).any (fun root =>
        root.descendants.any fun n => n.kind == .fieldExpr && n.expr?.isSome &&
          n.nameRef?.any fun m => m.isIndex == false && m.refText? == some "f") = true := by
    decide +kernel
  obtain ⟨c, hc, -⟩ := toOption_map_eq_some.1 hconvert
  obtain ⟨⟨target, plan⟩, hplan, hnames⟩ := toOption_map_eq_some.1 hplan
  obtain ⟨rfl, hnames⟩ := Prod.mk.inj hnames
  obtain ⟨root, hroot, hfound⟩ := (Option.any_eq_true _ _).1 hfound
  obtain ⟨n, hn, hfound⟩ := List.any_eq_true.1 hfound
  simp only [Bool.and_eq_true, beq_iff_eq, Option.any_eq_true, Option.isSome_iff_exists] at hfound
  obtain ⟨⟨hkind, e, he⟩, m, hm, hindex, htext⟩ := hfound
  have hname : "f" ∈ plan.fieldNames := by
    rw [hnames]
    exact List.mem_singleton_self _
  obtain ⟨t, htype, hother, -⟩ := convert_rewrites_accesses (Workspace.reachable_ofFiles _) hc hplan
    ⟨0, n, m, e, "f", ⟨root, mem_of_lookup hroot, hn⟩, hkind, hm, he, hindex, htext, hname⟩
  exact ⟨c, plan, hc, hplan, _, t, htype, hother⟩

set_option maxRecDepth 100000 in
/-- The struct `S` is converted, and an access to its field stays as it is: that its receiver is of
the type `S` is not seen, as its type is the placeholder of the struct that it is a field of. -/
theorem convert_skips_placeholder :
    ((convert (.ofFiles [("a.rs", "struct W<T>{t:T}struct S{f:u8}fn g(s:S){W{t:s}.t.f;}")]) ⟨0, 24⟩
      {} false).toOption.map (·.edits)) = some [(0, [⟨⟨24, 30⟩, "(u8);"⟩])] ∧
    ((Decls.ofWorkspace (.ofFiles [("a.rs",
      "struct W<T>{t:T}struct S{f:u8}fn g(s:S){W{t:s}.t.f;}")])).root? 0).any (fun root =>
        root.descendants.any fun n => n.kind == .fieldExpr &&
          n.nameRef?.any (fun m => m.span == ⟨49, 50⟩ && m.refText? == some "f") &&
          n.expr?.any fun e => ((View.mk (.ofWorkspace (.ofFiles [("a.rs",
            "struct W<T>{t:T}struct S{f:u8}fn g(s:S){W{t:s}.t.f;}")])) 0).typeOf? e).any
              (· == .param ⟨"T", 0⟩)) = true := by
  decide +kernel

end

end Reshape
