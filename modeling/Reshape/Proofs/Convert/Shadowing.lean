import Reshape.Proofs.Convert.Accesses
import Reshape.Proofs.Decl.Order
import Reshape.Proofs.Token.Idents

/-!
# Structs that share their names

What is converted is found by its place, and what mentions it by its name. A name means the first
declaration of its file that has it, so the two may come apart.

* `Decls.Shadowed` says that an earlier declaration of the file has the same name. Then the name does
  not mean the declaration in any file (`Decls.not_shadowed_of_resolve?`), and in all other cases it
  does in its own (`Decls.resolve?_eq_self_iff`).
* `convert_resolves_iff` is what follows for conversions: a shadowed struct is converted, and nothing
  that goes by its name is. `convert_shadowed` is such a conversion.
-/

namespace Reshape

/-! ## Names in a file -/

namespace Decls

variable {ds : Decls} {d d' : DeclId} {decl : Decl} {name : String} {file : FileId}

/-- An earlier declaration of the same file has the same name. -/
def Shadowed (ds : Decls) (d : DeclId) : Prop :=
  ∃ decl, ds.decl? d = some decl ∧ ∃ d' < d, ∃ decl', ds.decl? d' = some decl' ∧
    decl'.file = decl.file ∧ decl'.name = decl.name

/-- The declarations with a name, with their numbers. -/
def named (ds : Decls) (name : String) : List (Decl × DeclId) :=
  ds.decls.zipIdx.filter fun x => x.1.name == name

theorem mem_named : (decl, d) ∈ ds.named name ↔ ds.decl? d = some decl ∧ decl.name = name := by
  rw [named, List.mem_filter, List.mk_mem_zipIdx_iff_getElem?, beq_iff_eq]
  rfl

theorem pairwise_named (ds : Decls) (name : String) :
    (ds.named name).Pairwise fun x y => x.2 < y.2 :=
  (pairwise_zipIdx ds.decls).filter _

/-- The first one in order is found. -/
theorem le_of_find? {α : Type} {l : List (α × Nat)} {p : α × Nat → Bool} {x y : α × Nat}
    (hl : l.Pairwise fun x y => x.2 < y.2) (hx : l.find? p = some x) (hy : y ∈ l)
    (hp : p y = true) : x.2 ≤ y.2 := by
  obtain ⟨-, before, behind, rfl, hbefore⟩ := List.find?_eq_some_iff_append.1 hx
  obtain hy | hy := List.mem_append.1 hy
  · exact absurd hp (by simpa using hbefore y hy)
  · obtain rfl | hy := List.mem_cons.1 hy
    · exact Nat.le_refl _
    · exact Nat.le_of_lt ((List.pairwise_cons.1 (List.pairwise_append.1 hl).2.1).1 y hy)

theorem resolve?_eq_some_iff : ds.resolve? name file = some d ↔
    ∃ decl, pick? (·.1.file) file (ds.named name) = some (decl, d) := by
  rw [resolve?_eq_pick?, Option.map_eq_some_iff]
  simp only [Prod.exists, exists_eq_right]
  rfl

/-- What a name means has that name, and is the first of its file to have it. -/
theorem not_shadowed_of_resolve? (h : ds.resolve? name file = some d) :
    ∃ decl, ds.decl? d = some decl ∧ decl.name = name ∧ ¬ ds.Shadowed d := by
  obtain ⟨decl, hpick⟩ := resolve?_eq_some_iff.1 h
  -- Any other declaration of the file with the name comes behind.
  obtain ⟨hmem, hfirst⟩ : (decl, d) ∈ ds.named name ∧
      ∀ d' decl', (decl', d') ∈ ds.named name → decl'.file = decl.file → d ≤ d' := by
    unfold pick? at hpick
    split at hpick
    · next x hfind =>
      cases hpick
      have hown : decl.file = file := by simpa using List.find?_some hfind
      refine ⟨List.mem_of_find?_eq_some hfind, fun d' decl' hmem' hfile => ?_⟩
      exact le_of_find? (pairwise_named ds name) hfind hmem' (by simp [hfile, hown])
    · split at hpick
      · next x hone =>
        cases hpick
        rw [hone]
        refine ⟨List.mem_cons_self, fun d' decl' hmem' _ => ?_⟩
        cases List.mem_singleton.1 hmem'
        exact Nat.le_refl _
      · cases hpick
  obtain ⟨hdecl, hname⟩ := mem_named.1 hmem
  refine ⟨decl, hdecl, hname, ?_⟩
  rintro ⟨other, hother, d', hlt, decl', hdecl', hfile, hname'⟩
  cases hdecl.symm.trans hother
  exact Nat.not_le_of_lt hlt (hfirst d' decl' (mem_named.2 ⟨hdecl', hname'.trans hname⟩) hfile)

/-- The name of a declaration means it or an earlier one in its own file. -/
theorem exists_resolve?_le (h : ds.decl? d = some decl) : ∃ d' ≤ d, ∃ decl',
    ds.resolve? decl.name decl.file = some d' ∧ ds.decl? d' = some decl' ∧
      decl'.file = decl.file ∧ decl'.name = decl.name := by
  have hmem : (decl, d) ∈ ds.named decl.name := mem_named.2 ⟨h, rfl⟩
  cases hfind : (ds.named decl.name).find? (·.1.file == decl.file) with
  | none => simpa using List.find?_eq_none.1 hfind _ hmem
  | some x =>
    obtain ⟨hdecl', hname⟩ := mem_named.1 (List.mem_of_find?_eq_some hfind)
    refine ⟨x.2, le_of_find? (pairwise_named ds _) hfind hmem (by simp), x.1, ?_, hdecl', ?_, hname⟩
    · exact resolve?_eq_some_iff.2 ⟨x.1, by unfold pick?; rw [hfind]⟩
    · simpa using List.find?_some hfind

/-- A name means a declaration in the file of the declaration if no earlier one there has it. -/
theorem resolve?_eq_self_iff (h : ds.decl? d = some decl) :
    ds.resolve? decl.name decl.file = some d ↔ ¬ ds.Shadowed d := by
  constructor
  · intro hresolve
    obtain ⟨-, -, -, hnot⟩ := not_shadowed_of_resolve? hresolve
    exact hnot
  · intro hnot
    obtain ⟨d', hle, decl', hresolve, hdecl', hfile, hname⟩ := exists_resolve?_le h
    obtain rfl | hlt := Nat.eq_or_lt_of_le hle
    · exact hresolve
    · exact absurd ⟨decl, h, d', hlt, decl', hdecl', hfile, hname⟩ hnot

/-- The name of a shadowed declaration means an earlier one. -/
theorem Shadowed.exists_resolve?_lt (hd : ds.Shadowed d) (h : ds.decl? d = some decl) :
    ∃ d' < d, ds.resolve? decl.name decl.file = some d' := by
  obtain ⟨d', hle, decl', hresolve, -⟩ := exists_resolve?_le h
  refine ⟨d', Nat.lt_of_le_of_ne hle ?_, hresolve⟩
  rintro rfl
  exact (resolve?_eq_self_iff h).1 hresolve hd

end Decls

/-! ## Paths -/

/-- The name of a declaration is not `Self`. -/
theorem Workspace.Coherent.name_ne_self {w : Workspace} (hw : w.Coherent) {d : DeclId} {decl : Decl}
    (h : (Decls.ofWorkspace w).decl? d = some decl) : decl.name ≠ "Self" := by
  have hname := (foundIn_ofWorkspace w).nameText?_eq decl (List.mem_of_getElem? h)
  obtain ⟨source, -, hbelow⟩ := hw.holds_node h
  obtain ⟨m, hm, htext⟩ := Option.bind_eq_some_iff.1 hname
  obtain ⟨t, ht, htext⟩ := Option.map_eq_some_iff.1 htext
  intro hself
  have hkind := kind_of_mem_lexTokens_of_self
    (Node.mem_lexTokens_of_below (hbelow.childOfKind? hm) (List.mem_of_find?_eq_some ht))
    (htext.trans hself)
  have hident := List.find?_some ht
  rw [hkind] at hident
  exact absurd hident (by decide)

/-- A path that consists of a lone name. -/
structure Node.IsLoneName (n : Node) (name : String) : Prop where
  kind_eq : n.kind = .path
  segments_eq : n.segments.length = 1
  lastName?_eq : n.lastName? = some name

namespace View

variable {v : View} {n : Node} {d : DeclId} {name : String} {names : List String} {root : Node}

theorem getLast?_segmentNames (h : n.lastName? = some name) : n.segmentNames.getLast? = some name := by
  obtain ⟨segment, hsegment, htext⟩ := Option.bind_eq_some_iff.1 h
  rw [Node.segmentNames, List.getLast?_map]
  rw [show n.segments.getLast? = some segment from hsegment, Option.map_some, htext, Option.getD_some]

/-- A declaration is found by its name or as `Self`. -/
theorem resolve?_decl (h : v.resolve? names n = some (.decl d)) (hname : names.getLast? = some name)
    (hself : name ≠ "Self") : v.decls.resolve? name v.file = some d := by
  have hlone (h : v.lone? name n = some (.decl d)) : v.decls.resolve? name v.file = some d := by
    rw [lone?, if_neg hself] at h
    simpa using h
  rw [resolve?] at h
  rw [← List.head?_reverse] at hname
  split at h
  · cases h
  · next last hnames =>
    rw [hnames] at hname
    cases hname
    exact hlone h
  · next last parent rest hnames =>
    rw [hnames] at hname
    cases hname
    split at h
    · obtain ⟨i, -, heq⟩ := Option.map_eq_some_iff.1 h
      cases heq
    · split at h
      · cases h
      · exact hlone h

/-- A lone name means the declaration that it resolves to. -/
theorem target?_of_isLoneName (hn : n.IsLoneName name) (hself : name ≠ "Self") :
    v.target? n = (v.decls.resolve? name v.file).map .decl := by
  have hnames : n.segmentNames = [name] := by
    obtain ⟨segment, hsegment⟩ := List.length_eq_one_iff.1 hn.segments_eq
    have hlast := getLast?_segmentNames hn.lastName?_eq
    rw [Node.segmentNames, hsegment] at hlast ⊢
    exact congrArg List.singleton (Option.some.inj hlast)
  rw [target?, hnames, resolve?]
  exact congrArg (Option.map _) (if_neg hself)

end View

/-- A path that is a reference to a declaration is spelled like it, and its name means it, unless it is
spelled `Self`. -/
theorem resolve?_of_mem_references {ds : Decls} {d : DeclId} {names : List String} {r : Reference}
    {n : Node} (h : r ∈ references ds (.decl d) names) (hkind : r.kind = .path n) :
    n.lastName? = some "Self" ∨ ∃ file, ds.resolve? ((Target.decl d).ownName ds) file = some d := by
  obtain ⟨file, root, -, hmem | hmem | hmem⟩ := exists_of_mem_references h
  · obtain ⟨m, hm, rfl⟩ := List.mem_map.1 hmem
    cases hkind
    have hfilter := (List.mem_filter.1 hm).2
    simp only [Bool.and_eq_true, beq_iff_eq, Option.any_eq_true, Bool.or_eq_true] at hfilter
    obtain ⟨⟨-, last, hlast, hspelled⟩, htarget⟩ := hfilter
    by_cases hself : last = "Self"
    · exact .inl (hself ▸ hlast)
    · obtain rfl := hspelled.resolve_right hself
      exact .inr ⟨file, View.resolve?_decl htarget (View.getLast?_segmentNames hlast) hself⟩
  · obtain ⟨e, -, access, -, -, hfield⟩ := View.exists_of_mem_fieldReferences hmem
    obtain ⟨m, -, -, -, hm | hm⟩ := View.exists_of_fieldReference?_eq_some hfield <;>
      rw [hkind] at hm <;> cases hm
  · obtain ⟨t, rfl⟩ := View.exists_of_mem_macroReferences hmem
    cases hkind

/-- No path but `Self` is a reference to a shadowed declaration. -/
theorem lastName?_of_shadowed {ds : Decls} {d : DeclId} {names : List String} {r : Reference}
    {n : Node} (hd : ds.Shadowed d) (h : r ∈ references ds (.decl d) names)
    (hkind : r.kind = .path n) : n.lastName? = some "Self" := by
  refine (resolve?_of_mem_references h hkind).resolve_right ?_
  rintro ⟨file, hresolve⟩
  obtain ⟨-, -, -, hnot⟩ := Decls.not_shadowed_of_resolve? hresolve
  exact hnot hd

/-- A lone name in the file of a declaration that is not shadowed is a reference to it. -/
theorem Node.IsLoneName.exists_mem_references {ds : Decls} {d : DeclId} {decl : Decl} {n root : Node}
    (hn : n.IsLoneName decl.name) (h : ds.decl? d = some decl) (hself : decl.name ≠ "Self")
    (hd : ¬ ds.Shadowed d) (hroot : (decl.file, root) ∈ ds.roots) (hmem : n ∈ root.descendants)
    (names : List String) : ∃ r ∈ references ds (.decl d) names,
      r.file = decl.file ∧ r.span = n.span := by
  have hname : (Target.decl d).ownName ds = decl.name := by
    rw [Target.ownName, Decls.name?, h]
    rfl
  have htarget : (View.mk ds decl.file).target? n = some (.decl d) := by
    rw [View.target?_of_isLoneName hn hself]
    exact congrArg (Option.map _) ((Decls.resolve?_eq_self_iff h).2 hd)
  refine exists_mem_references_of_found (r := ⟨decl.file, n.span, .path n⟩) hroot
    (.inl (List.mem_map.2 ⟨n, List.mem_filter.2 ⟨hmem, ?_⟩, rfl⟩))
  simp [hn.kind_eq, hn.lastName?_eq, hname, htarget]

/-! ## Conversions -/

section

variable {w : Workspace} {p : FilePosition} {config : Config} {cancelled : Bool} {c : SourceChange}
  {d : DeclId} {plan : Plan}

/-- **When the name of a struct that is converted means that struct.** The declaration is edited in any
case. Its name means it in its own file if no earlier declaration there has the name, and then every
lone name there that is spelled like it is among the references. Otherwise the name means an earlier
declaration, and no path is among the references that is not spelled `Self`. -/
theorem convert_resolves_iff (hw : w.Reachable) (h : convert w p config cancelled = .ok c)
    (hplan : planAt (.ofWorkspace w) p = .ok (.decl d, plan)) :
    ∃ decl e, (Decls.ofWorkspace w).decl? d = some decl ∧
      declarationEdit? (.ofWorkspace w) (.decl d) plan = some e ∧ HasEdit c.edits decl.file e ∧
      ((Decls.ofWorkspace w).resolve? decl.name decl.file = some d ↔
        ¬ (Decls.ofWorkspace w).Shadowed d) ∧
      (¬ (Decls.ofWorkspace w).Shadowed d → ∀ root n, (decl.file, root) ∈ (Decls.ofWorkspace w).roots →
        n ∈ root.descendants → n.IsLoneName decl.name →
          ∃ r ∈ references (.ofWorkspace w) (.decl d) plan.fieldNames,
            r.file = decl.file ∧ r.span = n.span) ∧
      ((Decls.ofWorkspace w).Shadowed d →
        (∃ d' < d, (Decls.ofWorkspace w).resolve? decl.name decl.file = some d') ∧
        ∀ r ∈ references (.ofWorkspace w) (.decl d) plan.fieldNames, ∀ n, r.kind = .path n →
          n.lastName? = some "Self") := by
  obtain ⟨-, target, plan', sites, c₀, e, hplan', hclassify, hfold, he, hvalidate⟩ := convert_eq_ok h
  rw [hplan] at hplan'
  cases hplan'
  obtain ⟨n, hn, -⟩ := Option.bind_eq_some_iff.1 he
  obtain ⟨decl, hdecl, -⟩ := hw.coherent.holds_of_node? hn
  have hdecl : (Decls.ofWorkspace w).decl? d = some decl := hdecl
  have hself := hw.coherent.name_ne_self hdecl
  refine ⟨decl, e, hdecl, he, ?_, Decls.resolve?_eq_self_iff hdecl, fun hnot root n hroot hmem hlone =>
    hlone.exists_mem_references hdecl hself hnot hroot hmem _, fun hshadowed =>
    ⟨hshadowed.exists_resolve?_lt hdecl, fun r hr n hkind => lastName?_of_shadowed hshadowed hr hkind⟩⟩
  refine SourceChange.hasEdit_of_validate hvalidate (hasEdit_addEdit.2 (.inl ⟨?_, rfl⟩))
  rw [show (Decls.ofWorkspace w).decl? (Target.decl d).owner = some decl from hdecl]
  rfl

set_option maxRecDepth 100000 in
/-- The first of two structs with a name is converted, and the name means it. -/
theorem convert_resolves_iff_first :
    ∃ w : Workspace, w = .ofFiles [("a.rs", "struct S{a:u8}mod m{struct S{b:u8}}")] ∧ w.Reachable ∧
      ∃ c plan decl, convert w ⟨0, 7⟩ {} false = .ok c ∧
        planAt (.ofWorkspace w) ⟨0, 7⟩ = .ok (.decl 0, plan) ∧
        (Decls.ofWorkspace w).decl? 0 = some decl ∧ (∃ e, HasEdit c.edits decl.file e) ∧
        (Decls.ofWorkspace w).resolve? decl.name decl.file = some 0 ∧
        ¬ (Decls.ofWorkspace w).Shadowed 0 := by
  refine ⟨_, rfl, Workspace.reachable_ofFiles _, ?_⟩
  have hconvert : (convert (.ofFiles [("a.rs", "struct S{a:u8}mod m{struct S{b:u8}}")]) ⟨0, 7⟩ {}
      false).toOption.map (·.edits) = some [(0, [⟨⟨8, 14⟩, "(u8);"⟩])] := by
    decide +kernel
  have hplan : (planAt (.ofWorkspace (.ofFiles [("a.rs", "struct S{a:u8}mod m{struct S{b:u8}}")]))
      ⟨0, 7⟩).toOption.map (·.1) = some (.decl 0) := by
    decide +kernel
  obtain ⟨c, hc, -⟩ := toOption_map_eq_some.1 hconvert
  obtain ⟨⟨target, plan⟩, hplan, rfl⟩ := toOption_map_eq_some.1 hplan
  obtain ⟨decl, e, hdecl, -, hedit, hiff, -⟩ :=
    convert_resolves_iff (Workspace.reachable_ofFiles _) hc hplan
  have hnot : ¬ (Decls.ofWorkspace (.ofFiles
      [("a.rs", "struct S{a:u8}mod m{struct S{b:u8}}")])).Shadowed 0 :=
    fun ⟨_, _, _, hlt, _⟩ => Nat.not_lt_zero _ hlt
  exact ⟨c, plan, decl, hc, hplan, hdecl, ⟨e, hedit⟩, hiff.2 hnot, hnot⟩

set_option maxRecDepth 100000 in
/-- The second of two structs with a name is converted. The literal next to it is not: its name means
the first struct. -/
theorem convert_shadowed :
    let w := Workspace.ofFiles [("a.rs", "struct S{a:u8}mod m{struct S{b:u8}fn f(){S{b:1};}}")]
    (convert w ⟨0, 27⟩ {} false).toOption.map (·.edits) = some [(0, [⟨⟨28, 34⟩, "(u8);"⟩])] ∧
    (planAt (.ofWorkspace w) ⟨0, 27⟩).toOption.map (·.1) = some (.decl 1) ∧
    ((Decls.ofWorkspace w).decl? 1).map (fun d => (d.name, d.file)) = some ("S", 0) ∧
    (Decls.ofWorkspace w).resolve? "S" 0 = some 0 := by
  decide +kernel

end

end Reshape
