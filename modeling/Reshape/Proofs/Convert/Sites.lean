import Reshape.Proofs.Convert.Copies
import Reshape.Proofs.Convert.Plans

/-!
# Where references and sites stand

* `Reference.Standing` says that a reference stands where the node that it is about does, and that
  this is a node of the file of the reference. All references that are found stand so
  (`standing_of_mem_references`).
* `Site.Standing` is the same for sites, whose parts stand in them. A reference that can be rewritten
  becomes such a site (`Reference.Standing.site`).
-/

namespace Reshape

variable {w : Workspace} {ds : Decls} {target : Target} {r : Reference} {rs : List Reference}

/-- The node that a reference is about. -/
def ReferenceKind.node? : ReferenceKind → Option Node
  | .path n | .field n | .unknownReceiver n => some n
  | .macroToken _ => none

/-- A reference about a node stands where the node does. -/
def Reference.Standing (w : Workspace) (r : Reference) : Prop :=
  ∀ n ∈ r.kind.node?, w.Holds r.file n ∧ r.span = n.span

namespace Reference

theorem samePlace_iff {r s : Reference} :
    r.samePlace s = true ↔ r.file = s.file ∧ r.span = s.span := by
  simp [samePlace]

theorem mem_of_mem_dedupBehind {last : Reference} (h : r ∈ dedup.dedupBehind last rs) : r ∈ rs := by
  induction rs generalizing last with
  | nil => cases h
  | cons s rs ih =>
    rw [dedup.dedupBehind] at h
    split at h
    · exact List.mem_cons_of_mem _ (ih h)
    · obtain rfl | h := List.mem_cons.1 h
      · exact List.mem_cons_self
      · exact List.mem_cons_of_mem _ (ih h)

theorem mem_of_mem_dedup (h : r ∈ dedup rs) : r ∈ rs := by
  cases rs with
  | nil => cases h
  | cons s rs =>
    obtain rfl | h := List.mem_cons.1 h
    · exact List.mem_cons_self
    · exact List.mem_cons_of_mem _ (mem_of_mem_dedupBehind h)

end Reference

namespace View

variable {v : View} {nodes : List Node} {names : List String}

theorem exists_of_mem_pathReferences (h : r ∈ v.pathReferences target nodes) :
    ∃ n ∈ nodes, r = ⟨v.file, n.span, .path n⟩ ∧
      ∃ last, n.lastName? = some last ∧ (last = target.ownName v.decls ∨ last = "Self") := by
  obtain ⟨n, hn, rfl⟩ := List.mem_map.1 h
  obtain ⟨hn, hkind⟩ := List.mem_filter.1 hn
  simp only [Bool.and_eq_true] at hkind
  obtain ⟨last, hlast, hmeant⟩ := (Option.any_eq_true _ _).1 hkind.1.2
  exact ⟨n, hn, rfl, last, hlast, by simpa using hmeant⟩

theorem exists_of_fieldReference?_eq_some {d : DeclId} {access : Node}
    (h : v.fieldReference? d names access = some r) :
    ∃ n, access.nameRef? = some n ∧ r.file = v.file ∧ r.span = n.span ∧
      (r.kind = .field n ∨ r.kind = .unknownReceiver n) := by
  obtain ⟨n, hn, h⟩ := Option.bind_eq_some_iff.1 h
  split at h
  · cases h
  · obtain ⟨receiver, -, h⟩ := Option.bind_eq_some_iff.1 h
    split at h
    · split at h
      · cases h
        exact ⟨n, hn, rfl, rfl, .inl rfl⟩
      · cases h
    · cases h
      exact ⟨n, hn, rfl, rfl, .inr rfl⟩

theorem exists_of_mem_fieldReferences (h : r ∈ v.fieldReferences target names nodes) :
    ∃ d, target = .decl d ∧ ∃ access ∈ nodes, access.kind = .fieldExpr ∧
      v.fieldReference? d names access = some r := by
  cases target with
  | decl d =>
    obtain ⟨access, haccess, h⟩ := List.mem_filterMap.1 h
    obtain ⟨haccess, hkind⟩ := List.mem_filter.1 haccess
    exact ⟨d, rfl, access, haccess, beq_iff_eq.1 hkind, h⟩
  | variant d i => cases h

theorem exists_of_mem_mentions {tree : Node} {before ts : List Token}
    (h : r ∈ v.mentions target names tree before ts) :
    ∃ t ∈ ts, r = ⟨v.file, t.span, .macroToken t⟩ := by
  induction ts generalizing before with
  | nil => cases h
  | cons t ts ih =>
    have hrest (h : r ∈ v.mentions target names tree (t :: before) ts) :
        ∃ u ∈ t :: ts, r = ⟨v.file, u.span, .macroToken u⟩ := by
      obtain ⟨u, hu, heq⟩ := ih h
      exact ⟨u, List.mem_cons_of_mem _ hu, heq⟩
    rw [mentions] at h
    split at h
    · obtain rfl | h := List.mem_cons.1 h
      · exact ⟨t, List.mem_cons_self, rfl⟩
      · exact hrest h
    · exact hrest h

theorem exists_of_mem_macroReferences (h : r ∈ v.macroReferences target names nodes) :
    ∃ t, r = ⟨v.file, t.span, .macroToken t⟩ := by
  obtain ⟨tree, -, h⟩ := List.mem_flatMap.1 h
  obtain ⟨t, -, heq⟩ := exists_of_mem_mentions h
  exact ⟨t, heq⟩

end View

/-- A reference was found in one of the three ways in one of the files. -/
theorem exists_of_mem_references {names : List String} (h : r ∈ references ds target names) :
    ∃ file root, (file, root) ∈ ds.roots ∧
      (r ∈ (View.mk ds file).pathReferences target root.descendants ∨
        r ∈ (View.mk ds file).fieldReferences target names root.descendants ∨
        r ∈ (View.mk ds file).macroReferences target names root.descendants) := by
  have hfound := (List.mergeSort_perm _ _).mem_iff.1 (Reference.mem_of_mem_dedup h)
  obtain ⟨⟨file, root⟩, hroot, hmem⟩ := List.mem_flatMap.1 hfound
  simp only [List.mem_append, or_assoc] at hmem
  exact ⟨file, root, hroot, hmem⟩

theorem standing_of_mem_references (hw : w.Coherent) {names : List String}
    (h : r ∈ references (.ofWorkspace w) target names) : r.Standing w := by
  obtain ⟨file, root, hroot, hmem⟩ := exists_of_mem_references h
  have hholds {n : Node} (hn : n ∈ root.descendants) : w.Holds file n :=
    hw.holds_of_mem_roots hroot (Node.below_of_mem_descendants hn)
  intro n hn
  obtain hmem | hmem | hmem := hmem
  · obtain ⟨p, hp, rfl, -⟩ := View.exists_of_mem_pathReferences hmem
    cases hn
    exact ⟨hholds hp, rfl⟩
  · obtain ⟨d, -, access, haccess, -, hfield⟩ := View.exists_of_mem_fieldReferences hmem
    obtain ⟨m, hm, hfile, hspan, hkind⟩ := View.exists_of_fieldReference?_eq_some hfield
    have hnm : n = m := by
      obtain hkind | hkind := hkind <;> rw [hkind] at hn <;> exact (Option.some.inj hn).symm
    rw [hfile, hspan, hnm]
    exact ⟨(hholds haccess).below (Node.Below.refl.childOfKind? hm), rfl⟩
  · obtain ⟨t, rfl⟩ := View.exists_of_mem_macroReferences hmem
    cases hn

/-! ## Sites -/

/-- A site stands where a node of its file does, and the parts of it are sound. -/
structure Site.Standing (w : Workspace) (count : Nat) (s : Site) : Prop where
  exists_node : ∃ n, w.Holds s.file n ∧ s.span = n.span
  sound : s.Sound count

namespace Site

variable {file : FileId} {shape : Shape} {plan : Plan} {n f list : Node} {s : Site}

theorem literalField_part {value : Nat × FieldValue} {part : Span}
    (h : literalField file plan f = .ok value) (hpart : value.2.part? = some part) :
    ∃ m, Node.Below f m ∧ part = m.span := by
  simp only [literalField] at h
  split at h
  · cases h
  · split at h
    · cases h
    · split at h
      · cases h
        cases hpart
      · split at h
        · next e he =>
          cases h
          cases hpart
          exact ⟨e, Node.Below.refl.child? he, rfl⟩
        · cases h

theorem literalBase_part {base : Option Span} {part : Span}
    (h : literalBase file list = .ok base) (hpart : base = some part) :
    ∃ m, Node.Below list m ∧ part = m.span := by
  rw [literalBase] at h
  split at h
  · cases h
    cases hpart
  · next he =>
    cases h
    cases hpart
    exact ⟨_, Node.Below.refl.child? he, rfl⟩
  · cases h

theorem standing_ofLiteral (hn : w.Holds file n) (h : ofLiteral file plan n = .ok s) :
    s.Standing w plan.size := by
  rw [ofLiteral] at h
  split at h
  · next path list _ hlist =>
    have hbelow : Node.Below n list := Node.Below.refl.childOfKind? hlist
    obtain ⟨fields, hfields, h₁⟩ := bind_eq_ok.1 h
    obtain ⟨base, hbase, h₂⟩ := bind_eq_ok.1 h₁
    cases h₂
    refine ⟨⟨n, hn, rfl⟩, fun part hpart => ?_, trivial⟩
    obtain hpart | hpart := List.mem_append.1 hpart
    · obtain ⟨value, hvalue, hpart⟩ := List.mem_filterMap.1 hpart
      obtain ⟨f, hf, hok⟩ := exists_of_mapM_eq_ok hfields hvalue
      obtain ⟨m, hm, rfl⟩ := literalField_part hok hpart
      exact hn.contains ((hbelow.childrenOfKind hf).trans hm)
    · obtain ⟨m, hm, rfl⟩ := literalBase_part hbase (Option.mem_toList.1 hpart)
      exact hn.contains (hbelow.trans hm)
  · cases h

theorem patternField_part {part : Nat × Span} (h : patternField file plan f = .ok part) :
    (∃ name, plan.indexOf? name = some part.1) ∧ ∃ m, Node.Below f m ∧ part.2 = m.span := by
  rw [patternField] at h
  split at h
  · cases h
  · next hi hp =>
    cases h
    exact ⟨⟨_, hi⟩, _, Node.Below.refl.child? hp, rfl⟩
  · cases h

theorem standing_ofPattern (hplan : Plan.ofShape shape = .ok plan) (hn : w.Holds file n)
    (h : ofPattern file plan n = .ok s) : s.Standing w plan.size := by
  rw [ofPattern] at h
  split at h
  · next path list _ hlist =>
    have hbelow : Node.Below n list := Node.Below.refl.childOfKind? hlist
    split at h
    · cases h
    · obtain ⟨parts, hparts, h₁⟩ := bind_eq_ok.1 h
      cases h₁
      refine ⟨⟨n, hn, rfl⟩, fun part hpart => ?_, fun part hpart => ?_⟩
      · obtain ⟨bound, hbound, rfl⟩ := List.mem_map.1 hpart
        obtain ⟨f, hf, hok⟩ := exists_of_mapM_eq_ok hparts hbound
        obtain ⟨-, m, hm, hspan⟩ := patternField_part hok
        rw [hspan]
        exact hn.contains ((hbelow.childrenOfKind hf).trans hm)
      · obtain ⟨f, -, hok⟩ := exists_of_mapM_eq_ok hparts hpart
        obtain ⟨⟨name, hi⟩, -⟩ := patternField_part hok
        exact Plan.lt_size_of_indexOf? hplan hi
  · cases h

end Site

/-- A path is rewritten together with the node around it, a name by itself. -/
theorem Reference.Standing.site (hr : r.Standing w) {shape : Shape} {plan : Plan}
    (hplan : Plan.ofShape shape = .ok plan) {s : Site} (h : Site.ofReference plan r = .ok s) :
    s.Standing w plan.size := by
  rw [Site.ofReference] at h
  split at h
  · cases h
  · cases h
  · next n hkind =>
    obtain ⟨hn, -⟩ := hr n (by rw [hkind]; rfl)
    dsimp only at h
    split at h
    · cases h
      exact ⟨⟨n, hn, rfl⟩, by simp [SiteKind.parts], trivial⟩
    · cases h
  · next p hkind =>
    obtain ⟨hp, hspan⟩ := hr p (by rw [hkind]; rfl)
    split at h
    · next n hparent =>
      have hn := hp.parent? hparent
      split at h
      · exact Site.standing_ofLiteral hn h
      · split at h
        · exact Site.standing_ofPattern hplan hn h
        · cases h
          exact ⟨⟨p, hp, hspan⟩, by simp [SiteKind.parts], trivial⟩
    · cases h
      exact ⟨⟨p, hp, hspan⟩, by simp [SiteKind.parts], trivial⟩

end Reshape
