import Mathlib.Data.List.Forall2
import Reshape.Convert.Basic
import Reshape.Proofs.Decl.Roots

/-!
# Places of planned fields

* `Plan.exists_of_mem_fields` says that the fields of a plan are named fields of the shape that it was
  made from, with places less than their number, and `Plan.exists_indexOf?` that every name among
  them has such a place.
* For coherent workspaces the names are not empty (`ne_empty_of_mem_fieldNames`).
-/

namespace Reshape

namespace Plan

variable {shape : Shape} {plan : Plan} {f : PlannedField} {name : String} {i : Nat}

/-- A planned field is a named field, and it has one of the places. -/
theorem exists_of_mem_fields (h : ofShape shape = .ok plan) (hf : f ∈ plan.fields) :
    f.index < plan.size ∧ ∃ g ∈ shape.fields, g.name = some f.name := by
  rw [ofShape] at h
  split at h
  · cases h
  · split at h
    · cases h
    · cases h
    · obtain ⟨fields, hfields, hplan⟩ := bind_eq_ok.1 h
      obtain rfl := pure_eq_ok.1 hplan
      have hlength := length_of_mapM_eq_ok hfields
      rw [List.length_zipIdx] at hlength
      obtain ⟨⟨g, i⟩, hg, hok⟩ := exists_of_mapM_eq_ok hfields hf
      have hget := List.mk_mem_zipIdx_iff_getElem?.1 hg
      obtain ⟨hlt, -⟩ := List.getElem?_eq_some_iff.1 hget
      dsimp only [field] at hok
      split at hok
      · next name hname =>
        cases hok
        refine ⟨?_, g, List.mem_of_getElem? hget, hname⟩
        rw [size, hlength]
        exact hlt
      · cases hok

/-- The places are those that the fields are declared at. -/
theorem map_index_eq (h : ofShape shape = .ok plan) :
    plan.fields.map (·.index) = List.range plan.size := by
  rw [ofShape] at h
  split at h
  · cases h
  · split at h
    · cases h
    · cases h
    · obtain ⟨fields, hfields, hplan⟩ := bind_eq_ok.1 h
      obtain rfl := pure_eq_ok.1 hplan
      have hindex := map_eq_of_mapM_eq_ok (g := (·.index)) (k := (·.2)) hfields fun x f hok => by
        dsimp only [field] at hok
        split at hok <;> cases hok
        rfl
      rw [hindex, List.zipIdx_map_snd, size, length_of_mapM_eq_ok hfields, List.length_zipIdx,
        List.range_eq_range']

/-- Of fields that are numbered, the first one of a name has the number of the name. -/
theorem find?_index_eq {fields : List PlannedField} {k : Nat}
    (h : fields.map (·.index) = List.range' k fields.length) (name : String) :
    (fields.find? (·.name == name)).map (·.index) =
      if name ∈ fields.map (·.name) then some (k + (fields.map (·.name)).idxOf name) else none := by
  induction fields generalizing k with
  | nil => rfl
  | cons f fields ih =>
    rw [List.map_cons, List.length_cons, List.range'_succ, List.cons.injEq] at h
    obtain ⟨rfl, h⟩ := h
    rw [List.map_cons, List.idxOf_cons, List.find?_cons]
    by_cases hname : f.name = name
    · simp [hname]
    · have hmem : name ∈ f.name :: fields.map (·.name) ↔ name ∈ fields.map (·.name) := by
        simp [Ne.symm hname]
      simp only [beq_false_of_ne hname, cond_false, hmem, ih h]
      rw [Nat.add_right_comm, Nat.add_assoc]

/-- A field is found at the first place that its name is declared at. -/
theorem indexOf?_eq (h : ofShape shape = .ok plan) (name : String) :
    plan.indexOf? name =
      if name ∈ plan.fieldNames then some (plan.fieldNames.idxOf name) else none := by
  have hindex := map_index_eq h
  rw [List.range_eq_range', size] at hindex
  rw [indexOf?, find?_index_eq hindex, Nat.zero_add]
  rfl

/-- A name among those of the fields has a place. -/
theorem exists_indexOf? (h : name ∈ plan.fieldNames) : ∃ i, plan.indexOf? name = some i := by
  obtain ⟨f, hf, rfl⟩ := List.mem_map.1 h
  cases hfind : plan.fields.find? (·.name == f.name) with
  | none => simpa using List.find?_eq_none.1 hfind f hf
  | some g => exact ⟨g.index, by rw [indexOf?, hfind]; rfl⟩

theorem lt_size_of_indexOf? (h : ofShape shape = .ok plan) (hi : plan.indexOf? name = some i) :
    i < plan.size := by
  obtain ⟨f, hf, rfl⟩ := Option.map_eq_some_iff.1 hi
  exact (exists_of_mem_fields h (List.mem_of_find?_eq_some hf)).1

end Plan

variable {ds : Decls} {p : FilePosition} {target : Target} {plan : Plan}

theorem planAt_eq_ok (h : planAt ds p = .ok (target, plan)) :
    ∃ shape, Shape.ofTarget? ds target = some shape ∧ Plan.ofShape shape = .ok plan := by
  rw [planAt] at h
  split at h
  · cases h
  · split at h
    · cases h
    · next shape hshape =>
      obtain ⟨plan', hplan, heq⟩ := map_eq_ok.1 h
      cases heq
      exact ⟨shape, hshape, hplan⟩

/-- The shape of a target is that of a node of the file that the target is declared in. -/
theorem Shape.ofTarget?_eq_some {shape : Shape} (h : Shape.ofTarget? ds target = some shape) :
    ∃ n name, target.node? ds = some n ∧ n.nameText? = some name ∧
      shape = .ofNode ds (((ds.decl? target.owner).map (·.file)).getD 0) n name
        (n.kind == .structDef && n.isUnion) := by
  obtain ⟨n, hn, hshape⟩ := Option.bind_eq_some_iff.1 h
  obtain ⟨name, hname, rfl⟩ := Option.map_eq_some_iff.1 hshape
  exact ⟨n, name, hn, hname, rfl⟩

/-- A planned field has the parts of the node of a field. -/
structure PlannedField.Of (f : Node) (p : PlannedField) : Prop where
  typeText_eq : p.typeText = (f.type?.map (·.text)).getD ""
  visibility_eq : p.visibility = f.visibility?.map (·.text)
  attributes_eq : p.attributes = f.attributes.map (·.text)
  docs_eq : p.docs = Shape.docs f

namespace PlannedField.Of

variable {f : Node} {p : PlannedField}

/-- The planned type is empty or the text of a type in the field. -/
theorem typeText_eq_or (h : p.Of f) :
    p.typeText = "" ∨ ∃ m ∈ f.children, m.kind.isType = true ∧ p.typeText = m.text := by
  rw [h.typeText_eq]
  cases htype : f.type? with
  | none => exact .inl rfl
  | some m =>
    exact .inr ⟨m, List.mem_of_find?_eq_some htype,
      List.find?_some (p := fun c : Node => c.kind.isType) htype, rfl⟩

theorem exists_of_visibility (h : p.Of f) {v : String} (hv : v ∈ p.visibility) :
    ∃ m ∈ f.children, m.kind = .visibility ∧ v = m.text := by
  rw [h.visibility_eq] at hv
  obtain ⟨m, hm, rfl⟩ := Option.map_eq_some_iff.1 hv
  exact ⟨m, List.mem_of_find?_eq_some hm,
    beq_iff_eq.1 (List.find?_some (p := fun c : Node => c.kind == .visibility) hm), rfl⟩

theorem exists_of_mem_attributes (h : p.Of f) {a : String} (ha : a ∈ p.attributes) :
    ∃ m ∈ f.children, m.kind = .attr ∧ a = m.text := by
  rw [h.attributes_eq] at ha
  obtain ⟨m, hm, rfl⟩ := List.mem_map.1 ha
  obtain ⟨hmem, hattr⟩ := List.mem_filter.1 hm
  exact ⟨m, hmem, beq_iff_eq.1 hattr, rfl⟩

end PlannedField.Of

/-- What is planned has named fields. -/
theorem Shape.exists_of_style_eq {file : FileId} {n : Node} {name : String} {isUnion : Bool}
    (h : (ofNode ds file n name isUnion).style = .record) :
    ∃ list, n.fieldList? = some list ∧ list.kind = .recordFieldList ∧
      (ofNode ds file n name isUnion).fields = list.recordFields.map fun f =>
        field ds file f f.nameText? (f.attributes.map (·.text)) := by
  rw [ofNode] at h ⊢
  cases hlist : n.fieldList? with
  | none =>
    rw [hlist] at h
    cases h
  | some list =>
    rw [hlist] at h
    dsimp only at h ⊢
    split at h
    · next hkind => exact ⟨list, rfl, hkind, by rw [if_pos hkind]⟩
    · cases h

/-- A plan has the fields of the node that it was made for, one by one. -/
theorem Plan.exists_of_ofShape {file : FileId} {n : Node} {name : String} {isUnion : Bool}
    (h : ofShape (Shape.ofNode ds file n name isUnion) = .ok plan) :
    ∃ list, n.fieldList? = some list ∧ list.kind = .recordFieldList ∧
      List.Forall₂ PlannedField.Of list.recordFields plan.fields := by
  rw [ofShape] at h
  split at h
  · cases h
  · split at h
    · cases h
    · cases h
    · next hstyle =>
      obtain ⟨list, hlist, hkind, hshape⟩ := Shape.exists_of_style_eq hstyle
      obtain ⟨fields, hfields, hplan⟩ := bind_eq_ok.1 h
      obtain rfl := pure_eq_ok.1 hplan
      have hparts := map_eq_of_mapM_eq_ok
        (g := fun p : PlannedField => (p.typeText, p.visibility, p.attributes, p.docs))
        (k := (fun g : Field => (g.typeText, g.visibility, g.attributes, g.docs)) ∘ Prod.fst) hfields
        fun x f hok => by
          dsimp only [field] at hok
          split at hok <;> cases hok
          rfl
      rw [← List.map_map, List.zipIdx_map_fst, hshape, List.map_map,
        ← List.forall₂_eq_eq_eq, List.forall₂_map_left_iff, List.forall₂_map_right_iff] at hparts
      refine ⟨list, hlist, hkind, hparts.flip.imp fun f p heq => ?_⟩
      obtain ⟨htype, hvisibility, hattributes, hdocs⟩ := by simpa using heq
      exact ⟨htype, hvisibility, hattributes, hdocs⟩

/-- A plan for a target has the fields of the node of the target, in the file that the target is
declared in. -/
theorem Plan.exists_of_ofTarget? {w : Workspace} (hw : w.Coherent) {decl : Decl} {source : SourceFile}
    {shape : Shape} (hdecl : (Decls.ofWorkspace w).decl? target.owner = some decl)
    (hfile : w.file? decl.file = some source)
    (hshape : Shape.ofTarget? (.ofWorkspace w) target = some shape) (hplan : ofShape shape = .ok plan) :
    ∃ n list, target.node? (.ofWorkspace w) = some n ∧
      Node.Below (Node.ofTree (parseFile source.text).tree) n ∧ n.fieldList? = some list ∧
      list.kind = .recordFieldList ∧ List.Forall₂ PlannedField.Of list.recordFields plan.fields := by
  obtain ⟨n, name, hn, -, rfl⟩ := Shape.ofTarget?_eq_some hshape
  obtain ⟨list, hlist, hkind, hfields⟩ := exists_of_ofShape hplan
  obtain ⟨decl', hdecl', source', hfile', hbelow⟩ := hw.holds_of_node? hn
  obtain rfl : decl' = decl := Option.some.inj (hdecl'.symm.trans hdecl)
  obtain rfl : source' = source := Option.some.inj (hfile'.symm.trans hfile)
  exact ⟨n, list, hn, hbelow, hlist, hkind, hfields⟩

/-- A named field of a shape has the name of a node below that of the shape. -/
theorem Shape.exists_of_mem_fields {file : FileId} {n : Node} {own name : String} {isUnion : Bool}
    {g : Field} (hg : g ∈ (Shape.ofNode ds file n own isUnion).fields) (hname : g.name = some name) :
    ∃ m, Node.Below n m ∧ m.nameText? = some name := by
  rw [ofNode] at hg
  split at hg
  · cases hg
  · next list hlist =>
    have hbelow : Node.Below n list := Node.Below.refl.child? hlist
    split at hg
    · obtain ⟨m, hm, rfl⟩ := List.mem_map.1 hg
      exact ⟨m, hbelow.childrenOfKind hm, hname⟩
    · obtain ⟨m, -, rfl⟩ := List.mem_map.1 hg
      cases hname

/-- The names of the fields that a conversion plans for are not empty. -/
theorem ne_empty_of_mem_fieldNames {w : Workspace} (hw : w.Coherent)
    (h : planAt (.ofWorkspace w) p = .ok (target, plan)) {name : String}
    (hname : name ∈ plan.fieldNames) : name ≠ "" := by
  obtain ⟨shape, hshape, hplan⟩ := planAt_eq_ok h
  obtain ⟨n, own, hn, -, rfl⟩ := Shape.ofTarget?_eq_some hshape
  obtain ⟨f, hf, rfl⟩ := List.mem_map.1 hname
  obtain ⟨-, g, hg, hgname⟩ := Plan.exists_of_mem_fields hplan hf
  obtain ⟨m, hm, htext⟩ := Shape.exists_of_mem_fields hg hgname
  obtain ⟨decl, -, hholds⟩ := hw.holds_of_node? hn
  exact (hholds.below hm).nameText?_ne_empty htext

/-- A variant is listed with the name that its node declares. -/
theorem variantName?_eq {w : Workspace} {d : DeclId} {i : Nat} {n : Node}
    (hn : (Target.variant d i).node? (.ofWorkspace w) = some n) :
    Target.variantName? (.ofWorkspace w) d i = some (n.nameText?.getD "") := by
  obtain ⟨m, hm, hn⟩ := Option.bind_eq_some_iff.1 hn
  rw [Decls.nodeOf?] at hm
  split at hm
  · next decl hdecl =>
    split at hm
    · next hkind =>
      cases hm
      have hvariants := (Workspace.foundIn_ofWorkspace w).variants_eq decl
        (List.mem_of_getElem? hdecl) hkind
      rw [Target.variantName?, hdecl, Option.bind_some, hvariants, Decls.variantNames,
        List.getElem?_map, hn]
      rfl
    · cases hm
  · cases hm

/-- What a conversion is planned for has a name. -/
theorem ownName_ne_empty {w : Workspace} (hw : w.Coherent)
    (h : planAt (.ofWorkspace w) p = .ok (target, plan)) : target.ownName (.ofWorkspace w) ≠ "" := by
  obtain ⟨shape, hshape, -⟩ := planAt_eq_ok h
  obtain ⟨n, own, hn, hown, -⟩ := Shape.ofTarget?_eq_some hshape
  obtain ⟨decl, hdecl, hholds⟩ := hw.holds_of_node? hn
  cases target with
  | decl d =>
    have hname : (Target.decl d).ownName (.ofWorkspace w) = decl.name := by
      rw [Target.ownName, Decls.name?]
      rw [show (Decls.ofWorkspace w).decl? d = some decl from hdecl]
      rfl
    rw [hname]
    exact hw.name_ne_empty hdecl
  | variant d i =>
    rw [Target.ownName, variantName?_eq hn, hown]
    exact hholds.nameText?_ne_empty hown

end Reshape
