import Reshape.Proofs.Convert.FieldLists
import Reshape.Proofs.Convert.FieldTypes

/-!
# Documentation of positional fields

In a list of positional fields, the documentation of a field stands before its slot: first what runs to the
ends of lines, then what ends with a mark. So all of it is kept, but not always in order.

* `PlannedField.Of.begins_copied` says that what is copied of a field begins with words.
* `slotDocs` are the comments that a slot begins with.
* `slotDocs_tupleFieldList` says what they are for the fields of a plan. `docs_differ` are structs whose
  documentation is not the same any more.
-/

namespace Reshape

open Reshape.Tree

variable {f : PlannedField} {text : String} {list n : Node}

/-! ## What is copied begins with words -/

/-- A text is empty, or the first thing that is read off it is a word. -/
def BeginsWithWord (text : String) : Prop :=
  text = "" ∨ ∃ word rest, shown text = word :: rest ∧ word.1.isTrivia = false

/-- By itself, a node begins with a word, unless it is empty. -/
theorem Node.begins_text (h : Faultless text) (hn : Below (ofTree (parseFile text).tree) n)
    (hkind : n.kind ≠ .sourceFile) (hstop : n.span.stop < text.utf8ByteSize) : BeginsWithWord n.text := by
  cases hleaves : n.tree.leaves with
  | nil => exact .inl (by rw [Node.text, Tree.text, hleaves]; rfl)
  | cons u us =>
    have hu : u.isTrivia = false := isTrivia_head_of_below h hn hkind u (by rw [hleaves]; rfl)
    obtain ⟨before, v, behind, htokens, hv, -⟩ := exists_behind h hn hkind hstop (by simp [hleaves])
    have heof := kind_ne_eof_of_append (htokens.trans (List.append_assoc ..).symm) (List.cons_ne_nil v behind)
    obtain ⟨a, i, cs, hscan⟩ := exists_scan_of_append htokens fun t ht => heof t (by simp [ht])
    rw [hleaves, List.cons_append] at hscan
    obtain ⟨c, ds, l, rfl, hl, hukind, hutext, hrest⟩ :=
      exists_of_scan_eq_cons hscan (heof u (by simp [hleaves]))
    have hdrop : ds.drop l.more = (tokensText us).toList ++ (tokensText (v :: behind)).toList := by
      rw [← String.toList_append, ← tokensText_append, ← hrest]
      exact String.ofList_inj.1 (by rw [String.ofList_toList, tokensText_scan])
    have htext : n.text.toList = c :: (ds.take l.more ++ (tokensText us).toList) := by
      rw [Node.text, Tree.text, hleaves, tokensText_cons, String.toList_append, hutext, List.cons_append]
    have hsplit : (ds.take l.more ++ (tokensText us).toList) ++ (tokensText (v :: behind)).toList = ds := by
      rw [List.append_assoc, ← hdrop, List.take_append_drop]
    generalize ds.take l.more ++ (tokensText us).toList = es at htext hsplit
    have hword : (lexeme a c (es ++ (tokensText (v :: behind)).toList)).kind.isTrivia = false := by
      rw [hsplit, hl, ← hukind]
      exact hu
    have hword : (lexeme false c es).kind.isTrivia = false := isTrivia_lexeme_of_prefix hword
    have hspace : (lexeme false c es).kind ≠ .whitespace := fun hspace => by
      rw [hspace] at hword
      cases hword
    have hshown := shows_cons hspace
    rw [← htext, ← shown_eq_shows] at hshown
    exact .inr ⟨_, _, hshown, hword⟩

/-- What is copied of a planned field begins with words. -/
theorem PlannedField.Of.begins_copied (hf : f.Of n) (h : Faultless text)
    (hlist : Node.Below (.ofTree (parseFile text).tree) list) (hkind : list.kind = .recordFieldList)
    (hn : n ∈ list.children) : ∀ s ∈ f.copied, BeginsWithWord s := by
  have hpart {m : Node} (hm : m ∈ n.children) (hroot : m.kind ≠ .sourceFile) : BeginsWithWord m.text := by
    obtain ⟨hbelow, hstop⟩ := Node.below_of_field h hlist hkind hn hm
    exact Node.begins_text h hbelow hroot hstop
  intro s hs
  rw [PlannedField.copied, List.mem_append, List.mem_append, Option.mem_toList, List.mem_singleton] at hs
  obtain (hs | hs) | rfl := hs
  · obtain ⟨m, hm, hmkind, rfl⟩ := hf.exists_of_mem_attributes hs
    exact hpart hm (by simp [hmkind])
  · obtain ⟨m, hm, hmkind, rfl⟩ := hf.exists_of_visibility hs
    exact hpart hm (by simp [hmkind])
  · obtain htype | ⟨m, hm, hmkind, htype⟩ := hf.typeText_eq_or
    · exact .inl htype
    · rw [htype]
      exact hpart hm (by rintro hroot; simp [hroot] at hmkind)

/-! ## Documentation of slots -/

/-- The comments that a slot begins with. -/
def slotDocs (slot : List (TokenKind × String)) : List String :=
  (slot.takeWhile (·.1 == .comment)).map (·.2)

/-- A field is written as its documentation and its copied texts. -/
theorem PlannedField.Copied.shown_eq (hf : f.Copied) :
    f.shown = (f.lineDocs ++ f.blockDocs).map (TokenKind.comment, ·) ++
      f.copied.flatMap Reshape.shown := by
  have hdocs : (f.lineDocs ++ f.blockDocs).flatMap Reshape.shown =
      (f.lineDocs ++ f.blockDocs).map (TokenKind.comment, ·) := by
    rw [List.map_eq_flatMap]
    exact List.flatMap_congr fun d hd => (hf.isComment d hd).shown_eq
  rw [PlannedField.shown, List.flatMap_append, hdocs]

/-- Texts that begin with words do so together. -/
theorem head?_flatMap_shown {ss : List String} (h : ∀ s ∈ ss, BeginsWithWord s) :
    ∀ w ∈ (ss.flatMap shown).head?, w.1.isTrivia = false := by
  induction ss with
  | nil => nofun
  | cons s ss ih =>
    rw [List.forall_mem_cons] at h
    rw [List.flatMap_cons]
    obtain rfl | ⟨word, rest, hshown, hword⟩ := h.1
    · rw [shown_eq_shows, String.toList_empty, shows_nil, List.nil_append]
      exact ih h.2
    · rw [hshown]
      rintro w ⟨⟩
      exact hword

/-- A slot begins with the documentation of its field, what runs to the ends of lines first. -/
theorem slotDocs_shown (hf : f.Copied) (hbegins : ∀ s ∈ f.copied, BeginsWithWord s) :
    slotDocs f.shown = f.lineDocs ++ f.blockDocs := by
  have hdocs : ∀ w ∈ (f.lineDocs ++ f.blockDocs).map (TokenKind.comment, ·), (w.1 == .comment) = true := by
    intro w hw
    obtain ⟨d, -, rfl⟩ := List.mem_map.1 hw
    rfl
  have hrest : (f.copied.flatMap shown).takeWhile (·.1 == .comment) = [] := by
    have hhead := head?_flatMap_shown hbegins
    cases hcopied : f.copied.flatMap shown with
    | nil => rfl
    | cons w ws =>
      refine List.takeWhile_cons_of_neg fun hcomment => ?_
      have hword := hhead w (by rw [hcopied]; rfl)
      rw [beq_iff_eq.1 hcomment] at hword
      cases hword
  rw [slotDocs, hf.shown_eq, List.takeWhile_append_of_pos hdocs, hrest, List.append_nil, List.map_map]
  exact List.map_id _

/-- A slot is empty but for comments if nothing is copied to it. -/
theorem exists_word_iff (hf : f.Copied) (hbegins : ∀ s ∈ f.copied, BeginsWithWord s) :
    (∃ w ∈ f.shown, w.1 ≠ .comment) ↔ ∃ s ∈ f.copied, s ≠ "" := by
  rw [hf.shown_eq]
  constructor
  · rintro ⟨w, hw, hcomment⟩
    obtain hw | hw := List.mem_append.1 hw
    · obtain ⟨d, -, rfl⟩ := List.mem_map.1 hw
      exact absurd rfl hcomment
    · obtain ⟨s, hs, hw⟩ := List.mem_flatMap.1 hw
      refine ⟨s, hs, ?_⟩
      rintro rfl
      rw [shown_eq_shows, String.toList_empty, shows_nil] at hw
      cases hw
  · rintro ⟨s, hs, hne⟩
    obtain ⟨word, rest, hshown, hword⟩ := (hbegins s hs).resolve_left hne
    refine ⟨word, List.mem_append_right _ (List.mem_flatMap.2 ⟨s, hs, by rw [hshown]; simp⟩), ?_⟩
    intro hcomment
    rw [hcomment] at hword
    cases hword

/-- Elements of a class come first in a list if the list is the same with them moved to its front. -/
theorem filter_append_filter_not_eq_iff {α : Type} {p : α → Bool} {l : List α} :
    l.filter p ++ l.filter (fun a => !p a) = l ↔ l.Pairwise fun a b => p b = true → p a = true := by
  induction l with
  | nil => simp
  | cons a l ih =>
    rw [List.pairwise_cons]
    cases ha : p a with
    | true => simp [ha, ih]
    | false =>
      have hnone : (∀ b ∈ l, p b = true → false = true) ↔ l.filter p = [] := by simp
      rw [List.filter_cons_of_neg (by simp [ha]), List.filter_cons_of_pos (by simp [ha]), hnone, ← ih]
      constructor
      · intro heq
        cases hfirst : l.filter p with
        | nil =>
          rw [hfirst, List.nil_append, List.cons.injEq] at heq
          exact ⟨rfl, heq.2⟩
        | cons b bs =>
          rw [hfirst, List.cons_append, List.cons.injEq] at heq
          have hb : p b = true := (List.mem_filter.1 (by rw [hfirst]; simp : b ∈ l.filter p)).2
          rw [heq.1, ha] at hb
          cases hb
      · rintro ⟨hfirst, hrest⟩
        rw [hfirst, List.nil_append] at hrest ⊢
        rw [hrest]

/-- The documentation of a slot is in order if what runs to the ends of lines is not behind anything else. -/
theorem lineDocs_append_blockDocs_eq_iff (hf : f.Copied) : f.lineDocs ++ f.blockDocs = f.docs ↔
    f.docs.Pairwise fun d e => e.startsWith "///" = true → d.startsWith "///" = true := by
  have hblock : f.blockDocs = f.docs.filter fun d => !d.startsWith "///" :=
    List.filter_congr fun d hd => startsWith_block_eq (hf.docs d hd).1
  rw [hblock]
  exact filter_append_filter_not_eq_iff

/-! ## The result -/

/-- **What becomes of documentation.** Take any struct or variant of a faultless file for which there is a
plan. The list of positional fields consists of a slot for each field, with commas between the slots. Each
slot begins with the documentation of its field: nothing is added and nothing is lost. It is in order exactly
if in the field nothing that ends with a mark stands before something that runs to the end of its line. The
slot consists of more than documentation exactly if some text is copied to it. -/
theorem slotDocs_tupleFieldList {w : Workspace} (hw : w.Coherent) {target : Target} {decl : Decl}
    {source : SourceFile} {shape : Shape} {plan : Plan} {indent : String}
    (hdecl : (Decls.ofWorkspace w).decl? target.owner = some decl)
    (hfile : w.file? decl.file = some source) (h : Faultless source.text)
    (hshape : Shape.ofTarget? (.ofWorkspace w) target = some shape)
    (hplan : Plan.ofShape shape = .ok plan) (hindent : ∀ c ∈ indent.toList, isBlank c = true) :
    ∃ n list, target.node? (.ofWorkspace w) = some n ∧ n.fieldList? = some list ∧
      shown (plan.tupleFieldList indent) =
        (.lParen, "(") :: ([(.comma, ",")].intercalate (plan.fields.map (·.shown)) ++ plan.lastComma ++
          [(.rParen, ")")]) ∧
      List.Forall₂ (fun (f : Node) (p : PlannedField) =>
        (slotDocs p.shown).Perm (Shape.docs f) ∧
          (slotDocs p.shown = Shape.docs f ↔ (Shape.docs f).Pairwise fun d e =>
            e.startsWith "///" = true → d.startsWith "///" = true) ∧
          ((∃ word ∈ p.shown, word.1 ≠ .comment) ↔ ∃ s ∈ p.copied, s ≠ ""))
        list.recordFields plan.fields := by
  obtain ⟨n, list, hn, hbelow, hlist, hkind, hfields⟩ :=
    Plan.exists_of_ofTarget? hw hdecl hfile hshape hplan
  have hcopied := Plan.copied_of_fields h (hbelow.child? hlist) hkind hfields
  obtain ⟨hlength, hof⟩ := List.forall₂_iff_zip.1 hfields
  refine ⟨n, list, hn, hlist, (Plan.leads_tupleFieldList hcopied hindent).shown_eq,
    List.forall₂_iff_zip.2 ⟨hlength, fun {f p} hmem => ?_⟩⟩
  obtain ⟨hf, hplanned⟩ := List.of_mem_zip hmem
  have hp := hcopied p hplanned
  have hbegins := (hof hmem).begins_copied h (hbelow.child? hlist) hkind (List.mem_filter.1 hf).1
  rw [slotDocs_shown hp hbegins, ← (hof hmem).docs_eq]
  exact ⟨hp.perm_docs, lineDocs_append_blockDocs_eq_iff hp, exists_word_iff hp hbegins⟩

/-- The documentation of the fields of the first declaration of a file. -/
def docsOfFirst (text : String) : Option (List (List String)) :=
  (Shape.ofTarget? (.ofWorkspace (.ofText text)) (.decl 0)).map (·.fields.map (·.docs))

set_option maxRecDepth 100000 in
/-- A field with documentation in both forms, and one with nothing but documentation left. -/
theorem slotDocs_tupleFieldList_both : ∃ (n list : Node) (plan : Plan),
    (Target.decl 0).node? (.ofWorkspace (.ofText
      "struct S\x7b/// l\n/** b */\na:u8,/** d */b:m!()\x7d")) = some n ∧
    n.fieldList? = some list ∧
    plan.tupleFieldList "" = "(\n    /// l\n    /** b */ u8,\n    /** d */ ,\n)" ∧
    shown (plan.tupleFieldList "") =
      (.lParen, "(") :: ([(.comma, ",")].intercalate (plan.fields.map (·.shown)) ++ plan.lastComma ++
        [(.rParen, ")")]) ∧
    List.Forall₂ (fun (f : Node) (p : PlannedField) =>
      (slotDocs p.shown).Perm (Shape.docs f) ∧
        (slotDocs p.shown = Shape.docs f ↔ (Shape.docs f).Pairwise fun d e =>
          e.startsWith "///" = true → d.startsWith "///" = true) ∧
        ((∃ word ∈ p.shown, word.1 ≠ .comment) ↔ ∃ s ∈ p.copied, s ≠ ""))
      list.recordFields plan.fields := by
  obtain ⟨plan, hplan, htext⟩ := Option.map_eq_some_iff.1
    (by decide +kernel : (planOfFirst "struct S\x7b/// l\n/** b */\na:u8,/** d */b:m!()\x7d").map
      (·.tupleFieldList "") = some "(\n    /// l\n    /** b */ u8,\n    /** d */ ,\n)")
  obtain ⟨decl, hdecl, hdeclFile⟩ := Option.map_eq_some_iff.1
    (by decide +kernel : ((Decls.ofWorkspace (.ofText
      "struct S\x7b/// l\n/** b */\na:u8,/** d */b:m!()\x7d")).decl? 0).map (·.file) = some 0)
  obtain ⟨source, hfile, hsource⟩ := Option.map_eq_some_iff.1
    (by decide +kernel : ((Workspace.ofText
      "struct S\x7b/// l\n/** b */\na:u8,/** d */b:m!()\x7d").file? 0).map (·.text) =
      some "struct S\x7b/// l\n/** b */\na:u8,/** d */b:m!()\x7d")
  obtain ⟨shape, hshape, hok⟩ := exists_shape_of_planOfFirst hplan
  have h : Faultless source.text := by
    rw [hsource]
    exact ⟨by decide +kernel, by decide +kernel⟩
  obtain ⟨n, list, hn, hlist, hlistText, hfields⟩ :=
    @slotDocs_tupleFieldList _ (Workspace.reachable_ofFiles _).coherent (.decl 0) _ _ _ _ "" hdecl
      (hdeclFile ▸ hfile) h hshape hok nofun
  exact ⟨n, list, plan, hn, hlist, htext, hlistText, hfields⟩

set_option maxRecDepth 100000 in
/-- Documentation that is in another order once the file with the converted fields is read, and
documentation that is not there any more, together with its field. -/
theorem docs_differ :
    (Faultless "struct S\x7b/** b */\n/// l\na:u8\x7d" ∧
      docsOfFirst "struct S\x7b/** b */\n/// l\na:u8\x7d" = some [["/** b */", "/// l"]] ∧
      (planOfFirst "struct S\x7b/** b */\n/// l\na:u8\x7d").map (·.tupleFieldList "") =
        some "(\n    /// l\n    /** b */ u8,\n)" ∧
      Faultless "struct S(\n    /// l\n    /** b */ u8,\n);" ∧
      docsOfFirst "struct S(\n    /// l\n    /** b */ u8,\n);" = some [["/// l", "/** b */"]]) ∧
    Faultless "struct S\x7ba:u8,/** d */b:m!()\x7d" ∧
      docsOfFirst "struct S\x7ba:u8,/** d */b:m!()\x7d" = some [[], ["/** d */"]] ∧
      (planOfFirst "struct S\x7ba:u8,/** d */b:m!()\x7d").map (·.tupleFieldList "") =
        some "(u8, /** d */ )" ∧
      Faultless "struct S(u8, /** d */ );" ∧
      docsOfFirst "struct S(u8, /** d */ );" = some [[]] :=
  ⟨⟨⟨by decide +kernel, by decide +kernel⟩, by decide +kernel, by decide +kernel,
      ⟨by decide +kernel, by decide +kernel⟩, by decide +kernel⟩,
    ⟨by decide +kernel, by decide +kernel⟩, by decide +kernel, by decide +kernel,
    ⟨by decide +kernel, by decide +kernel⟩, by decide +kernel⟩

end Reshape
