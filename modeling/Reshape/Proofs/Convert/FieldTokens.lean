import Reshape.Convert.Plan
import Reshape.Decl.Shape
import Reshape.Proofs.Token.Joining

/-!
# The tokens of a list of positional fields

A list of positional fields is made of texts that are copied. None of them is commented out by another one,
and no two of them grow together: the list is read as the tokens of all the texts, in either layout.

* `PlannedField.Copied` says what is asked of the texts of a field.
* `PlannedField.Copied.leads_slot` and `PlannedField.Copied.leads_lines` are the two ways in which a field is
  written.
* `Plan.leads_tupleFieldList` gives the words and comments of the list, in order.
* `tokens_tupleFieldList` is the result.
-/

namespace Reshape

variable {f : PlannedField} {fs : List PlannedField} {plan : Plan} {indent d : String} {c : Char}
  {kind : TokenKind}

/-! ## Single comments -/

/-- Documentation runs to the end of its line or ends with a mark, and not both. -/
theorem startsWith_block_eq (h : isOuterDoc d = true) :
    d.startsWith "/**" = !d.startsWith "///" := by
  rw [isOuterDoc, Bool.or_eq_true, Bool.and_eq_true, Bool.and_eq_true, Bool.and_eq_true] at h
  cases hline : d.startsWith "///" with
  | false => exact (h.resolve_left fun h => by simp [hline] at h).1.1
  | true =>
    obtain ⟨ds, hds⟩ := String.startsWith_string_iff.1 hline
    refine Bool.eq_false_iff.2 fun hblock => ?_
    obtain ⟨es, hes⟩ := String.startsWith_string_iff.1 hblock
    cases hds.trans hes.symm

/-- A comment that is a token by itself. -/
def IsComment (d : String) : Prop := lexTokens d = [⟨.comment, 0, d⟩, ⟨.eof, d.utf8ByteSize, ""⟩]

instance (d : String) : Decidable (IsComment d) := inferInstanceAs (Decidable (_ = _))

namespace IsComment

theorem shown_eq (h : IsComment d) : shown d = [(.comment, d)] := by
  rw [shown, h]
  rfl

/-- The two forms of a comment. -/
theorem forms (h : IsComment d) :
    (∃ body, d.toList = '/' :: '/' :: body ∧ '\n' ∉ body) ∨
      ∃ body, d.toList = '/' :: '*' :: body ∧ commentEnd? 0 body = some body.length := by
  have hmem : ⟨.comment, 0, d⟩ ∈ lexTokens d := by rw [h]; exact List.mem_cons_self
  obtain ⟨⟨⟩, -⟩ | ⟨-, hforms⟩ := toList_of_isTrivia hmem rfl
  exact hforms

/-- Documentation that runs to the end of its line goes before what stands on the next one. -/
theorem leads_line (h : IsComment d) (hdoc : d.startsWith "///" = true) :
    Leads (d.toList ++ ['\n']) (shown d) := by
  obtain ⟨body, hbody, hfeed⟩ | ⟨body, hbody, -⟩ := h.forms
  · rw [h.shown_eq, ← String.ofList_toList (s := d), String.toList_ofList, hbody]
    exact leads_lineComment hfeed
  · obtain ⟨ds, hds⟩ := String.startsWith_string_iff.1 hdoc
    rw [hbody] at hds
    cases hds

/-- Documentation that ends with a mark goes before what stands behind a blank. -/
theorem leads_block (h : IsComment d) (hdoc : d.startsWith "/**" = true) :
    Leads (d.toList ++ [' ']) (shown d) := by
  obtain ⟨body, hbody, -⟩ | ⟨body, hbody, hend⟩ := h.forms
  · obtain ⟨ds, hds⟩ := String.startsWith_string_iff.1 hdoc
    rw [hbody] at hds
    cases hds
  · have hleads := (leads_blockComment hend).append (leads_blank (c := ' ') (by decide))
    rw [h.shown_eq, ← String.ofList_toList (s := d), String.toList_ofList, hbody]
    rwa [List.append_nil] at hleads

end IsComment

/-! ## The texts of a field -/

namespace PlannedField

/-- The texts of a field that are copied, apart from its documentation. -/
def copied (f : PlannedField) : List String := f.attributes ++ f.visibility.toList ++ [f.typeText]

/-- The words and comments of a field, in the order in which they are written. -/
def shown (f : PlannedField) : List (TokenKind × String) :=
  (f.lineDocs ++ f.blockDocs ++ f.copied).flatMap Reshape.shown

/-- The texts of a field can be joined with others, and its documentation consists of comments that
document. -/
structure Copied (f : PlannedField) : Prop where
  typeText : Joinable f.typeText
  visibility : ∀ v ∈ f.visibility, Joinable v ∧ ("pub".toList <:+ v.toList ∨ ")".toList <:+ v.toList)
  attributes : ∀ a ∈ f.attributes, Joinable a ∧ "]".toList <:+ a.toList
  docs : ∀ d ∈ f.docs, isOuterDoc d = true ∧ IsComment d

end PlannedField

namespace PlannedField.Copied

/-- The documentation of a field is the one that runs to the ends of lines together with the rest. -/
theorem perm_docs (h : f.Copied) : (f.lineDocs ++ f.blockDocs).Perm f.docs := by
  have hblock : f.blockDocs = f.docs.filter fun d => !d.startsWith "///" :=
    List.filter_congr fun d hd => startsWith_block_eq (h.docs d hd).1
  rw [PlannedField.lineDocs, hblock]
  exact List.filter_append_perm _ _

/-! ## How a field is written -/

/-- What stands before the type of a field goes before it, each with a blank. -/
theorem leads_before (h : f.Copied) {s : String} (hs : s ∈ f.blockDocs ++ f.attributes ++ f.visibility.toList) :
    Leads (s.toList ++ [' ']) (Reshape.shown s) := by
  have hfirm (hjoin : Joinable s) {e : Char} (hend : s.toList.getLast? = some e)
      (he : isBlank e = false ∧ e ≠ '/' ∧ e ≠ '.') : Leads (s.toList ++ [' ']) (Reshape.shown s) :=
    hjoin.leads_blank (by decide) fun d hd => by rwa [← Option.some.inj (hend.symm.trans hd)]
  have hend {e : Char} (ds : List Char) (h : ds ++ [e] <:+ s.toList) : s.toList.getLast? = some e := by
    obtain ⟨es, hes⟩ := h
    rw [← hes, ← List.append_assoc, List.getLast?_concat]
  rw [List.mem_append, List.mem_append, Option.mem_toList] at hs
  obtain (hs | hs) | hs := hs
  · obtain ⟨hmem, hblock⟩ := List.mem_filter.1 hs
    exact (h.docs s hmem).2.leads_block hblock
  · obtain ⟨hjoin, hbracket⟩ := h.attributes s hs
    exact hfirm hjoin (hend [] hbracket) (by decide)
  · obtain ⟨hjoin, hpub | hparen⟩ := h.visibility s hs
    · exact hfirm hjoin (hend ['p', 'u'] hpub) (by decide)
    · exact hfirm hjoin (hend [] hparen) (by decide)

/-- The field as it is written in a list, with the mark behind it. -/
theorem leads_slot (h : f.Copied) (hc : ∀ afterDot ds, lexeme afterDot c ds = .token kind 0)
    (hlone : isLoneMark c = true) (hkind : kind.isTrivia = false) (hdot : (kind == .dot) = false) :
    Leads (f.slot.toList ++ [c])
      ((f.blockDocs ++ f.copied).flatMap Reshape.shown ++ [(kind, String.ofList [c])]) := by
  have hbefore : Leads ((f.blockDocs ++ f.attributes ++ f.visibility.toList).flatMap (·.toList ++ [' ']))
      ((f.blockDocs ++ f.attributes ++ f.visibility.toList).flatMap Reshape.shown) :=
    leads_flatMap fun s hs => leads_before h hs
  have hall := hbefore.append (h.typeText.leads_mark hc hlone hkind hdot)
  have hchars : f.slot.toList ++ [c] =
      (f.blockDocs ++ f.attributes ++ f.visibility.toList).flatMap (·.toList ++ [' ']) ++
        (f.typeText.toList ++ [c]) := by
    rw [PlannedField.slot, String.toList_append, String.toList_join, List.flatMap_map, List.append_assoc]
    simp only [String.toList_append]
    rfl
  have hwords : (f.blockDocs ++ f.copied).flatMap Reshape.shown =
      (f.blockDocs ++ f.attributes ++ f.visibility.toList).flatMap Reshape.shown ++
        Reshape.shown f.typeText := by
    simp [PlannedField.copied]
  rw [hchars, hwords, List.append_assoc _ (Reshape.shown f.typeText)]
  exact hall

/-- The lines of a field. -/
theorem leads_lines (h : f.Copied) (hindent : ∀ e ∈ indent.toList, isBlank e = true) :
    Leads ((f.lines indent).flatMap (·.toList ++ ['\n'])) (f.shown ++ [(.comma, ",")]) := by
  have hmargin : Leads (indent ++ "    ").toList [] := leads_blanks fun e he => by
    rw [String.toList_append, List.mem_append] at he
    obtain he | he := he
    · exact hindent e he
    · rw [List.eq_of_mem_replicate (show e ∈ List.replicate 4 ' ' from he)]
      decide
  have hdocs : Leads (f.lineDocs.flatMap fun d => (indent ++ "    " ++ d).toList ++ ['\n'])
      (f.lineDocs.flatMap Reshape.shown) := by
    refine leads_flatMap fun d hd => ?_
    obtain ⟨hmem, hline⟩ := List.mem_filter.1 hd
    rw [String.toList_append, List.append_assoc]
    exact hmargin.append ((h.docs d hmem).2.leads_line hline)
  have hslot : Leads ((indent ++ "    " ++ (f.slot ++ ",")).toList ++ ['\n'])
      ((f.blockDocs ++ f.copied).flatMap Reshape.shown ++ [(.comma, ",")]) := by
    have hcomma : Leads (f.slot.toList ++ [','])
        ((f.blockDocs ++ f.copied).flatMap Reshape.shown ++ [(.comma, ",")]) :=
      leads_slot h (fun _ _ => rfl) rfl rfl rfl
    have hall := (hmargin.append hcomma).append (leads_blank (c := '\n') (by decide))
    have hchars : (indent ++ "    " ++ (f.slot ++ ",")).toList ++ ['\n'] =
        (indent ++ "    ").toList ++ (f.slot.toList ++ [',']) ++ ['\n'] := by simp
    rw [List.append_nil] at hall
    rw [hchars]
    exact hall
  have hall := hdocs.append hslot
  rw [PlannedField.lines, List.map_append, List.map_singleton, List.flatMap_append, List.flatMap_singleton,
    List.flatMap_map, PlannedField.shown, List.append_assoc f.lineDocs, List.flatMap_append, List.append_assoc]
  exact hall

end PlannedField.Copied

/-! ## The list -/

/-- Commas behind all of some lists are commas between them and one behind the last one. -/
theorem flatMap_concat {α β : Type} {x : β} {g : α → List β} {xs : List α} (h : xs ≠ []) :
    xs.flatMap (fun a => g a ++ [x]) = [x].intercalate (xs.map g) ++ [x] := by
  induction xs with
  | nil => exact absurd rfl h
  | cons a xs ih =>
    cases xs with
    | nil => simp [List.intercalate]
    | cons b xs =>
      rw [List.flatMap_cons, ih (List.cons_ne_nil b xs)]
      simp [List.intercalate]

namespace Plan

/-- The comma behind the last field, if each field has lines of its own. -/
def lastComma (plan : Plan) : List (TokenKind × String) :=
  if plan.fields.all fun f => f.lineDocs.isEmpty then [] else [(.comma, ",")]

/-- The fields on one line, with the parenthesis behind them. -/
theorem leads_slots (h : ∀ f ∈ fs, f.Copied) (hdocs : ∀ f ∈ fs, f.lineDocs = []) :
    Leads ((", ".intercalate (fs.map (·.slot))).toList ++ [')'])
      ([(.comma, ",")].intercalate (fs.map (·.shown)) ++ [(.rParen, ")")]) := by
  have hshown (f : PlannedField) (hf : f.lineDocs = []) :
      f.shown = (f.blockDocs ++ f.copied).flatMap Reshape.shown := by
    rw [PlannedField.shown, hf, List.nil_append]
  have hparen {f : PlannedField} (hf : f.Copied) : Leads (f.slot.toList ++ [')'])
      ((f.blockDocs ++ f.copied).flatMap Reshape.shown ++ [(.rParen, ")")]) :=
    hf.leads_slot (fun _ _ => rfl) rfl rfl rfl
  have hcomma {f : PlannedField} (hf : f.Copied) : Leads (f.slot.toList ++ [','])
      ((f.blockDocs ++ f.copied).flatMap Reshape.shown ++ [(.comma, ",")]) :=
    hf.leads_slot (fun _ _ => rfl) rfl rfl rfl
  rw [String.toList_intercalate]
  induction fs with
  | nil => exact fun rest => shows_mark (fun _ _ => rfl) rfl rfl false rest
  | cons f fs ih =>
    rw [List.forall_mem_cons] at h hdocs
    cases fs with
    | nil => simpa [List.intercalate, hshown f hdocs.1] using hparen h.1
    | cons g fs =>
      have hrest := (leads_blank (c := ' ') (by decide)).append (ih h.2 hdocs.2)
      have hall := (hcomma h.1).append hrest
      simpa [List.intercalate, hshown f hdocs.1] using hall

/-- **The words and comments of a list of positional fields** are those of its fields, with commas between
them. -/
theorem leads_tupleFieldList (h : ∀ f ∈ plan.fields, f.Copied)
    (hindent : ∀ e ∈ indent.toList, isBlank e = true) :
    Leads (plan.tupleFieldList indent).toList
      ((.lParen, "(") :: ([(.comma, ",")].intercalate (plan.fields.map (·.shown)) ++ plan.lastComma ++
        [(.rParen, ")")])) := by
  have hopen : Leads ['('] [(.lParen, "(")] := fun rest => shows_mark (fun _ _ => rfl) rfl rfl false rest
  have hclose : Leads [')'] [(.rParen, ")")] := fun rest => shows_mark (fun _ _ => rfl) rfl rfl false rest
  rw [tupleFieldList, lastComma]
  split
  · next hdocs =>
    have hall := hopen.append (leads_slots h fun f hf => by
      simpa using List.all_eq_true.1 hdocs f hf)
    simpa using hall
  · next hdocs =>
    have hne : plan.fields ≠ [] := fun hnil => hdocs (by rw [hnil]; rfl)
    have hlines := leads_flatMap fun f hf => (h f hf).leads_lines hindent
    rw [flatMap_concat hne] at hlines
    have hall := ((hopen.append (leads_blank (c := '\n') (by decide))).append hlines).append
      ((leads_blanks hindent).append hclose)
    have hchars : (String.join (("(" :: plan.fields.flatMap (·.lines indent)).map (· ++ "\n")) ++ indent ++
        ")").toList = ['('] ++ ['\n'] ++
          plan.fields.flatMap (fun f => (f.lines indent).flatMap (·.toList ++ ['\n'])) ++
          (indent.toList ++ [')']) := by
      simp [String.join_cons, String.toList_join, List.flatMap_map, List.flatMap_assoc]
    rw [hchars]
    simpa using hall

end Plan

/-! ## Words and comments apart -/

theorem filter_intercalate {α : Type} (p : α → Bool) (sep : List α) (xss : List (List α)) :
    (sep.intercalate xss).filter p = (sep.filter p).intercalate (xss.map (·.filter p)) := by
  induction xss with
  | nil => rfl
  | cons xs xss ih =>
    cases xss with
    | nil => simp [List.intercalate]
    | cons ys xss =>
      simp only [List.intercalate, List.map_cons, List.intersperse_cons_cons, List.flatten_cons,
        List.filter_append] at ih ⊢
      rw [ih]

theorem nil_intercalate {α : Type} (xss : List (List α)) : [].intercalate xss = xss.flatten := by
  induction xss with
  | nil => rfl
  | cons xs xss ih =>
    cases xss with
    | nil => rfl
    | cons ys xss => simpa [List.intercalate] using ih

namespace PlannedField.Copied

theorem isComment (h : f.Copied) : ∀ d ∈ f.lineDocs ++ f.blockDocs, IsComment d := by
  intro d hd
  obtain hd | hd := List.mem_append.1 hd <;> exact (h.docs d (List.mem_filter.1 hd).1).2

/-- The words of a field. -/
theorem filter_words (h : f.Copied) :
    f.shown.filter (!·.1.isTrivia) = f.copied.flatMap words := by
  have hdocs : (f.lineDocs ++ f.blockDocs).flatMap (fun d => (Reshape.shown d).filter (!·.1.isTrivia)) = [] :=
    List.flatMap_eq_nil_iff.2 fun d hd => by rw [(h.isComment d hd).shown_eq]; rfl
  rw [PlannedField.shown, List.filter_flatMap, List.flatMap_append, hdocs, List.nil_append]
  exact List.flatMap_congr fun s _ => (words_eq_filter s).symm

/-- The comments of a field. -/
theorem filter_comments (h : f.Copied) :
    (f.shown.filter (·.1 == .comment)).map (·.2) =
      f.lineDocs ++ f.blockDocs ++ f.copied.flatMap comments := by
  have hdocs : (f.lineDocs ++ f.blockDocs).flatMap
      (fun d => ((Reshape.shown d).filter (·.1 == .comment)).map (·.2)) = f.lineDocs ++ f.blockDocs := by
    rw [List.flatMap_congr (g := fun d => [d]) fun d hd => by rw [(h.isComment d hd).shown_eq]; rfl]
    exact List.flatMap_singleton' _
  rw [PlannedField.shown, List.filter_flatMap, List.map_flatMap, List.flatMap_append, hdocs]
  exact congrArg _ (List.flatMap_congr fun s _ => (comments_eq_filter s).symm)

/-- No word of a field is faulty. -/
theorem ne_error (h : f.Copied) : ∀ w ∈ f.copied.flatMap words, w.1 ≠ .error := by
  intro w hw
  obtain ⟨s, hs, hw⟩ := List.mem_flatMap.1 hw
  have hjoin : Joinable s := by
    rw [PlannedField.copied, List.mem_append, List.mem_append, Option.mem_toList, List.mem_singleton] at hs
    obtain (hs | hs) | rfl := hs
    · exact (h.attributes s hs).1
    · exact (h.visibility s hs).1
    · exact h.typeText
  exact lexErrors_eq_nil_iff_words.1 hjoin.lexErrors_eq w hw

end PlannedField.Copied

/-- The comma behind the last field. -/
theorem Plan.filter_lastComma {p : TokenKind × String → Bool} :
    plan.lastComma.filter p = if p (.comma, ",") then plan.lastComma else [] := by
  rw [lastComma]
  split <;> simp [List.filter_cons]

/-- What is left of a list without its marks. -/
theorem Plan.filter_fields {p : TokenKind × String → Bool} (hopen : p (.lParen, "(") = false)
    (hcomma : p (.comma, ",") = false) (hclose : p (.rParen, ")") = false)
    (xss : List (List (TokenKind × String))) :
    ((.lParen, "(") :: ([(.comma, ",")].intercalate xss ++ plan.lastComma ++ [(.rParen, ")")])).filter p =
      xss.flatMap (·.filter p) := by
  simp [hopen, hcomma, hclose, filter_lastComma, filter_intercalate, nil_intercalate,
    List.flatMap_def]

/-- **A list of positional fields is read as its fields**, in either layout. Let the texts of the fields be
without faults and not end inside a comment that runs to the end of its line, and let the documentation
consist of single comments. Then there are no faults in the list, its words are those of the attributes,
the visibility and the type of each field, with commas between the fields and at most one behind them, and
its comments are the documentation and the comments inside these texts. -/
theorem tokens_tupleFieldList (h : ∀ f ∈ plan.fields, f.Copied)
    (hindent : ∀ e ∈ indent.toList, isBlank e = true) :
    lexErrors (plan.tupleFieldList indent) = [] ∧
      words (plan.tupleFieldList indent) =
        (.lParen, "(") :: ([(.comma, ",")].intercalate (plan.fields.map (·.copied.flatMap words)) ++
          plan.lastComma ++ [(.rParen, ")")]) ∧
      comments (plan.tupleFieldList indent) =
        plan.fields.flatMap (fun f => f.lineDocs ++ f.blockDocs ++ f.copied.flatMap comments) ∧
      ∀ f ∈ plan.fields, (f.lineDocs ++ f.blockDocs).Perm f.docs := by
  have hshown := (Plan.leads_tupleFieldList h hindent).shown_eq
  have hwords : words (plan.tupleFieldList indent) =
      (.lParen, "(") :: ([(.comma, ",")].intercalate (plan.fields.map (·.copied.flatMap words)) ++
        plan.lastComma ++ [(.rParen, ")")]) := by
    have hfields : (plan.fields.map (·.shown)).map (·.filter (!·.1.isTrivia)) =
        plan.fields.map (·.copied.flatMap words) := by
      rw [List.map_map]
      exact List.map_congr_left fun f hf => (h f hf).filter_words
    rw [words_eq_filter, hshown, List.filter_cons_of_pos (by rfl), List.filter_append, List.filter_append,
      filter_intercalate, hfields, Plan.filter_lastComma]
    rfl
  have hcomments : comments (plan.tupleFieldList indent) =
      plan.fields.flatMap fun f => f.lineDocs ++ f.blockDocs ++ f.copied.flatMap comments := by
    rw [comments_eq_filter, hshown, Plan.filter_fields rfl rfl rfl, List.flatMap_map, List.map_flatMap]
    exact List.flatMap_congr fun f hf => (h f hf).filter_comments
  have herrors : (words (plan.tupleFieldList indent)).filter (·.1 == .error) = [] := by
    rw [hwords, Plan.filter_fields rfl rfl rfl, List.flatMap_map, List.flatMap_eq_nil_iff]
    exact fun f hf => List.filter_eq_nil_iff.2 fun w hw => by simp [(h f hf).ne_error w hw]
  refine ⟨lexErrors_eq_nil_iff_words.2 fun w hw herror => ?_, hwords, hcomments,
    fun f hf => (h f hf).perm_docs⟩
  exact List.filter_eq_nil_iff.1 herrors w hw (beq_iff_eq.2 herror)

set_option maxRecDepth 100000 in
/-- A field with documentation in both forms, and one the type of which ends with a dot behind a comment. -/
theorem tokens_tupleFieldList_both :
    ∃ plan : Plan, (∀ f ∈ plan.fields, f.Copied) ∧ (∀ e ∈ "\t".toList, isBlank e = true) ∧
      plan.tupleFieldList "\t" =
        "(\n\t    /// l\n\t    /** b */ #[x] pub T,\n\t    pub(crate) /* c */ 1.,\n\t)" ∧
      lexErrors (plan.tupleFieldList "\t") = [] ∧
      words (plan.tupleFieldList "\t") =
        (.lParen, "(") :: ([(.comma, ",")].intercalate (plan.fields.map (·.copied.flatMap words)) ++
          plan.lastComma ++ [(.rParen, ")")]) ∧
      comments (plan.tupleFieldList "\t") =
        plan.fields.flatMap (fun f => f.lineDocs ++ f.blockDocs ++ f.copied.flatMap comments) ∧
      ∀ f ∈ plan.fields, (f.lineDocs ++ f.blockDocs).Perm f.docs := by
  let plan : Plan := ⟨"S", [⟨"a", 0, "T", some "pub", ["#[x]"], ["/** b */", "/// l"]⟩,
    ⟨"b", 1, "/* c */ 1.", some "pub(crate)", [], []⟩]⟩
  have hfields : ∀ f ∈ plan.fields, f.Copied := by
    refine List.forall_mem_cons.2 ⟨⟨?_, ?_, ?_, by decide +kernel⟩, List.forall_mem_singleton.2
      ⟨?_, ?_, nofun, nofun⟩⟩
    · exact ⟨by decide +kernel, by decide +kernel⟩
    · rintro v ⟨⟩
      exact ⟨⟨by decide +kernel, by decide +kernel⟩, .inl ⟨[], rfl⟩⟩
    · intro a ha
      obtain rfl := List.mem_singleton.1 ha
      exact ⟨⟨by decide +kernel, by decide +kernel⟩, "#[x".toList, rfl⟩
    · exact ⟨by decide +kernel, by decide +kernel⟩
    · rintro v ⟨⟩
      exact ⟨⟨by decide +kernel, by decide +kernel⟩, .inr ⟨"pub(crate".toList, rfl⟩⟩
  have hindent : ∀ e ∈ "\t".toList, isBlank e = true := by
    intro e he
    obtain rfl : e = '\t' := List.mem_singleton.1 he
    rfl
  exact ⟨plan, hfields, hindent, by decide +kernel, tokens_tupleFieldList hfields hindent⟩

end Reshape
