import Mathlib.Data.List.Induction
import Reshape.Convert.Rewrite
import Reshape.Proofs.Workspace.States

/-!
# What positional patterns mean

A pattern that binds fields by name becomes one that lists a part for each field, and may leave out the
fields at the end.

* `PatternEntry` is an entry of a positional pattern. `spread` reads two dots as the fields that are not
  listed, and so gives each field its entry. `Means` says which parts a pattern binds when it is read so.
* `boundEnd` is the place behind the last field that is bound, and `Collapses` says when the fields from
  there on are left out.
* `getElem?_boundSlots` says which slots are bound, and `length_sub_tail` where the unbound ones at the
  end begin. `patternSlots_eq` says what the slots come to in the two cases.
* `patternSlots_means` is the result: each field has the part that is bound to it.
-/

namespace Reshape

/-! ## Entries of positional patterns -/

/-- An entry of a positional pattern: a part, a mark for a field that is not looked at, or one for all
fields that are not listed. -/
inductive PatternEntry
  | part (text : String)
  | blank
  | rest
deriving DecidableEq

namespace PatternEntry

/-- How an entry is written. -/
def text : PatternEntry → String
  | part s => s
  | blank => "_"
  | rest => ".."

/-- The entry of a slot by itself. -/
def ofSlot : Option String → PatternEntry
  | some s => part s
  | none => blank

/-- The entries of so many fields: the mark for all fields that are not listed stands for each of
them. -/
def spread (count : Nat) (entries : List PatternEntry) : List PatternEntry :=
  entries.flatMap fun
    | .rest => List.replicate (count + 1 - entries.length) rest
    | e => [e]

theorem text_ofSlot (slot : Option String) : (ofSlot slot).text = slot.getD "_" := by
  cases slot <;> rfl

/-- The parts of slots that all are bound are what is written for them. -/
theorem filterMap_id_eq {slots : List (Option String)} (h : ∀ slot ∈ slots, slot.isSome = true) :
    slots.filterMap id = (slots.map ofSlot).map text := by
  induction slots with
  | nil => rfl
  | cons slot slots ih =>
    obtain ⟨s, rfl⟩ := Option.isSome_iff_exists.1 (h slot List.mem_cons_self)
    rw [List.map_cons, List.map_cons, ← ih fun slot hslot => h slot (List.mem_cons_of_mem _ hslot)]
    rfl

theorem ofSlot_ne_rest (slot : Option String) : ofSlot slot ≠ rest := by
  cases slot <;> simp [ofSlot]

/-- Entries that all are listed stay as they are. -/
theorem flatMap_map_ofSlot (slots : List (Option String)) (n : Nat) :
    ((slots.map ofSlot).flatMap fun
      | .rest => List.replicate n rest
      | e => [e]) = slots.map ofSlot := by
  induction slots with
  | nil => rfl
  | cons slot slots ih =>
    rw [List.map_cons, List.flatMap_cons, ih]
    cases slot <;> rfl

theorem spread_map_ofSlot (count : Nat) (slots : List (Option String)) :
    spread count (slots.map ofSlot) = slots.map ofSlot := flatMap_map_ofSlot slots _

/-- The mark for all other fields stands for those behind the ones that are listed. -/
theorem spread_concat_rest (count : Nat) (slots : List (Option String)) :
    spread count (slots.map ofSlot ++ [rest]) =
      slots.map ofSlot ++ List.replicate (count - slots.length) rest := by
  rw [spread, List.flatMap_append, flatMap_map_ofSlot]
  simp

theorem rest_notMem_map_ofSlot (slots : List (Option String)) : rest ∉ slots.map ofSlot := by
  intro h
  obtain ⟨slot, -, hslot⟩ := List.mem_map.1 h
  exact ofSlot_ne_rest slot hslot

/-- Two dots behind entries that all are listed stand at the end only. -/
theorem eq_nil_of_concat_rest {listed before behind : List PatternEntry} (hlisted : rest ∉ listed)
    (h : listed ++ [rest] = before ++ rest :: behind) : behind = [] ∧ rest ∉ before := by
  obtain rfl | ⟨init, last, rfl⟩ := List.eq_nil_or_concat behind
  · exact ⟨rfl, (List.append_inj_left' h rfl) ▸ hlisted⟩
  · rw [List.concat_eq_append, ← List.cons_append, ← List.append_assoc] at h
    have hinit := List.append_inj_left' h rfl
    exact absurd (hinit ▸ List.mem_append_right _ List.mem_cons_self) hlisted

/-- No slot is written as two dots, unless it is bound to them. -/
theorem dots_notMem_map_text {slots : List (Option String)} (h : some ".." ∉ slots) :
    ".." ∉ (slots.map ofSlot).map text := by
  intro hmem
  obtain ⟨e, he, htext⟩ := List.mem_map.1 hmem
  obtain ⟨slot, hslot, rfl⟩ := List.mem_map.1 he
  cases slot with
  | none => exact absurd htext (by decide)
  | some s => exact h (htext ▸ hslot)

end PatternEntry

open PatternEntry

/-- The entries mean what is bound: with two dots read as the fields that are not listed there is an
entry for each field, the part that is bound to a field stands in its place, and nothing is looked at in
all other places. -/
structure Means (count : Nat) (bound : List (Nat × String)) (entries : List PatternEntry) : Prop where
  length_eq : (spread count entries).length = count
  bound_eq : ∀ b ∈ bound, (spread count entries)[b.1]? = some (.part b.2)
  unbound_eq : ∀ i < count, i ∉ bound.map (·.1) →
    (spread count entries)[i]? = some .blank ∨ (spread count entries)[i]? = some .rest

/-! ## Slots that are bound -/

/-- The place behind the last field that is bound. -/
def boundEnd : List (Nat × String) → Nat
  | [] => 0
  | b :: bound => max (b.1 + 1) (boundEnd bound)

/-- The fields that are not bound are left out: there is a mark for them, none of them stands before one
that is bound, and there are some, and enough of them. -/
def Collapses (count : Nat) (bound : List (Nat × String)) (rest : Bool) (collapseMin : Nat) : Prop :=
  rest = true ∧ (∀ i < boundEnd bound, i ∈ bound.map (·.1)) ∧
    0 < count - boundEnd bound ∧ collapseMin ≤ count - boundEnd bound

section Bound

variable {count i n : Nat} {bound : List (Nat × String)} {s : String}

theorem boundEnd_le_iff : boundEnd bound ≤ n ↔ ∀ b ∈ bound, b.1 < n := by
  induction bound with
  | nil => simp [boundEnd]
  | cons b bound ih => rw [boundEnd, Nat.max_le, ih, Nat.succ_le_iff, List.forall_mem_cons]

theorem length_boundSlots (count : Nat) (bound : List (Nat × String)) :
    (boundSlots count bound).length = count := by simp [boundSlots]

/-- A slot has the part that is bound to it. -/
theorem getElem?_boundSlots (hdistinct : (bound.map (·.1)).Nodup) (hbelow : ∀ b ∈ bound, b.1 < count) :
    (boundSlots count bound)[i]? = some (some s) ↔ (i, s) ∈ bound := by
  have hdistinct' : (bound.reverse.map (·.1)).Nodup := by
    rw [List.map_reverse]
    exact (List.reverse_perm _).nodup_iff.2 hdistinct
  rw [boundSlots, List.getElem?_map, Option.map_eq_some_iff]
  constructor
  · rintro ⟨j, hj, hlookup⟩
    obtain ⟨hj, rfl⟩ := List.getElem?_eq_some_iff.1 hj
    rw [List.getElem_range] at hlookup
    exact List.mem_reverse.1 (mem_of_lookup hlookup)
  · intro h
    refine ⟨i, List.getElem?_range (hbelow _ h), ?_⟩
    exact lookup_eq_some_of_mem hdistinct' (List.mem_reverse.2 h)

/-- A slot that nothing is bound to is empty. -/
theorem getElem?_boundSlots_of_notMem (hi : i < count) (h : i ∉ bound.map (·.1)) :
    (boundSlots count bound)[i]? = some none := by
  rw [boundSlots, List.getElem?_map, List.getElem?_range hi, Option.map_some, Option.some_inj,
    List.lookup_eq_none_iff]
  intro b hb
  refine bne_iff_ne.2 ?_
  rintro rfl
  exact h (List.mem_map.2 ⟨b, List.mem_reverse.1 hb, rfl⟩)

/-- The empty slots at the end begin where no full one follows. -/
theorem length_sub_takeWhile_le_iff (slots : List (Option String)) :
    slots.length - (slots.reverse.takeWhile (·.isNone)).length ≤ n ↔
      ∀ i s, slots[i]? = some (some s) → i < n := by
  induction slots using List.reverseRecOn with
  | nil => simp
  | append_singleton slots slot ih =>
    rw [List.reverse_append, List.reverse_singleton, List.singleton_append, List.takeWhile_cons]
    cases slot with
    | none =>
      have hlast (i : Nat) (s : String) :
          (slots ++ [none])[i]? = some (some s) ↔ slots[i]? = some (some s) := by
        rw [List.getElem?_append]
        split
        · rfl
        · next hi => simp [List.getElem?_eq_none (Nat.le_of_not_lt hi), List.getElem?_singleton]
      simp only [hlast, ← ih, Option.isNone_none, if_true, List.length_append, List.length_cons,
        List.length_nil, Nat.zero_add, Nat.add_sub_add_right]
    | some s =>
      simp only [Option.isNone_some, Bool.false_eq_true, if_false, List.length_nil, Nat.sub_zero,
        List.length_append, List.length_singleton]
      constructor
      · intro hn i s' hi
        have := (List.getElem?_eq_some_iff.1 hi).1
        simp only [List.length_append, List.length_singleton] at this
        omega
      · exact fun h => h slots.length s (by simp)

/-- The unbound slots at the end begin behind the last bound one. -/
theorem length_sub_tail (hdistinct : (bound.map (·.1)).Nodup) (hbelow : ∀ b ∈ bound, b.1 < count) :
    count - ((boundSlots count bound).reverse.takeWhile (·.isNone)).length = boundEnd bound := by
  have hle (n : Nat) : count - ((boundSlots count bound).reverse.takeWhile (·.isNone)).length ≤ n ↔
      boundEnd bound ≤ n := by
    have hslots := length_sub_takeWhile_le_iff (n := n) (boundSlots count bound)
    rw [length_boundSlots] at hslots
    rw [hslots, boundEnd_le_iff]
    simp only [getElem?_boundSlots hdistinct hbelow]
    exact ⟨fun h b hb => h b.1 b.2 hb, fun h i s hb => h (i, s) hb⟩
  exact Nat.le_antisymm ((hle _).2 (Nat.le_refl _)) ((hle _).1 (Nat.le_refl _))

theorem boundEnd_le (hbelow : ∀ b ∈ bound, b.1 < count) : boundEnd bound ≤ count :=
  boundEnd_le_iff.2 hbelow

/-- No slot in front of the last bound one is empty exactly if each of them is bound. -/
theorem all_isSome_take_iff (hdistinct : (bound.map (·.1)).Nodup) (hbelow : ∀ b ∈ bound, b.1 < count) :
    ((boundSlots count bound).take (boundEnd bound)).all (·.isSome) = true ↔
      ∀ i < boundEnd bound, i ∈ bound.map (·.1) := by
  rw [List.all_eq_true]
  constructor
  · intro h i hi
    by_contra hunbound
    have hslot := getElem?_boundSlots_of_notMem (Nat.lt_of_lt_of_le hi (boundEnd_le hbelow)) hunbound
    have hmem : none ∈ (boundSlots count bound).take (boundEnd bound) :=
      List.mem_of_getElem? (i := i) (by rw [List.getElem?_take_of_lt hi, hslot])
    exact absurd (h none hmem) (by simp)
  · intro h slot hslot
    obtain ⟨i, hi⟩ := List.getElem?_of_mem hslot
    rw [List.getElem?_take] at hi
    split at hi
    · next hlt =>
      obtain ⟨⟨j, s⟩, hb, rfl⟩ := List.mem_map.1 (h i hlt)
      rw [(getElem?_boundSlots hdistinct hbelow).2 hb] at hi
      cases hi
      rfl
    · cases hi

/-- What the slots come to: those up to the last bound one and a mark for the others, or all of them. -/
theorem patternSlots_eq (hdistinct : (bound.map (·.1)).Nodup) (hbelow : ∀ b ∈ bound, b.1 < count)
    (rest : Bool) (collapseMin : Nat) :
    (Collapses count bound rest collapseMin ∧ patternSlots count bound rest collapseMin =
      (((boundSlots count bound).take (boundEnd bound)).map ofSlot ++ [PatternEntry.rest]).map text) ∨
    (¬ Collapses count bound rest collapseMin ∧ patternSlots count bound rest collapseMin =
      ((boundSlots count bound).map ofSlot).map text) := by
  have hend := length_sub_tail hdistinct hbelow
  have htail : ((boundSlots count bound).reverse.takeWhile (·.isNone)).length =
      count - boundEnd bound := by
    have hle := (List.takeWhile_sublist (fun slot : Option String => slot.isNone)
      (l := (boundSlots count bound).reverse)).length_le
    rw [List.length_reverse, length_boundSlots] at hle
    omega
  have hcollapses : (rest && ((boundSlots count bound).take (boundEnd bound)).all (·.isSome) &&
      decide (0 < count - boundEnd bound) && decide (collapseMin ≤ count - boundEnd bound)) = true ↔
        Collapses count bound rest collapseMin := by
    simp only [Bool.and_eq_true, all_isSome_take_iff hdistinct hbelow, decide_eq_true_eq, Collapses,
      and_assoc]
  rw [patternSlots, hend, htail]
  by_cases h : Collapses count bound rest collapseMin
  · refine .inl ⟨h, ?_⟩
    have hall := List.all_eq_true.1 ((all_isSome_take_iff hdistinct hbelow).2 h.2.1)
    rw [if_pos (hcollapses.2 h), List.map_append, filterMap_id_eq hall]
    rfl
  · refine .inr ⟨h, ?_⟩
    rw [if_neg fun hif => h (hcollapses.1 hif), List.map_map]
    exact List.map_congr_left fun slot _ => (text_ofSlot slot).symm

theorem some_notMem_boundSlots (hdistinct : (bound.map (·.1)).Nodup)
    (hbelow : ∀ b ∈ bound, b.1 < count) (h : ∀ b ∈ bound, b.2 ≠ s) :
    some s ∉ boundSlots count bound := by
  intro hmem
  obtain ⟨i, hi⟩ := List.getElem?_of_mem hmem
  exact h (i, s) ((getElem?_boundSlots hdistinct hbelow).1 hi) rfl

/-- The part that is bound to a field stands in its slot. -/
theorem getElem?_map_ofSlot (hdistinct : (bound.map (·.1)).Nodup) (hbelow : ∀ b ∈ bound, b.1 < count)
    (h : (i, s) ∈ bound) : ((boundSlots count bound).map ofSlot)[i]? = some (.part s) := by
  rw [List.getElem?_map, (getElem?_boundSlots hdistinct hbelow).2 h]
  rfl

theorem getElem?_map_ofSlot_of_notMem (hi : i < count) (h : i ∉ bound.map (·.1)) :
    ((boundSlots count bound).map ofSlot)[i]? = some .blank := by
  rw [List.getElem?_map, getElem?_boundSlots_of_notMem hi h]
  rfl

/-- A list of all slots means what is bound. -/
theorem means_map_ofSlot (hdistinct : (bound.map (·.1)).Nodup) (hbelow : ∀ b ∈ bound, b.1 < count) :
    Means count bound ((boundSlots count bound).map ofSlot) := by
  have hspread := spread_map_ofSlot count (boundSlots count bound)
  refine ⟨?_, fun b hb => ?_, fun i hi hnone => .inl ?_⟩
  · rw [hspread, List.length_map, length_boundSlots]
  · rw [hspread, getElem?_map_ofSlot hdistinct hbelow hb]
  · rw [hspread, getElem?_map_ofSlot_of_notMem hi hnone]

/-- The slots up to the last bound one and two dots mean what is bound. -/
theorem means_concat_rest (hdistinct : (bound.map (·.1)).Nodup) (hbelow : ∀ b ∈ bound, b.1 < count) :
    Means count bound (((boundSlots count bound).take (boundEnd bound)).map ofSlot ++ [.rest]) := by
  have hend := boundEnd_le hbelow
  have hlength := length_boundSlots count bound
  have hspread := spread_concat_rest count ((boundSlots count bound).take (boundEnd bound))
  rw [List.length_take, hlength, Nat.min_eq_left hend] at hspread
  rw [List.map_take] at hspread ⊢
  have hfront {i : Nat} (hi : i < boundEnd bound) :
      (((boundSlots count bound).map ofSlot).take (boundEnd bound) ++
        List.replicate (count - boundEnd bound) PatternEntry.rest)[i]? =
          ((boundSlots count bound).map ofSlot)[i]? := by
    rw [List.getElem?_append_left (by simp; omega), List.getElem?_take_of_lt hi]
  refine ⟨?_, fun b hb => ?_, fun i hi hnone => ?_⟩
  · rw [hspread]
    simp
    omega
  · rw [hspread, hfront (boundEnd_le_iff.1 (Nat.le_refl _) b hb), getElem?_map_ofSlot hdistinct hbelow hb]
  · rw [hspread]
    by_cases hlt : i < boundEnd bound
    · rw [hfront hlt, getElem?_map_ofSlot_of_notMem hi hnone]
      exact .inl rfl
    · rw [List.getElem?_append_right (by simp; omega), List.getElem?_replicate, if_pos (by simp; omega)]
      exact .inr rfl

end Bound

/-- A pattern that binds different fields becomes a positional one that means the same. Two dots stand last,
if at all, and exactly if the fields behind the last bound one are left out; otherwise each field has an
entry. This can be seen from the text as well, as long as no field is bound to two dots. -/
theorem patternSlots_means (count : Nat) (bound : List (Nat × String)) (rest : Bool) (collapseMin : Nat)
    (hdistinct : (bound.map (·.1)).Nodup) (hbelow : ∀ b ∈ bound, b.1 < count) :
    ∃ entries, patternSlots count bound rest collapseMin = entries.map text ∧
      Means count bound entries ∧
      (∀ before behind, entries = before ++ .rest :: behind → behind = [] ∧ .rest ∉ before) ∧
      (.rest ∈ entries ↔ Collapses count bound rest collapseMin) ∧
      (.rest ∉ entries → entries.length = count) ∧
      ((∀ b ∈ bound, b.2 ≠ "..") →
        (".." ∈ patternSlots count bound rest collapseMin ↔ Collapses count bound rest collapseMin)) := by
  obtain ⟨h, heq⟩ | ⟨h, heq⟩ := patternSlots_eq hdistinct hbelow rest collapseMin
  · refine ⟨_, heq, means_concat_rest hdistinct hbelow, fun before behind hsplit => ?_, ?_, ?_, ?_⟩
    · exact eq_nil_of_concat_rest (rest_notMem_map_ofSlot _) hsplit
    · simp [h]
    · simp
    · intro _
      simp [heq, h, text]
  · refine ⟨_, heq, means_map_ofSlot hdistinct hbelow, fun before behind hsplit => ?_, ?_, ?_, ?_⟩
    · exact absurd (hsplit ▸ List.mem_append_right _ List.mem_cons_self) (rest_notMem_map_ofSlot _)
    · exact iff_of_false (rest_notMem_map_ofSlot _) h
    · rw [List.length_map]
      exact fun _ => length_boundSlots count bound
    · intro hdots
      rw [heq]
      exact iff_of_false (dots_notMem_map_text (some_notMem_boundSlots hdistinct hbelow hdots)) h

/-- A gap in front of the last bound field: every field has an entry although there is a mark for the
others. -/
theorem patternSlots_means_gap :
    let bound := [(2, "c"), (0, "a")]
    (bound.map (·.1)).Nodup ∧ (∀ b ∈ bound, b.1 < 5) ∧
      ∃ entries, patternSlots 5 bound true 2 = entries.map text ∧ Means 5 bound entries ∧
        .rest ∉ entries ∧ patternSlots 5 bound true 2 = ["a", "_", "c", "_", "_"] := by
  intro bound
  have hdistinct : (bound.map (·.1)).Nodup := by decide
  have hbelow : ∀ b ∈ bound, b.1 < 5 := by decide
  obtain ⟨entries, heq, hmeans, -, hrest, -⟩ := patternSlots_means 5 bound true 2 hdistinct hbelow
  refine ⟨hdistinct, hbelow, entries, heq, hmeans, fun h => ?_, by decide +kernel⟩
  exact absurd ((hrest.1 h).2.1 1 (by decide)) (by decide)

end Reshape
