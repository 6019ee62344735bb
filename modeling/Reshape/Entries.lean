/-!
# Lists of entries

A map with few keys is a list of entries with different keys.

* `setEntry` replaces the entry of a key, or adds one behind all others; `lookup_setEntry` says what
  is found afterwards.
* `eraseEntry` takes the entry of a key away; `lookup_eraseEntry` says what is found afterwards.
-/

namespace Reshape

variable {κ α : Type} [DecidableEq κ]

/-- Sets the entry of a key. -/
def setEntry (k : κ) (a : α) : List (κ × α) → List (κ × α)
  | [] => [(k, a)]
  | e :: es => if e.1 = k then (k, a) :: es else e :: setEntry k a es

/-- Takes the entry of a key away. -/
def eraseEntry (k : κ) (es : List (κ × α)) : List (κ × α) := es.filter fun e => e.1 ≠ k

theorem mem_keys_setEntry {k l : κ} {a : α} {es : List (κ × α)} :
    l ∈ (setEntry k a es).map (·.1) ↔ l = k ∨ l ∈ es.map (·.1) := by
  induction es with
  | nil => simp [setEntry]
  | cons e es ih =>
    by_cases h : e.1 = k
    · simp [setEntry, h]
    · simp only [setEntry, if_neg h, List.map_cons, List.mem_cons, ih]
      constructor <;> rintro (h | h | h) <;> simp [h]

theorem nodup_setEntry {k : κ} {a : α} {es : List (κ × α)} (h : (es.map (·.1)).Nodup) :
    ((setEntry k a es).map (·.1)).Nodup := by
  induction es with
  | nil => simp [setEntry]
  | cons e es ih =>
    simp only [List.map_cons, List.nodup_cons] at h
    by_cases he : e.1 = k
    · subst he
      simpa [setEntry] using h
    · rw [setEntry, if_neg he, List.map_cons, List.nodup_cons]
      exact ⟨fun hm => (mem_keys_setEntry.1 hm).elim he h.1, ih h.2⟩

theorem lookup_setEntry [BEq κ] [LawfulBEq κ] (k l : κ) (a : α) (es : List (κ × α)) :
    (setEntry k a es).lookup l = if l = k then some a else es.lookup l := by
  induction es with
  | nil => by_cases h : l = k <;> simp [setEntry, List.lookup_cons, beq_eq_false_iff_ne.2, h]
  | cons e es ih =>
    obtain ⟨i, b⟩ := e
    by_cases hi : i = k
    · subst hi
      by_cases h : l = i <;> simp [setEntry, List.lookup_cons, beq_eq_false_iff_ne.2, h]
    · by_cases h : l = i
      · simp [setEntry, h, hi]
      · rw [setEntry, if_neg hi, List.lookup_cons, beq_eq_false_iff_ne.2 h, ih, List.lookup_cons,
          beq_eq_false_iff_ne.2 h]

theorem lookup_eraseEntry [BEq κ] [LawfulBEq κ] (k l : κ) (es : List (κ × α)) :
    (eraseEntry k es).lookup l = if l = k then none else es.lookup l := by
  induction es with
  | nil => simp [eraseEntry]
  | cons e es ih =>
    obtain ⟨i, a⟩ := e
    have herase : eraseEntry k ((i, a) :: es) =
        if i = k then eraseEntry k es else (i, a) :: eraseEntry k es := by
      by_cases hi : i = k <;> simp [eraseEntry, hi]
    rw [herase]
    by_cases hi : i = k
    · rw [if_pos hi, ih, hi]
      by_cases h : l = k <;> simp [List.lookup_cons, beq_eq_false_iff_ne.2, h]
    · rw [if_neg hi, List.lookup_cons, List.lookup_cons, ih]
      by_cases h : l = i
      · simp [h, hi]
      · simp [beq_eq_false_iff_ne.2, h]

end Reshape
