/-!
# Spans

A span is a half-open range of byte offsets in one text.

* `Span.contains` is containment of spans, `Span.touches` counts the end as part of the span: a
  caret right behind the last character is still on it.
* `Span.merge` is the smallest span that contains two spans.
-/

namespace Reshape

/-- The bytes from offset `start` up to offset `stop`. -/
@[ext]
structure Span where
  start : Nat
  stop : Nat
deriving DecidableEq, Inhabited

namespace Span

/-- The number of bytes in the span. -/
def size (s : Span) : Nat := s.stop - s.start

/-- Whether the span holds no byte. -/
def isEmpty (s : Span) : Bool := s.start == s.stop

/-- The span without bytes at an offset. -/
def empty (offset : Nat) : Span := ⟨offset, offset⟩

/-- The smallest span that contains both. -/
def merge (s t : Span) : Span := ⟨min s.start t.start, max s.stop t.stop⟩

/-- Whether an offset lies in the span, its end included. -/
def touches (s : Span) (offset : Nat) : Bool := s.start ≤ offset && offset ≤ s.stop

/-- Whether the first span contains the second. -/
def contains (s t : Span) : Bool := s.start ≤ t.start && t.stop ≤ s.stop

theorem contains_iff {s t : Span} :
    s.contains t = true ↔ s.start ≤ t.start ∧ t.stop ≤ s.stop := by
  simp [contains]

theorem contains_refl (s : Span) : s.contains s = true := by simp [contains]

theorem contains_trans {s t u : Span} (h : s.contains t = true) (h' : t.contains u = true) :
    s.contains u = true := by
  simp only [contains, Bool.and_eq_true, decide_eq_true_eq] at *
  omega

theorem merge_contains_left (s t : Span) : (s.merge t).contains s = true := by
  grind [contains, merge]

theorem merge_contains_right (s t : Span) : (s.merge t).contains t = true := by
  grind [contains, merge]

end Span

end Reshape
