import Reshape.Tree.Log

/-!
# Nodes as they are recorded

The events of a log are numbers and links. Read as a whole they describe nested nodes, each opened
by itself or around a node that was finished before it. `Sketch` is such a node, `Contents` is what
stands inside one.

* `Sketch.events` and `Contents.events` are the events of a sketch at a place in the log, with the
  links that go with that place.
* `Sketch.steps` are the steps that build a node, in which all links are gone.
* `resolve_sketch` is the statement that makes links harmless: at whatever place the events of a
  sketch stand in a log, the log resolves them to the steps of the sketch, behind the starts of the
  nodes around it that are linked to it.
-/

namespace Reshape

mutual

/-- A finished node. -/
inductive Sketch
  | plain (kind : NodeKind) (inside : Contents)
  | around (kind : NodeKind) (first : Sketch) (inside : Contents)

/-- What was recorded in a node: tokens and finished nodes, the last one outermost. -/
inductive Contents
  | nothing
  | token (before : Contents)
  | node (before : Contents) (last : Sketch)

end

/-! ## Events of a sketch -/

mutual

/-- The number of events of a sketch. -/
def Sketch.eventCount : Sketch → Nat
  | .plain _ c => c.eventCount + 2
  | .around _ s c => s.eventCount + c.eventCount + 2

/-- The number of events of contents. -/
def Contents.eventCount : Contents → Nat
  | .nothing => 0
  | .token c => c.eventCount + 1
  | .node c s => c.eventCount + s.eventCount

end

/-- How many events of a sketch stand before the one that opens its outermost node. -/
def Sketch.inset : Sketch → Nat
  | .plain _ _ => 0
  | .around _ s _ => s.eventCount

mutual

/-- The events of a sketch from place `b` on, with a link at its outermost node. -/
def Sketch.events (b : Nat) (link : Option Nat) : Sketch → List Event
  | .plain k c => .start k link :: (c.events (b + 1) ++ [.finish])
  | .around k s c =>
    s.events b (some (b + s.eventCount)) ++
      .outer k link :: (c.events (b + s.eventCount + 1) ++ [.finish])

/-- The events of contents from place `b` on. -/
def Contents.events (b : Nat) : Contents → List Event
  | .nothing => []
  | .token c => c.events b ++ [.token]
  | .node c s => c.events b ++ s.events (b + c.eventCount) none

end

mutual

@[simp] theorem Sketch.length_events (b : Nat) (link : Option Nat) :
    (s : Sketch) → (s.events b link).length = s.eventCount
  | .plain k c => by
    simp [Sketch.events, Sketch.eventCount, Contents.length_events (b + 1) c]
  | .around k s c => by
    have hs := Sketch.length_events b (some (b + s.eventCount)) s
    have hc := Contents.length_events (b + s.eventCount + 1) c
    simp only [Sketch.events, Sketch.eventCount, List.length_append, List.length_cons, hs, hc,
      List.length_nil]
    omega

@[simp] theorem Contents.length_events (b : Nat) :
    (c : Contents) → (c.events b).length = c.eventCount
  | .nothing => rfl
  | .token c => by simp [Contents.events, Contents.eventCount, Contents.length_events b c]
  | .node c s => by
    have hc := Contents.length_events b c
    have hs := Sketch.length_events (b + c.eventCount) none s
    simp [Contents.events, Contents.eventCount, hc, hs]

end

theorem Sketch.inset_lt (s : Sketch) : s.inset < s.eventCount := by
  cases s with
  | plain k c => simp [Sketch.inset, Sketch.eventCount]
  | around k s c =>
    simp only [Sketch.inset, Sketch.eventCount]
    omega

theorem Contents.eventCount_eq_zero {c : Contents} : c.eventCount = 0 ↔ c = .nothing := by
  cases c with
  | nothing => simp [Contents.eventCount]
  | token c => simp [Contents.eventCount]
  | node c s =>
    have := s.inset_lt
    simp only [Contents.eventCount, reduceCtorEq, iff_false]
    omega

theorem modify_append_right {α : Type} (f : α → α) (xs ys : List α) (i : Nat) :
    (xs ++ ys).modify (xs.length + i) f = xs ++ ys.modify i f :=
  List.modifyTailIdx_add (List.modifyHead f) i xs ys

/-- Linking the outermost node of a sketch changes nothing else. -/
theorem Sketch.modify_events_setParent (s : Sketch) (b j : Nat) :
    (s.events b none).modify s.inset (·.setParent j) = s.events b (some j) := by
  cases s with
  | plain k c => rfl
  | around k s c =>
    have h := modify_append_right (·.setParent j) (s.events b (some (b + s.eventCount)))
      (.outer k none :: (c.events (b + s.eventCount + 1) ++ [.finish])) 0
    rw [Sketch.length_events] at h
    exact h

/-- A sketch ends with the event that finishes its node. -/
theorem Sketch.getLast?_events (s : Sketch) (b : Nat) (link : Option Nat) :
    (s.events b link).getLast? = some .finish := by
  cases s with
  | plain k c =>
    rw [Sketch.events, ← List.cons_append, List.getLast?_concat]
  | around k s c =>
    rw [Sketch.events, ← List.cons_append, ← List.append_assoc, List.getLast?_concat]

/-! ## Steps of a sketch -/

mutual

/-- The steps that build a node. -/
def Sketch.steps : Sketch → List Step
  | .plain k c => .start k :: (c.steps ++ [.finish])
  | .around k s c => .start k :: (s.steps ++ c.steps ++ [.finish])

/-- The steps that build contents. -/
def Contents.steps : Contents → List Step
  | .nothing => []
  | .token c => c.steps ++ [.token]
  | .node c s => c.steps ++ s.steps

end

/-! ## Links -/

namespace Log

variable {E : Array Event} {b : Nat}

/-- The given events stand in a log from place `b` on. -/
def Placed (E : Array Event) (b : Nat) (evs : List Event) : Prop := evs <+: E.toList.drop b

theorem Placed.left {xs ys : List Event} (h : Placed E b (xs ++ ys)) : Placed E b xs :=
  (List.prefix_append xs ys).trans h

theorem Placed.right {xs ys : List Event} (h : Placed E b (xs ++ ys)) :
    Placed E (b + xs.length) ys := by
  obtain ⟨post, h⟩ := h
  refine ⟨post, ?_⟩
  rw [← List.drop_drop, ← h, List.append_assoc, List.drop_left]

theorem Placed.tail {e : Event} {evs : List Event} (h : Placed E b (e :: evs)) :
    Placed E (b + 1) evs :=
  (show Placed E b ([e] ++ evs) from h).right

theorem Placed.getElem? {e : Event} {evs : List Event} (h : Placed E b (e :: evs)) :
    E[b]? = some e := by
  obtain ⟨post, h⟩ := h
  have h0 := congrArg (fun l : List Event => l[0]?) h
  simpa using h0.symm

/-- The nodes that start with a node at event `i` because of its link. -/
def above (E : Array Event) (i : Nat) : Option Nat → List NodeKind
  | some j => if i < j ∧ j < E.size then chain E j else []
  | none => []

theorem chain_of_start {i : Nat} {k : NodeKind} {link : Option Nat}
    (h : E[i]? = some (.start k link)) : chain E i = k :: above E i link := by
  rw [chain, h]
  cases link with
  | none => rfl
  | some j =>
    simp only [above]
    split <;> rfl

theorem chain_of_outer {i : Nat} {k : NodeKind} {link : Option Nat}
    (h : E[i]? = some (.outer k link)) : chain E i = k :: above E i link := by
  rw [chain, h]
  cases link with
  | none => rfl
  | some j =>
    simp only [above]
    split <;> rfl

/-- The steps of events that stand in a log from place `b` on. -/
def resolve (E : Array Event) (b : Nat) (evs : List Event) : List Step :=
  (evs.zipIdx b).flatMap fun (e, i) => stepsAt E i e

theorem resolve_cons (e : Event) (evs : List Event) :
    resolve E b (e :: evs) = stepsAt E b e ++ resolve E (b + 1) evs := by
  simp [resolve]

theorem resolve_append (xs ys : List Event) :
    resolve E b (xs ++ ys) = resolve E b xs ++ resolve E (b + xs.length) ys := by
  simp [resolve, List.zipIdx_append]

mutual

/-- The events of a sketch resolve to its steps, behind the starts of the nodes around it that are
linked to it. -/
theorem resolve_sketch {b : Nat} {link : Option Nat} :
    (s : Sketch) → Placed E b (s.events b link) →
      resolve E b (s.events b link) =
        (above E (b + s.inset) link).reverse.map .start ++ s.steps
  | .plain k c, h => by
    simp only [Sketch.events] at h ⊢
    have hc := resolve_contents c (h.tail.left)
    rw [resolve_cons, resolve_append, hc, stepsAt, chain_of_start h.getElem?]
    simp [resolve, stepsAt, Sketch.steps, Sketch.inset]
  | .around k s c, h => by
    simp only [Sketch.events] at h ⊢
    have hs := resolve_sketch s h.left
    have hr := h.right
    rw [Sketch.length_events] at hr
    have hc := resolve_contents c (hr.tail.left)
    obtain ⟨hlt, -⟩ := Array.getElem?_eq_some_iff.1 hr.getElem?
    -- The link of the inner node is the place of the outer one.
    have habove : above E (b + s.inset) (some (b + s.eventCount)) =
        k :: above E (b + s.eventCount) link := by
      have hi : b + s.inset < b + s.eventCount := Nat.add_lt_add_left s.inset_lt b
      rw [above, if_pos ⟨hi, hlt⟩, chain_of_outer hr.getElem?]
    rw [resolve_append, Sketch.length_events, hs, resolve_cons, resolve_append, hc, habove]
    simp [resolve, stepsAt, Sketch.steps, Sketch.inset]

/-- The events of contents resolve to their steps. -/
theorem resolve_contents {b : Nat} :
    (c : Contents) → Placed E b (c.events b) → resolve E b (c.events b) = c.steps
  | .nothing, _ => rfl
  | .token c, h => by
    simp only [Contents.events] at h ⊢
    rw [resolve_append, resolve_contents c h.left]
    simp [resolve, stepsAt, Contents.steps]
  | .node c s, h => by
    simp only [Contents.events] at h ⊢
    have hr := h.right
    rw [Contents.length_events] at hr
    rw [resolve_append, resolve_contents c h.left, Contents.length_events, resolve_sketch s hr]
    simp [above, Contents.steps]

end

/-- The steps of a log that holds contents and nothing else. -/
theorem steps_of_contents {l : Log} {c : Contents} (h : l.events.toList = c.events 0) :
    l.steps = c.steps := by
  have hplaced : Placed l.events 0 (c.events 0) := by simp [Placed, h]
  rw [← resolve_contents c hplaced, ← h]
  rfl

end Log

end Reshape
