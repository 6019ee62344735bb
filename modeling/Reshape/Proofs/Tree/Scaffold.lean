import Reshape.Proofs.Tree.Sketch

/-!
# Logs of unfinished trees

While a parser runs, its log describes the contents of the innermost open node and, for every open
node, what stands before it. The operations act on that description as a stack machine does, and the
log follows.

* `OpenNode` is a node that is open, `Log.Holds` says that a log describes contents and open nodes.
* `Holds.openNode`, `Holds.wrap`, `Holds.close`, `Holds.abandon` and `Holds.advance` say what each
  operation does to the description. No operation touches the events of the nodes further out.
-/

namespace Reshape

/-- A node that is open: what stands before it in the node around it, and the finished node that it
was opened around, if there is one. -/
structure OpenNode where
  before : Contents
  first : Option Sketch

theorem modify_append_left {α : Type} (f : α → α) (xs ys : List α) {i : Nat} (h : i < xs.length) :
    (xs ++ ys).modify i f = xs.modify i f ++ ys := by
  apply List.ext_getElem?
  intro j
  by_cases hj : j < xs.length
  · simp [List.getElem?_modify, List.getElem?_append, List.getElem_modify, hj]
  · have hij : i ≠ j := by omega
    simp [List.getElem?_append, hj, hij]

theorem modify_concat {α : Type} (f : α → α) (xs : List α) (x : α) :
    (xs ++ [x]).modify xs.length f = xs ++ [f x] :=
  modify_append_right f xs [x] 0

namespace OpenNode

/-- What the node around an open node contains when that is closed. -/
def finish (f : OpenNode) (k : NodeKind) (inside : Contents) : Contents :=
  match f.first with
  | none => f.before.node (.plain k inside)
  | some s => f.before.node (.around k s inside)

/-- The open node that takes the last node of contents with it, if that comes last. -/
def wrapping : Contents → OpenNode
  | .node c s => ⟨c, some s⟩
  | c => ⟨c, none⟩

/-- The events before the one that starts an open node, behind those of the nodes around it. -/
def preface (f : OpenNode) (outside : List Event) : List Event :=
  outside ++ f.before.events outside.length ++
    match f.first with
    | none => []
    | some s =>
      s.events (outside.length + f.before.eventCount)
        (some (outside.length + f.before.eventCount + s.eventCount))

/-- The event that starts an open node. -/
def opener (f : OpenNode) (k : NodeKind) : Event :=
  match f.first with
  | none => .start k none
  | some _ => .outer k none

/-- The events up to the start of the first of the given open nodes, innermost first. -/
def events : List OpenNode → List Event
  | [] => []
  | f :: fs => f.preface (events fs) ++ [f.opener .errorNode]

/-- The places of the events that start the given open nodes. -/
def starts : List OpenNode → List Nat
  | [] => []
  | f :: fs => (f.preface (events fs)).length :: starts fs

/-- The place at which the node that was finished last starts, if nothing was recorded since. -/
def lastFinished? : List OpenNode → Contents → Option Nat
  | fs, .node c s => some ((events fs).length + c.eventCount + s.inset)
  | _, .token _ => none
  | ⟨c, none⟩ :: fs, .nothing => lastFinished? fs c
  | ⟨_, some _⟩ :: _, .nothing => none
  | [], .nothing => none

theorem getLast?_events_ne (fs : List OpenNode) : (events fs).getLast? ≠ some .finish := by
  match fs with
  | [] => simp [events]
  | ⟨c, none⟩ :: fs => simp [events, opener]
  | ⟨c, some s⟩ :: fs => simp [events, opener]

/-- Closing a node gives its kind to the event that started it. -/
theorem events_finish (f : OpenNode) (outside : List Event) (k : NodeKind) (inside : Contents) :
    outside ++ (f.finish k inside).events outside.length =
      f.preface outside ++ [f.opener k] ++ inside.events ((f.preface outside).length + 1) ++
        [.finish] := by
  obtain ⟨c, _ | s⟩ := f
  · simp [finish, preface, opener, Contents.events, Sketch.events]
  · simp [finish, preface, opener, Contents.events, Sketch.events, Nat.add_assoc]

theorem lastFinished?_finish (f : OpenNode) (fs : List OpenNode) (k : NodeKind)
    (inside : Contents) :
    lastFinished? fs (f.finish k inside) = some (f.preface (events fs)).length := by
  obtain ⟨c, _ | s⟩ := f
  · simp [finish, lastFinished?, preface, Sketch.inset]
  · simp [finish, lastFinished?, preface, Sketch.inset, Nat.add_assoc]

end OpenNode

namespace Log

/-- A log describes the contents of the innermost open node and the nodes that are open. -/
structure Holds (l : Log) (inside : Contents) (opened : List OpenNode) : Prop where
  events_eq : l.events.toList =
    OpenNode.events opened ++ inside.events (OpenNode.events opened).length
  opened_eq : l.opened = OpenNode.starts opened
  closed_eq : ∀ i ∈ OpenNode.lastFinished? opened inside, l.closed = i

namespace Holds

variable {l : Log} {c e : Contents} {s : Sketch} {f : OpenNode} {fs : List OpenNode}

theorem empty : Holds Log.empty .nothing [] :=
  ⟨rfl, rfl, by simp [OpenNode.lastFinished?]⟩

theorem size_eq (h : Holds l c fs) :
    l.events.size = (OpenNode.events fs).length + c.eventCount := by
  rw [← Array.length_toList, h.events_eq]
  simp

theorem advance (h : Holds l c fs) : Holds (l.record .advance) c.token fs where
  events_eq := by simp [record, Contents.events, h.events_eq]
  opened_eq := h.opened_eq
  closed_eq := by simp [OpenNode.lastFinished?]

theorem openNode (h : Holds l c fs) : Holds l.openNode .nothing (⟨c, none⟩ :: fs) where
  events_eq := by
    simp [Log.openNode, OpenNode.events, OpenNode.preface, OpenNode.opener, Contents.events,
      h.events_eq]
  opened_eq := by
    simp [Log.openNode, OpenNode.starts, OpenNode.preface, h.size_eq, h.opened_eq]
  closed_eq := h.closed_eq

theorem openAround (h : Holds l (c.node s) fs) :
    Holds l.openAround .nothing (⟨c, some s⟩ :: fs) := by
  have hclosed : l.closed = (OpenNode.events fs).length + c.eventCount + s.inset :=
    h.closed_eq _ (by simp [OpenNode.lastFinished?])
  have hsize : l.events.size = (OpenNode.events fs).length + c.eventCount + s.eventCount := by
    rw [h.size_eq, Contents.eventCount, Nat.add_assoc]
  -- Only the link of the last node changes.
  have hmod : l.events.toList.modify l.closed (·.setParent l.events.size) =
      OpenNode.preface ⟨c, some s⟩ (OpenNode.events fs) := by
    have hlen : (OpenNode.events fs ++ c.events (OpenNode.events fs).length).length =
        (OpenNode.events fs).length + c.eventCount := by simp
    rw [h.events_eq, Contents.events, ← List.append_assoc, hclosed, hsize, ← hlen,
      modify_append_right, s.modify_events_setParent, hlen]
    rfl
  refine ⟨?_, ?_, ?_⟩
  · simp [Log.openAround, OpenNode.events, OpenNode.opener, Contents.events, hmod]
  · rw [OpenNode.starts, ← hmod, ← h.opened_eq]
    simp [Log.openAround]
  · simp [OpenNode.lastFinished?]

/-- The last event finishes a node exactly when a node comes last in the innermost open one. -/
theorem back?_eq_finish (h : Holds l c fs) :
    l.events.back? = some .finish ↔ ∃ d s, c = .node d s := by
  rw [← Array.getLast?_toList, h.events_eq]
  cases c with
  | nothing => simp [Contents.events, OpenNode.getLast?_events_ne]
  | token d => simp [Contents.events, ← List.append_assoc]
  | node d s =>
    have hs := s.getLast?_events ((OpenNode.events fs).length + d.eventCount) none
    simp [Contents.events, List.getLast?_append, hs]

/-- A node is wrapped around the last node if that comes last, else it is opened by itself. -/
theorem wrap (h : Holds l c fs) : Holds (l.record .wrap) .nothing (.wrapping c :: fs) := by
  rw [record]
  split
  · obtain ⟨d, s, rfl⟩ := h.back?_eq_finish.1 ‹_›
    exact h.openAround
  · next hne =>
    have hc : OpenNode.wrapping c = ⟨c, none⟩ := by
      cases c with
      | nothing => rfl
      | token d => rfl
      | node d s => exact absurd (h.back?_eq_finish.2 ⟨d, s, rfl⟩) hne
    rw [hc]
    exact h.openNode

/-- A node that is closed comes last in the node around it. -/
theorem close (h : Holds l e (f :: fs)) (k : NodeKind) : Holds (l.close k) (f.finish k e) fs := by
  have hopened : l.opened = (f.preface (OpenNode.events fs)).length :: OpenNode.starts fs :=
    h.opened_eq
  rw [Log.close, hopened]
  refine ⟨?_, rfl, ?_⟩
  · rw [OpenNode.events_finish, Array.toList_push, Array.toList_modify, h.events_eq,
      OpenNode.events, modify_append_left _ _ _ (by simp), modify_concat]
    obtain ⟨c, _ | s⟩ := f
    · simp [OpenNode.opener, Event.setKind]
    · simp [OpenNode.opener, Event.setKind]
  · simp [OpenNode.lastFinished?_finish]

/-- A node that is abandoned leaves nothing behind if nothing was recorded in it. -/
theorem abandon (h : Holds l e (⟨c, none⟩ :: fs)) :
    Holds (l.record .abandon) (if e.eventCount = 0 then c else c.node (.plain .errorNode e)) fs := by
  have hopened : l.opened =
      (OpenNode.preface ⟨c, none⟩ (OpenNode.events fs)).length :: OpenNode.starts fs := h.opened_eq
  have hsize : l.events.size =
      (OpenNode.preface ⟨c, none⟩ (OpenNode.events fs)).length + 1 + e.eventCount := by
    rw [h.size_eq, OpenNode.events, List.length_append, List.length_singleton]
  simp only [record, hopened]
  by_cases he : e.eventCount = 0
  · rw [if_pos he, if_pos (by omega)]
    obtain rfl := Contents.eventCount_eq_zero.1 he
    refine ⟨?_, rfl, ?_⟩
    · simp [h.events_eq, OpenNode.events, OpenNode.preface, Contents.events]
    · intro i hi
      exact h.closed_eq i (by simpa [OpenNode.lastFinished?] using hi)
  · rw [if_neg he, if_neg (by omega)]
    exact h.close .errorNode

end Holds

end Log

end Reshape
