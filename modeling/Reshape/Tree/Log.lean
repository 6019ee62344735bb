import Reshape.Tree.Basic

/-!
# Assembling a tree from recorded operations

A parser does not build a tree, it records operations: it opens nodes, closes them and steps over
tokens. The kind of a node is known only when it is closed, and a finished node may still become
the first child of a node that is opened after it.

* `Op` lists the operations.
* `Log` is the list of events that operations leave behind. `Log.record` adds an operation: opening
  a node around the last finished one leaves that one's events where they are and links it to its
  new parent.
* `Log.steps` resolves the links: a node starts together with all the nodes around it that were
  opened later, the outermost first.
* `assemble` carries the steps out over a list of tokens.
-/

namespace Reshape

/-- What a parser does to the tree it builds. `wrap` opens a node around the one that was finished
just before, `abandon` drops a node that was opened, or makes it an error if something was recorded
in it. -/
inductive Op
  | openNode
  | wrap
  | close (kind : NodeKind)
  | abandon
  | advance
deriving DecidableEq

/-- A node starts, ends, or a token follows. The number at a start is the event at which the node
around this one starts, if that was opened later; such a node is `outer`. -/
inductive Event
  | start (kind : NodeKind) (parent : Option Nat)
  | outer (kind : NodeKind) (parent : Option Nat)
  | finish
  | token
deriving DecidableEq, Inhabited

namespace Event

/-- The event with the kind of its node replaced. -/
def setKind (k : NodeKind) : Event → Event
  | start _ p => start k p
  | outer _ p => outer k p
  | e => e

/-- The event with its node linked to the one around it. -/
def setParent (i : Nat) : Event → Event
  | start k _ => start k (some i)
  | outer k _ => outer k (some i)
  | e => e

end Event

/-- The events so far, the nodes that are open, innermost first, and the node that was finished
last, all by the number of their first event. -/
structure Log where
  events : Array Event
  opened : List Nat
  closed : Nat

namespace Log

/-- The log before any operation. -/
def empty : Log := ⟨#[], [], 0⟩

/-- Opens a node that starts here. A node has no kind of its own before it is closed. -/
def openNode (l : Log) : Log :=
  { l with events := l.events.push (.start .errorNode none), opened := l.events.size :: l.opened }

/-- Opens a node around the last finished one. -/
def openAround (l : Log) : Log :=
  { l with
    events := (l.events.modify l.closed (·.setParent l.events.size)).push (.outer .errorNode none)
    opened := l.events.size :: l.opened }

/-- Finishes the innermost open node. -/
def close (l : Log) (k : NodeKind) : Log :=
  match l.opened with
  | [] => l
  | i :: is => ⟨(l.events.modify i (·.setKind k)).push .finish, is, i⟩

/-- Adds an operation. A node is opened around the last finished one only as long as nothing was
recorded behind that. -/
def record (l : Log) : Op → Log
  | .openNode => l.openNode
  | .wrap => if l.events.back? = some .finish then l.openAround else l.openNode
  | .close k => l.close k
  | .abandon =>
    match l.opened with
    | [] => l
    | i :: is =>
      if i + 1 = l.events.size then { l with events := l.events.pop, opened := is }
      else l.close .errorNode
  | .advance => { l with events := l.events.push .token }

/-- The log that operations leave behind. -/
def ofOps (ops : List Op) : Log := ops.foldl record empty

end Log

/-- What is done to build a tree. -/
inductive Step
  | start (kind : NodeKind)
  | finish
  | token
deriving DecidableEq

namespace Log

/-- The kinds of the nodes that start with the node at event `i`, the outermost last. Links lead
to later events. -/
def chain (events : Array Event) (i : Nat) : List NodeKind :=
  match events[i]? with
  | some (.start k (some j)) | some (.outer k (some j)) =>
    if i < j ∧ j < events.size then k :: chain events j else [k]
  | some (.start k none) | some (.outer k none) => [k]
  | _ => []
termination_by events.size - i

/-- The steps of the event at place `i`. -/
def stepsAt (events : Array Event) (i : Nat) : Event → List Step
  | .start _ _ => (chain events i).reverse.map .start
  | .outer _ _ => []
  | .finish => [.finish]
  | .token => [.token]

/-- The steps of a log. -/
def steps (l : Log) : List Step :=
  l.events.toList.zipIdx.flatMap fun (e, i) => stepsAt l.events i e

end Log

/-! ## Carrying out steps -/

/-- A node that has started: the offset of its start and its children so far, last first. -/
structure Frame where
  kind : NodeKind
  start : Nat
  children : List Tree

/-- The nodes that have started, innermost first, the finished trees outside all of them, last
first, the tokens ahead and the offset of the next one. -/
structure Assembly where
  frames : List Frame
  done : List Tree
  tokens : List Token
  offset : Nat

namespace Assembly

/-- Adds a tree to the innermost node. -/
def add (a : Assembly) (t : Tree) : Assembly :=
  match a.frames with
  | [] => { a with done := t :: a.done }
  | f :: fs => { a with frames := { f with children := t :: f.children } :: fs }

/-- Carries out a step. A step without a node to finish or a token to take changes nothing. -/
def step (a : Assembly) : Step → Assembly
  | .start k => { a with frames := ⟨k, a.offset, []⟩ :: a.frames }
  | .finish =>
    match a.frames with
    | [] => a
    | f :: fs =>
      { a with frames := fs }.add (.node f.kind ⟨f.start, a.offset⟩ f.children.reverse)
  | .token =>
    match a.tokens with
    | [] => a
    | t :: ts => { a with tokens := ts, offset := t.stop }.add (.leaf t)

end Assembly

/-- The trees that steps build from tokens. -/
def assemble (steps : List Step) (tokens : List Token) : List Tree :=
  (steps.foldl Assembly.step ⟨[], [], tokens, 0⟩).done.reverse

/-- The tree that recorded operations build from tokens. -/
def treeOfOps (ops : List Op) (tokens : List Token) : Tree :=
  (assemble (Log.ofOps ops).steps tokens).headD (.node .sourceFile (.empty 0) [])

end Reshape
