import Mathlib.Order.UpperLower.CompleteLattice
import Mathlib.Order.UpperLower.Principal
import Reshape.Grammar.Rules

/-!
# What is known of an open node

While a grammar reads the inside of a node, little of what was read matters for how the node ends.
`Standing` is that little. `Grammar.wp` says, by recursion on the term, in which standings a grammar
may start so that it ends in given ones and closes no node in a bad one.

* A node may be closed where its end is `settled`: the last token that was taken is significant, or
  the parser has said what is missing here.
* It may be wrapped around the last finished node only where that is the last event (`ended`).
* An error may be closed only where something was reported, and a node with an error among its
  children that was not reported only if it is a block (`spotless`).

More that is known is better, so the standings that do are upper sets. An item and a list of bounds
may leave a node behind that was abandoned; how they are read is a matter of its own, and here they
are only called.
-/

namespace Reshape

/-- What is known of the innermost open node. -/
@[ext]
structure Standing where
  settled : Bool
  ended : Bool
  spotless : Bool
  reported : Bool
deriving DecidableEq

namespace Standing

/-- The second standing knows what the first one does. -/
instance : PartialOrder Standing where
  le m n := m.settled ≤ n.settled ∧ m.ended ≤ n.ended ∧ m.spotless ≤ n.spotless ∧
    m.reported ≤ n.reported
  le_refl _ := ⟨le_rfl, le_rfl, le_rfl, le_rfl⟩
  le_trans _ _ _ h h' :=
    ⟨h.1.trans h'.1, h.2.1.trans h'.2.1, h.2.2.1.trans h'.2.2.1, h.2.2.2.trans h'.2.2.2⟩
  le_antisymm m n h h' := by
    ext <;> simp only [le_antisymm h.1 h'.1, le_antisymm h.2.1 h'.2.1,
      le_antisymm h.2.2.1 h'.2.2.1, le_antisymm h.2.2.2 h'.2.2.2]

theorem le_def {m n : Standing} : m ≤ n ↔ m.settled ≤ n.settled ∧ m.ended ≤ n.ended ∧
    m.spotless ≤ n.spotless ∧ m.reported ≤ n.reported :=
  ⟨id, id⟩

/-- Behind a significant token. -/
abbrev taken (m : Standing) : Standing := { m with settled := true, ended := false }

/-- Behind a node that was finished. -/
abbrev closed (m : Standing) : Standing := { m with settled := true, ended := true }

/-- Behind a report. -/
abbrev blamed (m : Standing) : Standing := { m with settled := true, spotless := true, reported := true }

/-- At the start of a node. -/
abbrev opened (m : Standing) : Standing := ⟨false, false, true, m.reported⟩

/-- At the start of a node around the last finished one. -/
abbrev wrapped (m : Standing) : Standing := ⟨true, false, true, m.reported⟩

/-- Behind a node that was abandoned with nothing in it. -/
abbrev loose (m : Standing) : Standing := ⟨false, false, m.spotless, m.reported⟩

/-- Behind an item that was abandoned. -/
abbrev unsure (m : Standing) : Standing := ⟨false, false, false, m.reported⟩

theorem taken_mono : Monotone taken := fun _ _ h => ⟨le_rfl, le_rfl, h.2.2⟩

theorem closed_mono : Monotone closed := fun _ _ h => ⟨le_rfl, le_rfl, h.2.2⟩

theorem blamed_mono : Monotone blamed := fun _ _ h => ⟨le_rfl, h.2.1, le_rfl, le_rfl⟩

theorem opened_mono : Monotone opened := fun _ _ h => ⟨le_rfl, le_rfl, le_rfl, h.2.2.2⟩

theorem wrapped_mono : Monotone wrapped := fun _ _ h => ⟨le_rfl, le_rfl, le_rfl, h.2.2.2⟩

theorem unsure_mono : Monotone unsure := fun _ _ h => ⟨le_rfl, le_rfl, le_rfl, h.2.2.2⟩

end Standing

open Standing

/-- The standing behind a named form that was read from a standing, and that answered whether a node
was read. -/
def Rule.after : Rule → Bool → Standing → Standing
  | .expr _ _, false | .atom _, false | .pattern, false | .ifExpr, false => blamed
  | .item, false => unsure
  | .type, _ | .tokenTree, _ => taken
  | _, _ => closed

theorem Rule.after_mono (r : Rule) (found : Bool) : Monotone (r.after found) := by
  cases r <;> cases found <;>
    first
    | exact closed_mono
    | exact blamed_mono
    | exact unsure_mono
    | exact taken_mono

/-- The standings in which a node may be closed as one of the given kind. -/
def closable (k : NodeKind) : UpperSet Standing where
  carrier := {m | m.settled = true ∧ (k = .blockExpr ∨ m.spotless = true) ∧
    (k = .errorNode → m.reported = true)}
  upper' := fun _ _ hle ⟨hend, hspot, herror⟩ =>
    ⟨hle.1 hend, hspot.imp_right fun h => hle.2.2.1 h, fun hk => hle.2.2.2 (herror hk)⟩

/-- The standings in which a node may be wrapped around the last one. -/
def wrappable : UpperSet Standing where
  carrier := {m | m.ended = true}
  upper' := fun _ _ hle h => hle.2.1 h

/-- The standings that a monotone change brings into an upper set. -/
def Standing.before (f : Standing → Standing) (hf : Monotone f) (U : UpperSet Standing) :
    UpperSet Standing :=
  ⟨{m | f m ∈ U}, fun _ _ hle h => U.upper (hf hle) h⟩

/-- The standings from which a standing known before can be kept in every round, and suffices behind the
last one. -/
def Standing.kept {σ : Type} (round : σ → Standing → UpperSet Standing)
    (P : σ → UpperSet Standing) : UpperSet Standing :=
  ⟨{m | ∃ i ≤ m, (∀ x, i ∈ round x i) ∧ ∀ x, i ∈ P x},
    fun _ _ hle ⟨i, hi, h⟩ => ⟨i, hi.trans hle, h⟩⟩

namespace Grammar

/-- The standings in which a grammar may start, if all that it closes may be closed, and if its value
and standing at the end satisfy `P`. -/
def wp : {α : Type} → Grammar α → (α → UpperSet Standing) → UpperSet Standing
  | _, .pure a, P => P a
  | _, .bind g f, P => g.wp fun a => (f a).wp P
  | _, .ahead, P => ⨆ ts, P ts
  | _, .advance, P => Standing.before taken taken_mono (P ())
  | _, .report _, P => Standing.before blamed blamed_mono (P ())
  | _, .reportFrom _ _ _, P => Standing.before blamed blamed_mono (P ())
  | _, .node body, P =>
    Standing.before opened opened_mono (body.wp fun x => x.1.elim ⊤ closable) ⊔
      Standing.before closed closed_mono (⨆ a, P a)
  | _, .wrap body, P =>
    wrappable ⊔ Standing.before wrapped wrapped_mono (body.wp closable) ⊔
      Standing.before closed closed_mono (P ())
  | _, .iterate _ body, P => Standing.kept (fun x i => (body x).wp fun _ => UpperSet.Ici i) P
  | _, .call r, P => ⨆ found, Standing.before (r.after found) (r.after_mono found) (P found)

/-! ## Terms -/

section

variable {α β σ : Type} {m : Standing} {P : α → UpperSet Standing} {Q : Unit → UpperSet Standing}
  {R : Bool → UpperSet Standing}

@[simp] theorem mem_wp_pure {a : α} : m ∈ (Pure.pure a : Grammar α).wp P ↔ m ∈ P a := ⟨id, id⟩

@[simp] theorem mem_wp_bind {g : Grammar β} {f : β → Grammar α} :
    m ∈ (g >>= f).wp P ↔ m ∈ g.wp fun b => (f b).wp P :=
  ⟨id, id⟩

@[simp] theorem mem_wp_ite {p : Prop} [Decidable p] {g h : Grammar α} :
    m ∈ (if p then g else h).wp P ↔ if p then m ∈ g.wp P else m ∈ h.wp P := by
  split <;> rfl

@[simp] theorem mem_wp_ahead {P : List Token → UpperSet Standing} :
    m ∈ ahead.wp P ↔ ∀ ts, m ∈ P ts := by
  simp [wp]

@[simp] theorem mem_wp_advance : m ∈ advance.wp Q ↔ m.taken ∈ Q () := ⟨id, id⟩

@[simp] theorem mem_wp_report {fault : Fault} : m ∈ (report fault).wp Q ↔ m.blamed ∈ Q () := ⟨id, id⟩

@[simp] theorem mem_wp_reportFrom {fault : Fault} {origin : Span} {note : String} :
    m ∈ (reportFrom fault origin note).wp Q ↔ m.blamed ∈ Q () :=
  ⟨id, id⟩

@[simp] theorem mem_before {f : Standing → Standing} {hf : Monotone f} {U : UpperSet Standing} :
    m ∈ Standing.before f hf U ↔ f m ∈ U :=
  ⟨id, id⟩

theorem mem_wp_node {body : Grammar (Option NodeKind × α)} :
    m ∈ (node body).wp P ↔
      m.opened ∈ body.wp (fun x => x.1.elim ⊤ closable) ∧ ∀ a, m.closed ∈ P a := by
  simp [wp]

theorem mem_wp_wrap {body : Grammar NodeKind} :
    m ∈ (wrap body).wp Q ↔ m.ended = true ∧ m.wrapped ∈ body.wp closable ∧ m.closed ∈ Q () := by
  rw [wp, UpperSet.mem_sup_iff, UpperSet.mem_sup_iff, and_assoc]
  rfl

theorem mem_wp_call {r : Rule} :
    m ∈ (call r).wp R ↔ ∀ found, r.after found m ∈ R found := by
  simp [wp]

/-- A repetition whose rounds keep a standing may start in it, if it suffices behind. -/
theorem mem_wp_iterate {init : σ} {body : σ → Grammar (σ × Bool)} {P : σ → UpperSet Standing}
    (h : ∀ x, m ∈ (body x).wp fun _ => UpperSet.Ici m) :
    m ∈ (iterate init body).wp P ↔ ∀ x, m ∈ P x := by
  constructor
  · rintro ⟨i, hi, -, hP⟩ x
    exact (P x).upper hi (hP x)
  · exact fun hP => ⟨m, le_rfl, h, hP⟩

end

end Grammar

end Reshape
