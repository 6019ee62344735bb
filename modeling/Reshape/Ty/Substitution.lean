import Reshape.Entries
import Reshape.Ty.Basic

/-!
# Substitutions

A substitution maps placeholders to types. It is a list of entries with different placeholders.

* `Substitution.insert` replaces the entry of a placeholder or adds one; `get?_insert` says what is
  found afterwards.
* `Substitution.apply` replaces the placeholders of a type all at once: what is put in their place
  is not gone through again, and placeholders without an entry stay.
* `Substitution.ofInstantiation` maps the parameters of a declaration to the arguments of one use.
-/

namespace Reshape

/-- A map from placeholders to types. -/
structure Substitution where
  entries : List (Placeholder × Ty)
  nodup : (entries.map (·.1)).Nodup

namespace Substitution

/-- The substitution without entries. -/
def empty : Substitution := ⟨[], List.nodup_nil⟩

/-- The type that a placeholder is mapped to. -/
def get? (s : Substitution) (p : Placeholder) : Option Ty := s.entries.lookup p

/-- Maps a placeholder to a type, whatever it was mapped to. -/
def insert (s : Substitution) (p : Placeholder) (t : Ty) : Substitution :=
  ⟨setEntry p t s.entries, nodup_setEntry s.nodup⟩

/-- The number of placeholders that are mapped. -/
def size (s : Substitution) : Nat := s.entries.length

/-- Whether no placeholder is mapped. -/
def isEmpty (s : Substitution) : Bool := s.entries.isEmpty

/-- The substitution with the given entries; of two entries for one placeholder the later counts. -/
def ofList (es : List (Placeholder × Ty)) : Substitution :=
  es.foldl (fun s e => s.insert e.1 e.2) empty

/-- Maps the parameters of a declaration to the arguments of a use, place by place. A parameter or
argument without a partner is left out. -/
def ofInstantiation (params : List Placeholder) (args : List Ty) : Substitution :=
  ofList (params.zip args)

/-- The type that a placeholder stands for. -/
def target (s : Substitution) (p : Placeholder) : Ty := (s.get? p).getD (.param p)

/-- Replaces the placeholders of a type. -/
def apply (s : Substitution) (t : Ty) : Ty := if s.isEmpty then t else t.bind s.target

/-- The entries by name and site. -/
def sorted (s : Substitution) : List (Placeholder × Ty) :=
  s.entries.mergeSort fun d e => d.1.name < e.1.name || (d.1.name == e.1.name && d.1.site ≤ e.1.site)

theorem get?_empty (p : Placeholder) : empty.get? p = none := rfl

theorem get?_insert (s : Substitution) (p q : Placeholder) (t : Ty) :
    (s.insert p t).get? q = if q = p then some t else s.get? q :=
  lookup_setEntry p q t s.entries

end Substitution

end Reshape
