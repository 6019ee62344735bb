import Reshape.Data
import Reshape.Entries

/-!
# Tables

What the lines of a settings file add up to. A table comes about in one of three ways, and what may
be added to it later depends on that way (`Origin`).

* `Table.insert` puts a value under a key of several parts. All but the last part name tables that
  came about through such keys, or are made now.
* `Table.openTable` and `Table.openElement` are the two kinds of headers. A header may name a table
  that was implied by a longer header before, but no other table a second time.
* `Table.toData` forgets where tables came from.
-/

namespace Reshape.Toml

/-- How a table came about: by its own header or braces, by a longer header, or by a key of several
parts. -/
inductive Origin
  | header
  | implied
  | dotted
deriving DecidableEq

mutual

/-- What stands under a key. -/
inductive Item
  | value (d : Data)
  | table (t : Table)
  | tables (ts : List Table)

/-- A table. -/
inductive Table
  | mk (origin : Origin) (entries : List (String × Item))

end

namespace Table

/-- How the table came about. -/
def origin : Table → Origin
  | mk o _ => o

/-- The entries of the table. -/
def entries : Table → List (String × Item)
  | mk _ es => es

/-- The table without entries. -/
def empty (o : Origin) : Table := mk o []

/-- Sets what stands under a key. -/
def set (t : Table) (k : String) (i : Item) : Table := mk t.origin (setEntry k i t.entries)

/-- Changes the last of a list of tables. -/
def updateLast (f : Table → Option Table) : List Table → Option (List Table)
  | [] => none
  | [t] => (f t).map ([·])
  | t :: ts => (updateLast f ts).map (t :: ·)

/-- Changes the table at the end of a path. Tables that are missing on the way get the given origin;
a key of several parts does not lead into a table with a header of its own. -/
def update (missing : Origin) (f : Table → Option Table) : List String → Table → Option Table
  | [], t => f t
  | k :: ks, t =>
    match t.entries.lookup k with
    | none => (update missing f ks (empty missing)).map fun u => t.set k (.table u)
    | some (.value _) => none
    | some (.tables us) => (updateLast (update missing f ks) us).map fun us => t.set k (.tables us)
    | some (.table u) =>
      if missing = .dotted ∧ u.origin = .header then none
      else (update missing f ks u).map fun u => t.set k (.table u)

/-- Puts a value under a key of several parts. -/
def insert (path : List String) (d : Data) (t : Table) : Option Table :=
  match path.getLast? with
  | none => none
  | some k =>
    let way := path.dropLast
    t.update .dotted (fun u =>
      if (u.origin = .dotted ↔ way = []) ∨ (u.entries.lookup k).isSome then none
      else some (u.set k (.value d))) way

/-- Opens the table that a header names. -/
def openTable (path : List String) (t : Table) : Option Table :=
  match path.getLast? with
  | none => none
  | some k =>
    t.update .implied (fun u =>
      match u.entries.lookup k with
      | none => some (u.set k (.table (empty .header)))
      | some (.table (mk .implied es)) => some (u.set k (.table (mk .header es)))
      | some _ => none) path.dropLast

/-- Opens a further element of the list of tables that a header in double brackets names. -/
def openElement (path : List String) (t : Table) : Option Table :=
  match path.getLast? with
  | none => none
  | some k =>
    t.update .implied (fun u =>
      match u.entries.lookup k with
      | none => some (u.set k (.tables [empty .header]))
      | some (.tables ts) => some (u.set k (.tables (ts ++ [empty .header])))
      | some _ => none) path.dropLast

mutual

/-- The record that a table stands for. -/
def toData : Table → Data
  | mk _ es => .record (entriesData es)

/-- The fields that entries stand for. -/
def entriesData : List (String × Item) → List (String × Data)
  | [] => []
  | (k, i) :: es => (k, itemData i) :: entriesData es

/-- The value that an item stands for. -/
def itemData : Item → Data
  | .value d => d
  | .table t => t.toData
  | .tables ts => .list (tablesData ts)

/-- The values that a list of tables stands for. -/
def tablesData : List Table → List Data
  | [] => []
  | t :: ts => t.toData :: tablesData ts

end

/-- The table with values under keys of several parts. -/
def ofPairs (origin : Origin) (pairs : List (List String × Data)) : Option Table :=
  pairs.foldlM (fun t (path, d) => t.insert path d) (empty origin)

end Table

end Reshape.Toml
