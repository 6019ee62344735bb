import Reshape.Ty.Prim

/-!
# Types

A type is a primitive type, a slice, a declared type with its arguments, or a placeholder for a
generic parameter. A declaration goes by its number, so that a struct that mentions itself is no
infinite type; a placeholder goes by its name and its site, the parameter list that declares it.

* `==` on types compares them in full, except that it takes no notice of the parameters a declared
  type carries: they belong to the declaration.
* `Ty.bind` puts a type in the place of every placeholder; `Ty.anyPlaceholder` asks for a placeholder
  with a property.
* `Ty.display` writes a type as a program does.
-/

namespace Reshape

/-- The number of a declaration. -/
abbrev DeclId := Nat

/-- A generic parameter, declared in the parameter list `site`. -/
structure Placeholder where
  name : String
  site : Nat
deriving DecidableEq, Inhabited

/-- A type. A declared type carries the parameters of its declaration. -/
inductive Ty
  | prim (p : Prim)
  | slice (element : Ty)
  | nominal (decl : DeclId) (args : List Ty) (params : List Placeholder)
  | param (p : Placeholder)
deriving Inhabited

namespace Ty

/-! ## Equality -/

mutual

/-- Whether two types are the same, whatever parameters declared types carry. -/
def same : Ty → Ty → Bool
  | prim p, prim q => p == q
  | slice a, slice b => same a b
  | nominal d as _, nominal e bs _ => d == e && sameAll as bs
  | param p, param q => p == q
  | _, _ => false

/-- Whether two lists of types are the same. -/
def sameAll : List Ty → List Ty → Bool
  | [], [] => true
  | a :: as, b :: bs => same a b && sameAll as bs
  | _, _ => false

end

instance : BEq Ty := ⟨same⟩

deriving instance Hashable for IntWidth, FloatWidth, Prim, Placeholder

mutual

/-- A hash of a type that takes no notice of carried parameters, as equality does not. -/
def hashCode : Ty → UInt64
  | prim p => mixHash 1 (hash p)
  | slice t => mixHash 2 (hashCode t)
  | nominal d ts _ => mixHash (mixHash 3 (hash d)) (hashAll ts)
  | param p => mixHash 4 (hash p)

/-- A hash of a list of types. -/
def hashAll : List Ty → UInt64
  | [] => 7
  | t :: ts => mixHash (hashCode t) (hashAll ts)

end

instance : Hashable Ty := ⟨hashCode⟩

/-! ## Placeholders -/

mutual

/-- A type with every placeholder replaced. -/
def bind (f : Placeholder → Ty) : Ty → Ty
  | prim p => prim p
  | slice t => slice (bind f t)
  | nominal d ts ps => nominal d (bindAll f ts) ps
  | param p => f p

/-- Types with every placeholder replaced. -/
def bindAll (f : Placeholder → Ty) : List Ty → List Ty
  | [] => []
  | t :: ts => bind f t :: bindAll f ts

end

mutual

/-- Whether a placeholder with a property occurs in a type. -/
def anyPlaceholder (p : Placeholder → Bool) : Ty → Bool
  | prim _ => false
  | slice t => anyPlaceholder p t
  | nominal _ ts _ => anyPlaceholderAmong p ts
  | param q => p q

/-- Whether a placeholder with a property occurs in a list of types. -/
def anyPlaceholderAmong (p : Placeholder → Bool) : List Ty → Bool
  | [] => false
  | t :: ts => anyPlaceholder p t || anyPlaceholderAmong p ts

end

/-- Whether a placeholder occurs in a type. -/
def hasParams (t : Ty) : Bool := t.anyPlaceholder fun _ => true

theorem bindAll_eq_map (f : Placeholder → Ty) (ts : List Ty) : bindAll f ts = ts.map (bind f) := by
  induction ts with
  | nil => rfl
  | cons t ts ih => simp [bindAll, ih]

theorem anyPlaceholderAmong_eq_any (p : Placeholder → Bool) (ts : List Ty) :
    anyPlaceholderAmong p ts = ts.any (anyPlaceholder p) := by
  induction ts with
  | nil => rfl
  | cons t ts ih => simp [anyPlaceholderAmong, ih]

/-! ## Size -/

mutual

/-- The number of constructors in a type. -/
def size : Ty → Nat
  | prim _ | param _ => 1
  | slice t => size t + 1
  | nominal _ ts _ => sizeAll ts + 1

/-- The number of constructors in a list of types. -/
def sizeAll : List Ty → Nat
  | [] => 0
  | t :: ts => size t + sizeAll ts

end

/-! ## Writing -/

/-- The declaration of a declared type. -/
def decl? : Ty → Option DeclId
  | nominal d _ _ => some d
  | _ => none

mutual

/-- A type as a program writes it, with the names of its declarations. -/
def display (names : DeclId → Option String) : Ty → String
  | prim p => p.name
  | slice t => "[" ++ display names t ++ "]"
  | nominal d [] _ => (names d).getD ("<decl#" ++ toString d ++ ">")
  | nominal d (t :: ts) _ =>
    (names d).getD ("<decl#" ++ toString d ++ ">") ++ "<" ++ display names t
      ++ displayRest names ts ++ ">"
  | param p => p.name

/-- The arguments behind the first one. -/
def displayRest (names : DeclId → Option String) : List Ty → String
  | [] => ""
  | t :: ts => ", " ++ display names t ++ displayRest names ts

end

end Ty

end Reshape
