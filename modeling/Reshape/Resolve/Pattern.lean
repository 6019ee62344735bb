import Reshape.Resolve.View

/-!
# What patterns bind

* `View.patternType?` is the type that a pattern gives to a name it binds, when the whole pattern
  matches a value of a known or unknown type.
* `View.bind?` asks a pattern for a name: the answer is nothing if the pattern does not bind it, and
  otherwise the type of the binding, which may be unknown.
-/

namespace Reshape.View

/-- Which fields the patterns in a tuple pattern match, by their places: those behind the mark for
all other fields count from the last field. -/
def fieldPlace? (fieldCount : Nat) (patterns : List Node) (i : Nat) : Option Nat :=
  match patterns.findIdx? (·.kind == .restPat) with
  | some rest =>
    if rest < i then
      let fromEnd := patterns.length - i
      if fromEnd ≤ fieldCount then some (fieldCount - fromEnd) else none
    else some i
  | none => some i

/-- The types that a tuple pattern of a constructor gives to its parts. `Some` and `Ok` hold a value
of the type that stands for them. A part has no type at all if it stands for no field. -/
def partTypes (v : View) (pattern : Node) (ty : Option Ty) (i : Nat) : Option (Option Ty) :=
  match pattern.path? with
  | none => none
  | some path =>
    match v.target? path with
    | some target =>
      match v.patternFields? target ty with
      | some fields =>
        (fieldPlace? fields.length pattern.patterns i).map fun j => (fields[j]?).bind (·.2)
      | none => none
    | none =>
      if path.segmentNames = ["Some"] ∨ path.segmentNames = ["Ok"] then some ty else none

/-- The type of a field by name. -/
def typeOfField (fields : List (Option String × Option Ty)) (name : String) : Option Ty :=
  (fields.find? (·.1 == some name)).bind (·.2)

mutual

/-- The type that a pattern gives to a name. -/
def patternTypeOf (v : View) (name : String) (above : List Layer) (i : Nat) (ty : Option Ty) :
    Tree → Option Ty
  | .leaf _ => none
  | .node k s es =>
    let here : Node := ⟨⟨k, s, es, i⟩, above⟩
    let inside := here.toLayer :: above
    match k with
    | .identPat =>
      match here.nameText? with
      | none => none
      | some own => if own = name then ty else partType v name inside false (fun _ => some ty) 0 0 es
    | .refPat | .parenPat => partType v name inside false (fun _ => some ty) 0 0 es
    | .orPat => partType v name inside true (fun _ => some ty) 0 0 es
    | .slicePat =>
      match ty with
      | some (.slice element) => partType v name inside true (fun _ => some (some element)) 0 0 es
      | _ => none
    | .tuplePat => partType v name inside true (fun _ => some none) 0 0 es
    | .tupleStructPat => partType v name inside true (v.partTypes here ty) 0 0 es
    | .recordPat =>
      match (here.path?.bind v.target?).bind (v.patternFields? · ty) with
      | some fields => fieldListType v name inside fields 0 es
      | none => none
    | _ => none

/-- The type that a name gets from the first pattern among trees, or from the first that binds it.
The trees start at number `i`, the patterns among them at `j`, and `types` are the types of the
values that these match. -/
def partType (v : View) (name : String) (above : List Layer) (binding : Bool)
    (types : Nat → Option (Option Ty)) (i j : Nat) : List Tree → Option Ty
  | [] => none
  | t :: ts =>
    if (t.kind?.map NodeKind.isPattern).getD false then
      if !binding || (Node.ofTree t).binds name then
        match types j with
        | some ty => patternTypeOf v name above i ty t
        | none => none
      else partType v name above binding types (i + 1) (j + 1) ts
    else partType v name above binding types (i + 1) j ts

/-- The type that a name gets from the first list of fields among trees. -/
def fieldListType (v : View) (name : String) (above : List Layer)
    (fields : List (Option String × Option Ty)) (i : Nat) : List Tree → Option Ty
  | [] => none
  | .leaf _ :: ts => fieldListType v name above fields (i + 1) ts
  | .node k s es :: ts =>
    if k = .recordPatFieldList then fieldsType v name (⟨k, s, es, i⟩ :: above) fields 0 es
    else fieldListType v name above fields (i + 1) ts

/-- The type that a name gets from the first field among trees that binds it. -/
def fieldsType (v : View) (name : String) (above : List Layer)
    (fields : List (Option String × Option Ty)) (i : Nat) : List Tree → Option Ty
  | [] => none
  | .leaf _ :: ts => fieldsType v name above fields (i + 1) ts
  | .node k s es :: ts =>
    let here : Node := ⟨⟨k, s, es, i⟩, above⟩
    if k = .recordPatField ∧ here.pattern?.any (·.binds name) then
      match here.patternFieldName? with
      | some field =>
        partType v name (here.toLayer :: above) false (fun _ => some (typeOfField fields field)) 0 0 es
      | none => none
    else fieldsType v name above fields (i + 1) ts

end

/-- The type that a pattern gives to a name, when it matches a value of the given type. -/
def patternType? (v : View) (pattern : Node) (name : String) (ty : Option Ty) : Option Ty :=
  v.patternTypeOf name pattern.above pattern.index ty pattern.tree

/-- Whether a pattern binds a name, and with which type. The type of the matched value is worked out
only if it does. -/
def bind? (v : View) (pattern : Node) (name : String) (ty : Unit → Option Ty) :
    Option (Option Ty) :=
  if pattern.binds name then some (v.patternType? pattern name (ty ())) else none

end Reshape.View
