import Reshape.Config.Basic
import Reshape.Toml.Document

/-!
# Reading settings

Settings come as a settings file or as a value inside a message. In both they stand in groups. A
group is a record that names its settings, or a list that gives them in order; what is missing
keeps its default, and names without a meaning do not matter.

* `Config.ofToml?` reads a settings file, `Config.ofData?` a value. Elements of a list that no
  setting is left for do not matter in a file and are a mistake in a value.
* `Config.toData` is the record with all settings; reading it gives the settings back
  (`ofData?_toData`).
-/

namespace Reshape.Config

/-- What a group says about its only setting: it is refused, left out or given. -/
def setting (name : String) (mayHaveMore : Bool) : Data → Option (Option Data)
  | .record fields => some (fields.lookup name)
  | .list [] => some none
  | .list (d :: more) => if mayHaveMore || more.isEmpty then some (some d) else none
  | _ => none

/-- A count: a whole number that is not negative. -/
def count? : Data → Option Nat
  | .int n => if 0 ≤ n then some n.toNat else none
  | _ => none

/-- The settings in the group for conversions. -/
def ofGroup? (mayHaveMore : Bool) (group : Data) : Option Config := do
  match ← setting "collapse-rest-min" mayHaveMore group with
  | some d => return ⟨← count? d⟩
  | none => return {}

/-- The settings in a value of either source. -/
def read? (mayHaveMore : Bool) (d : Data) : Option Config := do
  match ← setting "convert-to-tuple" mayHaveMore d with
  | some group => ofGroup? mayHaveMore group
  | none => return {}

/-- The settings in a settings file. -/
def ofToml? (text : String) : Option Config := do read? true (← Toml.document? text)

/-- The settings in a value inside a message. -/
def ofData? (d : Data) : Option Config := read? false d

/-- The record with all settings. -/
def toData (c : Config) : Data :=
  .record [("convert-to-tuple", .record [("collapse-rest-min", .ofNat c.collapseRestMin)])]

theorem ofData?_toData (c : Config) : ofData? c.toData = some c := by
  simp [ofData?, read?, toData, setting, ofGroup?, count?, Data.ofNat]

end Reshape.Config
