/-!
# Values of data formats

The values that settings and messages are made of, free of the notation they were written in.

* `Data` is such a value. A number with a fraction or an exponent is told apart from a whole
  number, but its value does not matter to anything here.
* `Data.field?` finds a field of a record that is present and not null.
* `Data.written` is the shortest text of a value in the notation of messages: no space between tokens,
  escapes only where they are needed.
-/

namespace Reshape

/-- A value of a data format. -/
inductive Data
  | null
  | bool (b : Bool)
  | int (n : Int)
  | float
  | text (s : String)
  | list (ds : List Data)
  | record (fields : List (String × Data))
deriving Inhabited

namespace Data

/-- A natural number. -/
def ofNat (n : Nat) : Data := .int n

/-- What a record holds under a name. -/
def get? (d : Data) (name : String) : Option Data :=
  match d with
  | .record fields => fields.lookup name
  | _ => none

/-- What a record holds under a name, where null counts as nothing. -/
def field? (d : Data) (name : String) : Option Data :=
  match d.get? name with
  | some .null => none
  | other => other

/-- The text, if the value is one. -/
def text? : Data → Option String
  | .text s => some s
  | _ => none

end Data

/-! ## Values as text -/

/-- A character inside quotes. -/
def messageChar (c : Char) : List Char :=
  match c with
  | '"' => ['\\', '"']
  | '\\' => ['\\', '\\']
  | '\x08' => ['\\', 'b']
  | '\x0c' => ['\\', 'f']
  | '\n' => ['\\', 'n']
  | '\r' => ['\\', 'r']
  | '\t' => ['\\', 't']
  | c =>
    if c.toNat < 32 then
      ['\\', 'u', '0', '0'] ++ List.replicate (if c.toNat < 16 then 1 else 0) '0'
        ++ Nat.toDigits 16 c.toNat
    else [c]

/-- A text in quotes. -/
def messageText (s : String) : String :=
  String.ofList ('"' :: s.toList.flatMap messageChar ++ ['"'])

mutual

/-- The text of a value. Of a number with a fraction or an exponent only that it is one is known. -/
def Data.written : Data → String
  | .null => "null"
  | .bool b => if b then "true" else "false"
  | .int n => toString n
  | .float => "0.0"
  | .text s => messageText s
  | .list ds => "[" ++ ",".intercalate (writtenItems ds) ++ "]"
  | .record fields => "\x7b" ++ ",".intercalate (writtenFields fields) ++ "\x7d"

/-- The texts of values. -/
def writtenItems : List Data → List String
  | [] => []
  | d :: ds => d.written :: writtenItems ds

/-- The texts of fields. -/
def writtenFields : List (String × Data) → List String
  | [] => []
  | (k, d) :: fields => (messageText k ++ ":" ++ d.written) :: writtenFields fields

end

end Reshape
