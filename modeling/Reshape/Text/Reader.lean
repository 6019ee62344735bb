/-!
# Reading texts

A reader takes something off the front of a text, or fails. Where two readers are tried in turn,
the second one starts where the first one did.

* `Reader.char`, `Reader.chars` and `Reader.word` read characters of a class and given words.
* `Reader.many` repeats a reader until it fails or takes nothing; it reads no more than there is
  (`length_le_of_many`).
* `Reader.all?` reads a whole text.
-/

namespace Reshape

/-- Takes something off the front of a text, or fails. -/
abbrev Reader := StateT (List Char) Option

namespace Reader

/-- A reader that looks at the text itself. -/
def ofFn (f : List Char → Option (α × List Char)) : Reader α := f

/-- A character of a class. -/
def char (p : Char → Bool) : Reader Char := ofFn fun
  | c :: cs => if p c then some (c, cs) else none
  | [] => none

/-- The characters of a class in front of all others. -/
def chars (p : Char → Bool) : Reader (List Char) := ofFn fun cs =>
  some (cs.takeWhile p, cs.dropWhile p)

/-- At least one character of a class. -/
def chars1 (p : Char → Bool) : Reader (List Char) := do
  let c ← char p
  return c :: (← chars p)

/-- A given number of characters of a class. -/
def exactly (p : Char → Bool) : Nat → Reader (List Char)
  | 0 => return []
  | n + 1 => do
    let c ← char p
    return c :: (← exactly p n)

/-- A given word. -/
def word (w : String) : Reader Unit := ofFn fun cs =>
  if w.toList.isPrefixOf cs then some ((), cs.drop w.length) else none

/-- The next character, which stays where it is. -/
def peek? : Reader (Option Char) := ofFn fun cs => some (cs.head?, cs)

/-- The end of the text. -/
def finish : Reader Unit := ofFn fun cs => if cs.isEmpty then some ((), []) else none

/-- Fails unless a condition holds. -/
def require (b : Bool) : Reader Unit := if b then pure () else failure

/-- Repeats a reader on a text until it fails or takes nothing. -/
def manyFrom (r : Reader α) (cs : List Char) : List α × List Char :=
  match r cs with
  | some (a, rest) =>
    if rest.length < cs.length then
      let (as, last) := manyFrom r rest
      (a :: as, last)
    else ([], cs)
  | none => ([], cs)
termination_by cs.length

/-- Repeats a reader until it fails or takes nothing. -/
def many (r : Reader α) : Reader (List α) := ofFn fun cs => some (manyFrom r cs)

/-- One thing or several, with a separator between any two. -/
def sepBy1 (r : Reader α) (separator : Reader Unit) : Reader (List α) := do
  let a ← r
  return a :: (← many (do separator; r))

/-- Nothing, one thing or several, with a separator between any two. -/
def sepBy (r : Reader α) (separator : Reader Unit) : Reader (List α) := do
  return ((← optional (sepBy1 r separator)).getD [])

/-- Reads a whole text. -/
def all? (r : Reader α) (text : String) : Option α :=
  match r text.toList with
  | some (a, []) => some a
  | _ => none

theorem length_le_manyFrom (r : Reader α) (cs : List Char) :
    (manyFrom r cs).2.length ≤ cs.length := by
  fun_induction manyFrom r cs with
  | case1 cs a rest hr hlt as last heq ih =>
    rw [heq] at ih
    exact Nat.le_trans ih (Nat.le_of_lt hlt)
  | case2 => exact Nat.le_refl _
  | case3 => exact Nat.le_refl _

theorem length_le_of_many {r : Reader α} {cs rest : List Char} {as : List α}
    (h : many r cs = some (as, rest)) : rest.length ≤ cs.length := by
  have bound := length_le_manyFrom r cs
  rw [Option.some.inj h] at bound
  exact bound

end Reader

end Reshape
