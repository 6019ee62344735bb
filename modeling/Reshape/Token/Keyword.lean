/-!
# Keywords

* `Keyword` lists the reserved words, `Keyword.word` is their spelling.
* `Keyword.ofWord?` finds the keyword of a spelling; contextual words such as `union` and `auto`
  are identifiers.
* `ofWord?_word` and `word_of_ofWord?` say that the two are inverse to each other.
-/

namespace Reshape

/-- The reserved words. -/
inductive Keyword
  | asKw
  | breakKw
  | constKw
  | continueKw
  | crateKw
  | dynKw
  | elseKw
  | enumKw
  | falseKw
  | fnKw
  | forKw
  | ifKw
  | implKw
  | inKw
  | letKw
  | loopKw
  | matchKw
  | modKw
  | moveKw
  | mutKw
  | pubKw
  | refKw
  | returnKw
  | selfKw
  | selfTypeKw
  | staticKw
  | structKw
  | superKw
  | traitKw
  | trueKw
  | typeKw
  | unsafeKw
  | useKw
  | whereKw
  | whileKw
deriving DecidableEq, Inhabited

namespace Keyword

/-- The spelling of a keyword. -/
def word : Keyword → String
  | .asKw => "as"
  | .breakKw => "break"
  | .constKw => "const"
  | .continueKw => "continue"
  | .crateKw => "crate"
  | .dynKw => "dyn"
  | .elseKw => "else"
  | .enumKw => "enum"
  | .falseKw => "false"
  | .fnKw => "fn"
  | .forKw => "for"
  | .ifKw => "if"
  | .implKw => "impl"
  | .inKw => "in"
  | .letKw => "let"
  | .loopKw => "loop"
  | .matchKw => "match"
  | .modKw => "mod"
  | .moveKw => "move"
  | .mutKw => "mut"
  | .pubKw => "pub"
  | .refKw => "ref"
  | .returnKw => "return"
  | .selfKw => "self"
  | .selfTypeKw => "Self"
  | .staticKw => "static"
  | .structKw => "struct"
  | .superKw => "super"
  | .traitKw => "trait"
  | .trueKw => "true"
  | .typeKw => "type"
  | .unsafeKw => "unsafe"
  | .useKw => "use"
  | .whereKw => "where"
  | .whileKw => "while"

/-- The keywords, in the order of their declaration. -/
def all : List Keyword := [
  .asKw, .breakKw, .constKw, .continueKw, .crateKw, .dynKw, .elseKw, .enumKw, .falseKw, .fnKw,
  .forKw, .ifKw, .implKw, .inKw, .letKw, .loopKw, .matchKw, .modKw, .moveKw, .mutKw, .pubKw,
  .refKw, .returnKw, .selfKw, .selfTypeKw, .staticKw, .structKw, .superKw, .traitKw, .trueKw,
  .typeKw, .unsafeKw, .useKw, .whereKw, .whileKw]

/-- The keyword of a spelling. -/
def ofWord? (s : String) : Option Keyword := all.find? (·.word == s)

/-- The name of a keyword as a kind of token. -/
def name : Keyword → String
  | .selfKw => "SelfKw"
  | .selfTypeKw => "SelfType"
  | k => k.word.capitalize

/-- The name of a keyword in a printed tree. -/
def label : Keyword → String
  | .selfTypeKw => "SELF_TYPE_KW"
  | k => k.word.toUpper ++ "_KW"

theorem mem_all (k : Keyword) : k ∈ all := by cases k <;> decide

theorem word_of_ofWord? {s : String} {k : Keyword} (h : ofWord? s = some k) : k.word = s := by
  simpa using List.find?_some h

theorem ofWord?_word (k : Keyword) : ofWord? k.word = some k := by
  cases k <;> rfl

theorem word_injective {k l : Keyword} (h : k.word = l.word) : k = l := by
  have := ofWord?_word k
  rw [h, ofWord?_word l] at this
  exact (Option.some.inj this).symm

end Keyword

end Reshape
