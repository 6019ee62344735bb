import Reshape.Grammar.Rules
import Reshape.Token.Lexer

/-!
# Parsing

* `parseFile` and `parseExpr` read a text as a file and as a single expression. `parseWithin` reads
  it with any grammar and any bound on the depth of names inside names.
* A tree comes out of every text. `Parse.problems` are the faults of the tokens and those that the
  parser found, in the order of their places.
-/

namespace Reshape

/-- A syntax tree, and what is wrong with the text. -/
structure Parse where
  tree : Tree
  problems : List Problem

/-- Whether nothing is wrong with the text. -/
def Parse.ok (p : Parse) : Bool := p.problems.isEmpty

/-- The faults of the tokens of a text as problems. -/
def lexProblems (text : String) : List Problem :=
  (lexErrors text).map fun (s, f) => ⟨.lexical f, s, none⟩

/-- The parser before it reads the first token of a text. -/
def ParserState.initial (text : String) : ParserState where
  rest := lexTokens text
  ops := []
  problems := (lexProblems text).reverse
  finish := text.utf8ByteSize
  exhausted := false

/-- A bound on the depth of names inside names: at most a few of them start at each token. -/
def nestingBound (tokens : List Token) : Nat := 8 * (tokens.length + 1)

/-- The parser after it has read a text with a grammar, with names inside names at most `depth`
deep. -/
def parserAfter (depth : Nat) (g : Grammar Unit) (text : String) : ParserState :=
  (g.run (Grammar.runRule depth) (.initial text)).2

/-- Reads a text with a grammar, with names inside names at most `depth` deep. -/
def parseWithin (depth : Nat) (g : Grammar Unit) (text : String) : Parse :=
  let s := parserAfter depth g text
  ⟨treeOfOps s.ops.reverse (lexTokens text),
    s.problems.reverse.mergeSort fun p q => p.span.start ≤ q.span.start⟩

/-- Reads a text with a grammar. -/
def parseWith (g : Grammar Unit) (text : String) : Parse :=
  parseWithin (nestingBound (lexTokens text)) g text

/-- Reads a text as a file. -/
def parseFile (text : String) : Parse := parseWith Grammar.sourceFile text

/-- Reads a text as a single expression. -/
def parseExpr (text : String) : Parse := parseWith Grammar.loneExpr text

end Reshape
