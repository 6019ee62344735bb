import Reshape.Text.Blank
import Reshape.Text.Letter
import Reshape.Text.Quoted
import Reshape.Token.Kind

/-!
# Lexemes

How the next token of a text is read off its characters. A scanner sees the first character and
those that follow it, and answers with the kind of the token, the number of further characters
that belong to it, and what is wrong with it, if anything is.

* `LexFault` lists what can be wrong, `LexFault.message` is the wording.
* `commentEnd?`, `stringEnd?` and `rawStringEnd?` find the ends of the forms that are closed by a
  delimiter; block comments nest.
* `numberLexeme` reads numerals. Behind a dot a numeral has neither fraction nor exponent, so that
  `t.0.1` selects twice.
* `lexeme` is the scanner for all forms.
-/

namespace Reshape

/-- What can be wrong with a token. -/
inductive LexFault
  | unexpectedCharacter (c : Char)
  | unterminatedString
  | unterminatedChar
  | unterminatedBlockComment
deriving DecidableEq

/-- The wording of a fault. -/
def LexFault.message : LexFault → String
  | .unexpectedCharacter c => "unexpected character: " ++ quoteChar c
  | .unterminatedString => "unterminated string literal"
  | .unterminatedChar => "unterminated character literal"
  | .unterminatedBlockComment => "unterminated block comment"

/-- A token as a scanner sees it: the number of characters is counted without the first one. -/
structure Lexeme where
  kind : TokenKind
  more : Nat
  fault : Option LexFault
deriving DecidableEq

/-- A lexeme of the given kind. -/
def Lexeme.token (kind : TokenKind) (more : Nat) : Lexeme := ⟨kind, more, none⟩

/-- A lexeme that is no token. -/
def Lexeme.faulty (fault : LexFault) (more : Nat) : Lexeme := ⟨.error, more, some fault⟩

/-- The number of leading characters in a class. -/
def runLength (p : Char → Bool) (cs : List Char) : Nat := (cs.takeWhile p).length

/-! ## Delimited forms -/

/-- The number of characters up to the end of a block comment that is already open, with `depth`
comments open inside it. -/
def commentEnd? : Nat → List Char → Option Nat
  | _, [] => none
  | depth, '/' :: '*' :: cs => (commentEnd? (depth + 1) cs).map (· + 2)
  | 0, '*' :: '/' :: _ => some 2
  | depth + 1, '*' :: '/' :: cs => (commentEnd? depth cs).map (· + 2)
  | depth, _ :: cs => (commentEnd? depth cs).map (· + 1)

/-- The number of characters up to the end of a string that is already open. A backslash takes the
next character with it. -/
def stringEnd? : List Char → Option Nat
  | [] => none
  | '"' :: _ => some 1
  | '\\' :: _ :: cs => (stringEnd? cs).map (· + 2)
  | _ :: cs => (stringEnd? cs).map (· + 1)

/-- The number of characters up to the end of a raw string that is already open. It ends at a
quote that is followed by as many hashes as stood before the opening quote. -/
def rawStringEnd? (hashes : Nat) : List Char → Option Nat
  | [] => none
  | c :: cs =>
    if c = '"' ∧ cs.take hashes = List.replicate hashes '#' then some (1 + hashes)
    else (rawStringEnd? hashes cs).map (· + 1)

/-- Whether hashes and a quote follow, as behind the letter that starts a raw string. -/
def rawStringAhead (cs : List Char) : Bool := (cs.dropWhile (· == '#')).head? == some '"'

/-- The length of a literal's suffix, such as `u8`. -/
def suffixLength : List Char → Nat
  | [] => 0
  | c :: cs => if isIdentStart c then runLength isIdentContinue (c :: cs) else 0

/-- A string of which `opened` further characters up to the opening quote are behind us. -/
def stringLexeme (opened : Nat) (cs : List Char) : Lexeme :=
  match stringEnd? cs with
  | some n => .token .stringLiteral (opened + n + suffixLength (cs.drop n))
  | none => .faulty .unterminatedString (opened + cs.length)

/-- A raw string of which `opened` further characters up to the letter are behind us. -/
def rawStringLexeme (opened : Nat) (cs : List Char) : Lexeme :=
  let hashes := runLength (· == '#') cs
  match rawStringEnd? hashes (cs.drop (hashes + 1)) with
  | some n => .token .stringLiteral (opened + hashes + 1 + n)
  | none => .faulty .unterminatedString (opened + cs.length)

/-- The number of characters between the quotes of a character literal; the closing quote may be
missing. An escape by number spans up to its closing brace. -/
def charBodyLength : List Char → Nat
  | '\\' :: 'u' :: '{' :: cs =>
    let inside := runLength (fun c => c != '}' && c != '\'' && c != '\n') cs
    3 + inside + if (cs.drop inside).head? = some '}' then 1 else 0
  | '\\' :: _ :: _ => 2
  | _ :: _ => 1
  | [] => 0

/-- A character literal of which `opened` further characters up to the opening quote are behind
us. It must be closed on its line. -/
def charLexeme (opened : Nat) (cs : List Char) : Lexeme :=
  let n := charBodyLength cs
  if cs.head? = some '\n' then .faulty .unterminatedChar (opened + 1)
  else if (cs.drop n).head? = some '\'' then .token .charLiteral (opened + n + 1)
  else .faulty .unterminatedChar (opened + n)

/-- A quote starts a lifetime, unless the second character behind it is a quote again. -/
def quoteLexeme (cs : List Char) : Lexeme :=
  match cs with
  | c :: ds =>
    if isIdentStart c ∧ ds.head? ≠ some '\'' then .token .lifetime (runLength isIdentContinue cs)
    else charLexeme 0 cs
  | [] => charLexeme 0 cs

/-! ## Numbers -/

/-- The digits of a numeral, which may be grouped by underscores. -/
def isDigitOrGroup (c : Char) : Bool := c.isDigit || c == '_'

/-- The digits of a numeral in base sixteen, which may be grouped by underscores. -/
def isHexDigitOrGroup (c : Char) : Bool :=
  c.isDigit || ('a' ≤ c && c ≤ 'f') || ('A' ≤ c && c ≤ 'F') || c == '_'

/-- The length of a fraction: a dot and digits, the first of which is no underscore. -/
def fractionLength : List Char → Nat
  | '.' :: c :: cs => if c.isDigit then 1 + runLength isDigitOrGroup (c :: cs) else 0
  | _ => 0

/-- The length of an exponent: its letter, a sign or none, and digits. -/
def exponentLength : List Char → Nat
  | e :: s :: cs =>
    if e = 'e' ∨ e = 'E' then
      if s = '+' ∨ s = '-' then
        if (cs.head?.map Char.isDigit).getD false then 2 + runLength isDigitOrGroup cs else 0
      else if s.isDigit then 1 + runLength isDigitOrGroup (s :: cs)
      else 0
    else 0
  | _ => 0

/-- A decimal numeral behind whose first digit `cs` follows. -/
def decimalLexeme (afterDot : Bool) (cs : List Char) : Lexeme :=
  let whole := runLength isDigitOrGroup cs
  let rest := cs.drop whole
  let fraction := if afterDot then 0 else fractionLength rest
  let rest := rest.drop fraction
  let exponent := if afterDot then 0 else exponentLength rest
  let rest := rest.drop exponent
  let kind : TokenKind :=
    if 0 < fraction ∨ 0 < exponent ∨ rest.head? = some 'f' then .floatLiteral else .intLiteral
  .token kind (whole + fraction + exponent + suffixLength rest)

/-- A numeral with the first digit `c`: one that starts with a zero and one of the letters `x`, `o`
and `b` is an integer in another base. -/
def numberLexeme (afterDot : Bool) (c : Char) (cs : List Char) : Lexeme :=
  match cs with
  | b :: ds =>
    if c = '0' ∧ (b = 'x' ∨ b = 'o' ∨ b = 'b') then
      let digits := runLength isHexDigitOrGroup ds
      .token .intLiteral (1 + digits + suffixLength (ds.drop digits))
    else decimalLexeme afterDot cs
  | [] => decimalLexeme afterDot cs

/-! ## Identifiers and operators -/

/-- A word with the first character `c`. -/
def wordLexeme (c : Char) (cs : List Char) : Lexeme :=
  let more := runLength isIdentContinue cs
  match Keyword.ofWord? (String.ofList (c :: cs.take more)) with
  | some k => .token (.keyword k) more
  | none => .token .ident more

/-- An operator that is one character, or another one together with an equals sign behind it. -/
def withEq (plain joined : TokenKind) : List Char → Lexeme
  | '=' :: _ => .token joined 1
  | _ => .token plain 0

/-- A slash, alone or in an assignment, or a comment. A line comment ends before the line feed. -/
def slashLexeme : List Char → Lexeme
  | '/' :: cs => .token .comment (1 + runLength (· != '\n') cs)
  | '*' :: cs =>
    match commentEnd? 0 cs with
    | some n => .token .comment (1 + n)
    | none => .faulty .unterminatedBlockComment (1 + cs.length)
  | cs => withEq .slash .compoundAssign cs

/-- The operators, except those that start with a slash. Of the ones that start with `>` only `>=`
is a token by itself. -/
def operator? (c : Char) (cs : List Char) : Option Lexeme :=
  match c, cs with
  | '(', _ => some (.token .lParen 0)
  | ')', _ => some (.token .rParen 0)
  | '[', _ => some (.token .lBracket 0)
  | ']', _ => some (.token .rBracket 0)
  | '{', _ => some (.token .lBrace 0)
  | '}', _ => some (.token .rBrace 0)
  | ',', _ => some (.token .comma 0)
  | ';', _ => some (.token .semicolon 0)
  | '@', _ => some (.token .atSign 0)
  | '?', _ => some (.token .question 0)
  | '#', _ => some (.token .pound 0)
  | '$', _ => some (.token .dollar 0)
  | '~', _ => some (.token .tilde 0)
  | '>', cs => some (withEq .gt .gtEq cs)
  | '=', '>' :: _ => some (.token .fatArrow 1)
  | '=', cs => some (withEq .eq .eqEq cs)
  | '!', cs => some (withEq .bang .notEq cs)
  | '<', cs => some (withEq .lt .ltEq cs)
  | '&', '&' :: _ => some (.token .ampAmp 1)
  | '&', cs => some (withEq .amp .compoundAssign cs)
  | '|', '|' :: _ => some (.token .pipePipe 1)
  | '|', cs => some (withEq .pipe .compoundAssign cs)
  | '-', '>' :: _ => some (.token .arrow 1)
  | '-', cs => some (withEq .minus .compoundAssign cs)
  | '+', cs => some (withEq .plus .compoundAssign cs)
  | '*', cs => some (withEq .star .compoundAssign cs)
  | '%', cs => some (withEq .percent .compoundAssign cs)
  | '^', cs => some (withEq .caret .compoundAssign cs)
  | ':', ':' :: _ => some (.token .colonColon 1)
  | ':', _ => some (.token .colon 0)
  | '.', '.' :: '=' :: _ => some (.token .dotDotEq 2)
  | '.', '.' :: _ => some (.token .dotDot 1)
  | '.', _ => some (.token .dot 0)
  | _, _ => none

/-- The forms that start with a letter but are no words: strings and bytes with their letters. -/
def prefixed? (c : Char) (cs : List Char) : Option Lexeme :=
  match c, cs with
  | 'r', cs => if rawStringAhead cs then some (rawStringLexeme 0 cs) else none
  | 'b', '"' :: cs => some (stringLexeme 1 cs)
  | 'b', '\'' :: cs => some (charLexeme 1 cs)
  | 'b', 'r' :: cs => if rawStringAhead cs then some (rawStringLexeme 1 cs) else none
  | _, _ => none

/-- The next lexeme of a text with the first character `c`. `afterDot` says that the token before
it, trivia apart, is a dot. -/
def lexeme (afterDot : Bool) (c : Char) (cs : List Char) : Lexeme :=
  if isBlank c then .token .whitespace (runLength isBlank cs)
  else if c = '/' then slashLexeme cs
  else if c.isDigit then numberLexeme afterDot c cs
  else if c = '"' then stringLexeme 0 cs
  else if c = '\'' then quoteLexeme cs
  else match operator? c cs with
    | some l => l
    | none =>
      match prefixed? c cs with
      | some l => l
      | none =>
        if isIdentStart c then wordLexeme c cs
        else .faulty (.unexpectedCharacter c) 0

end Reshape
