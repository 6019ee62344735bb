import Reshape.Token.Keyword

/-!
# Kinds of tokens

* `TokenKind` lists the kinds. Blanks and comments are kinds of their own, the trivia
  (`TokenKind.isTrivia`), so that the tokens of a text make up the whole text.
* A kind has a name (`TokenKind.name`) and a label for printed trees and messages
  (`TokenKind.label`).
-/

namespace Reshape

/-- The kinds of tokens. -/
inductive TokenKind
  | keyword (k : Keyword)
  | plus
  | minus
  | star
  | slash
  | percent
  | caret
  | bang
  | amp
  | pipe
  | ampAmp
  | pipePipe
  | eq
  | eqEq
  | notEq
  | lt
  | gt
  | ltEq
  | gtEq
  /-- An operator followed by an equals sign, such as `+=`. -/
  | compoundAssign
  | atSign
  | dotDot
  | dotDotEq
  | arrow
  | fatArrow
  | colonColon
  | question
  | pound
  | dollar
  | tilde
  | lParen
  | rParen
  | lBracket
  | rBracket
  | lBrace
  | rBrace
  | comma
  | dot
  | colon
  | semicolon
  /-- An integer such as `42`, `0xFF` or `1_000u64`. -/
  | intLiteral
  /-- A number with a fraction, an exponent or the suffix of a float. -/
  | floatLiteral
  /-- A string, also a raw or a byte string. -/
  | stringLiteral
  /-- A character or byte. -/
  | charLiteral
  /-- A lifetime or a label, such as `'a`. -/
  | lifetime
  | ident
  | whitespace
  /-- A line comment or a block comment, documentation included. -/
  | comment
  /-- The empty token at the end of every text. -/
  | eof
  /-- Input that is no token. -/
  | error
deriving DecidableEq, Inhabited

namespace TokenKind

/-- The name of a kind. -/
def name : TokenKind → String
  | .keyword k => k.name
  | .plus => "Plus"
  | .minus => "Minus"
  | .star => "Star"
  | .slash => "Slash"
  | .percent => "Percent"
  | .caret => "Caret"
  | .bang => "Bang"
  | .amp => "Amp"
  | .pipe => "Pipe"
  | .ampAmp => "AmpAmp"
  | .pipePipe => "PipePipe"
  | .eq => "Eq"
  | .eqEq => "EqEq"
  | .notEq => "NotEq"
  | .lt => "Lt"
  | .gt => "Gt"
  | .ltEq => "LtEq"
  | .gtEq => "GtEq"
  | .compoundAssign => "CompoundAssign"
  | .atSign => "At"
  | .dotDot => "DotDot"
  | .dotDotEq => "DotDotEq"
  | .arrow => "Arrow"
  | .fatArrow => "FatArrow"
  | .colonColon => "ColonColon"
  | .question => "Question"
  | .pound => "Pound"
  | .dollar => "Dollar"
  | .tilde => "Tilde"
  | .lParen => "LParen"
  | .rParen => "RParen"
  | .lBracket => "LBracket"
  | .rBracket => "RBracket"
  | .lBrace => "LBrace"
  | .rBrace => "RBrace"
  | .comma => "Comma"
  | .dot => "Dot"
  | .colon => "Colon"
  | .semicolon => "Semicolon"
  | .intLiteral => "IntLiteral"
  | .floatLiteral => "FloatLiteral"
  | .stringLiteral => "StringLiteral"
  | .charLiteral => "CharLiteral"
  | .lifetime => "Lifetime"
  | .ident => "Ident"
  | .whitespace => "Whitespace"
  | .comment => "Comment"
  | .eof => "Eof"
  | .error => "Error"

/-- The name of a kind in printed trees. -/
def label : TokenKind → String
  | .keyword k => k.label
  | .plus => "PLUS"
  | .minus => "MINUS"
  | .star => "STAR"
  | .slash => "SLASH"
  | .percent => "PERCENT"
  | .caret => "CARET"
  | .bang => "BANG"
  | .amp => "AMP"
  | .pipe => "PIPE"
  | .ampAmp => "AMP_AMP"
  | .pipePipe => "PIPE_PIPE"
  | .eq => "EQ"
  | .eqEq => "EQ_EQ"
  | .notEq => "NOT_EQ"
  | .lt => "LT"
  | .gt => "GT"
  | .ltEq => "LT_EQ"
  | .gtEq => "GT_EQ"
  | .compoundAssign => "COMPOUND_ASSIGN"
  | .atSign => "AT"
  | .dotDot => "DOT_DOT"
  | .dotDotEq => "DOT_DOT_EQ"
  | .arrow => "ARROW"
  | .fatArrow => "FAT_ARROW"
  | .colonColon => "COLON_COLON"
  | .question => "QUESTION"
  | .pound => "POUND"
  | .dollar => "DOLLAR"
  | .tilde => "TILDE"
  | .lParen => "L_PAREN"
  | .rParen => "R_PAREN"
  | .lBracket => "L_BRACKET"
  | .rBracket => "R_BRACKET"
  | .lBrace => "L_BRACE"
  | .rBrace => "R_BRACE"
  | .comma => "COMMA"
  | .dot => "DOT"
  | .colon => "COLON"
  | .semicolon => "SEMICOLON"
  | .intLiteral => "INT_LITERAL"
  | .floatLiteral => "FLOAT_LITERAL"
  | .stringLiteral => "STRING_LITERAL"
  | .charLiteral => "CHAR_LITERAL"
  | .lifetime => "LIFETIME"
  | .ident => "IDENT"
  | .whitespace => "WHITESPACE"
  | .comment => "COMMENT"
  | .eof => "EOF"
  | .error => "ERROR"

/-- Blanks and comments. -/
def isTrivia : TokenKind → Bool
  | .whitespace | .comment => true
  | _ => false

end TokenKind

end Reshape
