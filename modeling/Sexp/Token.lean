import Sexp.Position

/-!
# Tokens

A token is one lexeme of a source: its kind, its text as it stands there (a string keeps both its
quotes), and the place of its first byte. The end of the source is a token too, with an empty text.
-/

namespace Sexp

inductive TokenKind
  | leftParen
  | rightParen
  | symbol
  | number
  | string
  | eof
  deriving DecidableEq, Inhabited

namespace TokenKind

/-- The kind as a message names it. -/
def describe : TokenKind → String
  | leftParen => "`(`"
  | rightParen => "`)`"
  | symbol => "symbol"
  | number => "number"
  | string => "string"
  | eof => "end of input"

def all : List TokenKind := [leftParen, rightParen, symbol, number, string, eof]

end TokenKind

/-- A lexeme with its kind and the place of its first byte. -/
structure Token where
  kind : TokenKind
  lexeme : String
  position : Position
  deriving DecidableEq, Inhabited

def Token.isEof (t : Token) : Bool := t.kind = .eof

end Sexp
