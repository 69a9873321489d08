import Sexp.Decimal.Literal
import Sexp.Error
import Sexp.Expr.Basic
import Sexp.Token

/-!
# Expressions from tokens

A builder holds the expressions read so far and the lists that are open, the innermost first. One
token is added at a time (`Builder.push`), and `Builder.finish` gives the expressions when no list is
open. The first token that does not fit is a fault: a closing parenthesis where no list is open, a
number that is no decimal, or the end of the source inside a list.
-/

namespace Sexp

/-- A list that is open: the place of its parenthesis, and the children read so far, newest first. -/
structure Frame where
  opened : Position
  items : List Expr

/-- What has been read of a source: the finished expressions, newest first, and the open lists,
innermost first. -/
structure Builder where
  done : List Expr
  frames : List Frame

def unquoted (lexeme : String) : String := String.ofList lexeme.toList.tail.dropLast

/-- The expression that a text spells as a decimal, with a sign and an exponent or without. -/
def Expr.readNumber (text : String) : Except NumberError Expr := (Decimal.read text).map .number

/-- The expression that a number lexeme spells. -/
def Token.number (t : Token) : Except Error Expr :=
  match Decimal.read t.lexeme with
  | .ok value => .ok (.number value)
  | .error fault => .error (.invalidNumber t.lexeme fault.message t.position)

namespace Builder

def empty : Builder := ⟨[], []⟩

/-- One more expression, in the innermost open list if there is one. -/
def add (b : Builder) (e : Expr) : Builder :=
  match b.frames with
  | [] => { b with done := e :: b.done }
  | f :: fs => { b with frames := { f with items := e :: f.items } :: fs }

def openList (b : Builder) (p : Position) : Builder := { b with frames := ⟨p, []⟩ :: b.frames }

/-- The innermost open list is closed; `p` is the place of the parenthesis that closes it. -/
def closeList (b : Builder) (p : Position) : Except Error Builder :=
  match b.frames with
  | [] => .error (.unexpectedRightParen p)
  | f :: fs => .ok ({ b with frames := fs }.add (.list f.items.reverse))

/-- One more token. The end of the source adds nothing. -/
def push (b : Builder) (t : Token) : Except Error Builder :=
  match t.kind with
  | .leftParen => .ok (b.openList t.position)
  | .rightParen => b.closeList t.position
  | .symbol => .ok (b.add (.symbol t.lexeme))
  | .string => .ok (b.add (.string (unquoted t.lexeme)))
  | .number => t.number.map b.add
  | .eof => .ok b

/-- The expressions, when the source ends here. -/
def finish (b : Builder) : Except Error (List Expr) :=
  match b.frames with
  | [] => .ok b.done.reverse
  | f :: _ => .error (.unterminatedList f.opened)

end Builder
end Sexp
