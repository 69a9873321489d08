import Sexp.Decimal.Display
import Sexp.Expr.Basic

/-!
# Expressions as text

A list is written in parentheses, a blank between its children; a symbol as it is; a string between
quotes, as it is; a decimal as its own text. Nothing is escaped, so a text that no source spells is
written too, but reads back as something else.
-/

namespace Sexp.Expr

mutual

def displayChars : Expr → List Char
  | list items => '(' :: (displayCharsAll items ++ [')'])
  | symbol name => name.toList
  | string value => '"' :: (value.toList ++ ['"'])
  | number value => value.displayChars

/-- The texts of expressions, a blank between them. -/
def displayCharsAll : List Expr → List Char
  | [] => []
  | [e] => displayChars e
  | e :: es => displayChars e ++ ' ' :: displayCharsAll es

end

def display (e : Expr) : String := String.ofList e.displayChars

/-- The text of expressions in a row, a blank between them. -/
def displayAll (es : List Expr) : String := String.ofList (displayCharsAll es)

end Sexp.Expr
