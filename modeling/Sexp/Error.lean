import Sexp.Position
import Sexp.Text.Quoted

/-!
# Faults of a source

Each fault that ends the reading of a source, with the place it points at, and the one that can keep
a batch from starting. `Error.message` is the text shown for it.
-/

namespace Sexp

/-- What can go wrong while a source is read. -/
inductive Error
  /-- A string is opened at this place and never closed. -/
  | unterminatedString (position : Position)
  /-- The number that begins at this place is no decimal, for the reason given. -/
  | invalidNumber (lexeme : String) (reason : String) (position : Position)
  /-- A closing parenthesis stands here where no list is open. -/
  | unexpectedRightParen (position : Position)
  /-- The list that is opened at this place, the innermost one left open, is never closed. -/
  | unterminatedList (position : Position)
  /-- The workers of a batch could not be started. -/
  | workersUnavailable (detail : String)
  deriving DecidableEq

inductive Stage
  | lexical
  | syntactic
  | environment
  deriving DecidableEq

namespace Error

def stage : Error → Stage
  | unterminatedString _ => .lexical
  | invalidNumber .. => .syntactic
  | unexpectedRightParen _ => .syntactic
  | unterminatedList _ => .syntactic
  | workersUnavailable _ => .environment

/-- The place the fault points at, if it lies in a source. -/
def position? : Error → Option Position
  | unterminatedString p => some p
  | invalidNumber _ _ p => some p
  | unexpectedRightParen p => some p
  | unterminatedList p => some p
  | workersUnavailable _ => none

def message : Error → String
  | unterminatedString _ => "unterminated string literal"
  | invalidNumber lexeme reason _ =>
    "parsing number " ++ String.ofList (Quoted.encode lexeme.toList) ++ ": " ++ reason
  | unexpectedRightParen _ => "unexpected rparen"
  | unterminatedList _ => "unterminated list"
  | workersUnavailable detail => "failed to create thread pool: " ++ detail

/-- The fault as it is reported when the source itself begins at `origin`. -/
def relativeTo (origin : Position) : Error → Error
  | unterminatedString p => unterminatedString (origin.relativeTo p)
  | invalidNumber lexeme reason p => invalidNumber lexeme reason (origin.relativeTo p)
  | unexpectedRightParen p => unexpectedRightParen (origin.relativeTo p)
  | unterminatedList p => unterminatedList (origin.relativeTo p)
  | workersUnavailable detail => workersUnavailable detail

end Error
end Sexp
