import Sexp.Json.Assembly
import Sexp.Token

/-!
# Tokens as JSON

A token is an object with the members `kind`, `lexeme`, `line` and `column`. A reader takes them in
any order and passes over all others, whatever they hold, strings that stand for no text included;
each of the four must be there once. It takes an array of the four values in that order, too, and for
the kind an object with the kind's name and null.
-/

namespace Sexp

def TokenKind.name : TokenKind → String
  | leftParen => "LeftParen"
  | rightParen => "RightParen"
  | symbol => "Symbol"
  | number => "Number"
  | string => "String"
  | eof => "Eof"

def TokenKind.ofName? (name : String) : Option TokenKind := all.find? fun k => k.name = name

theorem TokenKind.ofName?_name (k : TokenKind) : ofName? k.name = some k := by cases k <;> decide

namespace Token

def toJson (t : Token) : Json :=
  .ofMembers [("kind", .ofString t.kind.name), ("lexeme", .ofString t.lexeme),
    ("line", .ofNat t.position.line), ("column", .ofNat t.position.column)]

def writeJson (t : Token) : String := t.toJson.write

/-! ### Reading -/

/-- The members of an object with their names read, if every name can be. -/
def namedMembers? (members : List (Json.RawString × Json)) : Option (List (String × Json)) :=
  members.mapM fun m => m.1.decode?.map fun name => (name, m.2)

/-- The only value that goes by a name, if exactly one does. -/
def member? (members : List (String × Json)) (name : String) : Option Json :=
  match members.filter fun m => m.1 = name with
  | [m] => some m.2
  | _ => none

def kindOfJson? : Json → Option TokenKind
  | .string name => name.decode?.bind TokenKind.ofName?
  | .object [(name, .null)] => name.decode?.bind TokenKind.ofName?
  | _ => none

def textOfJson? : Json → Option String
  | .string text => text.decode?
  | _ => none

/-- The count that a JSON value gives: a whole number from zero on that 64 bits hold, written without
a sign, a fraction or an exponent. -/
def countOfJson? : Json → Option Nat
  | .number ⟨false, n, [], none⟩ => if n < UInt64.size then some n else none
  | _ => none

/-- The token that the JSON values of its four members give. -/
def ofValues? (kind lexeme line column : Json) : Option Token := do
  return ⟨← kindOfJson? kind, ← textOfJson? lexeme, ← countOfJson? line, ← countOfJson? column⟩

def ofJson? : Json → Option Token
  | .object members => do
    let named ← namedMembers? members
    let kind ← member? named "kind"
    let lexeme ← member? named "lexeme"
    let line ← member? named "line"
    let column ← member? named "column"
    ofValues? kind lexeme line column
  | .array [kind, lexeme, line, column] => ofValues? kind lexeme line column
  | _ => none

def readJson? (text : String) : Option Token := (Json.read? text).bind ofJson?

end Token
end Sexp
