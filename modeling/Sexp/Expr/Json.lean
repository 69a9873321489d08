import Sexp.Decimal.Display
import Sexp.Decimal.Literal
import Sexp.Expr.Basic
import Sexp.Json.Assembly
import Sexp.Json.Decimal

/-!
# Expressions as JSON

An expression is an object with one member, which is named for its kind: `List` with an array of
expressions, `Symbol` and `StringLiteral` with a string, `Number` with the decimal's text as a
string. A reader takes a JSON number for a decimal, too, and an object that wraps one; it refuses a
text whose arrays and objects are nested deeper than `maxDepth`, which a writer does not look at.
-/

namespace Sexp.Expr

/-! ### Writing -/

mutual

def toJson : Expr → Json
  | list items => .ofMembers [("List", .array (toJsonAll items))]
  | symbol name => .ofMembers [("Symbol", .ofString name)]
  | string value => .ofMembers [("StringLiteral", .ofString value)]
  | number value => .ofMembers [("Number", .ofString value.display)]

def toJsonAll : List Expr → List Json
  | [] => []
  | e :: es => toJson e :: toJsonAll es

end

/-! ### Reading -/

/-- The name of the one member of an object that stands for the number it holds. -/
def wrapperName : String := "$serde_json::private::Number"

/-- The decimal that a JSON value gives: a string that spells it, a number, or an object that holds
one of these, or another such object, under `wrapperName`, which is written without escapes. -/
def decimalOfJson? : Json → Option Decimal
  | .string text => text.decode?.bind fun t => (Decimal.read t).toOption
  | .number n => n.toDecimal?
  | .object [(name, value)] =>
    if name.verbatim? = some wrapperName then decimalOfJson? value else none
  | _ => none

/-- The expression that is no list of a JSON object's one member. -/
def atomOfMember? (kind : String) (value : Json) : Option Expr :=
  match kind, value with
  | "Symbol", .string name => name.decode?.map symbol
  | "StringLiteral", .string text => text.decode?.map string
  | "Number", value => (decimalOfJson? value).map number
  | _, _ => none

mutual

/-- The expression that a JSON value gives, if it gives one. -/
def ofJson? : Json → Option Expr
  | .object [(name, .array items)] =>
    if name.decode? = some "List" then (ofJsonAll? items).map list else none
  | .object [(name, value)] => name.decode?.bind fun kind => atomOfMember? kind value
  | _ => none

def ofJsonAll? : List Json → Option (List Expr)
  | [] => some []
  | v :: vs => do
    let e ← ofJson? v
    let es ← ofJsonAll? vs
    return e :: es

end

def listOfJson? : Json → Option (List Expr)
  | .array items => ofJsonAll? items
  | _ => none

def writeJson (es : List Expr) : String := (Json.array (toJsonAll es)).write

/-- How deep arrays and objects may be nested in a text that is read. -/
def maxDepth : Nat := 127

/-- The expressions that a JSON text gives, unless it is nested too deep. -/
def readJson? (text : String) : Option (List Expr) :=
  (Json.read? text).bind fun v => if v.depth ≤ maxDepth then listOfJson? v else none

end Sexp.Expr
