import Sexp.Json.RawString

/-!
# JSON values

A value as its text gives it: a number keeps its digits and its exponent, a string its escapes, and an
object its members in order, a name that occurs twice included, since a reader of such a value may
have to refuse it.
-/

namespace Sexp

/-- A number as it is written: sign, digits before the point, digits after it, exponent. -/
structure Json.Number where
  negative : Bool
  whole : Nat
  fraction : List (Fin 10)
  exponent : Option Int
  deriving DecidableEq

inductive Json
  | null
  | bool (value : Bool)
  | number (value : Json.Number)
  | string (value : Json.RawString)
  | array (items : List Json)
  | object (members : List (Json.RawString × Json))
  deriving Inhabited

namespace Json

/-! ### Making values -/

def ofNat (n : Nat) : Json := .number ⟨false, n, [], none⟩

def ofString (text : String) : Json := .string (.ofString text)

/-- An object with members of these names, in order. -/
def ofMembers (members : List (String × Json)) : Json :=
  .object (members.map fun m => (.ofString m.1, m.2))

/-! ### Depth -/

mutual

/-- How deep arrays and objects are nested. -/
def depth : Json → Nat
  | array items => itemsDepth items + 1
  | object members => membersDepth members + 1
  | _ => 0

def itemsDepth : List Json → Nat
  | [] => 0
  | v :: vs => max (depth v) (itemsDepth vs)

def membersDepth : List (RawString × Json) → Nat
  | [] => 0
  | (_, v) :: ms => max (depth v) (membersDepth ms)

end

end Json
end Sexp
