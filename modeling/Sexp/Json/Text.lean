import Sexp.Json.Basic

/-!
# JSON values as text

The text of a value is a row of parts: brackets, braces, commas, colons, and the texts of the values
that have no parts of their own. `Json.parts` gives the row and `Json.Part.chars` the text of each
part; nothing stands between them.
-/

namespace Sexp.Json

inductive Part
  | openArray
  | closeArray
  | openObject
  | closeObject
  | comma
  | colon
  | null
  | bool (value : Bool)
  | number (value : Number)
  | string (value : RawString)
  deriving DecidableEq

/-! ### From a value to its parts -/

mutual

def parts : Json → List Part
  | null => [.null]
  | bool value => [.bool value]
  | number value => [.number value]
  | string value => [.string value]
  | array items => .openArray :: (itemParts items ++ [.closeArray])
  | object members => .openObject :: (memberParts members ++ [.closeObject])

/-- The parts of an array's items, with the commas between them. -/
def itemParts : List Json → List Part
  | [] => []
  | [v] => parts v
  | v :: vs => parts v ++ .comma :: itemParts vs

/-- The parts of an object's members, with the commas between them. -/
def memberParts : List (RawString × Json) → List Part
  | [] => []
  | [(name, v)] => .string name :: .colon :: parts v
  | (name, v) :: ms => .string name :: .colon :: (parts v ++ .comma :: memberParts ms)

end

/-! ### From a part to its text -/

def intChars (n : Int) : List Char :=
  if n < 0 then '-' :: Nat.toDigits 10 n.natAbs else Nat.toDigits 10 n.natAbs

def Number.chars (n : Number) : List Char :=
  (if n.negative then ['-'] else []) ++ Nat.toDigits 10 n.whole ++
    (if n.fraction = [] then [] else '.' :: n.fraction.map fun (d : Fin 10) => Nat.digitChar d) ++
    match n.exponent with
    | none => []
    | some x => 'e' :: intChars x

def Sign.chars : Sign → List Char
  | plain c => [c]
  | escape letter => ['\\', letter]
  | code unit =>
    let n := unit.toNat
    ['\\', 'u', Nat.digitChar (n / 4096), Nat.digitChar (n / 256 % 16),
      Nat.digitChar (n / 16 % 16), Nat.digitChar (n % 16)]

/-- The text of a string, in its quotes. -/
def RawString.chars (s : RawString) : List Char := '"' :: (s.signs.flatMap Sign.chars ++ ['"'])

def Part.chars : Part → List Char
  | openArray => ['[']
  | closeArray => [']']
  | openObject => ['\x7b']
  | closeObject => ['\x7d']
  | comma => [',']
  | colon => [':']
  | null => ['n', 'u', 'l', 'l']
  | bool true => ['t', 'r', 'u', 'e']
  | bool false => ['f', 'a', 'l', 's', 'e']
  | number value => value.chars
  | string value => value.chars

def write (v : Json) : String := String.ofList (v.parts.flatMap Part.chars)

end Sexp.Json
