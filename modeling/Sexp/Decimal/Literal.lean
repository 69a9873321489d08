import Sexp.Decimal.Basic

/-!
# Decimals from text

A decimal is written as digits, with a point among them or not, and then perhaps `e` or `E` and an
exponent. One sign may stand before the digits and one before those of the exponent; between the
digits, but not before them, underscores may stand, which mean nothing. The point may stand anywhere
before the exponent, even before the sign. The exponent fills at most 128 bits with its sign, and
what it leaves of the scale at most 64.

`Decimal.read` looks at the exponent first, then whether anything stands before it, then at the
scale, and at the digits last; the first fault it meets is the one it reports.
-/

namespace Sexp

inductive IntegerFault
  | empty
  | badDigit
  | tooLarge
  | tooSmall
  deriving DecidableEq

def IntegerFault.message : IntegerFault → String
  | empty => "cannot parse integer from empty string"
  | badDigit => "invalid digit found in string"
  | tooLarge => "number too large to fit in target type"
  | tooSmall => "number too small to fit in target type"

/-- Why a text is no decimal. -/
inductive NumberError
  /-- What stands after `e` is no exponent. -/
  | exponent (fault : IntegerFault)
  | noDigits
  /-- The scale of this text needs more than 64 bits. -/
  | scale (text : String)
  /-- What stands before `e`, without its point, is no whole number. -/
  | digits (fault : IntegerFault)
  deriving DecidableEq

def NumberError.message : NumberError → String
  | exponent fault => fault.message
  | noDigits => "Failed to parse empty string"
  | scale text => "Exponent overflow when parsing '" ++ text ++ "'"
  | digits fault => fault.message

namespace Decimal

/-! ### The exponent -/

def isExponentMark (c : Char) : Bool := c == 'e' || c == 'E'

/-- One more than the largest exponent, which 128 bits hold with its sign; the smallest is its
opposite. -/
def exponentLimit : Int := 170141183460469231731687303715884105728

def digitValue (c : Char) : Nat := c.toNat - 48

/-- The exponent that `value` and the digits after it spell, below zero if `negative`. A character
that is no digit is seen before the number that it would end grows too large. -/
def exponentFrom (negative : Bool) (value : Int) : List Char → Except IntegerFault Int
  | [] => .ok value
  | c :: cs =>
    if c.isDigit then
      let next := if negative then value * 10 - digitValue c else value * 10 + digitValue c
      if next < -exponentLimit then .error .tooSmall
      else if exponentLimit ≤ next then .error .tooLarge
      else exponentFrom negative next cs
    else .error .badDigit

/-- The exponent that a text spells: one sign or none, then digits. A sign alone is a bad digit. -/
def exponentOf : List Char → Except IntegerFault Int
  | [] => .error .empty
  | ['+'] => .error .badDigit
  | ['-'] => .error .badDigit
  | '+' :: cs => exponentFrom false 0 cs
  | '-' :: cs => exponentFrom true 0 cs
  | cs => exponentFrom false 0 cs

/-- What stands before the first exponent mark. -/
def mantissa (text : List Char) : List Char := text.takeWhile (!isExponentMark ·)

/-- The exponent of a whole text: what the characters after its first exponent mark spell, zero if
it has no such mark. -/
def exponent (text : List Char) : Except IntegerFault Int :=
  match text.dropWhile (!isExponentMark ·) with
  | [] => .ok 0
  | _ :: cs => exponentOf cs

/-! ### The digits -/

/-- The whole number that digits spell, with underscores among them but not before them. -/
def unsignedOf : List Char → Except IntegerFault Nat
  | [] => .error .empty
  | c :: cs =>
    if c.isDigit && cs.all fun d => d.isDigit || d == '_' then
      .ok (Nat.ofDigitChars 10 ((c :: cs).filter (· != '_')) 0)
    else .error .badDigit

/-- The whole number that a text spells: one sign or none, then digits. -/
def integerOf : List Char → Except IntegerFault Int
  | '-' :: cs => (unsignedOf cs).map fun n => -(n : Int)
  | '+' :: cs => (unsignedOf cs).map fun n => (n : Int)
  | cs => (unsignedOf cs).map fun n => (n : Int)

/-- How many characters other than underscores stand after the first point. -/
def fractionLength (mantissa : List Char) : Nat :=
  match mantissa.dropWhile (· != '.') with
  | [] => 0
  | _ :: fraction => (fraction.filter (· != '_')).length

/-! ### The whole -/

/-- The decimal that a text spells, or the first of its faults. -/
def read (text : String) : Except NumberError Decimal :=
  let m := mantissa text.toList
  match exponent text.toList with
  | .error fault => .error (.exponent fault)
  | .ok x =>
    if m = [] then .error .noDigits
    else
      let scale := fractionLength m - x
      if h : -9223372036854775808 ≤ scale ∧ scale < 9223372036854775808 then
        match integerOf (m.erase '.') with
        | .error fault => .error (.digits fault)
        | .ok n => .ok ⟨n, scale, h.1, h.2⟩
      else .error (.scale text)

end Decimal
end Sexp
