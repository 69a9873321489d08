import Sexp.Decimal.Basic

/-!
# Decimals as text

A decimal is written out in full, all its digits kept and the point set where the scale says, unless
that would take too many zeros: more than five between the point and the first digit, or more than
fifteen after the last. Then an exponent stands for the zeros: `1.20E-8` for small numbers, with one
digit before the point, and `15e+16` for large ones, the digits as they are. Nothing at all is
written `0`, whatever its scale.
-/

namespace Sexp.Decimal

/-- How many zeros may stand between the point and the first digit of a number written in full. -/
def maxLeadingZeros : Int := 5

/-- How many zeros a number written in full may take after its last digit. -/
def maxTrailingZeros : Int := 15

def digitChars (n : Nat) : List Char := Nat.toDigits 10 n

/-- `digits` with a point after the first of them, if more follow. -/
def pointAfterFirst : List Char → List Char
  | [] => []
  | [d] => [d]
  | d :: ds => d :: '.' :: ds

/-- `digits`, of which `scale` stand after the point. -/
def withPoint (digits : List Char) (scale : Nat) : List Char :=
  if scale < digits.length then
    digits.take (digits.length - scale) ++ '.' :: digits.drop (digits.length - scale)
  else '0' :: '.' :: (List.replicate (scale - digits.length) '0' ++ digits)

/-- The text of a number that is not nothing, without its sign. -/
def unsignedDisplay (digits : List Char) (scale : Int) : List Char :=
  if maxLeadingZeros < scale - digits.length then
    pointAfterFirst digits ++ 'E' :: '-' :: digitChars (scale - digits.length + 1).toNat
  else if maxTrailingZeros < -scale then digits ++ 'e' :: '+' :: digitChars (-scale).toNat
  else if scale ≤ 0 then digits ++ List.replicate (-scale).toNat '0'
  else withPoint digits scale.toNat

def displayChars (d : Decimal) : List Char :=
  if d.digits = 0 then ['0']
  else
    let unsigned := unsignedDisplay (digitChars d.digits.natAbs) d.scale
    if d.digits < 0 then '-' :: unsigned else unsigned

def display (d : Decimal) : String := String.ofList d.displayChars

end Sexp.Decimal
