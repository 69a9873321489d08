import Sexp.Binary64
import Sexp.Decimal.Basic
import Sexp.Json.Basic

/-!
# Decimals from JSON numbers

A whole number that 64 bits hold, with its sign if it is below zero, is taken as it is. Any other
number, zero with a sign too, goes through double precision, and the exact worth of the double is
taken. The double is found from the number's leading digits, as many as 64 bits hold, and one power
of ten: the digits that are left out count as zeros.
-/

namespace Sexp.Json.Number

/-- The leading digits of `n` that 64 bits hold, and how many follow them. -/
def leading (n : Nat) : Nat × Nat :=
  if h : n < UInt64.size then (n, 0)
  else
    have : n / 10 < n := Nat.div_lt_self (by simp only [UInt64.size] at h; omega) (by decide)
    ((leading (n / 10)).1, (leading (n / 10)).2 + 1)

/-- `n` with further digits as long as 64 bits hold it, and how many those are. -/
def appendDigits (n : Nat) : List (Fin 10) → Nat × Nat
  | [] => (n, 0)
  | d :: ds =>
    if n * 10 + d < UInt64.size then
      ((appendDigits (n * 10 + d) ds).1, (appendDigits (n * 10 + d) ds).2 + 1)
    else (n, 0)

/-- The largest power of ten by which a double is multiplied or divided in one step. -/
def maxPower : Nat := 308

/-- The double near `a` times ten to the power of `x`. Powers too small for one division take several;
none is too large for one multiplication unless the product is too large. -/
def scaleByTen? (a : Binary64) (x : Int) : Option Binary64 :=
  if h : x.natAbs ≤ maxPower then do
    let power ← Binary64.ofNat? (Nat.pow 10 x.natAbs)
    if 0 ≤ x then a.mul? power else a.div? power
  else if a.units = 0 then some a
  else if hx : 0 ≤ x then none
  else do
    have : (x + maxPower).natAbs < x.natAbs := by simp only [maxPower] at h ⊢; omega
    let power ← Binary64.ofNat? (Nat.pow 10 maxPower)
    let quotient ← a.div? power
    scaleByTen? quotient (x + maxPower)
termination_by x.natAbs

/-- The double that a number is read as, without its sign. -/
def toBinary64? (n : Number) : Option Binary64 :=
  let (head, dropped) := leading n.whole
  let (digits, appended) := appendDigits head n.fraction
  (Binary64.ofNat? digits).bind fun a =>
    scaleByTen? a (dropped - appended + n.exponent.getD 0)

/-- The whole number that is taken as it is. -/
def wholeNumber? (n : Number) : Option Int :=
  if n.fraction = [] ∧ n.exponent = none then
    if n.negative then
      if 0 < n.whole ∧ n.whole ≤ 9223372036854775808 then some (-n.whole) else none
    else if n.whole < UInt64.size then some n.whole else none
  else none

/-- The decimal that a number stands for, unless it is too large. -/
def toDecimal? (n : Number) : Option Decimal :=
  match n.wholeNumber? with
  | some i => some (.ofInt i)
  | none => do
    let (digits, scale) := (← n.toBinary64?).toDecimal
    Decimal.ofScale? (if n.negative then -digits else digits) scale

end Sexp.Json.Number
