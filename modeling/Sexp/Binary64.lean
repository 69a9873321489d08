/-!
# Double precision

The numbers from zero on that double precision holds: whole multiples of 2^-1074 below 2^1024 with
at most 53 binary digits between the first and the last that is not zero. Each operation answers the
double nearest to the exact result, of two equally near the one whose last digit is even, and none
if that would be 2^1024 or more.
-/

namespace Sexp

/-- A double from zero on, counted in units of 2^-1074. -/
structure Binary64 where
  units : Nat
  deriving DecidableEq

namespace Binary64

def one : Nat := 1 <<< 1074

/-- How many units are too many. -/
def limit : Nat := 1 <<< 2098

def precision : Nat := 53

/-- The whole number nearest to `n / d`, of two equally near the even one. -/
def roundQuotient (n d : Nat) : Nat :=
  let q := n / d
  let r := n % d
  if 2 * r < d ∨ (2 * r = d ∧ q % 2 = 0) then q else q + 1

/-- The double nearest to `n / d`. -/
def ofQuotient? (n d : Nat) : Option Binary64 :=
  let n := n * one
  let step := 1 <<< ((n / d).log2 - (precision - 1))
  let units := roundQuotient n (d * step) * step
  if units < limit then some ⟨units⟩ else none

def ofNat? (n : Nat) : Option Binary64 := ofQuotient? n 1

def mul? (a b : Binary64) : Option Binary64 := ofQuotient? (a.units * b.units) (one * one)

def div? (a b : Binary64) : Option Binary64 := ofQuotient? a.units b.units

/-- How many units the least double has that keeps all its digits. Doubles below it are counted in
single units. -/
def minNormal : Nat := 1 <<< 52

/-- The digits of the double's exact worth, and how many of them stand after the point: as few as will
do, but for a double below `minNormal` the 1074 that one unit has. -/
def toDecimal (a : Binary64) : Nat × Nat :=
  let common := if 0 < a.units ∧ a.units < minNormal then 1 else a.units.gcd one
  let scale := (one / common).log2
  (a.units / common * Nat.pow 5 scale, scale)

end Binary64
end Sexp
