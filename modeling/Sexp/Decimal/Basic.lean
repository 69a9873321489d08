/-!
# Decimals

A decimal is a whole number of digits together with a scale, the number of those digits that stand
after the point: it is worth `digits` times ten to the power of `-scale`. The scale may be negative
and fills 64 bits with its sign. Several decimals are worth the same, `1` and `1.0` among them;
`Decimal.same` compares what they are worth. It moves the zeros at the end of the digits into the
scale, so no power of ten is ever written out.
-/

namespace Sexp

/-- A whole number of `digits`, of which `scale` stand after the point. -/
structure Decimal where
  digits : Int
  scale : Int
  le_scale : -9223372036854775808 ≤ scale := by omega
  scale_lt : scale < 9223372036854775808 := by omega
  deriving DecidableEq

namespace Decimal

def ofInt (n : Int) : Decimal := ⟨n, 0, by decide, by decide⟩

/-- The decimal with this scale, if 64 bits hold it. -/
def ofScale? (digits scale : Int) : Option Decimal :=
  if h : -9223372036854775808 ≤ scale ∧ scale < 9223372036854775808 then
    some ⟨digits, scale, h.1, h.2⟩
  else none

/-! ### What a decimal is worth -/

/-- A positive number without the zeros at its end, and how many they are; zero as it is. -/
def stripZeros (n : Nat) : Nat × Nat :=
  if h : 0 < n ∧ n % 10 = 0 then
    have : n / 10 < n := Nat.div_lt_self h.1 (by decide)
    ((stripZeros (n / 10)).1, (stripZeros (n / 10)).2 + 1)
  else (n, 0)

theorem stripZeros_mod (n : Nat) (h : 0 < n) : (stripZeros n).1 % 10 ≠ 0 := by
  induction n using stripZeros.induct with
  | case1 n hn _ ih =>
    rw [stripZeros, dif_pos hn]
    exact ih (by omega)
  | case2 n hn => rw [stripZeros, dif_neg hn]; simp; omega

/-- The digits without the zeros at their end, and the scale that goes with them; two zeros for
nothing at all. The scale is taken as a whole number of any size. -/
def reduced (d : Decimal) : Int × Int :=
  if d.digits = 0 then (0, 0)
  else
    let (n, zeros) := stripZeros d.digits.natAbs
    (d.digits.sign * n, d.scale - zeros)

/-- Whether two decimals are worth the same. -/
def same (a b : Decimal) : Bool := a.reduced = b.reduced

theorem same_iff {a b : Decimal} : a.same b = true ↔ a.reduced = b.reduced := by simp [same]

end Decimal
end Sexp
