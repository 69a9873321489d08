import Mathlib.Algebra.Field.Rat
import Mathlib.Data.Int.CharZero
import Sexp.Proofs.DecimalText
import Sexp.Proofs.Spelling

/-!
# What expressions are worth

A decimal is worth its digits times a power of ten, as a fraction (`Decimal.worth`). Two decimals are the
same exactly when they are worth as much (`Decimal.same_iff_worth`), and exactly when both are nothing or
both have one trimmed form (`Decimal.same_iff_trimmed`); a decimal that is not nothing has one such form,
whatever its scale (`Decimal.existsUnique_trimmed`). Expressions are the same exactly when they are worth
the same tree (`Expr.same_iff_worth`).
-/

namespace Sexp

/-! ### Powers of ten -/

section Tens

variable {m n c k : ℤ}

theorem ten_zpow_ne_zero (k : ℤ) : (10 : ℚ) ^ k ≠ 0 := zpow_ne_zero k (by decide)

/-- Powers of ten compared at the larger scale, where both have whole digits. -/
theorem mul_tens_eq_iff (h : c ≤ k) :
    (m : ℚ) * 10 ^ (-c) = n * 10 ^ (-k) ↔ m * (Nat.pow 10 (k - c).toNat : Nat) = n := by
  have hsplit : (10 : ℚ) ^ (-c) = (Nat.pow 10 (k - c).toNat : Nat) * 10 ^ (-k) := by
    have hsum : -c = ((k - c).toNat : ℤ) + -k := by omega
    rw [hsum, zpow_add₀ (by decide), zpow_natCast]
    exact congrArg (· * (10 : ℚ) ^ (-k)) (Nat.cast_pow 10 _).symm
  rw [hsplit, ← mul_assoc, mul_left_inj' (ten_zpow_ne_zero _), ← Int.cast_natCast, ← Int.cast_mul,
    Int.cast_inj]

/-- Digits that do not end in zero are those of one number at one scale only. -/
theorem trimmed_inj_of_le (hn : ¬ (10 : ℤ) ∣ n) (h : c ≤ k)
    (heq : (m : ℚ) * 10 ^ (-c) = n * 10 ^ (-k)) : m = n ∧ c = k := by
  rw [mul_tens_eq_iff h] at heq
  obtain ⟨j, hj⟩ := Int.eq_ofNat_of_zero_le (by omega : 0 ≤ k - c)
  rw [hj, Int.toNat_natCast] at heq
  cases j with
  | zero =>
    refine ⟨?_, by omega⟩
    rw [← heq]
    exact (Int.mul_one m).symm
  | succ j =>
    refine absurd ?_ hn
    rw [← heq, Nat.pow_eq, Nat.pow_succ, Int.natCast_mul, ← Int.mul_assoc]
    exact Int.dvd_mul_left _ _

theorem trimmed_inj (hm : ¬ (10 : ℤ) ∣ m) (hn : ¬ (10 : ℤ) ∣ n)
    (heq : (m : ℚ) * 10 ^ (-c) = n * 10 ^ (-k)) : m = n ∧ c = k := by
  rcases le_total c k with h | h
  · exact trimmed_inj_of_le hn h heq
  · obtain ⟨hdigits, hscale⟩ := trimmed_inj_of_le hm h heq.symm
    exact ⟨hdigits.symm, hscale.symm⟩

end Tens

/-! ### Decimals -/

namespace Decimal

variable {a b d : Decimal} {n c : ℤ}

def worth (d : Decimal) : ℚ := d.digits * (10 : ℚ) ^ (-d.scale)

theorem same_comm : a.same b = true ↔ b.same a = true := by
  rw [same_iff, same_iff, eq_comm]

theorem same_iff_worth : a.same b = true ↔ a.worth = b.worth := by
  rcases le_total a.scale b.scale with h | h
  · rw [same_iff_of_le h, worth, worth, mul_tens_eq_iff h]
  · rw [same_comm, same_iff_of_le h, worth, worth, eq_comm (a := (a.digits : ℚ) * _),
      mul_tens_eq_iff h]

/-- The digits are `n` and then zeros, which the scale `c` does not count; `n` does not end in a zero. No
bound is set to `c`, which may lie outside the scales of decimals. -/
structure Trimmed (d : Decimal) (n c : ℤ) : Prop where
  ends : ¬ (10 : ℤ) ∣ n
  zeros : ∃ k : ℕ, d.digits = n * (Nat.pow 10 k : Nat) ∧ d.scale = c + k

theorem Trimmed.worth_eq (h : d.Trimmed n c) : (n : ℚ) * 10 ^ (-c) = d.worth := by
  obtain ⟨k, hdigits, hscale⟩ := h.zeros
  have hcount : (d.scale - c).toNat = k := by omega
  rw [worth, mul_tens_eq_iff (by omega), hcount, hdigits]

theorem trimmed_reduced (h : d.digits ≠ 0) : d.Trimmed d.reduced.1 d.reduced.2 := by
  have hmod := stripZeros_mod d.digits.natAbs (by omega)
  have hpair : d.reduced = (d.digits.sign * (stripZeros d.digits.natAbs).1,
      d.scale - (stripZeros d.digits.natAbs).2) := by rw [reduced, if_neg h]
  refine ⟨fun hdvd => ?_, (stripZeros d.digits.natAbs).2, ?_, ?_⟩
  · rw [hpair, Int.dvd_natAbs.symm, Int.natAbs_mul, Int.natAbs_sign_of_ne_zero h, Nat.one_mul,
      Int.natAbs_natCast] at hdvd
    omega
  · have hdigits := d.digits_eq_reduced
    have hcount : (d.scale - d.reduced.2).toNat = (stripZeros d.digits.natAbs).2 := by
      rw [hpair]
      omega
    rwa [hcount] at hdigits
  · rw [hpair]
    omega

theorem existsUnique_trimmed (h : d.digits ≠ 0) : ∃! p : ℤ × ℤ, d.Trimmed p.1 p.2 := by
  refine ⟨d.reduced, trimmed_reduced h, fun p hp => ?_⟩
  have hred := trimmed_reduced h
  obtain ⟨hdigits, hscale⟩ := trimmed_inj hp.ends hred.ends (hp.worth_eq.trans hred.worth_eq.symm)
  exact Prod.ext hdigits hscale

theorem same_iff_trimmed :
    a.same b = true ↔ a.digits = 0 ∧ b.digits = 0 ∨ ∃ n c, a.Trimmed n c ∧ b.Trimmed n c := by
  rw [same_iff]
  constructor
  · intro h
    by_cases ha : a.digits = 0
    · refine .inl ⟨ha, ?_⟩
      rw [b.digits_eq_reduced, ← h, reduced, if_pos ha]
      exact Int.zero_mul _
    · have hb : b.digits ≠ 0 := by
        intro hzero
        have hdigits := a.digits_eq_reduced
        rw [h, reduced, if_pos hzero] at hdigits
        exact ha (hdigits.trans (Int.zero_mul _))
      have hred := trimmed_reduced hb
      rw [← h] at hred
      exact .inr ⟨_, _, trimmed_reduced ha, hred⟩
  · rintro (⟨ha, hb⟩ | ⟨n, c, ha, hb⟩)
    · rw [reduced, reduced, if_pos ha, if_pos hb]
    · exact same_iff.1 (same_iff_worth.2 (ha.worth_eq.symm.trans hb.worth_eq))

end Decimal

/-! ### Expressions -/

/-- A tree as an expression is, with fractions for its decimals. -/
inductive Worth
  | list (items : List Worth)
  | symbol (name : String)
  | string (value : String)
  | number (value : ℚ)

namespace Expr

mutual

def worth : Expr → Worth
  | list items => .list (worthAll items)
  | symbol name => .symbol name
  | string value => .string value
  | number value => .number value.worth

def worthAll : List Expr → List Worth
  | [] => []
  | e :: es => worth e :: worthAll es

end

section Trees

variable {e : Expr} {es : List Expr} (he : ∀ f, e.same f = true ↔ e.worth = f.worth)
  (hes : ∀ fs, sameAll es fs = true ↔ worthAll es = worthAll fs)

include he hes

theorem sameAll_cons_iff_worth (fs : List Expr) :
    sameAll (e :: es) fs = true ↔ worthAll (e :: es) = worthAll fs := by
  cases fs with
  | nil => simp [sameAll, worthAll]
  | cons f fs => rw [sameAll, worthAll, worthAll, Bool.and_eq_true, he, hes, List.cons.injEq]

end Trees

theorem sameAll_iff_worth (es fs : List Expr) :
    sameAll es fs = true ↔ worthAll es = worthAll fs := by
  induction es using forest_induction generalizing fs with
  | nil => cases fs <;> simp [sameAll, worthAll]
  | symbol name es hes =>
    have he (f : Expr) : (Expr.symbol name).same f = true ↔ (Expr.symbol name).worth = f.worth := by
      cases f <;> simp [same, worth]
    exact sameAll_cons_iff_worth he hes fs
  | string value es hes =>
    have he (f : Expr) : (Expr.string value).same f = true ↔ (Expr.string value).worth = f.worth := by
      cases f <;> simp [same, worth]
    exact sameAll_cons_iff_worth he hes fs
  | number value es hes =>
    have he (f : Expr) : (Expr.number value).same f = true ↔ (Expr.number value).worth = f.worth := by
      cases f <;> simp [same, worth, Decimal.same_iff_worth]
    exact sameAll_cons_iff_worth he hes fs
  | list items es hitems hes =>
    have he (f : Expr) : (Expr.list items).same f = true ↔ (Expr.list items).worth = f.worth := by
      cases f <;> simp [same, worth, hitems]
    exact sameAll_cons_iff_worth he hes fs

theorem same_iff_worth (e f : Expr) : e.same f = true ↔ e.worth = f.worth := by
  have hall := sameAll_iff_worth [e] [f]
  simpa [sameAll, worthAll] using hall

theorem same_equivalence : Equivalence fun e f : Expr => e.same f = true := by
  refine ⟨fun e => ?_, fun {e f} h => ?_, fun {e f g} hef hfg => ?_⟩
  · exact (same_iff_worth e e).2 rfl
  · exact (same_iff_worth f e).2 ((same_iff_worth e f).1 h).symm
  · exact (same_iff_worth e g).2 (((same_iff_worth e f).1 hef).trans ((same_iff_worth f g).1 hfg))

end Expr
end Sexp
