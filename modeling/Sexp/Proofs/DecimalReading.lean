import Sexp.Proofs.DecimalText

/-!
# Reading back what a decimal is written as

The text of a decimal is read as `Decimal.settled` says: digits and scale are those of the decimal,
unless zeros were written for a scale below zero or the decimal is nothing (`read_display`). That is
worth as much as the decimal (`settled_same`) and is written the same (`display_settled`).
-/

namespace Sexp.Decimal

/-! ### Exponents -/

/-- A whole number, below zero if `negative`. -/
def signed (negative : Bool) (n : Nat) : Int := if negative then -n else n

theorem signed_mul_ten (negative : Bool) (n k : Nat) :
    (if negative then signed negative n * 10 - k else signed negative n * 10 + k) =
      signed negative (10 * n + k) := by
  unfold signed
  cases negative
  · rw [if_neg Bool.false_ne_true, if_neg Bool.false_ne_true, if_neg Bool.false_ne_true]
    omega
  · rw [if_pos rfl, if_pos rfl, if_pos rfl]
    omega

theorem le_ofDigitChars (ds : List Char) (n : Nat) : n ≤ Nat.ofDigitChars 10 ds n := by
  induction ds generalizing n with
  | nil => exact Nat.le_refl n
  | cons d ds ih =>
    rw [Nat.ofDigitChars_cons]
    exact Nat.le_trans (by omega) (ih _)

/-- 128 bits hold the number with its sign. -/
def FitsExponent (x : Int) : Prop := -exponentLimit ≤ x ∧ x < exponentLimit

theorem FitsExponent.of_le {negative : Bool} {m n : Nat} (h : FitsExponent (signed negative n))
    (hle : m ≤ n) : FitsExponent (signed negative m) := by
  unfold FitsExponent signed at h ⊢
  have hlimit : 0 < exponentLimit := by decide
  cases negative
  · rw [if_neg Bool.false_ne_true] at h ⊢
    omega
  · rw [if_pos rfl] at h ⊢
    omega

/-- Digits and nothing else are an exponent, as long as 128 bits hold what they spell. -/
theorem exponentFrom_eq_ok_iff (ds : List Char) {negative : Bool} {n : Nat} {x : Int}
    (hn : FitsExponent (signed negative n)) :
    exponentFrom negative (signed negative n) ds = .ok x ↔
      (∀ c ∈ ds, c.isDigit = true) ∧ x = signed negative (Nat.ofDigitChars 10 ds n) ∧
        FitsExponent x := by
  induction ds generalizing n with
  | nil =>
    rw [exponentFrom, Nat.ofDigitChars_nil, Except.ok.injEq]
    constructor
    · rintro rfl
      exact ⟨List.forall_mem_nil _, rfl, hn⟩
    · rintro ⟨_, hx, _⟩
      exact hx.symm
  | cons d ds ih =>
    have hvalue : d.toNat - '0'.toNat = digitValue d := rfl
    rw [exponentFrom, Nat.ofDigitChars_cons, hvalue, List.forall_mem_cons]
    by_cases hd : d.isDigit = true
    · have hnext := signed_mul_ten negative n (digitValue d)
      rw [if_pos hd]
      simp only [hnext]
      by_cases hfits : FitsExponent (signed negative (10 * n + digitValue d))
      · obtain ⟨hlow, hhigh⟩ := hfits
        rw [if_neg (by omega), if_neg (by omega), ih ⟨hlow, hhigh⟩]
        exact ⟨fun h => ⟨⟨hd, h.1⟩, h.2⟩, fun h => ⟨h.1.2, h.2⟩⟩
      · -- What follows only leads further away from zero.
        have hle := le_ofDigitChars ds (10 * n + digitValue d)
        constructor
        · intro h
          split at h
          · cases h
          split at h
          · cases h
          · exact absurd ⟨by omega, by omega⟩ hfits
        · rintro ⟨_, rfl, hx⟩
          exact absurd (hx.of_le hle) hfits
    · rw [if_neg hd]
      exact ⟨fun h => (by cases h), fun h => absurd h.1.1 hd⟩

theorem exponentFrom_zero_eq_ok_iff {ds : List Char} {negative : Bool} {x : Int} :
    exponentFrom negative 0 ds = .ok x ↔
      (∀ c ∈ ds, c.isDigit = true) ∧ x = signed negative (Nat.ofDigitChars 10 ds 0) ∧
        FitsExponent x := by
  have hzero : signed negative 0 = 0 := by cases negative <;> rfl
  have hfits : FitsExponent (signed negative 0) := by
    rw [hzero]
    exact ⟨by decide, by decide⟩
  have hiff := exponentFrom_eq_ok_iff ds (x := x) hfits
  rw [hzero] at hiff
  exact hiff

theorem exponentFrom_digitChars (negative : Bool) {n : Nat} (h : n < exponentLimit) :
    exponentFrom negative 0 (digitChars n) = .ok (signed negative n) := by
  rw [exponentFrom_zero_eq_ok_iff, ofDigitChars_digitChars]
  refine ⟨isDigit_digitChars, rfl, ?_⟩
  unfold FitsExponent signed
  split
  · omega
  · omega

theorem exponentOf_minus {n : Nat} (h : n < exponentLimit) :
    exponentOf ('-' :: digitChars n) = .ok (-n) := by
  obtain ⟨d, ds, hds⟩ := List.exists_cons_of_ne_nil (digitChars_ne_nil n)
  have hfrom := exponentFrom_digitChars true h
  rw [hds] at hfrom ⊢
  exact hfrom

theorem exponentOf_plus {n : Nat} (h : n < exponentLimit) :
    exponentOf ('+' :: digitChars n) = .ok n := by
  obtain ⟨d, ds, hds⟩ := List.exists_cons_of_ne_nil (digitChars_ne_nil n)
  have hfrom := exponentFrom_digitChars false h
  rw [hds] at hfrom ⊢
  exact hfrom

/-- The exponent that the text of a decimal ends with, zero if it has none. -/
def shownExponent (d : Decimal) : Int :=
  if d.digits = 0 then 0
  else if maxLeadingZeros < d.scale - d.precision then -(d.scale - d.precision + 1)
  else if maxTrailingZeros < -d.scale then -d.scale
  else 0

section Mark

variable {text : List Char} (h : ∀ c ∈ text, (!isExponentMark c) = true) (d : Decimal)

include h

theorem mantissa_append_mark {mark : Char} (hmark : isExponentMark mark = true) (cs : List Char) :
    mantissa (text ++ mark :: cs) = text := by
  have hstop : (mark :: cs).takeWhile (!isExponentMark ·) = [] := by simp [hmark]
  rw [mantissa, List.takeWhile_append_of_pos h, hstop, List.append_nil]

theorem exponent_append_mark {mark : Char} (hmark : isExponentMark mark = true) (cs : List Char) :
    exponent (text ++ mark :: cs) = exponentOf cs := by
  have hstop : (mark :: cs).dropWhile (!isExponentMark ·) = mark :: cs := by simp [hmark]
  rw [exponent, List.dropWhile_append_of_pos h, hstop]

theorem mantissa_append_exponentText : mantissa (text ++ d.exponentText) = text := by
  rcases d.exponentText_cases with hnil | ⟨n, hmark⟩ | ⟨n, hmark⟩
  · rw [hnil, List.append_nil, mantissa_eq_self h]
  · rw [hmark, mantissa_append_mark h rfl]
  · rw [hmark, mantissa_append_mark h rfl]

theorem exponent_append_exponentText :
    exponent (text ++ d.exponentText) = .ok d.shownExponent := by
  have hlow := d.le_scale
  have hhigh := d.scale_lt
  rw [exponentText, shownExponent]
  by_cases hzero : d.digits = 0
  · rw [if_pos hzero, if_pos hzero, List.append_nil, exponent_eq_zero h]
  rw [if_neg hzero, if_neg hzero]
  by_cases hsmall : maxLeadingZeros < d.scale - d.precision
  · have hpos : 0 ≤ d.scale - d.precision + 1 := by
      rw [maxLeadingZeros] at hsmall
      omega
    have hlt : d.scale - d.precision + 1 < exponentLimit := by
      rw [exponentLimit]
      omega
    rw [if_pos hsmall, if_pos hsmall, exponent_append_mark h rfl]
    rw [← Int.toNat_of_nonneg hpos] at hlt ⊢
    exact exponentOf_minus hlt
  rw [if_neg hsmall, if_neg hsmall]
  by_cases hlarge : maxTrailingZeros < -d.scale
  · have hpos : 0 ≤ -d.scale := by
      rw [maxTrailingZeros] at hlarge
      omega
    have hlt : -d.scale < exponentLimit := by
      rw [exponentLimit]
      omega
    rw [if_pos hlarge, if_pos hlarge, exponent_append_mark h rfl]
    rw [← Int.toNat_of_nonneg hpos] at hlt ⊢
    exact exponentOf_plus hlt
  · rw [if_neg hlarge, if_neg hlarge, List.append_nil, exponent_eq_zero h]

end Mark

/-! ### What the text is read as -/

/-- The decimal that the text of `d` is read as: nothing has scale zero, and zeros written for a scale
below zero are digits. -/
def settled (d : Decimal) : Decimal :=
  if d.digits = 0 then .ofInt 0
  else if -maxTrailingZeros ≤ d.scale ∧ d.scale < 0 then
    .ofInt (d.digits * (Nat.pow 10 (-d.scale).toNat : Nat))
  else d

theorem settled_same (d : Decimal) : d.settled.same d = true := by
  rw [settled]
  split
  · rename_i hzero
    rw [same_iff, reduced, reduced, if_pos hzero]
    rfl
  split
  · apply same_of_shift rfl
    show (0 : Int) = _
    omega
  · rw [same_iff]

/-- The numeral and the exponent of the text give these digits and this scale. -/
theorem significand_settled {d : Decimal} (h : 0 ≤ d.digits) :
    d.significand.digits = d.settled.digits ∧
      d.significand.scale - d.shownExponent = d.settled.scale := by
  rw [significand, shownExponent, settled]
  by_cases hzero : d.digits = 0
  · rw [if_pos hzero, if_pos hzero, if_pos hzero]
    exact ⟨rfl, rfl⟩
  rw [if_neg hzero, if_neg hzero, if_neg hzero]
  by_cases hsmall : maxLeadingZeros < d.scale - d.precision
  · have hnot : ¬ (-maxTrailingZeros ≤ d.scale ∧ d.scale < 0) := by
      rw [maxLeadingZeros] at hsmall
      omega
    rw [dif_pos hsmall, if_pos hsmall, if_neg hnot]
    exact ⟨rfl, by simp only; omega⟩
  rw [dif_neg hsmall, if_neg hsmall]
  by_cases hlarge : maxTrailingZeros < -d.scale
  · have hnot : ¬ (-maxTrailingZeros ≤ d.scale ∧ d.scale < 0) := by omega
    rw [if_pos hlarge, if_pos hlarge, if_neg hnot]
    exact ⟨rfl, by simp only [ofInt]; omega⟩
  rw [if_neg hlarge, if_neg hlarge, Int.sub_zero]
  have hcast (k : Nat) :
      ((d.digits.toNat * Nat.pow 10 k : Nat) : Int) = d.digits * (Nat.pow 10 k : Nat) := by
    rw [Int.natCast_mul, Int.toNat_of_nonneg h]
  by_cases hscale : d.scale < 0
  · rw [if_pos (Int.le_of_lt hscale), if_pos ⟨by omega, hscale⟩]
    exact ⟨hcast _, rfl⟩
  rw [if_neg fun hboth : _ ∧ d.scale < 0 => hscale hboth.2]
  by_cases hscale' : d.scale ≤ 0
  · have hscale₀ : d.scale = 0 := by omega
    rw [if_pos hscale', hscale₀]
    exact ⟨(hcast 0).trans (Int.mul_one _), rfl⟩
  · rw [if_neg hscale']
    exact ⟨rfl, rfl⟩

/-- What a text spells is read off its parts: the exponent, and the digits and fraction before it. -/
theorem read_eq_ok_iff {text : String} {d : Decimal} :
    read text = .ok d ↔ ∃ x, exponent text.toList = .ok x ∧
      integerOf ((mantissa text.toList).erase '.') = .ok d.digits ∧
        d.scale = fractionLength (mantissa text.toList) - x := by
  constructor
  · intro h
    simp only [read] at h
    split at h
    · cases h
    rename_i x hx
    split at h
    · cases h
    split at h
    · split at h
      · cases h
      · rename_i n hn
        cases h
        exact ⟨x, hx, hn, rfl⟩
    · cases h
  · intro h
    obtain ⟨x, hx, hn, hscale⟩ := h
    obtain ⟨digits, scale, hlow, hhigh⟩ := d
    simp only at hn hscale
    subst hscale
    have hm : mantissa text.toList ≠ [] := by
      intro hnil
      rw [hnil] at hn
      cases hn
    simp only [read, hx, if_neg hm, dif_pos (And.intro hlow hhigh), hn]

/-- The text of a decimal that is not below zero, piece by piece. -/
theorem exists_pieces {d : Decimal} (h : 0 ≤ d.digits) :
    ∃ text n, d.displayChars = text ++ d.exponentText ∧ IsNumeric text ∧
      unsignedOf (text.erase '.') = .ok n ∧ n = d.settled.digits ∧
      fractionLength text - d.shownExponent = d.settled.scale := by
  obtain ⟨text, hchars, hnum, hspells⟩ := exists_numeral h
  obtain ⟨hdigits, hscale⟩ := significand_settled h
  refine ⟨text, _, hchars, hnum, ?_, hspells.digits.symm.trans hdigits, ?_⟩
  · rw [hnum.erase_point hspells.point, unsignedOf_digits (filter_isDigit_ne_nil hspells.digit)]
    exact fun c hc => (List.mem_filter.1 hc).2
  · rw [fractionLength_eq hnum hspells.point, ← hspells.scale, hscale]

def opposite (d : Decimal) : Decimal := ⟨-d.digits, d.scale, d.le_scale, d.scale_lt⟩

theorem settled_opposite (d : Decimal) : d.opposite.settled = d.settled.opposite := by
  have hzero : d.opposite.digits = 0 ↔ d.digits = 0 := Int.neg_eq_zero
  have hscale : d.opposite.scale = d.scale := rfl
  simp only [settled, hzero, hscale]
  split
  · rfl
  split
  · have hneg := Int.neg_mul d.digits (Nat.pow 10 (-d.scale).toNat : Nat)
    exact congrArg ofInt hneg
  · rfl

/-- The text of a decimal is read, whatever its digits and its scale are. -/
theorem read_display (d : Decimal) : read d.display = .ok d.settled := by
  rw [read_eq_ok_iff, display, String.toList_ofList]
  by_cases h : 0 ≤ d.digits
  · obtain ⟨text, n, hchars, hnum, hunsigned, hdigits, hscale⟩ := exists_pieces h
    have hm := mantissa_append_exponentText hnum.isExponentMark d
    rw [← hchars] at hm
    refine ⟨d.shownExponent, ?_, ?_, ?_⟩
    · rw [hchars]
      exact exponent_append_exponentText hnum.isExponentMark d
    · rw [hm, (hnum.erase '.').integerOf, hunsigned, ← hdigits]
      rfl
    · rw [hm]
      exact hscale.symm
  · -- The sign stands before the numeral of the opposite and changes nothing else.
    have hpos : 0 ≤ d.opposite.digits := by
      show 0 ≤ -d.digits
      omega
    obtain ⟨text, n, hchars, hnum, hunsigned, hdigits, hscale⟩ := exists_pieces hpos
    have hmark : ∀ c ∈ '-' :: text, (!isExponentMark c) = true :=
      List.forall_mem_cons.2 ⟨rfl, hnum.isExponentMark⟩
    have hm := mantissa_append_exponentText hmark d.opposite
    have hx := exponent_append_exponentText hmark d.opposite
    have hminus : d.displayChars = '-' :: d.opposite.displayChars :=
      displayChars_of_neg rfl rfl (by omega)
    rw [List.cons_append, ← hchars, ← hminus] at hm hx
    rw [settled_opposite] at hdigits hscale
    have hfraction : fractionLength ('-' :: text) = fractionLength text := rfl
    have hneg : d.settled.digits = -n := by
      rw [hdigits]
      exact (Int.neg_neg _).symm
    refine ⟨d.opposite.shownExponent, hx, ?_, ?_⟩
    · rw [hm, List.erase_cons_tail (by decide), integerOf, hunsigned, hneg]
      rfl
    · rw [hm, hfraction]
      exact hscale.symm

/-! ### What is written for that -/

theorem digitChars_mul_pow {n : Nat} (h : 0 < n) (k : Nat) :
    digitChars (n * Nat.pow 10 k) = digitChars n ++ List.replicate k '0' := by
  have hvalue : Nat.ofDigitChars 10 (List.replicate k '0') n = n * Nat.pow 10 k := by
    rw [Nat.ofDigitChars_replicate_zero, Nat.mul_comm]
    rfl
  rw [← hvalue, digitChars_ofDigitChars (isDigit_zeros k) h]

theorem unsignedDisplay_zeros (digits : List Char) {scale : Int} (hlow : -maxTrailingZeros ≤ scale)
    (hhigh : scale ≤ 0) :
    unsignedDisplay digits scale = digits ++ List.replicate (-scale).toNat '0' := by
  have hsmall : ¬ maxLeadingZeros < scale - digits.length := by
    rw [maxLeadingZeros]
    omega
  rw [unsignedDisplay, if_neg hsmall, if_neg (by omega), if_pos hhigh]

theorem displayChars_ofInt_shift {d : Decimal} (hzero : d.digits ≠ 0)
    (hlow : -maxTrailingZeros ≤ d.scale) (hhigh : d.scale ≤ 0) :
    (ofInt (d.digits * (Nat.pow 10 (-d.scale).toNat : Nat))).displayChars = d.displayChars := by
  have hpow : 0 < Nat.pow 10 (-d.scale).toNat := Nat.pow_pos (by decide)
  have hne : ¬ d.digits * (Nat.pow 10 (-d.scale).toNat : Nat) = 0 :=
    Int.mul_ne_zero hzero (by omega)
  have hsign : d.digits * (Nat.pow 10 (-d.scale).toNat : Nat) < 0 ↔ d.digits < 0 := by
    have hiff := Int.mul_nonneg_iff_of_pos_right (a := d.digits) (Int.natCast_pos.2 hpow)
    omega
  have habs : (d.digits * (Nat.pow 10 (-d.scale).toNat : Nat)).natAbs =
      d.digits.natAbs * Nat.pow 10 (-d.scale).toNat := by
    rw [Int.natAbs_mul, Int.natAbs_natCast]
  have hunsigned : unsignedDisplay (digitChars (d.digits.natAbs * Nat.pow 10 (-d.scale).toNat)) 0 =
      unsignedDisplay (digitChars d.digits.natAbs) d.scale := by
    rw [digitChars_mul_pow (by omega), unsignedDisplay_zeros _ (by decide) (by decide),
      unsignedDisplay_zeros _ hlow hhigh]
    exact List.append_nil _
  rw [displayChars, displayChars, if_neg hzero]
  simp only [ofInt, hne, hsign, habs, hunsigned, if_false]

theorem display_settled (d : Decimal) : d.settled.display = d.display := by
  rw [display, display, settled]
  apply congrArg String.ofList
  split
  · rename_i hzero
    rw [displayChars, displayChars, if_pos hzero]
    rfl
  split
  · rename_i hzero hscale
    exact displayChars_ofInt_shift hzero hscale.1 (Int.le_of_lt hscale.2)
  · rfl

end Sexp.Decimal
