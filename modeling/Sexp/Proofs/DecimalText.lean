import Sexp.Decimal.Display
import Sexp.Proofs.Numeral

/-!
# The text of a decimal as a numeral

The text of a decimal that is not below zero is a numeral and perhaps an exponent after it
(`exists_numeral`). The numeral spells `significand`, which is worth as much as the decimal when there
is no exponent (`significand_same`); and there is none exactly for the decimals that are
`WrittenInFull` (`exponentText_eq_nil_iff`, `writtenInFull_iff`). Being worth as much is having the same
digits at the same scale (`same_iff_of_le`).
-/

namespace Sexp.Decimal

/-! ### Spelling -/

/-- How many digits the digits of a decimal are, without leading zeros. -/
def precision (d : Decimal) : Nat := (digitChars d.digits.natAbs).length

theorem isDigit_digitChars {n : Nat} : ∀ c ∈ digitChars n, c.isDigit = true :=
  fun _ hc => Nat.isDigit_of_mem_toDigits (by decide) (by decide) hc

theorem digitChars_ne_nil (n : Nat) : digitChars n ≠ [] := Nat.toDigits_ne_nil

theorem ofDigitChars_digitChars (n : Nat) : Nat.ofDigitChars 10 (digitChars n) 0 = n :=
  Nat.ofDigitChars_ten_toDigits

theorem digitValue_lt {c : Char} (h : c.isDigit = true) : digitValue c < 10 := by
  have hbounds := isDigit_iff_toNat.1 h
  unfold digitValue
  omega

theorem digitChar_digitValue {c : Char} (h : c.isDigit = true) : Nat.digitChar (digitValue c) = c := by
  have hbounds := isDigit_iff_toNat.1 h
  rw [← Char.toNat_inj, Nat.toNat_digitChar_of_lt_ten (digitValue_lt h), digitValue]
  omega

/-- Digits behind those of a number that is not nothing are the last digits of what they spell. -/
theorem digitChars_ofDigitChars {ds : List Char} (h : ∀ c ∈ ds, c.isDigit = true) {n : Nat}
    (hn : 0 < n) : digitChars (Nat.ofDigitChars 10 ds n) = digitChars n ++ ds := by
  induction ds generalizing n with
  | nil => rw [Nat.ofDigitChars_nil, List.append_nil]
  | cons d ds ih =>
    obtain ⟨hd, hds⟩ := List.forall_mem_cons.1 h
    have hlt := digitValue_lt hd
    have hvalue : d.toNat - '0'.toNat = digitValue d := rfl
    have hstep := Nat.toDigits_append_toDigits (by decide) hn hlt
    rw [Nat.toDigits_of_lt_base hlt, digitChar_digitValue hd] at hstep
    rw [Nat.ofDigitChars_cons, hvalue, ih hds (by omega), digitChars, ← hstep, List.append_assoc]
    rfl

theorem ofDigitChars_zero_cons (ds : List Char) :
    Nat.ofDigitChars 10 ('0' :: ds) 0 = Nat.ofDigitChars 10 ds 0 := Nat.ofDigitChars_cons

/-- The digits of what digits spell are these without the zeros before them. -/
theorem digitChars_of_ne_zero {ds : List Char} (h : ∀ c ∈ ds, c.isDigit = true)
    (hne : Nat.ofDigitChars 10 ds 0 ≠ 0) :
    digitChars (Nat.ofDigitChars 10 ds 0) = ds.dropWhile (· == '0') := by
  induction ds with
  | nil => exact absurd Nat.ofDigitChars_nil hne
  | cons d ds ih =>
    obtain ⟨hd, hds⟩ := List.forall_mem_cons.1 h
    by_cases hzero : d = '0'
    · rw [hzero, ofDigitChars_zero_cons] at hne ⊢
      rw [List.dropWhile_cons_of_pos (by decide)]
      exact ih hds hne
    · have hbounds := isDigit_iff_toNat.1 hd
      have hpos : 0 < digitValue d := by
        have hne : d.toNat ≠ '0'.toNat := fun heq => hzero (Char.toNat_inj.1 heq)
        have hcode : '0'.toNat = 48 := rfl
        unfold digitValue
        omega
      have hvalue : 10 * 0 + (d.toNat - '0'.toNat) = digitValue d := Nat.zero_add _
      rw [Nat.ofDigitChars_cons, hvalue, digitChars_ofDigitChars hds hpos, digitChars,
        Nat.toDigits_of_lt_base (digitValue_lt hd), digitChar_digitValue hd,
        List.dropWhile_cons_of_neg (by simpa using hzero)]
      rfl

theorem isDigit_zeros (k : Nat) : ∀ c ∈ List.replicate k '0', c.isDigit = true := by
  intro c hc
  rw [List.eq_of_mem_replicate hc]
  rfl

theorem ofDigitChars_zeros_append (k : Nat) (ds : List Char) :
    Nat.ofDigitChars 10 (List.replicate k '0' ++ ds) 0 = Nat.ofDigitChars 10 ds 0 := by
  rw [Nat.ofDigitChars_append, Nat.ofDigitChars_replicate_zero, Nat.mul_zero]

theorem isNumeric_of_isDigit {ds : List Char} (h : ∀ c ∈ ds, c.isDigit = true) : IsNumeric ds :=
  fun c hc => .inl (h c hc)

theorem not_mem_of_isDigit {ds : List Char} (h : ∀ c ∈ ds, c.isDigit = true) {c : Char}
    (hc : c.isDigit = false) : c ∉ ds := by
  intro hmem
  rw [h c hmem] at hc
  cases hc

theorem spells_digits_iff {ds : List Char} (hne : ds ≠ []) (h : ∀ c ∈ ds, c.isDigit = true)
    {d : Decimal} : Spells ds d ↔ d.digits = (Nat.ofDigitChars 10 ds 0 : Nat) ∧ d.scale = 0 := by
  have hpoint : '.' ∉ ds := not_mem_of_isDigit h (by decide)
  have hfilter : ds.filter Char.isDigit = ds := List.filter_eq_self.2 h
  have hdrop : ds.dropWhile (· != '.') = [] := List.dropWhile_eq_nil_iff.2 (bne_of_notMem hpoint)
  constructor
  · rintro ⟨_, hd, hs⟩
    rw [hfilter] at hd
    rw [hdrop] at hs
    exact ⟨hd, hs⟩
  · rintro ⟨hd, hs⟩
    obtain ⟨c, cs, rfl⟩ := List.exists_cons_of_ne_nil hne
    refine ⟨⟨⟨c, List.mem_cons_self, h c List.mem_cons_self⟩, ?_⟩, ?_, ?_⟩
    · rw [List.count_eq_zero.2 hpoint]
      exact Nat.zero_le 1
    · rw [hfilter]
      exact hd
    · rw [hdrop]
      exact hs

theorem filter_isDigit_point {xs ys : List Char} (hxs : ∀ c ∈ xs, c.isDigit = true)
    (hys : ∀ c ∈ ys, c.isDigit = true) : (xs ++ '.' :: ys).filter Char.isDigit = xs ++ ys := by
  rw [List.filter_append, List.filter_cons_of_neg (by decide), List.filter_eq_self.2 hxs,
    List.filter_eq_self.2 hys]

theorem spells_point_iff {xs ys : List Char} (hne : xs ++ ys ≠ [])
    (hxs : ∀ c ∈ xs, c.isDigit = true) (hys : ∀ c ∈ ys, c.isDigit = true) {d : Decimal} :
    Spells (xs ++ '.' :: ys) d ↔
      d.digits = (Nat.ofDigitChars 10 (xs ++ ys) 0 : Nat) ∧ d.scale = (ys.length : Nat) := by
  have hxpoint : '.' ∉ xs := not_mem_of_isDigit hxs (by decide)
  have hypoint : '.' ∉ ys := not_mem_of_isDigit hys (by decide)
  have hfilter := filter_isDigit_point hxs hys
  have hcount : ((xs ++ '.' :: ys).dropWhile (· != '.')).countP Char.isDigit = ys.length := by
    rw [List.dropWhile_append_of_pos (bne_of_notMem hxpoint), List.dropWhile_cons_of_neg (by simp),
      List.countP_cons_of_neg (by decide), List.countP_eq_length.2 hys]
  constructor
  · rintro ⟨_, hd, hs⟩
    rw [hfilter] at hd
    rw [hcount] at hs
    exact ⟨hd, hs⟩
  · rintro ⟨hd, hs⟩
    refine ⟨⟨?_, ?_⟩, ?_, ?_⟩
    · obtain ⟨c, hc⟩ := List.exists_mem_of_ne_nil _ hne
      rcases List.mem_append.1 hc with hc | hc
      · exact ⟨c, List.mem_append_left _ hc, hxs c hc⟩
      · exact ⟨c, by simp [hc], hys c hc⟩
    · refine Nat.le_of_eq ?_
      rw [List.count_append, List.count_cons_self, List.count_eq_zero.2 hxpoint,
        List.count_eq_zero.2 hypoint]
    · rw [hfilter]
      exact hd
    · rw [hcount]
      exact hs

/-- The digits of what a numeral spells are the digits of the numeral without the zeros before them. -/
theorem Spells.digitChars {text : List Char} {d : Decimal} (h : Spells text d)
    (hd : d.digits ≠ 0) :
    digitChars d.digits.natAbs = (text.filter Char.isDigit).dropWhile (· == '0') := by
  have hvalue : d.digits.natAbs = Nat.ofDigitChars 10 (text.filter Char.isDigit) 0 := by
    rw [h.digits, Int.natAbs_natCast]
  rw [hvalue]
  exact digitChars_of_ne_zero (fun c hc => (List.mem_filter.1 hc).2) (by omega)

theorem isNumeric_point {xs ys : List Char} (hxs : ∀ c ∈ xs, c.isDigit = true)
    (hys : ∀ c ∈ ys, c.isDigit = true) : IsNumeric (xs ++ '.' :: ys) := by
  intro c hc
  rcases List.mem_append.1 hc with hc | hc
  · exact .inl (hxs c hc)
  · rcases List.mem_cons.1 hc with rfl | hc
    · exact .inr rfl
    · exact .inl (hys c hc)

/-! ### Exponents -/

/-- No exponent is needed: the decimal is nothing, or not too many zeros stand at either side of its
digits. -/
def WrittenInFull (d : Decimal) : Prop :=
  d.digits = 0 ∨ -15 ≤ d.scale ∧ d.scale - d.precision ≤ 5

instance (d : Decimal) : Decidable d.WrittenInFull :=
  inferInstanceAs (Decidable (d.digits = 0 ∨ -15 ≤ d.scale ∧ d.scale - d.precision ≤ 5))

/-- What the text of a decimal ends with from its exponent mark on. -/
def exponentText (d : Decimal) : List Char :=
  if d.digits = 0 then []
  else if maxLeadingZeros < d.scale - d.precision then
    'E' :: '-' :: digitChars (d.scale - d.precision + 1).toNat
  else if maxTrailingZeros < -d.scale then 'e' :: '+' :: digitChars (-d.scale).toNat
  else []

theorem exponentText_eq_nil_iff (d : Decimal) : d.exponentText = [] ↔ d.WrittenInFull := by
  unfold exponentText WrittenInFull maxLeadingZeros maxTrailingZeros
  constructor
  · intro h
    split at h
    · exact .inl ‹_›
    split at h
    · cases h
    split at h
    · cases h
    · exact .inr ⟨by omega, by omega⟩
  · rintro (h | ⟨h₁, h₂⟩)
    · rw [if_pos h]
    · rw [if_neg (by omega : ¬ (5 : Int) < d.scale - d.precision),
        if_neg (by omega : ¬ (15 : Int) < -d.scale), ite_self]

theorem exponentText_cases (d : Decimal) :
    d.exponentText = [] ∨ (∃ n, d.exponentText = 'E' :: '-' :: digitChars n) ∨
      ∃ n, d.exponentText = 'e' :: '+' :: digitChars n := by
  unfold exponentText
  by_cases hzero : d.digits = 0
  · rw [if_pos hzero]
    exact .inl rfl
  rw [if_neg hzero]
  by_cases hsmall : maxLeadingZeros < d.scale - d.precision
  · rw [if_pos hsmall]
    exact .inr (.inl ⟨_, rfl⟩)
  rw [if_neg hsmall]
  by_cases hlarge : maxTrailingZeros < -d.scale
  · rw [if_pos hlarge]
    exact .inr (.inr ⟨_, rfl⟩)
  · rw [if_neg hlarge]
    exact .inl rfl

/-- The decimal that the text spells before its exponent mark, if `d` is not below zero. -/
def significand (d : Decimal) : Decimal :=
  if d.digits = 0 then .ofInt 0
  else if h : maxLeadingZeros < d.scale - d.precision then
    have hmax : (0 : Int) ≤ maxLeadingZeros := by decide
    have hs := d.scale_lt
    ⟨d.digits, d.precision - 1, by omega, by omega⟩
  else if maxTrailingZeros < -d.scale then .ofInt d.digits
  else if d.scale ≤ 0 then .ofInt (d.digits.toNat * Nat.pow 10 (-d.scale).toNat : Nat)
  else d

theorem spells_pointAfterFirst {ds : List Char} (hne : ds ≠ []) (h : ∀ c ∈ ds, c.isDigit = true)
    {d : Decimal} (hd : d.digits = (Nat.ofDigitChars 10 ds 0 : Nat))
    (hs : d.scale = ds.length - 1) :
    IsNumeric (pointAfterFirst ds) ∧ Spells (pointAfterFirst ds) d := by
  match ds, hne with
  | [c], _ => exact ⟨isNumeric_of_isDigit h, (spells_digits_iff (by simp) h).2 ⟨hd, by simpa using hs⟩⟩
  | c :: c' :: cs, _ =>
    have hfirst : ∀ x ∈ [c], x.isDigit = true := fun x hx => h x (by simp_all)
    have hrest : ∀ x ∈ c' :: cs, x.isDigit = true := fun x hx => h x (List.mem_cons_of_mem c hx)
    refine ⟨isNumeric_point hfirst hrest, (spells_point_iff (by simp) hfirst hrest).2 ⟨hd, ?_⟩⟩
    rw [hs, List.length_cons]
    omega

/-- The point stands among the digits, or before them with zeros between. -/
theorem withPoint_cases (ds : List Char) (k : Nat) :
    (∃ xs ys, xs ≠ [] ∧ ds = xs ++ ys ∧ k = ys.length ∧ withPoint ds k = xs ++ '.' :: ys) ∨
      ∃ j, k = j + ds.length ∧
        withPoint ds k = ['0'] ++ '.' :: (List.replicate j '0' ++ ds) := by
  unfold withPoint
  split
  · refine .inl ⟨_, _, ?_, (List.take_append_drop (ds.length - k) ds).symm, ?_, rfl⟩
    · refine List.ne_nil_of_length_pos ?_
      rw [List.length_take]
      omega
    · rw [List.length_drop]
      omega
  · exact .inr ⟨k - ds.length, by omega, rfl⟩

theorem spells_withPoint {ds : List Char} {k : Nat} (hne : ds ≠ [])
    (h : ∀ c ∈ ds, c.isDigit = true) {d : Decimal}
    (hd : d.digits = (Nat.ofDigitChars 10 ds 0 : Nat)) (hs : d.scale = k) :
    IsNumeric (withPoint ds k) ∧ Spells (withPoint ds k) d := by
  rcases withPoint_cases ds k with ⟨xs, ys, _, rfl, rfl, htext⟩ | ⟨j, rfl, htext⟩
  · obtain ⟨hxs, hys⟩ := List.forall_mem_append.1 h
    rw [htext]
    exact ⟨isNumeric_point hxs hys, (spells_point_iff hne hxs hys).2 ⟨hd, hs⟩⟩
  · have hzero : ∀ c ∈ ['0'], c.isDigit = true := List.forall_mem_singleton.2 rfl
    have hrest : ∀ c ∈ List.replicate j '0' ++ ds, c.isDigit = true :=
      List.forall_mem_append.2 ⟨isDigit_zeros j, h⟩
    rw [htext]
    refine ⟨isNumeric_point hzero hrest, (spells_point_iff (by simp) hzero hrest).2 ⟨?_, ?_⟩⟩
    · rw [List.singleton_append, ofDigitChars_zero_cons, ofDigitChars_zeros_append]
      exact hd
    · rw [hs, List.length_append, List.length_replicate]

theorem spells_zeros {ds : List Char} {k : Nat} (hne : ds ≠ []) (h : ∀ c ∈ ds, c.isDigit = true)
    {d : Decimal} (hd : d.digits = (Nat.ofDigitChars 10 ds 0 * Nat.pow 10 k : Nat))
    (hs : d.scale = 0) :
    IsNumeric (ds ++ List.replicate k '0') ∧ Spells (ds ++ List.replicate k '0') d := by
  have hall : ∀ c ∈ ds ++ List.replicate k '0', c.isDigit = true :=
    List.forall_mem_append.2 ⟨h, isDigit_zeros k⟩
  refine ⟨isNumeric_of_isDigit hall, (spells_digits_iff (by simp [hne]) hall).2 ⟨?_, hs⟩⟩
  rw [Nat.ofDigitChars_append, Nat.ofDigitChars_replicate_zero, Nat.mul_comm]
  exact hd

theorem displayChars_of_pos {d : Decimal} (h : 0 < d.digits) :
    d.displayChars = unsignedDisplay (digitChars d.digits.natAbs) d.scale := by
  rw [displayChars, if_neg (by omega)]
  exact if_neg (by omega)

/-- The text is a numeral and then the exponent. -/
theorem exists_numeral {d : Decimal} (h : 0 ≤ d.digits) :
    ∃ text, d.displayChars = text ++ d.exponentText ∧ IsNumeric text ∧
      Spells text d.significand := by
  have hdigits : ∀ c ∈ digitChars d.digits.natAbs, c.isDigit = true := isDigit_digitChars
  have hne := digitChars_ne_nil d.digits.natAbs
  have hvalue : d.digits = (Nat.ofDigitChars 10 (digitChars d.digits.natAbs) 0 : Nat) := by
    rw [ofDigitChars_digitChars]
    omega
  by_cases hzero : d.digits = 0
  · have htext : d.displayChars = ['0'] ++ d.exponentText := by
      rw [displayChars, exponentText, if_pos hzero, if_pos hzero, List.append_nil]
    have hdigit : ∀ c ∈ ['0'], c.isDigit = true := List.forall_mem_singleton.2 rfl
    refine ⟨['0'], htext, isNumeric_of_isDigit hdigit, ?_⟩
    rw [significand, if_pos hzero]
    exact (spells_digits_iff (by simp) hdigit).2 ⟨rfl, rfl⟩
  have hlen : (digitChars d.digits.natAbs).length = d.precision := rfl
  rw [displayChars_of_pos (by omega), unsignedDisplay, exponentText, significand, if_neg hzero, if_neg hzero, hlen]
  by_cases hsmall : maxLeadingZeros < d.scale - d.precision
  · rw [if_pos hsmall, if_pos hsmall, dif_pos hsmall]
    exact ⟨_, rfl, spells_pointAfterFirst hne hdigits hvalue rfl⟩
  rw [if_neg hsmall, if_neg hsmall, dif_neg hsmall]
  by_cases hlarge : maxTrailingZeros < -d.scale
  · rw [if_pos hlarge, if_pos hlarge, if_pos hlarge]
    exact ⟨_, rfl, isNumeric_of_isDigit hdigits, (spells_digits_iff hne hdigits).2 ⟨hvalue, rfl⟩⟩
  rw [if_neg hlarge, if_neg hlarge, if_neg hlarge]
  by_cases hscale : d.scale ≤ 0
  · rw [if_pos hscale, if_pos hscale]
    refine ⟨_, (List.append_nil _).symm, spells_zeros hne hdigits ?_ rfl⟩
    rw [ofDigitChars_digitChars, ← Int.toNat_of_nonneg h]
    rfl
  · rw [if_neg hscale, if_neg hscale]
    refine ⟨_, (List.append_nil _).symm, spells_withPoint hne hdigits hvalue ?_⟩
    omega

theorem writtenInFull_iff_of_nonneg {d : Decimal} (h : 0 ≤ d.digits) :
    d.WrittenInFull ↔ ∀ c ∈ d.displayChars, isExponentMark c = false := by
  obtain ⟨text, htext, hnum, _⟩ := exists_numeral h
  rw [← exponentText_eq_nil_iff, htext]
  constructor
  · intro hnil c hc
    rw [hnil, List.append_nil] at hc
    simpa using hnum.isExponentMark c hc
  · intro hall
    have hno := fun c hc => hall c (List.mem_append_right text hc)
    rcases d.exponentText_cases with hnil | ⟨n, hmark⟩ | ⟨n, hmark⟩
    · exact hnil
    · rw [hmark] at hno
      exact absurd (hno 'E' List.mem_cons_self) (by decide)
    · rw [hmark] at hno
      exact absurd (hno 'e' List.mem_cons_self) (by decide)

theorem displayChars_of_neg {d e : Decimal} (hd : e.digits = -d.digits) (hs : e.scale = d.scale)
    (hneg : d.digits < 0) : d.displayChars = '-' :: e.displayChars := by
  have habs : e.digits.natAbs = d.digits.natAbs := by rw [hd, Int.natAbs_neg]
  have hzero : ¬ d.digits = 0 := by omega
  have hzero' : ¬ e.digits = 0 := by omega
  have hpos : ¬ e.digits < 0 := by omega
  rw [displayChars, displayChars, if_neg hzero, if_neg hzero', habs, hs]
  simp only [if_pos hneg, if_neg hpos]

/-- A decimal is written in full exactly when there is no exponent mark in its text. -/
theorem writtenInFull_iff (d : Decimal) :
    d.WrittenInFull ↔ ∀ c ∈ d.displayChars, isExponentMark c = false := by
  by_cases h : 0 ≤ d.digits
  · exact writtenInFull_iff_of_nonneg h
  · let e : Decimal := ⟨-d.digits, d.scale, d.le_scale, d.scale_lt⟩
    have hd : e.digits = -d.digits := rfl
    have hprecision : e.precision = d.precision := by rw [precision, hd, Int.natAbs_neg, precision]
    have hfull : d.WrittenInFull ↔ e.WrittenInFull := by
      rw [WrittenInFull, WrittenInFull, hprecision, hd, Int.neg_eq_zero]
    rw [hfull, writtenInFull_iff_of_nonneg (by omega), displayChars_of_neg hd rfl (by omega)]
    exact ⟨fun hall => List.forall_mem_cons.2 ⟨rfl, hall⟩, fun hall => (List.forall_mem_cons.1 hall).2⟩

/-! ### What the numeral is worth -/

theorem stripZeros_mul_ten {n : Nat} (h : 0 < n) :
    stripZeros (n * 10) = ((stripZeros n).1, (stripZeros n).2 + 1) := by
  rw [stripZeros, dif_pos ⟨by omega, by omega⟩]
  simp only [Nat.mul_div_cancel n (by decide : 0 < 10)]

theorem stripZeros_mul_pow {n : Nat} (h : 0 < n) (k : Nat) :
    stripZeros (n * Nat.pow 10 k) = ((stripZeros n).1, (stripZeros n).2 + k) := by
  induction k with
  | zero =>
    show stripZeros (n * 1) = _
    rw [Nat.mul_one]
    rfl
  | succ k ih =>
    have hpos : 0 < n * Nat.pow 10 k := Nat.mul_pos h (Nat.pow_pos (by decide))
    have hstep := stripZeros_mul_ten hpos
    rw [Nat.mul_assoc, ih] at hstep
    exact hstep

theorem stripZeros_pos {n : Nat} (h : 0 < n) : 0 < (stripZeros n).1 := by
  have hmod := stripZeros_mod n h
  omega

theorem reduced_of_pos {d : Decimal} (h : 0 < d.digits) :
    d.reduced = (((stripZeros d.digits.toNat).1 : Int), d.scale - (stripZeros d.digits.toNat).2) := by
  have habs : d.digits.natAbs = d.digits.toNat := by omega
  rw [reduced, if_neg (by omega), Int.sign_eq_one_of_pos h, habs]
  simp only [Int.one_mul]

theorem reduced_of_neg {d : Decimal} (h : d.digits < 0) : d.reduced.1 < 0 := by
  have hpos : 0 < (stripZeros d.digits.natAbs).1 := stripZeros_pos (by omega)
  rw [reduced, if_neg (by omega), Int.sign_eq_neg_one_of_neg h]
  simp only
  omega

theorem nonneg_of_same {d e : Decimal} (h : d.same e = true) (hd : 0 ≤ d.digits) :
    0 ≤ e.digits := by
  rw [same_iff] at h
  refine Decidable.byContradiction fun he => ?_
  have hneg := reduced_of_neg (d := e) (by omega)
  rw [← h] at hneg
  by_cases hzero : d.digits = 0
  · rw [reduced, if_pos hzero] at hneg
    cases hneg
  · rw [reduced_of_pos (by omega)] at hneg
    omega

/-- Zeros after the digits that the scale makes up for are worth nothing. -/
theorem same_of_shift {d e : Decimal} {k : Nat} (hdigits : e.digits = d.digits * (Nat.pow 10 k : Nat))
    (hscale : e.scale = d.scale + k) : e.same d = true := by
  have hpow : 0 < Nat.pow 10 k := Nat.pow_pos (by decide)
  rw [same_iff, reduced, reduced]
  by_cases hzero : d.digits = 0
  · rw [if_pos hzero, if_pos (by rw [hdigits, hzero, Int.zero_mul])]
  have hpos : 0 < d.digits.natAbs := by omega
  have hsign : Int.sign (Nat.pow 10 k : Nat) = 1 := Int.sign_eq_one_of_pos (by omega)
  have hne : ¬ e.digits = 0 := by
    rw [hdigits]
    exact Int.mul_ne_zero hzero (by omega)
  rw [if_neg hzero, if_neg hne, hdigits, hscale, Int.sign_mul, hsign, Int.mul_one, Int.natAbs_mul,
    Int.natAbs_natCast, stripZeros_mul_pow hpos]
  rw [Prod.mk.injEq]
  exact ⟨rfl, by omega⟩

theorem stripZeros_mul (n : Nat) : (stripZeros n).1 * Nat.pow 10 (stripZeros n).2 = n := by
  induction n using stripZeros.induct with
  | case1 n h _ ih =>
    have hpow : Nat.pow 10 ((stripZeros (n / 10)).2 + 1) =
        Nat.pow 10 (stripZeros (n / 10)).2 * 10 := rfl
    rw [stripZeros, dif_pos h]
    simp only
    rw [hpow, ← Nat.mul_assoc, ih]
    omega
  | case2 n h =>
    rw [stripZeros, dif_neg h]
    exact Nat.mul_one n

/-- What is left without the zeros at the end gives the digits back. -/
theorem digits_eq_reduced (d : Decimal) :
    d.digits = d.reduced.1 * (Nat.pow 10 (d.scale - d.reduced.2).toNat : Nat) := by
  by_cases hzero : d.digits = 0
  · rw [reduced, if_pos hzero, hzero]
    exact (Int.zero_mul _).symm
  · have hzeros : (d.scale - (d.scale - (stripZeros d.digits.natAbs).2)).toNat =
        (stripZeros d.digits.natAbs).2 := by omega
    rw [reduced, if_neg hzero]
    simp only
    rw [hzeros, Int.mul_assoc, ← Int.natCast_mul, stripZeros_mul, Int.sign_mul_natAbs]

theorem same_iff_digits {a b : Decimal} (h : a.scale = b.scale) :
    a.same b = true ↔ a.digits = b.digits := by
  rw [same_iff]
  constructor
  · intro hreduced
    rw [a.digits_eq_reduced, b.digits_eq_reduced, hreduced, h]
  · intro hdigits
    rw [reduced, reduced, hdigits, h]

/-- Two decimals are the same exactly when the digits of the one, with zeros for what its scale is
short of the other, are those of the other. -/
theorem same_iff_of_le {a b : Decimal} (h : a.scale ≤ b.scale) :
    a.same b = true ↔ a.digits * (Nat.pow 10 (b.scale - a.scale).toNat : Nat) = b.digits := by
  let c : Decimal := ⟨a.digits * (Nat.pow 10 (b.scale - a.scale).toNat : Nat), b.scale, b.le_scale,
    b.scale_lt⟩
  have hscale : c.scale = a.scale + ((b.scale - a.scale).toNat : Nat) := by
    show b.scale = _
    omega
  have hshift : c.reduced = a.reduced := same_iff.1 (same_of_shift rfl hscale)
  have hdigits : c.same b = true ↔ c.digits = b.digits := same_iff_digits rfl
  rw [same_iff, ← hshift, ← same_iff]
  exact hdigits

/-- Without an exponent the numeral is worth as much as the decimal. -/
theorem significand_same {d : Decimal} (h : 0 ≤ d.digits) (hfull : d.WrittenInFull) :
    d.significand.same d = true := by
  by_cases hzero : d.digits = 0
  · rw [significand, if_pos hzero, same_iff, reduced, reduced, if_pos hzero]
    rfl
  obtain ⟨hlow, hhigh⟩ := hfull.resolve_left hzero
  have hsmall : ¬ maxLeadingZeros < d.scale - d.precision := by
    rw [maxLeadingZeros]
    omega
  have hlarge : ¬ maxTrailingZeros < -d.scale := by
    rw [maxTrailingZeros]
    omega
  rw [significand, if_neg hzero, dif_neg hsmall, if_neg hlarge]
  by_cases hscale : d.scale ≤ 0
  · rw [if_pos hscale]
    apply same_of_shift
    · show ((d.digits.toNat * Nat.pow 10 (-d.scale).toNat : Nat) : Int) = _
      rw [Int.natCast_mul, Int.toNat_of_nonneg h]
    · show (0 : Int) = _
      omega
  · rw [if_neg hscale, same_iff]

end Sexp.Decimal
