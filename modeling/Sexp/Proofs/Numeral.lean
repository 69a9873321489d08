import Mathlib.Data.List.TakeWhile
import Sexp.Decimal.Literal

/-!
# Numerals

The decimals that digits and points spell. Such a text is a decimal if it is a numeral, that is, if it
has a digit and no more than one point (`read_eq_ok_iff_spells`, `read_of_not_isNumeral`); then its
digits and its scale are what `Spells` says, so no digit is lost.
-/

namespace Sexp

theorem isDigit_iff_toNat {c : Char} : c.isDigit = true ↔ 0x30 ≤ c.toNat ∧ c.toNat ≤ 0x39 := by
  simp only [Char.isDigit, Bool.and_eq_true, decide_eq_true_eq, UInt32.le_iff_toNat_le, ge_iff_le]
  rfl

namespace Decimal

/-! ### Digits and points -/

/-- Digits and points and nothing else. -/
def IsNumeric (text : List Char) : Prop := ∀ c ∈ text, c.isDigit = true ∨ c = '.'

instance (text : List Char) : Decidable (IsNumeric text) :=
  decidable_of_iff ((text.all fun c => c.isDigit || c == '.') = true) (by simp [IsNumeric])

/-- At least one digit, and no more than one point. -/
structure IsNumeral (text : List Char) : Prop where
  digit : ∃ c ∈ text, c.isDigit = true
  point : text.count '.' ≤ 1

/-- The decimal has all digits of the numeral, and as many of them after the point. -/
structure Spells (text : List Char) (d : Decimal) : Prop extends IsNumeral text where
  digits : d.digits = (Nat.ofDigitChars 10 (text.filter Char.isDigit) 0 : Nat)
  scale : d.scale = ((text.dropWhile (· != '.')).countP Char.isDigit : Nat)

theorem Spells.unique {text : List Char} {d e : Decimal} (hd : Spells text d) (he : Spells text e) :
    d = e := by
  obtain ⟨n, s, h₁, h₂⟩ := d
  obtain ⟨m, t, h₃, h₄⟩ := e
  have hdigits : n = m := hd.digits.trans he.digits.symm
  have hscale : s = t := hd.scale.trans he.scale.symm
  subst hdigits hscale
  rfl

theorem ne_of_isDigit {c d : Char} (hc : c.isDigit = true) (hd : d.isDigit = false) : c ≠ d := by
  rintro rfl
  rw [hd] at hc
  cases hc

theorem ne_of_numeric {c d : Char} (hc : c.isDigit = true ∨ c = '.') (hd : d.isDigit = false)
    (hp : d ≠ '.') : c ≠ d := by
  rcases hc with hc | rfl
  · exact ne_of_isDigit hc hd
  · exact hp.symm

theorem bne_of_notMem {c : Char} {text : List Char} (h : c ∉ text) : ∀ d ∈ text, (d != c) = true := by
  intro d hd
  simpa using fun heq : d = c => h (heq ▸ hd)

section Unmarked

variable {text : List Char} (h : ∀ c ∈ text, (!isExponentMark c) = true)

include h

theorem mantissa_eq_self : mantissa text = text := List.takeWhile_eq_self_iff.2 h

theorem exponent_eq_zero : exponent text = .ok 0 := by
  have hdrop : text.dropWhile (!isExponentMark ·) = [] := List.dropWhile_eq_nil_iff.2 h
  rw [exponent, hdrop]

end Unmarked

namespace IsNumeric

variable {text : List Char}

theorem isDigit_of_count_zero (h : IsNumeric text) (hp : '.' ∉ text) :
    ∀ c ∈ text, c.isDigit = true := by
  intro c hc
  rcases h c hc with hd | rfl
  · exact hd
  · exact absurd hc hp

theorem tail {c : Char} (h : IsNumeric (c :: text)) : IsNumeric text :=
  fun d hd => h d (List.mem_cons_of_mem c hd)

theorem isExponentMark (h : IsNumeric text) : ∀ c ∈ text, (!isExponentMark c) = true := by
  intro c hc
  have he : c ≠ 'e' := ne_of_numeric (h c hc) (by decide) (by decide)
  have hE : c ≠ 'E' := ne_of_numeric (h c hc) (by decide) (by decide)
  simp [Decimal.isExponentMark, he, hE]

theorem mantissa (h : IsNumeric text) : mantissa text = text := mantissa_eq_self h.isExponentMark

theorem exponent (h : IsNumeric text) : exponent text = .ok 0 := exponent_eq_zero h.isExponentMark

theorem erase_point (h : IsNumeric text) (hp : text.count '.' ≤ 1) :
    text.erase '.' = text.filter Char.isDigit := by
  induction text with
  | nil => rfl
  | cons c text ih =>
    rcases h c List.mem_cons_self with hd | rfl
    · have hne : c ≠ '.' := ne_of_isDigit hd (by decide)
      rw [List.count_cons_of_ne hne] at hp
      rw [List.erase_cons_tail (by simpa using hne), List.filter_cons_of_pos hd, ih h.tail hp]
    · rw [List.count_cons_self] at hp
      have hmem : '.' ∉ text := List.count_eq_zero.1 (by omega)
      rw [List.erase_cons_head, List.filter_cons_of_neg (by decide),
        List.filter_eq_self.2 (h.tail.isDigit_of_count_zero hmem)]

theorem integerOf (h : IsNumeric text) : integerOf text = (unsignedOf text).map fun n => (n : Int) := by
  unfold Decimal.integerOf
  split
  · exact absurd rfl (ne_of_numeric (h _ List.mem_cons_self) (by decide) (by decide))
  · exact absurd rfl (ne_of_numeric (h _ List.mem_cons_self) (by decide) (by decide))
  · rfl

theorem erase (h : IsNumeric text) (c : Char) : IsNumeric (text.erase c) :=
  fun d hd => h d (List.mem_of_mem_erase hd)

end IsNumeric

/-! ### Whole numbers -/

theorem unsignedOf_digits {text : List Char} (hne : text ≠ [])
    (h : ∀ c ∈ text, c.isDigit = true) : unsignedOf text = .ok (Nat.ofDigitChars 10 text 0) := by
  cases text with
  | nil => exact absurd rfl hne
  | cons c cs =>
    have hfilter : (c :: cs).filter (· != '_') = c :: cs :=
      List.filter_eq_self.2 fun d hd => by simpa using ne_of_isDigit (h d hd) (by decide)
    have hall : (c.isDigit && cs.all fun d => d.isDigit || d == '_') = true := by
      simp only [h c List.mem_cons_self, Bool.true_and, List.all_eq_true]
      intro d hd
      simp [h d (List.mem_cons_of_mem c hd)]
    rw [unsignedOf, if_pos hall, hfilter]

theorem unsignedOf_of_mem_point {text : List Char} (h : '.' ∈ text) :
    unsignedOf text = .error .badDigit := by
  cases text with
  | nil => cases h
  | cons c cs =>
    have hall : ¬ (c.isDigit && cs.all fun d => d.isDigit || d == '_') = true := by
      intro hall
      simp only [Bool.and_eq_true, List.all_eq_true] at hall
      rcases List.mem_cons.1 h with rfl | h
      · exact absurd hall.1 (by decide)
      · exact absurd (hall.2 '.' h) (by decide)
    rw [unsignedOf, if_neg hall]

/-! ### The fraction -/

theorem fractionLength_lt {text : List Char} (hne : text ≠ []) :
    fractionLength text < text.length := by
  have hdrop : (text.dropWhile (· != '.')).length ≤ text.length :=
    (List.dropWhile_sublist _).length_le
  have hpos := List.length_pos_iff.2 hne
  unfold fractionLength
  split
  · exact hpos
  · rename_i fraction heq
    rw [heq, List.length_cons] at hdrop
    exact Nat.lt_of_lt_of_le (Nat.lt_succ_of_le (List.length_filter_le _ fraction)) hdrop

/-- The characters after the only point of a numeral are digits. -/
theorem fractionLength_eq {text : List Char} (h : IsNumeric text) (hp : text.count '.' ≤ 1) :
    fractionLength text = (text.dropWhile (· != '.')).countP Char.isDigit := by
  have hsub : (text.dropWhile (· != '.')).Sublist text := List.dropWhile_sublist _
  have hhead := List.head?_dropWhile_not (· != '.') text
  unfold fractionLength
  split
  · rename_i heq
    rw [heq, List.countP_nil]
  · rename_i p fraction heq
    rw [heq] at hsub hhead ⊢
    have hpoint : p = '.' := by simpa using hhead
    subst hpoint
    have hcount := Nat.le_trans (hsub.count_le '.') hp
    rw [List.count_cons_self] at hcount
    have hmem : '.' ∉ fraction := List.count_eq_zero.1 (by omega)
    have hdigits : ∀ c ∈ fraction, c.isDigit = true :=
      IsNumeric.isDigit_of_count_zero
        (fun c hc => h c (hsub.subset (List.mem_cons_of_mem '.' hc))) hmem
    have hfilter : fraction.filter (· != '_') = fraction :=
      List.filter_eq_self.2 fun d hd => by simpa using ne_of_isDigit (hdigits d hd) (by decide)
    rw [hfilter, List.countP_cons_of_neg (by decide), List.countP_eq_length.2 hdigits]

/-! ### Reading -/

/-- The fault of digits and points that are no numeral: a lone point leaves no digits at all, and
otherwise a second point is left among them. -/
def numeralFault (text : List Char) : IntegerFault := if text = ['.'] then .empty else .badDigit

theorem two_le_count_of_no_digit {text : List Char} (h : IsNumeric text) (hne : text ≠ [])
    (hone : text ≠ ['.']) (hd : ¬ ∃ c ∈ text, c.isDigit = true) : 2 ≤ text.count '.' := by
  have hall : ∀ c ∈ text, c = '.' := fun c hc => (h c hc).resolve_left fun hdc => hd ⟨c, hc, hdc⟩
  cases text with
  | nil => exact absurd rfl hne
  | cons c text =>
    cases text with
    | nil => exact absurd (congrArg (fun d => [d]) (hall c List.mem_cons_self)) hone
    | cons d text =>
      rw [hall c (by simp), hall d (by simp), List.count_cons_self, List.count_cons_self]
      omega

theorem unsignedOf_erase_of_not_isNumeral {text : List Char} (h : IsNumeric text) (hne : text ≠ [])
    (hn : ¬ IsNumeral text) : unsignedOf (text.erase '.') = .error (numeralFault text) := by
  by_cases hone : text = ['.']
  · rw [hone]
    rfl
  · have hcount : 2 ≤ text.count '.' := by
      by_cases hd : ∃ c ∈ text, c.isDigit = true
      · have : ¬ text.count '.' ≤ 1 := fun hp => hn ⟨hd, hp⟩
        omega
      · exact two_le_count_of_no_digit h hne hone hd
    have hmem : '.' ∈ text.erase '.' := by
      rw [← List.count_pos_iff, List.count_erase_self]
      omega
    rw [unsignedOf_of_mem_point hmem, numeralFault, if_neg hone]

section Read

variable {text : String} (h : IsNumeric text.toList) (hne : text.toList ≠ [])

include h hne

theorem read_of_unsignedOf_ok (hs : fractionLength text.toList < 9223372036854775808) {n : Nat}
    (hn : unsignedOf (text.toList.erase '.') = .ok n) :
    read text = .ok ⟨n, fractionLength text.toList, by omega, by omega⟩ := by
  have hscale : -9223372036854775808 ≤ (fractionLength text.toList : Int) ∧
      (fractionLength text.toList : Int) < 9223372036854775808 := by omega
  have hint : integerOf (text.toList.erase '.') = .ok (n : Int) := by
    rw [(h.erase '.').integerOf, hn]
    rfl
  simp only [read, h.mantissa, h.exponent, if_neg hne, Int.sub_zero, dif_pos hscale, hint]

theorem read_of_unsignedOf_error (hs : fractionLength text.toList < 9223372036854775808)
    {fault : IntegerFault} (hn : unsignedOf (text.toList.erase '.') = .error fault) :
    read text = .error (.digits fault) := by
  have hscale : -9223372036854775808 ≤ (fractionLength text.toList : Int) ∧
      (fractionLength text.toList : Int) < 9223372036854775808 := by omega
  have hint : integerOf (text.toList.erase '.') = .error fault := by
    rw [(h.erase '.').integerOf, hn]
    rfl
  simp only [read, h.mantissa, h.exponent, if_neg hne, Int.sub_zero, dif_pos hscale, hint]

theorem read_of_scale (hs : ¬ fractionLength text.toList < 9223372036854775808) :
    read text = .error (.scale text) := by
  have hscale : ¬ (-9223372036854775808 ≤ (fractionLength text.toList : Int) ∧
      (fractionLength text.toList : Int) < 9223372036854775808) := by omega
  simp only [read, h.mantissa, h.exponent, if_neg hne, Int.sub_zero, dif_neg hscale]

/-- Digits and points that are no numeral are no decimal. -/
theorem read_of_not_isNumeral (hlen : text.toList.length ≤ 9223372036854775807)
    (hn : ¬ IsNumeral text.toList) : read text = .error (.digits (numeralFault text.toList)) := by
  have hlt := fractionLength_lt hne
  exact read_of_unsignedOf_error h hne (by omega) (unsignedOf_erase_of_not_isNumeral h hne hn)

end Read

theorem filter_isDigit_ne_nil {text : List Char} (h : ∃ c ∈ text, c.isDigit = true) :
    text.filter Char.isDigit ≠ [] := by
  obtain ⟨c, hc, hd⟩ := h
  exact List.ne_nil_of_mem (List.mem_filter.2 ⟨hc, hd⟩)

theorem IsNumeral.ne_nil {text : List Char} (h : IsNumeral text) : text ≠ [] := by
  obtain ⟨c, hc, _⟩ := h.digit
  exact List.ne_nil_of_mem hc

/-- A numeral is read as the decimal that it spells. -/
theorem read_of_spells {text : String} {d : Decimal} (h : IsNumeric text.toList)
    (hd : Spells text.toList d) : read text = .ok d := by
  obtain ⟨n, s, h₁, h₂⟩ := d
  have hdigits : n = _ := hd.digits
  have hscale : s = _ := hd.scale
  rw [← fractionLength_eq h hd.point] at hscale
  subst hdigits hscale
  refine read_of_unsignedOf_ok h hd.ne_nil (by omega) ?_
  rw [h.erase_point hd.point, unsignedOf_digits (filter_isDigit_ne_nil hd.digit)]
  exact fun c hc => (List.mem_filter.1 hc).2

/-- Every numeral whose fraction is not too long spells a decimal. -/
theorem IsNumeral.exists_spells {text : List Char} (h : IsNumeral text) (hn : IsNumeric text)
    (hs : fractionLength text < 9223372036854775808) : ∃ d, Spells text d :=
  ⟨⟨(Nat.ofDigitChars 10 (text.filter Char.isDigit) 0 : Nat), fractionLength text, by omega,
    by omega⟩, h, rfl, congrArg (fun n : Nat => (n : Int)) (fractionLength_eq hn h.point)⟩

/-- Digits and points are read as what they spell, and as nothing else. -/
theorem read_eq_ok_iff_spells {text : String} {d : Decimal} (h : IsNumeric text.toList) :
    read text = .ok d ↔ Spells text.toList d := by
  refine ⟨fun hr => ?_, read_of_spells h⟩
  have hne : text.toList ≠ [] := by
    intro hnil
    simp [read, hnil, mantissa, exponent] at hr
  have hs : fractionLength text.toList < 9223372036854775808 := by
    refine Decidable.byContradiction fun hs => ?_
    rw [read_of_scale h hne hs] at hr
    cases hr
  have hnum : IsNumeral text.toList := by
    refine Classical.byContradiction fun hn => ?_
    rw [read_of_unsignedOf_error h hne hs (unsignedOf_erase_of_not_isNumeral h hne hn)] at hr
    cases hr
  obtain ⟨e, he⟩ := hnum.exists_spells h hs
  rw [read_of_spells h he] at hr
  cases hr
  exact he

end Decimal
end Sexp
