import Mathlib.Data.List.DropRight
import Sexp.Proofs.NumberText
import Sexp.Proofs.Worth

/-!
# Numerals of one number

Of a numeral only so much matters for what it is worth: its whole part without the zeros before it, its
fraction without the zeros after it, and a point between them if a fraction is left (`bare`). Numerals are
read as the same number exactly when this leaves one text (`Spells.same_iff_bare`): at the longer of two
fractions both have as many digits after the point, and digits that are as many and have one value do not
differ (`ofDigitChars_inj`). With `Worth` this says what sameness of expressions is
(`Expr.same_iff_value`).
-/

namespace Sexp

namespace Decimal

/-! ### Digits with one value -/

section Digits

variable {xs ys us vs : List Char}

theorem ofDigitChars_inj (hxs : ∀ c ∈ xs, c.isDigit = true) (hys : ∀ c ∈ ys, c.isDigit = true)
    (hlen : xs.length = ys.length) (h : Nat.ofDigitChars 10 xs 0 = Nat.ofDigitChars 10 ys 0) :
    xs = ys := by
  -- Behind a digit other than zero no leading zeros are lost.
  have hone : Nat.ofDigitChars 10 xs 1 = Nat.ofDigitChars 10 ys 1 := by
    rw [Nat.ofDigitChars_eq_ofDigitChars_zero, h, hlen, ← Nat.ofDigitChars_eq_ofDigitChars_zero]
  have hdigits := congrArg digitChars hone
  rw [digitChars_ofDigitChars hxs (by decide), digitChars_ofDigitChars hys (by decide)] at hdigits
  exact List.append_cancel_left hdigits

theorem ofDigitChars_dropWhile_append (us xs : List Char) :
    Nat.ofDigitChars 10 (us.dropWhile (· == '0') ++ xs) 0 = Nat.ofDigitChars 10 (us ++ xs) 0 := by
  have hzeros := ofDigitChars_zeros_append (us.takeWhile (· == '0')).length
    (us.dropWhile (· == '0') ++ xs)
  rw [← List.append_assoc, ← eq_zeros_append] at hzeros
  exact hzeros.symm

theorem dropWhile_zeros_append (k : Nat) (us : List Char) :
    (List.replicate k '0' ++ us).dropWhile (· == '0') = us.dropWhile (· == '0') :=
  List.dropWhile_append_of_pos fun c hc => by rw [List.eq_of_mem_replicate hc]; rfl

/-- Where the same number of digits stands after the point, two numbers are equal exactly when these
digits are equal and the digits before the point differ in leading zeros only. -/
theorem ofDigitChars_append_eq_iff (hus : ∀ c ∈ us, c.isDigit = true)
    (hvs : ∀ c ∈ vs, c.isDigit = true) (hxs : ∀ c ∈ xs, c.isDigit = true)
    (hys : ∀ c ∈ ys, c.isDigit = true) (hlen : xs.length = ys.length) :
    Nat.ofDigitChars 10 (us ++ xs) 0 = Nat.ofDigitChars 10 (vs ++ ys) 0 ↔
      us.dropWhile (· == '0') = vs.dropWhile (· == '0') ∧ xs = ys := by
  constructor
  · intro h
    -- Zeros before either whole part make them as long as each other.
    rw [← ofDigitChars_zeros_append vs.length, ← ofDigitChars_zeros_append us.length (vs ++ ys)] at h
    have hleft := List.forall_mem_append.2
      ⟨isDigit_zeros vs.length, List.forall_mem_append.2 ⟨hus, hxs⟩⟩
    have hright := List.forall_mem_append.2
      ⟨isDigit_zeros us.length, List.forall_mem_append.2 ⟨hvs, hys⟩⟩
    have hall := ofDigitChars_inj hleft hright (by simp [hlen]; omega) h
    rw [← List.append_assoc, ← List.append_assoc] at hall
    obtain ⟨hwhole, hfraction⟩ := List.append_inj' hall hlen
    have hdrop := congrArg (List.dropWhile (· == '0')) hwhole
    rw [dropWhile_zeros_append, dropWhile_zeros_append] at hdrop
    exact ⟨hdrop, hfraction⟩
  · rintro ⟨hwhole, rfl⟩
    rw [← ofDigitChars_dropWhile_append us, hwhole, ofDigitChars_dropWhile_append]

theorem rdropWhile_append_zeros (ds : List Char) (k : Nat) :
    (ds ++ List.replicate k '0').rdropWhile (· == '0') = ds.rdropWhile (· == '0') := by
  rw [List.rdropWhile, List.reverse_append, List.reverse_replicate, dropWhile_zeros_append,
    List.rdropWhile]

theorem exists_append_zeros (ds : List Char) :
    ∃ k, ds = ds.rdropWhile (· == '0') ++ List.replicate k '0' := by
  refine ⟨(ds.rtakeWhile (· == '0')).length, ?_⟩
  have hzeros : ds.rtakeWhile (· == '0') =
      List.replicate (ds.rtakeWhile (· == '0')).length '0' :=
    List.eq_replicate_iff.2 ⟨rfl, fun c hc => by simpa using List.mem_rtakeWhile_imp hc⟩
  rw [← hzeros, List.rdropWhile_append_rtakeWhile]

/-- A shorter fraction differs from another in zeros at the end exactly when zeros make it the other. -/
theorem append_zeros_eq_iff (hle : xs.length ≤ ys.length) :
    xs ++ List.replicate (ys.length - xs.length) '0' = ys ↔
      xs.rdropWhile (· == '0') = ys.rdropWhile (· == '0') := by
  constructor
  · intro h
    rw [← h, rdropWhile_append_zeros]
  · intro h
    obtain ⟨i, hx⟩ := exists_append_zeros xs
    obtain ⟨j, hy⟩ := exists_append_zeros ys
    rw [← h] at hy
    generalize xs.rdropWhile (· == '0') = ds at hx hy
    rw [hx, hy, List.length_append, List.length_append, List.length_replicate,
      List.length_replicate] at hle
    have hcount : (ds ++ List.replicate j '0').length - (ds ++ List.replicate i '0').length = j - i := by
      simp
      omega
    rw [hx, hy, hcount, List.append_assoc, List.replicate_append_replicate]
    congr 2
    omega

end Digits

/-! ### What matters of a numeral -/

def bareWhole (text : List Char) : List Char := (wholePart text).dropWhile (· == '0')

def bareFraction (text : List Char) : List Char := (fractionPart text).rdropWhile (· == '0')

/-- A numeral without the zeros before its whole part and after its fraction, and without a point at its
end. -/
def bare (text : List Char) : List Char :=
  if bareFraction text = [] then bareWhole text
  else bareWhole text ++ '.' :: bareFraction text

example : bare "007.50".toList = "7.5".toList ∧ bare "7.".toList = "7".toList := by decide

section Parts

variable {text : List Char} {d : Decimal} (h : IsNumeric text) (hd : Spells text d)

include h hd

/-- The digits are those before the point and those after it, and the scale counts the latter. -/
theorem Spells.parts :
    (∀ c ∈ wholePart text, c.isDigit = true) ∧ (∀ c ∈ fractionPart text, c.isDigit = true) ∧
      d.digits = (Nat.ofDigitChars 10 (wholePart text ++ fractionPart text) 0 : Nat) ∧
      d.scale = ((fractionPart text).length : Nat) := by
  rcases h.digits_or_point hd.point with hall | ⟨xs, ys, rfl, hxs, hys⟩
  · obtain ⟨hdigits, hscale⟩ := (spells_digits_iff hd.ne_nil hall).1 hd
    rw [wholePart_digits hall, fractionPart_digits hall, List.append_nil]
    exact ⟨hall, List.forall_mem_nil _, hdigits, hscale⟩
  · have hne : xs ++ ys ≠ [] := by
      rw [← filter_isDigit_point hxs hys]
      obtain ⟨c, hc, hdigit⟩ := hd.digit
      exact List.ne_nil_of_mem (List.mem_filter.2 ⟨hc, hdigit⟩)
    obtain ⟨hdigits, hscale⟩ := (spells_point_iff hne hxs hys).1 hd
    rw [wholePart_point hxs, fractionPart_point hxs]
    exact ⟨hxs, hys, hdigits, hscale⟩

theorem Spells.isDigit_bareWhole : ∀ c ∈ bareWhole text, c.isDigit = true :=
  fun c hc => (hd.parts h).1 c ((List.dropWhile_sublist _).mem hc)

theorem Spells.wholePart_bare : wholePart (bare text) = bareWhole text := by
  have hwhole := hd.isDigit_bareWhole h
  unfold bare
  split
  · exact wholePart_digits hwhole
  · exact wholePart_point hwhole

theorem Spells.fractionPart_bare : fractionPart (bare text) = bareFraction text := by
  have hwhole := hd.isDigit_bareWhole h
  unfold bare
  split
  · rename_i hnil
    rw [hnil, fractionPart_digits hwhole]
  · exact fractionPart_point hwhole

end Parts

section Same

variable {x y : List Char} {a b : Decimal} (hx : IsNumeric x) (hy : IsNumeric y) (ha : Spells x a)
  (hb : Spells y b)

include hx hy ha hb

theorem bare_eq_iff : bare x = bare y ↔ bareWhole x = bareWhole y ∧ bareFraction x = bareFraction y := by
  constructor
  · intro h
    rw [← ha.wholePart_bare hx, ← hb.wholePart_bare hy, ← ha.fractionPart_bare hx,
      ← hb.fractionPart_bare hy, h]
    exact ⟨rfl, rfl⟩
  · rintro ⟨hwhole, hfraction⟩
    rw [bare, bare, hwhole, hfraction]

theorem same_iff_bare_of_le (hle : (fractionPart x).length ≤ (fractionPart y).length) :
    a.same b = true ↔ bare x = bare y := by
  obtain ⟨hxw, hxf, hadigits, hascale⟩ := ha.parts hx
  obtain ⟨hyw, hyf, hbdigits, hbscale⟩ := hb.parts hy
  have hcount : (b.scale - a.scale).toNat = (fractionPart y).length - (fractionPart x).length := by
    omega
  -- The shorter fraction gets zeros until both are as long as each other.
  have hpad : ∀ c ∈ fractionPart x ++
      List.replicate ((fractionPart y).length - (fractionPart x).length) '0', c.isDigit = true :=
    List.forall_mem_append.2 ⟨hxf, isDigit_zeros _⟩
  have hlen : (fractionPart x ++
      List.replicate ((fractionPart y).length - (fractionPart x).length) '0').length =
        (fractionPart y).length := by
    rw [List.length_append, List.length_replicate]
    omega
  rw [same_iff_of_le (by omega), hcount, hadigits, hbdigits, ← Int.natCast_mul, Int.natCast_inj,
    bare_eq_iff hx hy ha hb, bareFraction, bareFraction, ← append_zeros_eq_iff hle, bareWhole,
    bareWhole, ← ofDigitChars_append_eq_iff hxw hyw hpad hyf hlen, ← List.append_assoc,
    Nat.ofDigitChars_append (l := _ ++ _), Nat.ofDigitChars_replicate_zero, Nat.mul_comm]
  rfl

/-- Two numerals are read as the same number exactly when they leave one text. -/
theorem Spells.same_iff_bare : a.same b = true ↔ bare x = bare y := by
  rcases Nat.le_total (fractionPart x).length (fractionPart y).length with hle | hle
  · exact same_iff_bare_of_le hx hy ha hb hle
  · rw [same_comm, eq_comm (a := bare x)]
    exact same_iff_bare_of_le hy hx hb ha hle

end Same

end Decimal

/-! ### Sameness -/

/-- Numbers are the same exactly when they are worth as much, and exactly when both are nothing or both
have one trimmed form, of which there is one for every other number. Expressions are the same exactly when
they are the same tree of what their numbers are worth, so sameness is an equivalence; and numerals that
were read are the same exactly when what matters of them is one text. -/
theorem Expr.same_iff_value :
    (∀ a b : Decimal, same (.number a) (.number b) = true ↔
      (a.digits : ℚ) * 10 ^ (-a.scale) = (b.digits : ℚ) * 10 ^ (-b.scale)) ∧
    (∀ a b : Decimal, same (.number a) (.number b) = true ↔
      a.digits = 0 ∧ b.digits = 0 ∨ ∃ n c, a.Trimmed n c ∧ b.Trimmed n c) ∧
    (∀ d : Decimal, d.digits ≠ 0 → ∃! p : ℤ × ℤ, d.Trimmed p.1 p.2) ∧
    (∀ e f : Expr, e.same f = true ↔ e.worth = f.worth) ∧
    Equivalence (fun e f : Expr => e.same f = true) ∧
    ∀ (x y : List Char) (es fs : List Expr), Decimal.IsNumeric x → x ≠ [] → Decimal.IsNumeric y →
      y ≠ [] → read (Utf8.encode x) = .ok es → read (Utf8.encode y) = .ok fs →
      (sameAll es fs = true ↔ Decimal.bare x = Decimal.bare y) := by
  refine ⟨fun a b => ?_, fun a b => ?_, fun d => Decimal.existsUnique_trimmed, same_iff_worth,
    same_equivalence, ?_⟩
  · exact Decimal.same_iff_worth
  · exact Decimal.same_iff_trimmed
  · intro x y es fs hx hxne hy hyne hes hfs
    obtain ⟨a, rfl, ha⟩ := (read_numeric_iff hx hxne).1 hes
    obtain ⟨b, rfl, hb⟩ := (read_numeric_iff hy hyne).1 hfs
    rw [← ha.same_iff_bare hx hy hb]
    simp [sameAll, same]

/-- Zeros before and after a numeral do not matter, nor does the scale of nothing at all. -/
theorem Expr.same_seven_and_a_half :
    read (Utf8.encode "007.50".toList) = .ok [.number ⟨750, 2, by decide, by decide⟩] ∧
      read (Utf8.encode "7.5".toList) = .ok [.number ⟨75, 1, by decide, by decide⟩] ∧
      sameAll [.number ⟨750, 2, by decide, by decide⟩] [.number ⟨75, 1, by decide, by decide⟩] = true ∧
      same (.number ⟨0, -9223372036854775808, by decide, by decide⟩)
        (.number ⟨0, 9223372036854775807, by decide, by decide⟩) = true := by
  obtain ⟨_, hzero, _, _, _, htexts⟩ := same_iff_value
  have hx : read (Utf8.encode "007.50".toList) = .ok [.number ⟨750, 2, by decide, by decide⟩] := by
    with_unfolding_all rfl
  have hy : read (Utf8.encode "7.5".toList) = .ok [.number ⟨75, 1, by decide, by decide⟩] := by
    with_unfolding_all rfl
  have hsame := htexts _ _ _ _ (by decide) (by decide) (by decide) (by decide) hx hy
  exact ⟨hx, hy, hsame.2 (by decide), (hzero _ _).2 (.inl ⟨rfl, rfl⟩)⟩

end Sexp
