import Sexp.Proofs.DecimalReading
import Sexp.Proofs.Rereading

/-!
# Numbers written and read

Between the numbers and their texts: the text of any number is read as a number that is the same and
has the same text (`Expr.readNumber_display`); and a numeral that was read is written as it stands
exactly when it is canonical (`Expr.display_eq_lexeme_iff`), so that of all numerals of a number no more
than one is.
-/

namespace Sexp

/-! ### Reading what is written -/

/-- The text of a number is read as a number that is the same and has the same text. It is the number
itself, unless nothing is written for its scale: that of zero, and one that zeros stand for. Hence
numbers with the same text are the same. -/
theorem Expr.readNumber_display (d : Decimal) :
    (∃ e : Decimal, readNumber (display (.number d)) = .ok (.number e) ∧
      same (.number e) (.number d) = true ∧ display (.number e) = display (.number d) ∧
      (d.digits = 0 → e.digits = 0 ∧ e.scale = 0) ∧
      (d.digits ≠ 0 → -15 ≤ d.scale → d.scale < 0 →
        e.digits = d.digits * (Nat.pow 10 (-d.scale).toNat : Nat) ∧ e.scale = 0) ∧
      (d.digits ≠ 0 → ¬ (-15 ≤ d.scale ∧ d.scale < 0) → e = d)) ∧
    ∀ d' : Decimal, display (.number d') = display (.number d) →
      same (.number d') (.number d) = true := by
  refine ⟨⟨d.settled, ?_, d.settled_same, d.display_settled, ?_, ?_, ?_⟩, fun d' htext => ?_⟩
  · show (Decimal.read d.display).map Expr.number = _
    rw [d.read_display]
    rfl
  · intro hzero
    rw [Decimal.settled, if_pos hzero]
    exact ⟨rfl, rfl⟩
  · intro hzero hlow hhigh
    rw [Decimal.settled, if_neg hzero, if_pos ⟨hlow, hhigh⟩]
    exact ⟨rfl, rfl⟩
  · intro hzero hscale
    rw [Decimal.settled, if_neg hzero]
    exact if_neg hscale
  · -- One text is read as one number, and both numbers are the same as that.
    have hread : (.ok d'.settled : Except NumberError Decimal) = .ok d.settled := by
      rw [← d'.read_display, ← d.read_display]
      exact congrArg Decimal.read htext
    have hsettled : d'.settled = d.settled := Except.ok.inj hread
    have hleft := Decimal.same_iff.1 d'.settled_same
    have hright := Decimal.same_iff.1 d.settled_same
    exact Decimal.same_iff.2 (by rw [← hleft, hsettled, hright])

/-- At the lower end of the scale a number is read back as it is; `1` with a zero written after it is
read as `10`, and the same as that. -/
theorem Expr.readNumber_display_least_scale :
    readNumber (display (.number ⟨-12, -9223372036854775808, by decide, by decide⟩)) =
        .ok (.number ⟨-12, -9223372036854775808, by decide, by decide⟩) ∧
      same (.number ⟨1, -1, by decide, by decide⟩) (.number ⟨10, 0, by decide, by decide⟩) = true := by
  constructor
  · obtain ⟨⟨e, hread, _, _, _, _, hself⟩, _⟩ :=
      readNumber_display ⟨-12, -9223372036854775808, by decide, by decide⟩
    rw [hself (by decide) (by decide)] at hread
    exact hread
  · apply (readNumber_display ⟨10, 0, by decide, by decide⟩).2
    exact congrArg String.ofList (by decide)

namespace Decimal

/-! ### Canonical numerals -/

def wholePart (text : List Char) : List Char := text.takeWhile (· != '.')

def fractionPart (text : List Char) : List Char := (text.dropWhile (· != '.')).tail

/-- The first character is a digit other than zero. -/
def Significant : List Char → Prop
  | [] => False
  | c :: _ => c.isDigit = true ∧ c ≠ '0'

/-- A numeral of a number other than zero that is written as the number is: no zeros before the whole
part, no point without digits on both sides, and no more than five zeros between the point and the first
digit of a small number. -/
structure Plain (text : List Char) : Prop where
  value : Nat.ofDigitChars 10 (text.filter Char.isDigit) 0 ≠ 0
  whole : wholePart text = ['0'] ∨ Significant (wholePart text)
  fraction : '.' ∈ text → fractionPart text ≠ []
  zeros : wholePart text = ['0'] → ((fractionPart text).takeWhile (· == '0')).length ≤ 5

def Canonical (text : List Char) : Prop := text = ['0'] ∨ Plain text

instance : (ds : List Char) → Decidable (Significant ds)
  | [] => inferInstanceAs (Decidable False)
  | c :: _ => inferInstanceAs (Decidable (c.isDigit = true ∧ c ≠ '0'))

instance (text : List Char) : Decidable (Plain text) :=
  decidable_of_iff (Nat.ofDigitChars 10 (text.filter Char.isDigit) 0 ≠ 0 ∧
      (wholePart text = ['0'] ∨ Significant (wholePart text)) ∧
      ('.' ∈ text → fractionPart text ≠ []) ∧
      (wholePart text = ['0'] → ((fractionPart text).takeWhile (· == '0')).length ≤ 5))
    ⟨fun ⟨hvalue, hwhole, hfraction, hzeros⟩ => ⟨hvalue, hwhole, hfraction, hzeros⟩,
      fun ⟨hvalue, hwhole, hfraction, hzeros⟩ => ⟨hvalue, hwhole, hfraction, hzeros⟩⟩

instance (text : List Char) : Decidable (Canonical text) :=
  inferInstanceAs (Decidable (text = ['0'] ∨ Plain text))

-- A sixth zero behind the point, and a zero before the digits.
example : ¬ Canonical "0.00000015".toList ∧ ¬ Canonical "01.5".toList := by decide

namespace Significant

variable {ds : List Char} (h : Significant ds)

include h

theorem exists_cons : ∃ c cs, ds = c :: cs ∧ c.isDigit = true ∧ c ≠ '0' := by
  cases ds with
  | nil => cases h
  | cons c cs => exact ⟨c, cs, rfl, h⟩

theorem ne_nil : ds ≠ [] := by
  obtain ⟨c, cs, rfl, _⟩ := h.exists_cons
  exact List.cons_ne_nil c cs

theorem ne_zero : ds ≠ ['0'] := by
  rintro rfl
  exact h.2 rfl

theorem append (es : List Char) : Significant (ds ++ es) := by
  obtain ⟨c, cs, rfl, hc⟩ := h.exists_cons
  exact hc

theorem dropWhile : ds.dropWhile (· == '0') = ds := by
  obtain ⟨c, cs, rfl, _, hne⟩ := h.exists_cons
  exact List.dropWhile_cons_of_neg (by simpa using hne)

theorem length_takeWhile_zeros (k : Nat) :
    ((List.replicate k '0' ++ ds).takeWhile (· == '0')).length = k := by
  obtain ⟨c, cs, rfl, _, hne⟩ := h.exists_cons
  rw [List.takeWhile_append_of_pos fun d hd => by rw [List.eq_of_mem_replicate hd]; rfl,
    List.takeWhile_cons_of_neg (by simpa using hne), List.append_nil, List.length_replicate]

end Significant

theorem Significant.of_append {xs ys : List Char} (h : Significant (xs ++ ys)) (hne : xs ≠ []) :
    Significant xs := by
  obtain ⟨c, cs, rfl⟩ := List.exists_cons_of_ne_nil hne
  exact h

theorem significant_digitChars {n : Nat} (h : n ≠ 0) : Significant (digitChars n) := by
  have hvalue : Nat.ofDigitChars 10 (digitChars n) 0 ≠ 0 := by rwa [ofDigitChars_digitChars]
  have hdrop := digitChars_of_ne_zero isDigit_digitChars hvalue
  rw [ofDigitChars_digitChars] at hdrop
  have hhead := List.head?_dropWhile_not (· == '0') (digitChars n)
  rw [← hdrop] at hhead
  obtain ⟨c, cs, hcs⟩ := List.exists_cons_of_ne_nil (digitChars_ne_nil n)
  have hdigit : c.isDigit = true := isDigit_digitChars c (by rw [hcs]; exact List.mem_cons_self)
  rw [hcs] at hhead ⊢
  exact ⟨hdigit, by simpa using hhead⟩

/-! ### The two parts of a numeral -/

section Parts

variable {xs ys : List Char} (hxs : ∀ c ∈ xs, c.isDigit = true)

include hxs

theorem wholePart_digits : wholePart xs = xs :=
  List.takeWhile_eq_self_iff.2 (bne_of_notMem (not_mem_of_isDigit hxs rfl))

theorem fractionPart_digits : fractionPart xs = [] := by
  rw [fractionPart, List.dropWhile_eq_nil_iff.2 (bne_of_notMem (not_mem_of_isDigit hxs rfl))]
  rfl

theorem wholePart_point : wholePart (xs ++ '.' :: ys) = xs := by
  have hpoint : '.' ∉ xs := not_mem_of_isDigit hxs rfl
  rw [wholePart, List.takeWhile_append_of_pos (bne_of_notMem hpoint),
    List.takeWhile_cons_of_neg (by simp), List.append_nil]

theorem fractionPart_point : fractionPart (xs ++ '.' :: ys) = ys := by
  have hpoint : '.' ∉ xs := not_mem_of_isDigit hxs rfl
  rw [fractionPart, List.dropWhile_append_of_pos (bne_of_notMem hpoint),
    List.dropWhile_cons_of_neg (by simp), List.tail_cons]

end Parts

/-- Digits, perhaps with a point among them. -/
theorem IsNumeric.digits_or_point {text : List Char} (h : IsNumeric text) (hp : text.count '.' ≤ 1) :
    (∀ c ∈ text, c.isDigit = true) ∨ ∃ xs ys, text = xs ++ '.' :: ys ∧
      (∀ c ∈ xs, c.isDigit = true) ∧ ∀ c ∈ ys, c.isDigit = true := by
  by_cases hmem : '.' ∈ text
  · obtain ⟨xs, ys, rfl, hxs⟩ := List.eq_append_cons_of_mem hmem
    have hys : '.' ∉ ys := by
      rw [List.count_append, List.count_cons_self] at hp
      exact List.count_eq_zero.1 (by omega)
    refine .inr ⟨xs, ys, rfl, ?_, ?_⟩
    · exact IsNumeric.isDigit_of_count_zero (fun c hc => h c (List.mem_append_left _ hc)) hxs
    · exact IsNumeric.isDigit_of_count_zero
        (fun c hc => h c (List.mem_append_right _ (List.mem_cons_of_mem _ hc))) hys
  · exact .inl (h.isDigit_of_count_zero hmem)

section Plain

variable {xs ys : List Char} (hxs : ∀ c ∈ xs, c.isDigit = true)

include hxs

theorem plain_digits_iff :
    Plain xs ↔ Nat.ofDigitChars 10 xs 0 ≠ 0 ∧ Significant xs := by
  have hfilter : xs.filter Char.isDigit = xs := List.filter_eq_self.2 hxs
  have hwhole := wholePart_digits hxs
  constructor
  · rintro ⟨hvalue, hw, _, _⟩
    rw [hfilter] at hvalue
    rw [hwhole] at hw
    rcases hw with rfl | hs
    · exact absurd rfl hvalue
    · exact ⟨hvalue, hs⟩
  · rintro ⟨hvalue, hs⟩
    refine ⟨by rwa [hfilter], .inr (by rwa [hwhole]), fun hpoint => ?_, fun hzero => ?_⟩
    · exact absurd hpoint (not_mem_of_isDigit hxs (by decide))
    · rw [hwhole] at hzero
      exact absurd hzero hs.ne_zero

theorem plain_point_iff (hys : ∀ c ∈ ys, c.isDigit = true) :
    Plain (xs ++ '.' :: ys) ↔ Nat.ofDigitChars 10 (xs ++ ys) 0 ≠ 0 ∧ ys ≠ [] ∧
      (Significant xs ∨ xs = ['0'] ∧ (ys.takeWhile (· == '0')).length ≤ 5) := by
  have hfilter := filter_isDigit_point hxs hys
  have hwhole : wholePart (xs ++ '.' :: ys) = xs := wholePart_point hxs
  have hfraction : fractionPart (xs ++ '.' :: ys) = ys := fractionPart_point hxs
  constructor
  · rintro ⟨hvalue, hw, hf, hz⟩
    rw [hfilter] at hvalue
    rw [hwhole] at hw hz
    rw [hfraction] at hf hz
    exact ⟨hvalue, hf (by simp), hw.symm.imp_right fun hzero => ⟨hzero, hz hzero⟩⟩
  · rintro ⟨hvalue, hf, hw⟩
    refine ⟨by rwa [hfilter], ?_, fun _ => by rwa [hfraction], fun hzero => ?_⟩
    · rw [hwhole]
      exact hw.symm.imp_left And.left
    · rw [hwhole] at hzero
      rw [hfraction]
      exact (hw.resolve_left fun hs => hs.ne_zero hzero).2

end Plain

/-! ### Written in full -/

theorem eq_zeros_append (ds : List Char) :
    ds = List.replicate (ds.takeWhile (· == '0')).length '0' ++ ds.dropWhile (· == '0') := by
  have hzeros : ds.takeWhile (· == '0') = List.replicate (ds.takeWhile (· == '0')).length '0' := by
    refine List.eq_replicate_iff.2 ⟨rfl, fun c hc => ?_⟩
    simpa using List.all_eq_true.1 List.all_takeWhile c hc
  rw [← hzeros, List.takeWhile_append_dropWhile]

theorem unsignedDisplay_point (ds : List Char) {k : Nat} (hk : 0 < k) (hle : k ≤ ds.length + 5) :
    unsignedDisplay ds k = withPoint ds k := by
  have hsmall : ¬ maxLeadingZeros < (k : Int) - ds.length := by
    rw [maxLeadingZeros]
    omega
  have hlarge : ¬ maxTrailingZeros < -(k : Int) := by
    rw [maxTrailingZeros]
    omega
  rw [unsignedDisplay, if_neg hsmall, if_neg hlarge, if_neg (by omega), Int.toNat_natCast]

theorem withPoint_append {xs : List Char} (hne : xs ≠ []) (ys : List Char) :
    withPoint (xs ++ ys) ys.length = xs ++ '.' :: ys := by
  have hlen : (xs ++ ys).length = xs.length + ys.length := List.length_append
  have hpos := List.length_pos_iff.2 hne
  have hpoint : (xs ++ ys).length - ys.length = xs.length := by omega
  rw [withPoint, if_pos (by omega), hpoint, List.take_left, List.drop_left]

theorem withPoint_zeros (ds : List Char) (k : Nat) :
    withPoint ds (k + ds.length) = ['0'] ++ '.' :: (List.replicate k '0' ++ ds) := by
  rw [withPoint, if_neg (by omega), Nat.add_sub_cancel]
  rfl

/-- A plain numeral is written as it is. -/
theorem Plain.displayChars_eq {text : List Char} {d : Decimal} (h : Plain text)
    (hnum : IsNumeric text) (hd : Spells text d) : d.displayChars = text := by
  have hvalue := h.value
  have hpos : 0 < d.digits := by
    rw [hd.digits]
    omega
  rw [displayChars_of_pos hpos, hd.digitChars (by omega)]
  rcases hnum.digits_or_point hd.point with hall | ⟨xs, ys, rfl, hxs, hys⟩
  · obtain ⟨_, hs⟩ := (plain_digits_iff hall).1 h
    obtain ⟨_, hscale⟩ := (spells_digits_iff hd.ne_nil hall).1 hd
    rw [List.filter_eq_self.2 hall, hs.dropWhile, hscale,
      unsignedDisplay_zeros _ (by decide) (by decide)]
    exact List.append_nil text
  · obtain ⟨_, hne, hwhole⟩ := (plain_point_iff hxs hys).1 h
    have hlen := List.length_pos_iff.2 hne
    have hall : xs ++ ys ≠ [] := List.append_ne_nil_of_right_ne_nil xs hne
    obtain ⟨_, hscale⟩ := (spells_point_iff hall hxs hys).1 hd
    rw [filter_isDigit_point hxs hys, hscale]
    rcases hwhole with hs | ⟨rfl, hzeros⟩
    · have hle : ys.length ≤ (xs ++ ys).length + 5 := by
        rw [List.length_append]
        omega
      rw [(hs.append ys).dropWhile, unsignedDisplay_point _ hlen hle, withPoint_append hs.ne_nil]
    · -- The zeros behind the point are those that the digits of the number do not have.
      have hdrop : (['0'] ++ ys).dropWhile (· == '0') = ys.dropWhile (· == '0') :=
        List.dropWhile_cons_of_pos rfl
      have hsplit := eq_zeros_append ys
      have hlength := congrArg List.length hsplit
      rw [List.length_append, List.length_replicate] at hlength
      rw [hdrop, unsignedDisplay_point _ hlen (by omega), hlength, withPoint_zeros, ← hsplit]

/-- What is written in full is canonical. -/
theorem canonical_displayChars {d : Decimal} (hd : 0 ≤ d.digits) (hs : 0 ≤ d.scale)
    (h : d.WrittenInFull) : Canonical d.displayChars := by
  by_cases hzero : d.digits = 0
  · exact .inl (if_pos hzero)
  obtain ⟨k, hk⟩ := Int.eq_ofNat_of_zero_le hs
  have hprecision : (digitChars d.digits.natAbs).length = d.precision := rfl
  have hdigits : ∀ c ∈ digitChars d.digits.natAbs, c.isDigit = true := isDigit_digitChars
  have hvalue : Nat.ofDigitChars 10 (digitChars d.digits.natAbs) 0 ≠ 0 := by
    rw [ofDigitChars_digitChars]
    omega
  have hsig : Significant (digitChars d.digits.natAbs) := significant_digitChars (by omega)
  rw [displayChars_of_pos (by omega), hk]
  generalize digitChars d.digits.natAbs = ds at hprecision hdigits hvalue hsig ⊢
  right
  rcases Nat.eq_zero_or_pos k with rfl | hkpos
  · have hzeros : unsignedDisplay ds (0 : Nat) = ds ++ [] :=
      unsignedDisplay_zeros ds (by decide) (by decide)
    rw [hzeros, List.append_nil]
    exact (plain_digits_iff hdigits).2 ⟨hvalue, hsig⟩
  have hfull : k ≤ ds.length + 5 := by
    have hsmall := (h.resolve_left hzero).2
    omega
  rw [unsignedDisplay_point ds hkpos hfull]
  rcases withPoint_cases ds k with ⟨xs, ys, hne, rfl, rfl, htext⟩ | ⟨j, rfl, htext⟩
  · obtain ⟨hxs, hys⟩ := List.forall_mem_append.1 hdigits
    rw [htext, plain_point_iff hxs hys]
    exact ⟨hvalue, List.ne_nil_of_length_pos hkpos, .inl (hsig.of_append hne)⟩
  · have hzero : ∀ c ∈ ['0'], c.isDigit = true := List.forall_mem_singleton.2 rfl
    have hrest : ∀ c ∈ List.replicate j '0' ++ ds, c.isDigit = true :=
      List.forall_mem_append.2 ⟨isDigit_zeros j, hdigits⟩
    rw [htext, plain_point_iff hzero hrest, List.singleton_append, ofDigitChars_zero_cons,
      ofDigitChars_zeros_append, hsig.length_takeWhile_zeros]
    exact ⟨hvalue, List.append_ne_nil_of_right_ne_nil _ hsig.ne_nil, .inr ⟨rfl, by omega⟩⟩

/-- A numeral is written as it is exactly when it is canonical. -/
theorem Spells.displayChars_eq_iff {text : List Char} {d : Decimal} (hd : Spells text d)
    (h : IsNumeric text) : d.displayChars = text ↔ Canonical text := by
  constructor
  · intro htext
    have hfull : d.WrittenInFull := by
      rw [writtenInFull_iff, htext]
      intro c hc
      simpa using h.isExponentMark c hc
    rw [← htext]
    refine canonical_displayChars ?_ ?_ hfull
    · rw [hd.digits]
      exact Int.natCast_nonneg _
    · rw [hd.scale]
      exact Int.natCast_nonneg _
  · rintro (rfl | hplain)
    · exact if_pos hd.digits
    · exact hplain.displayChars_eq h hd

/-- Zeros at the end of the fraction leave a numeral plain. -/
theorem Plain.append_zeros {xs ys : List Char} (hxs : ∀ c ∈ xs, c.isDigit = true)
    (hys : ∀ c ∈ ys, c.isDigit = true) (h : Plain (xs ++ '.' :: ys)) (k : Nat) :
    Plain (xs ++ '.' :: (ys ++ List.replicate k '0')) := by
  obtain ⟨hvalue, hne, hwhole⟩ := (plain_point_iff hxs hys).1 h
  rw [plain_point_iff hxs (List.forall_mem_append.2 ⟨hys, isDigit_zeros k⟩)]
  refine ⟨?_, List.append_ne_nil_of_left_ne_nil hne _, ?_⟩
  · rw [← List.append_assoc, Nat.ofDigitChars_append, Nat.ofDigitChars_replicate_zero]
    exact Nat.mul_ne_zero (Nat.ne_of_gt (Nat.pow_pos (by decide))) hvalue
  · refine hwhole.imp_right fun hsmall => ?_
    obtain ⟨rfl, hzeros⟩ := hsmall
    refine ⟨rfl, ?_⟩
    -- A digit other than zero parts the zeros behind the point from those at the end.
    rw [List.singleton_append, ofDigitChars_zero_cons] at hvalue
    have hsig : Significant (ys.dropWhile (· == '0')) := by
      rw [← digitChars_of_ne_zero hys hvalue]
      exact significant_digitChars hvalue
    have hsplit := eq_zeros_append ys
    rw [hsplit, List.append_assoc, (hsig.append _).length_takeWhile_zeros]
    exact hzeros

/-- A plain numeral with a point may have more zeros at its end, as long as 64 bits hold its scale: it is
still a numeral, and written as it is. -/
theorem Plain.exists_spells_zeros {text : List Char} (h : Plain text) (hnum : IsNumeric text)
    (hp : text.count '.' ≤ 1) (hpoint : '.' ∈ text) {k : Nat}
    (hlen : (fractionPart text).length + k < 9223372036854775808) :
    ∃ d, IsNumeric (text ++ List.replicate k '0') ∧ Spells (text ++ List.replicate k '0') d ∧
      d.displayChars = text ++ List.replicate k '0' := by
  rcases hnum.digits_or_point hp with hall | ⟨xs, ys, rfl, hxs, hys⟩
  · exact absurd hpoint (not_mem_of_isDigit hall (by decide))
  have hrest : ∀ c ∈ ys ++ List.replicate k '0', c.isDigit = true :=
    List.forall_mem_append.2 ⟨hys, isDigit_zeros k⟩
  have hlong := h.append_zeros hxs hys k
  obtain ⟨_, hne, _⟩ := (plain_point_iff hxs hrest).1 hlong
  rw [fractionPart_point hxs] at hlen
  rw [List.append_assoc, List.cons_append]
  have hnum' := isNumeric_point hxs hrest
  have hscale : (ys ++ List.replicate k '0').length < 9223372036854775808 := by
    rwa [List.length_append, List.length_replicate]
  let d : Decimal := ⟨(Nat.ofDigitChars 10 (xs ++ (ys ++ List.replicate k '0')) 0 : Nat),
    (ys ++ List.replicate k '0').length, by omega, by omega⟩
  have hd : Spells (xs ++ '.' :: (ys ++ List.replicate k '0')) d :=
    (spells_point_iff (List.append_ne_nil_of_right_ne_nil xs hne) hxs hrest).2 ⟨rfl, rfl⟩
  exact ⟨d, hnum', hd, hlong.displayChars_eq hnum' hd⟩

end Decimal

/-- A number that was read is written as it stood exactly when that was canonical; so it does not matter
how many zeros stand at the end of a canonical fraction, they are all written. -/
theorem Expr.display_eq_lexeme_iff {text : String} {es : List Expr}
    (h : Decimal.IsNumeric text.toList) (hne : text.toList ≠ [])
    (hread : read (Utf8.encode text.toList) = .ok es) :
    ∃ d, es = [.number d] ∧
      (∀ t : Token, t.kind = .number → t.lexeme = text → t.number = .ok (.number d)) ∧
      (display (.number d) = text ↔ Decimal.Canonical text.toList) ∧
      (Decimal.Canonical text.toList → '.' ∈ text.toList → ∀ k,
        (Decimal.fractionPart text.toList).length + k < 9223372036854775808 →
        ∃ e, read (Utf8.encode (text.toList ++ List.replicate k '0')) = .ok [.number e] ∧
          displayChars (.number e) = text.toList ++ List.replicate k '0') := by
  obtain ⟨d, rfl, hd⟩ := (read_numeric_iff h hne).1 hread
  refine ⟨d, rfl, fun t hk htext => ?_, ?_, fun hcanonical hpoint k hlen => ?_⟩
  · have hnumber : Decimal.read t.lexeme = .ok d := by
      rw [htext]
      exact Decimal.read_of_spells h hd
    rw [Token.number, hnumber]
  · rw [← String.toList_inj, display, String.toList_ofList]
    exact hd.displayChars_eq_iff h
  · have hplain : Decimal.Plain text.toList := by
      refine hcanonical.resolve_left fun hzero => ?_
      rw [hzero] at hpoint
      exact absurd hpoint (by decide)
    obtain ⟨e, hnum, he, htext⟩ := hplain.exists_spells_zeros h hd.point hpoint hlen
    exact ⟨e, read_numeral hnum he, htext⟩

/-- Five zeros behind the point are kept, and so would be more zeros at the end. -/
theorem Expr.small_number_display_eq_lexeme :
    read (Utf8.encode "0.0000015".toList) = .ok [.number ⟨15, 7, by decide, by decide⟩] ∧
      display (.number ⟨15, 7, by decide, by decide⟩) = "0.0000015" ∧
      ∃ e, read (Utf8.encode ("0.0000015".toList ++ List.replicate 4000 '0')) = .ok [.number e] ∧
        displayChars (.number e) = "0.0000015".toList ++ List.replicate 4000 '0' := by
  have hread : read (Utf8.encode "0.0000015".toList) =
      .ok [.number ⟨15, 7, by decide, by decide⟩] := by
    with_unfolding_all rfl
  have hcanonical : Decimal.Canonical "0.0000015".toList := by decide
  obtain ⟨d, hd, _, hiff, hzeros⟩ := display_eq_lexeme_iff (by decide) (by decide) hread
  cases hd
  exact ⟨hread, hiff.2 hcanonical, hzeros hcanonical (by decide) 4000 (by decide)⟩

end Sexp
