import Sexp.Proofs.Sources

/-!
# What rendering does to a source

Expressions that were read are rendered as text, and that is read again: never with a fault, and with
every node as it was but for numbers with more than five zeros between their point and their first
digit, which fall into two expressions each, and zeros, which lose their scale (`Expr.piecesAll`). What
is read then stays as it is when it is rendered and read again (`read_displayAll_pieces`).
-/

namespace Sexp

namespace Decimal

theorem scale_first_digit {d : Decimal} (h : 5 < d.scale - d.precision) :
    -9223372036854775808 ≤ (d.precision - 1 : Int) ∧
      (d.precision - 1 : Int) < 9223372036854775808 := by
  have hs := d.scale_lt
  omega

/-- What a number that was read becomes: nothing is zero without a scale; a number with more than five
zeros before its first digit is the number with a point behind its first digit and a symbol for the
exponent; any other number is itself. -/
def pieces (d : Decimal) : List Expr :=
  if d.digits = 0 then [.number (.ofInt 0)]
  else if h : 5 < d.scale - d.precision then
    [.number ⟨d.digits, d.precision - 1, (scale_first_digit h).1, (scale_first_digit h).2⟩,
      .symbol (String.ofList ('E' :: '-' :: digitChars (d.scale - d.precision + 1).toNat))]
  else [.number d]

theorem pieces_of_zero {d : Decimal} (h : d.digits = 0) : d.pieces = [.number (.ofInt 0)] :=
  if_pos h

theorem pieces_of_le {d : Decimal} (hzero : d.digits ≠ 0) (h : d.scale - d.precision ≤ 5) :
    d.pieces = [.number d] := by
  rw [pieces, if_neg hzero, dif_neg (by omega)]

theorem ofInt_digits {d : Decimal} (h : d.scale = 0) : ofInt d.digits = d := by
  obtain ⟨digits, scale, _, _⟩ := d
  obtain rfl : scale = 0 := h
  rfl

theorem significand_eq_self {d : Decimal} (hd : 0 < d.digits) (hs : 0 ≤ d.scale)
    (h : d.scale - d.precision ≤ 5) : d.significand = d := by
  have hsmall : ¬ maxLeadingZeros < d.scale - d.precision := by
    rw [maxLeadingZeros]
    omega
  have hlarge : ¬ maxTrailingZeros < -d.scale := by
    rw [maxTrailingZeros]
    omega
  rw [significand, if_neg (by omega), dif_neg hsmall, if_neg hlarge]
  by_cases hscale : d.scale ≤ 0
  · have hzero : d.scale = 0 := by omega
    have hdigits : ((d.digits.toNat * Nat.pow 10 (-d.scale).toNat : Nat) : Int) = d.digits := by
      rw [hzero]
      show ((d.digits.toNat * 1 : Nat) : Int) = d.digits
      omega
    rw [if_pos hscale, hdigits, ofInt_digits hzero]
  · rw [if_neg hscale]

theorem ofDecimalText_eq_pieces {d : Decimal} (hd : 0 ≤ d.digits) (hs : 0 ≤ d.scale) :
    Expr.ofDecimalText d = d.pieces := by
  by_cases hzero : d.digits = 0
  · rw [d.pieces_of_zero hzero, Expr.ofDecimalText, exponentText, significand, if_pos hzero,
      if_pos hzero, if_pos rfl]
  by_cases hsmall : 5 < d.scale - d.precision
  · have hmax : maxLeadingZeros < d.scale - d.precision := hsmall
    rw [Expr.ofDecimalText, exponentText, significand, pieces, if_neg hzero, if_neg hzero,
      if_neg hzero, if_pos hmax, dif_pos hmax, dif_pos hsmall]
    rfl
  · have hfull : d.WrittenInFull := .inr ⟨by omega, by omega⟩
    rw [pieces_of_le hzero (by omega), Expr.ofDecimalText,
      if_pos ((exponentText_eq_nil_iff d).2 hfull), significand_eq_self (by omega) hs (by omega)]

end Decimal

namespace Expr

mutual

/-- What an expression that was read becomes when it is rendered and read again. -/
def pieces : Expr → List Expr
  | .list items => [.list (piecesAll items)]
  | .symbol name => [.symbol name]
  | .string value => [.string value]
  | .number value => value.pieces

def piecesAll : List Expr → List Expr
  | [] => []
  | e :: es => pieces e ++ piecesAll es

end

theorem rereadAll_eq_piecesAll {es : List Expr} (h : EachNode IsRead es) :
    rereadAll es = piecesAll es := by
  induction es using forest_induction with
  | nil => rfl
  | symbol name es ih =>
    rw [eachNode_cons] at h
    rw [rereadAll, piecesAll, ih h.2, reread, pieces]
  | string value es ih =>
    rw [eachNode_cons] at h
    rw [rereadAll, piecesAll, ih h.2, reread, pieces]
  | number value es ih =>
    rw [eachNode_cons, eachNode_number] at h
    rw [rereadAll, piecesAll, ih h.2, reread, pieces, Decimal.ofDecimalText_eq_pieces h.1.1 h.1.2]
  | list items es ihi ih =>
    rw [eachNode_cons, eachNode_list] at h
    rw [rereadAll, piecesAll, ih h.2, reread, pieces, ihi h.1.2]

theorem piecesAll_append (es fs : List Expr) :
    piecesAll (es ++ fs) = piecesAll es ++ piecesAll fs := by
  induction es with
  | nil => rfl
  | cons e es ih => rw [List.cons_append, piecesAll, ih, piecesAll, List.append_assoc]

theorem piecesAll_decimal (d : Decimal) : piecesAll d.pieces = d.pieces := by
  by_cases hzero : d.digits = 0
  · rw [d.pieces_of_zero hzero]
    rfl
  by_cases hsmall : 5 < d.scale - d.precision
  · obtain ⟨hlow, hhigh⟩ := Decimal.scale_first_digit hsmall
    let first : Decimal := ⟨d.digits, d.precision - 1, hlow, hhigh⟩
    have hfirst : first.pieces = [.number first] := by
      refine Decimal.pieces_of_le hzero ?_
      show (d.precision - 1 : Int) - d.precision ≤ 5
      omega
    rw [Decimal.pieces, if_neg hzero, dif_pos hsmall, piecesAll, pieces]
    show first.pieces ++ _ = _
    rw [hfirst]
    rfl
  · rw [Decimal.pieces_of_le hzero (by omega), piecesAll, pieces,
      Decimal.pieces_of_le hzero (by omega)]
    rfl

theorem piecesAll_piecesAll (es : List Expr) : piecesAll (piecesAll es) = piecesAll es := by
  induction es using forest_induction with
  | nil => rfl
  | symbol name es ih | string name es ih =>
    rw [piecesAll, piecesAll_append, ih]
    rfl
  | number value es ih => rw [piecesAll, piecesAll_append, ih, pieces, piecesAll_decimal]
  | list items es ihi ih =>
    rw [piecesAll, piecesAll_append, ih, pieces, piecesAll, pieces, ihi]
    rfl

/-! ### Rendering and reading -/

theorem read_displayAll_of_read {source : List UInt8} {es : List Expr} (h : read source = .ok es) :
    read (Utf8.encode (displayAll es).toList) = .ok (piecesAll es) := by
  rw [displayAll, String.toList_ofList, ← rereadAll_eq_piecesAll (read_isRead h)]
  exact read_displayCharsAll (read_spelled h)

/-- The text of expressions that were read is read as their pieces, and these are read as themselves
when they are rendered. -/
theorem read_displayAll_pieces {source : List UInt8} {es : List Expr} (h : read source = .ok es) :
    read (Utf8.encode (displayAll es).toList) = .ok (piecesAll es) ∧
      read (Utf8.encode (displayAll (piecesAll es)).toList) = .ok (piecesAll es) := by
  have hread := read_displayAll_of_read h
  have hagain := read_displayAll_of_read hread
  rw [piecesAll_piecesAll] at hagain
  exact ⟨hread, hagain⟩

/-- A small number within a list becomes two children of it; a zero loses its scale; the last number
keeps its last digit. -/
theorem small_number_display_pieces :
    read (Utf8.encode "(0.00000012 x) 00.0 1.50".toList) =
        .ok [.list [.number ⟨12, 8, by decide, by decide⟩, .symbol "x"],
          .number ⟨0, 1, by decide, by decide⟩, .number ⟨150, 2, by decide, by decide⟩] ∧
      read (Utf8.encode (displayAll [.list [.number ⟨12, 8, by decide, by decide⟩, .symbol "x"],
          .number ⟨0, 1, by decide, by decide⟩, .number ⟨150, 2, by decide, by decide⟩]).toList) =
        .ok [.list [.number ⟨12, 1, by decide, by decide⟩, .symbol "E-7", .symbol "x"],
          .number (.ofInt 0), .number ⟨150, 2, by decide, by decide⟩] := by
  have hread : read (Utf8.encode "(0.00000012 x) 00.0 1.50".toList) =
      .ok [.list [.number ⟨12, 8, by decide, by decide⟩, .symbol "x"],
        .number ⟨0, 1, by decide, by decide⟩, .number ⟨150, 2, by decide, by decide⟩] := by
    with_unfolding_all rfl
  exact ⟨hread, (read_displayAll_pieces hread).1⟩

end Expr
end Sexp
