import Sexp.Proofs.Rereading

/-!
# A source for every expression

Which expressions can be read at all: those that are spelled and whose numbers have no scale below
zero. `Expr.sourceAll` writes a source for such expressions, which is read as just these
(`read_sourceAll`), so that there are no others (`exists_source_iff`). The text of an expression would
not do, since it leaves zeros out and puts exponents in.
-/

namespace Sexp

namespace Expr

/-- What a node of an expression is like if the expression was read. -/
def IsRead : Expr → Prop
  | .list _ => True
  | .symbol name => IsSymbolName name.toList
  | .string value => '"' ∉ value.toList
  | .number value => 0 ≤ value.digits ∧ 0 ≤ value.scale

def ScaleNonneg : Expr → Prop
  | .number value => 0 ≤ value.scale
  | _ => True

theorem isRead_iff (e : Expr) : e.IsRead ↔ e.IsSpelled ∧ e.ScaleNonneg := by
  cases e <;> simp [IsRead, IsSpelled, ScaleNonneg]

theorem eachNode_isRead_iff (es : List Expr) :
    EachNode IsRead es ↔ EachNode IsSpelled es ∧ EachNode ScaleNonneg es := by
  rw [← eachNode_and]
  simp only [EachNode, isRead_iff]

end Expr

/-! ### What is read -/

theorem Yields.scaleNonneg {es : List Expr} {ts : List Token} (h : Yields es ts) :
    Expr.EachNode Expr.ScaleNonneg es := by
  induction h with
  | nil => exact Expr.eachNode_nil
  | symbol _ _ ih =>
    rw [Expr.eachNode_cons, Expr.eachNode_symbol]
    exact ⟨trivial, ih⟩
  | string _ _ _ ih =>
    rw [Expr.eachNode_cons, Expr.eachNode_string]
    exact ⟨trivial, ih⟩
  | @number t d es ts _ hd _ ih =>
    rw [Expr.eachNode_cons, Expr.eachNode_number]
    refine ⟨?_, ih⟩
    show 0 ≤ d.scale
    rw [hd.scale]
    exact Int.natCast_nonneg _
  | list _ _ _ _ ihi ih =>
    rw [Expr.eachNode_cons, Expr.eachNode_list]
    exact ⟨⟨trivial, ihi⟩, ih⟩

theorem read_isRead {source : List UInt8} {es : List Expr} (h : read source = .ok es) :
    Expr.EachNode Expr.IsRead es := by
  obtain ⟨ts, t, _, _, hy⟩ := read_eq_ok_iff_yields.1 h
  exact (Expr.eachNode_isRead_iff es).2 ⟨read_spelled h, hy.scaleNonneg⟩

/-! ### Writing a source -/

/-- All digits of a decimal, with a point where its scale says, if neither is below zero. -/
def Decimal.sourceChars (d : Decimal) : List Char :=
  withPoint (digitChars d.digits.natAbs) d.scale.toNat

namespace Expr

mutual

/-- A source of one expression: a point in every number, a blank after every child. -/
def source : Expr → List UInt8
  | list items => openParen :: (sourceAll items ++ [closeParen])
  | symbol name => Utf8.encode name.toList
  | string value => quote :: (Utf8.encode value.toList ++ [quote])
  | number value => Utf8.encode value.sourceChars

/-- A source of expressions in a row, a blank after each of them. -/
def sourceAll : List Expr → List UInt8
  | [] => []
  | e :: es => source e ++ 0x20 :: sourceAll es

end

end Expr

theorem Decimal.spells_sourceChars {d : Decimal} (hd : 0 ≤ d.digits) (hs : 0 ≤ d.scale) :
    IsNumeric d.sourceChars ∧ Spells d.sourceChars d := by
  apply spells_withPoint (digitChars_ne_nil _) isDigit_digitChars
  · rw [ofDigitChars_digitChars]
    omega
  · omega

theorem read_sourceAll {es : List Expr} (h : Expr.EachNode Expr.IsRead es) :
    read (Expr.sourceAll es) = .ok es := by
  have hcons {e : Expr} {es : List Expr} (he : read e.source = .ok [e])
      (hes : read (Expr.sourceAll es) = .ok es) : read (Expr.sourceAll (e :: es)) = .ok (e :: es) :=
    read_append_blank he rfl hes
  induction es using Expr.forest_induction with
  | nil => exact read_nil
  | symbol name es ih =>
    rw [Expr.eachNode_cons, Expr.eachNode_symbol] at h
    exact hcons (read_symbol h.1) (ih h.2)
  | string value es ih =>
    rw [Expr.eachNode_cons, Expr.eachNode_string] at h
    exact hcons (read_string h.1) (ih h.2)
  | number value es ih =>
    rw [Expr.eachNode_cons, Expr.eachNode_number] at h
    obtain ⟨hnumeric, hspells⟩ := Decimal.spells_sourceChars h.1.1 h.1.2
    exact hcons (read_numeral hnumeric hspells) (ih h.2)
  | list items es ihi ih =>
    rw [Expr.eachNode_cons, Expr.eachNode_list] at h
    exact hcons (read_parens (ihi h.1.2)) (ih h.2)

/-- There is a source that is read as these expressions, with just these digits and scales, exactly
when their symbols are symbols of a source, no string of theirs holds a quote, and no number of theirs
is below zero or has a scale below zero. -/
theorem exists_source_iff (es : List Expr) :
    (∃ source, read source = .ok es) ↔ Expr.EachNode Expr.IsRead es := by
  constructor
  · intro h
    obtain ⟨source, hread⟩ := h
    exact read_isRead hread
  · intro h
    exact ⟨Expr.sourceAll es, read_sourceAll h⟩

end Sexp
