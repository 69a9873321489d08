import Mathlib.Algebra.GroupWithZero.Nat
import Sexp.Expr.Display
import Sexp.Proofs.LiteralGrammar
import Sexp.Proofs.Spelling

/-!
# How long texts get

The text of a decimal is hardly longer than its digits, whatever its scale: where zeros would be many, an
exponent counts them, and 64 bits are no more than nineteen digits (`Decimal.length_displayChars_le`). The
digits are no more than those of the text that was read (`Decimal.precision_le_of_read`). So a text of
expressions grows with what they hold and with how many nodes they have (`Expr.length_display_le`).
-/

namespace Sexp

namespace Decimal

/-! ### Decimals -/

theorem length_digitChars_le {n : Nat} (h : n ≤ 9223372036854775808) : (digitChars n).length ≤ 19 := by
  refine (Nat.length_toDigits_le_iff (by decide) (by decide)).2 ?_
  exact Nat.lt_of_le_of_lt h (by decide)

theorem length_pointAfterFirst_le (ds : List Char) : (pointAfterFirst ds).length ≤ ds.length + 1 := by
  match ds with
  | [] => exact Nat.zero_le _
  | [_] => exact Nat.le_succ 1
  | _ :: _ :: ds => exact Nat.le_refl _

theorem length_withPoint_le (ds : List Char) {k : Nat} (h : k ≤ ds.length + 5) :
    (withPoint ds k).length ≤ ds.length + 7 := by
  rcases withPoint_cases ds k with ⟨xs, ys, _, hds, _, htext⟩ | ⟨j, hk, htext⟩
  · have hlen := congrArg List.length hds
    rw [List.length_append] at hlen
    simp [htext]
    omega
  · simp [htext]
    omega

/-- Each of the four layouts adds no more than the point and an exponent of nineteen digits. -/
theorem length_unsignedDisplay_le (ds : List Char) {s : Int} (hlow : -9223372036854775808 ≤ s)
    (hhigh : s < 9223372036854775808) : (unsignedDisplay ds s).length ≤ ds.length + 22 := by
  unfold unsignedDisplay maxLeadingZeros maxTrailingZeros
  split
  · have hpoint := length_pointAfterFirst_le ds
    have hexponent := length_digitChars_le (n := (s - ds.length + 1).toNat) (by omega)
    simp
    omega
  split
  · have hexponent := length_digitChars_le (n := (-s).toNat) (by omega)
    simp
    omega
  split
  · simp
    omega
  · have hpoint := length_withPoint_le ds (k := s.toNat) (by omega)
    omega

theorem length_displayChars_le (d : Decimal) : d.displayChars.length ≤ d.precision + 23 := by
  have hunsigned := length_unsignedDisplay_le (digitChars d.digits.natAbs) d.le_scale d.scale_lt
  unfold displayChars precision
  split
  · exact Nat.le_add_left 1 _
  split
  · exact Nat.succ_le_succ hunsigned
  · exact Nat.le_succ_of_le hunsigned

/-! ### Decimals that were read -/

theorem length_digitChars_ofDigitChars_le {ds : List Char} (hne : ds ≠ [])
    (h : ∀ c ∈ ds, c.isDigit = true) : (digitChars (Nat.ofDigitChars 10 ds 0)).length ≤ ds.length := by
  by_cases hzero : Nat.ofDigitChars 10 ds 0 = 0
  · rw [hzero]
    exact List.length_pos_iff.2 hne
  · rw [digitChars_of_ne_zero h hzero]
    exact List.length_dropWhile_le _ _

theorem SpellsInteger.length_le {m : List Char} {n : Int} (h : SpellsInteger m n) :
    (digitChars n.natAbs).length ≤ m.length := by
  cases h with
  | @intro negative sign more d hs hd hmore =>
    have habs : (signed negative (Nat.ofDigitChars 10 ((d :: more).filter Char.isDigit) 0)).natAbs =
        Nat.ofDigitChars 10 ((d :: more).filter Char.isDigit) 0 := by
      unfold signed
      split <;> simp
    have hne : (d :: more).filter Char.isDigit ≠ [] :=
      List.ne_nil_of_mem (List.mem_filter.2 ⟨List.mem_cons_self, hd⟩)
    have hdigits := length_digitChars_ofDigitChars_le hne fun c hc => (List.mem_filter.1 hc).2
    have hfilter := List.length_filter_le Char.isDigit (d :: more)
    rw [habs, List.length_append]
    omega

theorem Pointed.length_le {b m : List Char} {f : Nat} (h : Pointed b m f) : m.length ≤ b.length := by
  cases h with
  | whole _ => exact Nat.le_refl _
  | point _ => simp

theorem Literal.length_le {text : List Char} {n s : Int} (h : Literal text n s) :
    (digitChars n.natAbs).length ≤ text.length := by
  cases h with
  | mantissa _ hp hm => exact Nat.le_trans hm.length_le hp.length_le
  | exponent _ hp hm _ _ =>
    rw [List.length_append]
    exact Nat.le_add_right_of_le (Nat.le_trans hm.length_le hp.length_le)

theorem precision_le_of_read {text : String} {d : Decimal} (h : read text = .ok d) :
    d.precision ≤ text.length := by
  rw [← String.length_toList]
  exact (read_eq_ok_iff_literal.1 h).length_le

end Decimal

namespace Expr

/-! ### Expressions -/

/-- How many characters a node has of its own: those of its text, or the digits of its number. -/
def ownLength : Expr → Nat
  | list _ => 0
  | symbol name => name.length
  | string value => value.length
  | number value => value.precision

/-- Room for the texts of nodes: twenty-five characters for each of them besides its own. -/
def room (nodes : List (Nat × Expr)) : Nat :=
  (nodes.map fun x => x.2.ownLength).sum + 25 * nodes.length

theorem room_singleton (n : Nat) (e : Expr) : room [(n, e)] = e.ownLength + 25 := by
  simp [room]

theorem room_append (xs ys : List (Nat × Expr)) : room (xs ++ ys) = room xs + room ys := by
  simp [room]
  omega

theorem room_list (n : Nat) (items : List Expr) :
    room (nodes n (.list items)) = room (nodesAll (n + 1) items) + 25 := by
  have hnodes : nodes n (.list items) = [(n, .list items)] ++ nodesAll (n + 1) items := rfl
  rw [hnodes, room_append, room_singleton, ownLength]
  omega

theorem length_displayCharsAll_cons (e : Expr) (es : List Expr) :
    (displayChars e).length + (displayCharsAll es).length ≤ (displayCharsAll (e :: es)).length ∧
      (displayCharsAll (e :: es)).length ≤ (displayChars e).length + 1 + (displayCharsAll es).length := by
  cases es with
  | nil => simp [displayCharsAll]
  | cons f fs =>
    have hlen : (displayCharsAll (e :: f :: fs)).length =
        (displayChars e).length + ((displayCharsAll (f :: fs)).length + 1) := List.length_append
    omega

/-- The texts with blanks between them fit in the room of their nodes; a blank may follow each node. -/
theorem length_displayCharsAll_le (es : List Expr) (n : Nat) :
    (displayCharsAll es).length ≤ room (nodesAll n es) := by
  have hcons (e : Expr) (es : List Expr) (n : Nat)
      (he : (displayChars e).length + 1 ≤ room (nodes n e))
      (hes : (displayCharsAll es).length ≤ room (nodesAll n es)) :
      (displayCharsAll (e :: es)).length ≤ room (nodesAll n (e :: es)) := by
    have hlen := (length_displayCharsAll_cons e es).2
    rw [nodesAll, room_append]
    omega
  induction es using forest_induction generalizing n with
  | nil => exact Nat.zero_le _
  | symbol name es ih =>
    refine hcons _ _ n ?_ (ih n)
    have hroom : room (nodes n (.symbol name)) = name.length + 25 := room_singleton n _
    have hlen : (displayChars (.symbol name)).length = name.length := String.length_toList
    omega
  | string value es ih =>
    refine hcons _ _ n ?_ (ih n)
    have hroom : room (nodes n (.string value)) = value.length + 25 := room_singleton n _
    have hlen : (displayChars (.string value)).length = value.toList.length + 2 := by
      simp [displayChars]
    rw [String.length_toList] at hlen
    omega
  | number value es ih =>
    refine hcons _ _ n ?_ (ih n)
    have hroom : room (nodes n (.number value)) = value.precision + 25 := room_singleton n _
    have hlen : (displayChars (.number value)).length ≤ value.precision + 23 :=
      value.length_displayChars_le
    omega
  | list items es ihi ih =>
    refine hcons _ _ n ?_ (ih n)
    have hlen : (displayChars (.list items)).length = (displayCharsAll items).length + 2 := by
      simp [displayChars]
    have hitems := ihi (n + 1)
    rw [room_list]
    omega

theorem sum_length_display_le (es : List Expr) :
    (es.map fun e => (display e).length).sum ≤ (displayCharsAll es).length := by
  induction es with
  | nil => exact Nat.zero_le _
  | cons e es ih =>
    have hlen := (length_displayCharsAll_cons e es).1
    rw [List.map_cons, List.sum_cons, display, String.length_ofList]
    omega

/-- The text of a number is at most twenty-three characters longer than its digits, so than any text that
it was read from, whatever its scale; and the texts of expressions, with blanks between them or not, are
no longer than all symbols, strings and digits in them and twenty-five characters for each node. -/
theorem length_display_le :
    (∀ d : Decimal,
      (display (.number d)).length ≤ (Decimal.digitChars d.digits.natAbs).length + 23) ∧
    (∀ (text : String) (e : Expr), readNumber text = .ok e →
      ∃ d, e = .number d ∧ (Decimal.digitChars d.digits.natAbs).length ≤ text.length ∧
        (display e).length ≤ text.length + 23) ∧
    ∀ es : List Expr,
      (es.map fun e => (display e).length).sum ≤
        ((nodesAll 0 es).map fun x => x.2.ownLength).sum + 25 * (nodesAll 0 es).length ∧
      (displayAll es).length ≤
        ((nodesAll 0 es).map fun x => x.2.ownLength).sum + 25 * (nodesAll 0 es).length := by
  refine ⟨fun d => ?_, fun text e h => ?_, fun es => ?_⟩
  · rw [display, String.length_ofList]
    exact d.length_displayChars_le
  · obtain ⟨d, rfl, hread⟩ := readNumber_eq_ok_iff.1 h
    have hdigits := Decimal.precision_le_of_read hread
    refine ⟨d, rfl, hdigits, ?_⟩
    rw [display, String.length_ofList]
    exact Nat.le_trans d.length_displayChars_le (Nat.add_le_add_right hdigits 23)
  · have hall := length_displayCharsAll_le es 0
    refine ⟨Nat.le_trans (sum_length_display_le es) hall, ?_⟩
    rw [displayAll, String.length_ofList]
    exact hall

/-- At either end of the scale an exponent counts the zeros. At the upper end, with a sign and a point, all
of the twenty-three characters are there. -/
theorem length_display_extremes :
    readNumber "1e9223372036854775808" =
        .ok (.number ⟨1, -9223372036854775808, by decide, by decide⟩) ∧
      (display (.number ⟨1, -9223372036854775808, by decide, by decide⟩)).length ≤ 21 + 23 ∧
      display (.number ⟨-12, 9223372036854775807, by decide, by decide⟩) =
        "-1.2E-9223372036854775806" ∧
      (display (.number ⟨-12, 9223372036854775807, by decide, by decide⟩)).length = 2 + 23 := by
  have hread : readNumber "1e9223372036854775808" =
      .ok (.number ⟨1, -9223372036854775808, by decide, by decide⟩) := by
    with_unfolding_all rfl
  have hdisplay : display (.number ⟨-12, 9223372036854775807, by decide, by decide⟩) =
      "-1.2E-9223372036854775806" := by
    with_unfolding_all rfl
  obtain ⟨_, _, _, hlen⟩ := length_display_le.2.1 _ _ hread
  exact ⟨hread, hlen, hdisplay, by rw [hdisplay]; rfl⟩

end Expr
end Sexp
