import Sexp.Proofs.FirstFault
import Sexp.Proofs.Reading
import Sexp.Proofs.Rereading

/-!
# The numbers of a source

What becomes of a lexeme of digits and points: a number with all of its digits if it is a numeral, and
otherwise a fault with one of two reasons, that it is a lone point or that it has a second one. No other
reason is given for a number of any source, however often it is read on (`number_lexemes_read`).
-/

namespace Sexp

/-! ### One number -/

/-- Digits and points that are no numeral are a lone point, or there is a second point. -/
theorem Decimal.numeralFault_cases {text : List Char} (h : IsNumeric text) (hne : text ≠ [])
    (hn : ¬ IsNumeral text) :
    (text = ['.'] ∧ ¬ 2 ≤ text.count '.' ∧ numeralFault text = .empty) ∨
      (text ≠ ['.'] ∧ 2 ≤ text.count '.' ∧ numeralFault text = .badDigit) := by
  by_cases hone : text = ['.']
  · subst hone
    exact .inl ⟨rfl, by decide, rfl⟩
  · have hpoints : 2 ≤ text.count '.' := by
      rcases not_isNumeral_iff.1 hn with hpoints | hdigits
      · exact hpoints
      · refine two_le_count_of_no_digit h hne hone fun hd => ?_
        obtain ⟨c, hc, hdigit⟩ := hd
        rw [hdigits c hc] at hdigit
        cases hdigit
    exact .inr ⟨hone, hpoints, if_neg hone⟩

namespace Token

variable {t : Token} (hk : t.kind = .number) (h : Decimal.IsNumeric t.lexeme.toList)
  (hne : t.lexeme.toList ≠ []) (hlen : t.lexeme.toList.length ≤ 9223372036854775807)

include hk h hne

theorem written_of_isNumeric : t.Written t.lexeme.toList.length := by
  have hlength : (Utf8.encode t.lexeme.toList).length = t.lexeme.toList.length := by
    rw [Utf8.encode_ascii h.ascii, List.length_map]
  refine ⟨⟨.number, Utf8.encode t.lexeme.toList⟩, valid_number h hne, Nat.le_of_eq hlength, ?_⟩
  show (t.kind, t.lexeme) = (TokenKind.number, Utf8.text (Utf8.encode t.lexeme.toList))
  rw [text_encode, hk, String.ofList_toList]

include hlen

theorem exists_number_iff_isNumeral :
    (∃ e, t.number = .ok e) ↔ Decimal.IsNumeral t.lexeme.toList :=
  (written_of_isNumeric hk h hne).exists_number_iff hlen hk

/-- Why a number is none, and that it is reported as it stands in the source. -/
theorem number_error_reason {e : Error} (he : t.number = .error e) :
    ∃ reason, e = .invalidNumber t.lexeme reason t.position ∧
      (reason = "cannot parse integer from empty string" ↔ t.lexeme = ".") ∧
      (reason = "invalid digit found in string" ↔ 2 ≤ t.lexeme.toList.count '.') := by
  have hn : ¬ Decimal.IsNumeral t.lexeme.toList := by
    intro hnum
    obtain ⟨e', he'⟩ := (exists_number_iff_isNumeral hk h hne hlen).2 hnum
    rw [he] at he'
    cases he'
  have hw := written_of_isNumeric hk h hne
  have herror := (hw.number_eq_error hlen hk hn).symm.trans he
  have hpoint : t.lexeme = "." ↔ t.lexeme.toList = ['.'] := by
    rw [← String.toList_inj]
    rfl
  refine ⟨_, (Except.error.inj herror).symm, ?_⟩
  rw [hpoint]
  rcases Decimal.numeralFault_cases h hne hn with ⟨hone, hpoints, hfault⟩ | ⟨hone, hpoints, hfault⟩
  · rw [hfault]
    exact ⟨iff_of_true rfl hone, iff_of_false (by decide) hpoints⟩
  · rw [hfault]
    exact ⟨iff_of_false (by decide) hone, iff_of_true rfl hpoints⟩

end Token

/-! ### All numbers of a source -/

theorem Builder.finish_ne_invalidNumber (b : Builder) (lexeme reason : String) (p : Position) :
    b.finish ≠ .error (.invalidNumber lexeme reason p) := by
  unfold finish
  split <;> simp

namespace Cursor.IsOn

variable {source : List UInt8} {c : Cursor}

/-- A number that is reported is a lexeme of the source. -/
theorem exists_lexed_of_read (h : IsOn source c) {lexeme reason : String} {p : Position}
    (hread : c.read.1 = .error (.invalidNumber lexeme reason p)) :
    ∃ m : Mark, m.Lexed source ∧ m.token.kind = .number ∧ m.token.lexeme = lexeme ∧
      m.token.position = p ∧ m.token.number = .error (.invalidNumber lexeme reason p) := by
  obtain ⟨ms, last, b, hs, _, hend⟩ := c.readInto_ends .empty
  have hlast := hs.isOn h
  generalize hr : c.readInto .empty = r at hend
  have hanswer : r.1 = .error (.invalidNumber lexeme reason p) := hr ▸ hread
  cases hend with
  | atEnd _ _ => exact absurd hanswer (b.finish_ne_invalidNumber lexeme reason p)
  | fault hscan =>
    cases Cursor.ScanStep.of_scan hscan with
    | unclosed => cases hanswer
  | misfit hscan ht hpush =>
    cases hanswer
    rcases Builder.push_error_cases hpush with ⟨_, herror⟩ | ⟨hk, hnumber, _, herror⟩
    · cases herror
    · cases herror
      exact ⟨_, lexed_of_scan hlast hscan ht, hk, rfl, rfl, hnumber⟩

/-- Only its digits can be what is wrong with a number, never an exponent, the scale or that nothing is
there. -/
theorem digits_fault_of_read (h : IsOn source c) (hlen : source.length ≤ 9223372036854775807)
    {lexeme reason : String} {p : Position}
    (hread : c.read.1 = .error (.invalidNumber lexeme reason p)) :
    ∃ fault, Decimal.read lexeme = .error (.digits fault) ∧ (fault = .empty ∨ fault = .badDigit) ∧
      reason = fault.message := by
  obtain ⟨m, hm, hk, rfl, _, hnumber⟩ := h.exists_lexed_of_read hread
  have hw := hm.written
  obtain ⟨hnum, hne, hlen'⟩ := hw.number hk
  have hn : ¬ Decimal.IsNumeral m.token.lexeme.toList := by
    intro hn
    obtain ⟨e, he⟩ := (hw.exists_number_iff hlen hk).2 hn
    rw [hnumber] at he
    cases he
  have herror := (hw.number_eq_error hlen hk hn).symm.trans hnumber
  refine ⟨Decimal.numeralFault m.token.lexeme.toList, ?_, ?_, ?_⟩
  · exact Decimal.read_of_not_isNumeral hnum hne (by omega) hn
  · rcases Decimal.numeralFault_cases hnum hne hn with ⟨_, _, hfault⟩ | ⟨_, _, hfault⟩
    · exact .inl hfault
    · exact .inr hfault
  · cases herror
    rfl

theorem number_of_scan (h : IsOn source c) {t : Token} {next : Cursor} (hscan : c.scan = (.ok t, next))
    (hk : t.kind = .number) :
    Decimal.IsNumeric t.lexeme.toList ∧ t.lexeme.toList ≠ [] ∧
      t.lexeme.toList.length ≤ source.length := by
  have ht : t.isEof = false := decide_eq_false (by simp [hk])
  exact (lexed_of_scan h hscan ht).written.number hk

end Cursor.IsOn

/-- A lexeme of digits and points is a number exactly when it has a digit and no second point, and then
has all the digits of the lexeme; otherwise it is reported as it stands, for one of two reasons. The
numbers of a source are such lexemes, and nothing but their digits is ever wrong with them. -/
theorem number_lexemes_read :
    (∀ t : Token, t.kind = .number → Decimal.IsNumeric t.lexeme.toList → t.lexeme.toList ≠ [] →
      t.lexeme.toList.length ≤ 9223372036854775807 →
      ((∃ e, t.number = .ok e) ↔ Decimal.IsNumeral t.lexeme.toList) ∧
      (∀ e, t.number = .ok e → ∃ d, e = .number d ∧ Decimal.Spells t.lexeme.toList d ∧
        (d.digits ≠ 0 → Decimal.digitChars d.digits.natAbs =
          (t.lexeme.toList.filter Char.isDigit).dropWhile (· == '0'))) ∧
      ∀ e, t.number = .error e → ∃ reason, e = .invalidNumber t.lexeme reason t.position ∧
        (reason = "cannot parse integer from empty string" ↔ t.lexeme = ".") ∧
        (reason = "invalid digit found in string" ↔ 2 ≤ t.lexeme.toList.count '.')) ∧
    ∀ source : List UInt8, source.length ≤ 9223372036854775807 → ∀ rs : List Request,
      let c := (Cursor.ofSource source).afterRequests rs
      (∀ t next, c.scan = (.ok t, next) → t.kind = .number →
        Decimal.IsNumeric t.lexeme.toList ∧ t.lexeme.toList ≠ [] ∧
          t.lexeme.toList.length ≤ source.length) ∧
      ∀ lexeme reason p, c.read.1 = .error (.invalidNumber lexeme reason p) →
        ∃ fault, Decimal.read lexeme = .error (.digits fault) ∧
          (fault = .empty ∨ fault = .badDigit) ∧ reason = fault.message := by
  refine ⟨fun t hk h hne hlen => ⟨?_, fun e he => ?_, fun e he => ?_⟩, fun source hlen rs => ⟨?_, ?_⟩⟩
  · exact Token.exists_number_iff_isNumeral hk h hne hlen
  · obtain ⟨d, rfl, hd⟩ := ((Token.written_of_isNumeric hk h hne).number_eq_ok_iff hk).1 he
    exact ⟨d, rfl, hd, hd.digitChars⟩
  · exact Token.number_error_reason hk h hne hlen he
  · exact fun t next => ((Cursor.isOn_ofSource source).afterRequests rs).number_of_scan
  · exact fun lexeme reason p => ((Cursor.isOn_ofSource source).afterRequests rs).digits_fault_of_read hlen

/-- A second point is reported with the whole lexeme, and the reason for it is its digits. -/
theorem second_point_reported :
    read (Utf8.encode "(1..2".toList) =
        .error (.invalidNumber "1..2" "invalid digit found in string" ⟨1, 2⟩) ∧
      (¬ ∃ e, Token.number ⟨.number, "1..2", ⟨1, 2⟩⟩ = .ok e) ∧
      ∃ fault, Decimal.read "1..2" = .error (.digits fault) ∧
        "invalid digit found in string" = fault.message := by
  have hread : read (Utf8.encode "(1..2".toList) =
      .error (.invalidNumber "1..2" "invalid digit found in string" ⟨1, 2⟩) := by
    with_unfolding_all rfl
  refine ⟨hread, fun hnumber => ?_, ?_⟩
  · have hnumeral := (number_lexemes_read.1 ⟨.number, "1..2", ⟨1, 2⟩⟩ rfl (by decide) (by decide)
      (by decide)).1.1 hnumber
    exact absurd hnumeral.point (by decide)
  · obtain ⟨fault, hfault, _, hreason⟩ := (number_lexemes_read.2 _ (by decide) []).2 _ _ _ hread
    exact ⟨fault, hfault, hreason⟩

end Sexp
