import Sexp.Expr.Display
import Sexp.Proofs.DecimalText
import Sexp.Proofs.Spelling

/-!
# Reading what was written

The text of expressions that sources spell is read again, as `rereadAll` says: a number with an
exponent falls apart into a number and a symbol, and nothing else changes (`read_displayCharsAll`). So
expressions come back the same exactly when their numbers are written in full
(`read_displayAll_same_iff`); an expression that no source spells never does (`read_display_same_iff`).
-/

namespace Sexp

/-! ### Texts of atoms -/

theorem text_encode (text : List Char) : Utf8.text (Utf8.encode text) = String.ofList text := by
  rw [Utf8.text, Utf8.decode_encode]

theorem read_nil : read [] = .ok [] :=
  read_eq_ok_iff_segments.2 ⟨[], .of_isGap (List.forall_mem_nil _), .nil⟩

theorem Yields.symbol_of_lexeme {t : Token} {name : String} {es : List Expr} {ts : List Token}
    (hk : t.kind = .symbol) (hl : t.lexeme = name) (h : Yields es ts) :
    Yields (.symbol name :: es) (t :: ts) := hl ▸ .symbol hk h

theorem read_symbol {name : String} (h : IsSymbolName name.toList) :
    read (Utf8.encode name.toList) = .ok [.symbol name] := by
  have hlexeme : Utf8.text (Utf8.encode name.toList) = name := by
    rw [text_encode, String.ofList_toList]
  exact read_eq_ok_iff_segments.2 ⟨_, .singleton h.valid, .symbol_of_lexeme rfl hlexeme .nil⟩

theorem read_string {value : String} (h : '"' ∉ value.toList) :
    read (quote :: (Utf8.encode value.toList ++ [quote])) = .ok [.string value] := by
  have hlexeme : Utf8.text (quote :: (Utf8.encode value.toList ++ [quote])) =
      "\"" ++ value ++ "\"" := by
    rw [text_string, text_encode, String.ofList_toList]
  exact read_eq_ok_iff_segments.2 ⟨_, .singleton (.string (quote_notMem_encode h)),
    .string rfl hlexeme .nil⟩

theorem Decimal.IsNumeric.ascii {text : List Char} (h : IsNumeric text) :
    ∀ c ∈ text, c.toNat < 0x80 := by
  intro c hc
  rcases h c hc with hd | rfl
  · have hbounds := isDigit_iff_toNat.1 hd
    omega
  · decide

theorem valid_number {text : List Char} (h : Decimal.IsNumeric text) (hne : text ≠ []) :
    Lexeme.Valid ⟨.number, Utf8.encode text⟩ := by
  have hascii := h.ascii
  refine .number (Utf8.encode_ne_nil hne) fun b hb => ?_
  rw [Utf8.encode_ascii hascii] at hb
  obtain ⟨c, hc, rfl⟩ := List.mem_map.1 hb
  have hlt := hascii c hc
  apply (isNumeric_iff_char ?_).2 (h c hc)
  rw [UInt8.toNat_ofNat']
  omega

theorem Lexeme.Valid.isNumeric_head {bytes : List UInt8} (h : Lexeme.Valid ⟨.symbol, bytes⟩) :
    ∀ b ∈ bytes.head?, isNumeric b = false := by
  cases h with
  | symbol _ hn _ =>
    intro b hb
    cases hb
    exact hn

section Numeral

variable {text : List Char} {d : Decimal}

/-- Digits and points are read as one number, which is what they spell. -/
theorem read_numeric_iff (h : Decimal.IsNumeric text) (hne : text ≠ []) {es : List Expr} :
    read (Utf8.encode text) = .ok es ↔ ∃ d, es = [.number d] ∧ Decimal.Spells text d := by
  have hlexeme : (Utf8.text (Utf8.encode text)).toList = text := by
    rw [text_encode, String.toList_ofList]
  rw [(Segments.singleton (valid_number h hne)).read_eq_ok_iff]
  constructor
  · intro hy
    generalize hts : List.map Lexeme.first _ = ts at hy
    cases hy with
    | nil => cases hts
    | symbol hk _ | string hk _ _ | list hk _ _ _ =>
      obtain ⟨rfl, _⟩ := List.cons.inj hts
      cases hk
    | number _ hd hy =>
      obtain ⟨rfl, rfl⟩ := List.cons.inj hts
      cases hy
      refine ⟨_, rfl, ?_⟩
      rw [← hlexeme]
      exact hd
  · rintro ⟨d, rfl, hd⟩
    refine .number rfl ?_ .nil
    rw [← hlexeme] at hd
    exact hd

theorem read_numeral (h : Decimal.IsNumeric text) (hd : Decimal.Spells text d) :
    read (Utf8.encode text) = .ok [.number d] :=
  (read_numeric_iff h hd.ne_nil).2 ⟨d, rfl, hd⟩

theorem read_numeral_symbol (h : Decimal.IsNumeric text) (hd : Decimal.Spells text d)
    {name : List Char} (hname : IsSymbolName name) :
    read (Utf8.encode (text ++ name)) = .ok [.number d, .symbol (String.ofList name)] := by
  have hsymbol := Segments.singleton hname.valid
  have hnumber := hsymbol.cons (valid_number h hd.ne_nil) hname.valid.isNumeric_head
  rw [Utf8.encode_append]
  refine read_eq_ok_iff_segments.2 ⟨_, hnumber, .number rfl ?_ ?_⟩
  · show Decimal.Spells (Utf8.text (Utf8.encode text)).toList d
    rw [text_encode, String.toList_ofList]
    exact hd
  · exact .symbol_of_lexeme rfl (text_encode name) .nil

end Numeral

/-! ### Reading again -/

theorem isSymbolName_exponent {mark sign : Char} (n : Nat) (hmark : mark ∉ delimiters)
    (hfirst : mark ≠ '"' ∧ mark ≠ '.' ∧ mark.isDigit = false) (hsign : sign ∉ delimiters) :
    IsSymbolName (mark :: sign :: Decimal.digitChars n) := by
  have hdelimiters : ∀ c ∈ delimiters, c.isDigit = false := by simp [delimiters]
  refine ⟨by simp, fun c hc => ?_, fun c hc => ?_⟩
  · rcases List.mem_cons.1 hc with rfl | hc
    · exact hmark
    rcases List.mem_cons.1 hc with rfl | hc
    · exact hsign
    · intro hmem
      have hno := hdelimiters c hmem
      rw [Decimal.isDigit_digitChars c hc] at hno
      cases hno
  · cases hc
    exact hfirst

theorem Decimal.isSymbolName_exponentText {d : Decimal} (h : d.exponentText ≠ []) :
    IsSymbolName d.exponentText := by
  rcases d.exponentText_cases with hnil | ⟨n, htext⟩ | ⟨n, htext⟩
  · exact absurd hnil h
  · rw [htext]
    exact isSymbolName_exponent n (by decide) (by decide) (by decide)
  · rw [htext]
    exact isSymbolName_exponent n (by decide) (by decide) (by decide)

namespace Expr

/-- What the text of a decimal that is not below zero is read as. -/
def ofDecimalText (d : Decimal) : List Expr :=
  if d.exponentText = [] then [.number d.significand]
  else [.number d.significand, .symbol (String.ofList d.exponentText)]

mutual

/-- What the text of an expression is read as, if a source spells the expression. -/
def reread : Expr → List Expr
  | .list items => [.list (rereadAll items)]
  | .symbol name => [.symbol name]
  | .string value => [.string value]
  | .number value => ofDecimalText value

/-- What the text of expressions is read as, if a source spells them. -/
def rereadAll : List Expr → List Expr
  | [] => []
  | e :: es => reread e ++ rereadAll es

end

end Expr

theorem read_decimal {d : Decimal} (h : 0 ≤ d.digits) :
    read (Utf8.encode d.displayChars) = .ok (Expr.ofDecimalText d) := by
  obtain ⟨text, htext, hnum, hspells⟩ := Decimal.exists_numeral h
  rw [htext, Expr.ofDecimalText]
  by_cases hnil : d.exponentText = []
  · rw [if_pos hnil, hnil, List.append_nil]
    exact read_numeral hnum hspells
  · rw [if_neg hnil]
    exact read_numeral_symbol hnum hspells (Decimal.isSymbolName_exponentText hnil)

namespace Expr

theorem read_displayCharsAll_cons {e : Expr} {es xs ys : List Expr}
    (he : read (Utf8.encode (displayChars e)) = .ok xs)
    (hes : read (Utf8.encode (displayCharsAll es)) = .ok ys) :
    read (Utf8.encode (displayCharsAll (e :: es))) = .ok (xs ++ ys) := by
  cases es with
  | nil =>
    have hys : ys = [] := Except.ok.inj (hes.symm.trans read_nil)
    rw [hys, List.append_nil]
    exact he
  | cons e' es =>
    rw [displayCharsAll, Utf8.encode_append, Utf8.encode_cons]
    · exact read_append_blank he rfl hes
    · simp

/-- The text of expressions that a source spells is read as they are, numbers with exponents apart. -/
theorem read_displayCharsAll {es : List Expr} (h : EachNode IsSpelled es) :
    read (Utf8.encode (displayCharsAll es)) = .ok (rereadAll es) := by
  induction es using forest_induction with
  | nil => exact read_nil
  | symbol name es ih =>
    rw [eachNode_cons, eachNode_symbol] at h
    exact read_displayCharsAll_cons (read_symbol h.1) (ih h.2)
  | string value es ih =>
    rw [eachNode_cons, eachNode_string] at h
    refine read_displayCharsAll_cons ?_ (ih h.2)
    rw [displayChars, Utf8.encode_cons, Utf8.encode_append]
    exact read_string h.1
  | number value es ih =>
    rw [eachNode_cons, eachNode_number] at h
    exact read_displayCharsAll_cons (read_decimal h.1) (ih h.2)
  | list items es ihi ih =>
    rw [eachNode_cons, eachNode_list] at h
    refine read_displayCharsAll_cons ?_ (ih h.2)
    rw [displayChars, Utf8.encode_cons, Utf8.encode_append]
    exact read_parens (ihi h.1.2)

/-! ### When it is the same again -/

theorem length_of_sameAll {es fs : List Expr} (h : sameAll es fs = true) :
    es.length = fs.length := by
  induction es generalizing fs with
  | nil =>
    cases fs with
    | nil => rfl
    | cons f fs => cases h
  | cons e es ih =>
    cases fs with
    | nil => cases h
    | cons f fs =>
      rw [sameAll, Bool.and_eq_true] at h
      rw [List.length_cons, List.length_cons, ih h.2]

theorem length_le_rereadAll (es : List Expr) : es.length ≤ (rereadAll es).length := by
  induction es with
  | nil => exact Nat.le_refl 0
  | cons e es ih =>
    have hone : 1 ≤ (reread e).length := by
      cases e with
      | number value =>
        rw [reread, ofDecimalText]
        split <;> simp
      | _ => exact Nat.le_refl 1
    rw [rereadAll, List.length_append, List.length_cons]
    omega

/-- The number of a node is written without an exponent. -/
def IsInFull : Expr → Prop
  | .number value => value.WrittenInFull
  | _ => True

instance : DecidablePred IsInFull
  | .number value => inferInstanceAs (Decidable value.WrittenInFull)
  | .list _ | .symbol _ | .string _ => inferInstanceAs (Decidable True)

theorem sameAll_rereadAll_iff {es : List Expr} (h : EachNode IsSpelled es) :
    sameAll (rereadAll es) es = true ↔ EachNode IsInFull es := by
  induction es using forest_induction with
  | nil => simp [rereadAll, sameAll]
  | symbol name es ih =>
    rw [eachNode_cons] at h
    rw [eachNode_cons, eachNode_symbol, ← ih h.2]
    simp [rereadAll, reread, sameAll, same, IsInFull]
  | string value es ih =>
    rw [eachNode_cons] at h
    rw [eachNode_cons, eachNode_string, ← ih h.2]
    simp [rereadAll, reread, sameAll, same, IsInFull]
  | number value es ih =>
    rw [eachNode_cons, eachNode_number] at h
    rw [eachNode_cons, eachNode_number, ← ih h.2, IsInFull, ← Decimal.exponentText_eq_nil_iff]
    by_cases hnil : value.exponentText = []
    · have hfull := (Decimal.exponentText_eq_nil_iff value).1 hnil
      have hsame := Decimal.significand_same h.1 hfull
      simp [rereadAll, reread, ofDecimalText, hnil, sameAll, same, hsame]
    · -- The exponent is one expression too many.
      have hlen := length_le_rereadAll es
      constructor
      · intro hall
        have heq := length_of_sameAll hall
        simp [rereadAll, reread, ofDecimalText, hnil] at heq
        omega
      · exact fun hall => absurd hall.1 hnil
  | list items es ihi ih =>
    rw [eachNode_cons, eachNode_list] at h
    rw [eachNode_cons, eachNode_list, ← ih h.2, ← ihi h.1.2]
    simp [rereadAll, reread, sameAll, same, IsInFull]

theorem exists_of_sameAll_cons {f : Expr} {es fs : List Expr} (h : sameAll es (f :: fs) = true) :
    ∃ e es', es = e :: es' ∧ same e f = true ∧ sameAll es' fs = true := by
  cases es with
  | nil => cases h
  | cons e es =>
    rw [sameAll, Bool.and_eq_true] at h
    exact ⟨e, es, rfl, h⟩

/-- Expressions that are the same as spelled ones are spelled, if the first is and the others are. -/
theorem isSpelled_cons_of_sameAll {f : Expr} {es fs : List Expr}
    (hf : ∀ e, same e f = true → EachNode IsSpelled [e] → EachNode IsSpelled [f])
    (hfs : ∀ es, sameAll es fs = true → EachNode IsSpelled es → EachNode IsSpelled fs)
    (h : sameAll es (f :: fs) = true) (hes : EachNode IsSpelled es) :
    EachNode IsSpelled (f :: fs) := by
  obtain ⟨e, es, rfl, he, hrest⟩ := exists_of_sameAll_cons h
  rw [eachNode_cons] at hes ⊢
  exact ⟨hf e he hes.1, hfs es hrest hes.2⟩

theorem isSpelled_of_sameAll {es fs : List Expr} (h : sameAll es fs = true)
    (hes : EachNode IsSpelled es) : EachNode IsSpelled fs := by
  induction fs using forest_induction generalizing es with
  | nil => exact eachNode_nil
  | symbol name fs ih =>
    refine isSpelled_cons_of_sameAll (fun e he hes => ?_) (fun _ => ih) h hes
    cases e with
    | symbol name' =>
      rw [same, beq_iff_eq] at he
      exact he ▸ hes
    | _ => cases he
  | string value fs ih =>
    refine isSpelled_cons_of_sameAll (fun e he hes => ?_) (fun _ => ih) h hes
    cases e with
    | string value' =>
      rw [same, beq_iff_eq] at he
      exact he ▸ hes
    | _ => cases he
  | number value fs ih =>
    refine isSpelled_cons_of_sameAll (fun e he hes => ?_) (fun _ => ih) h hes
    cases e with
    | number value' =>
      rw [eachNode_number] at hes ⊢
      exact Decimal.nonneg_of_same he hes
    | _ => cases he
  | list items fs ihi ih =>
    refine isSpelled_cons_of_sameAll (fun e he hes => ?_) (fun _ => ih) h hes
    cases e with
    | list items' =>
      rw [eachNode_list] at hes ⊢
      exact ⟨trivial, ihi he hes.2⟩
    | _ => cases he

/-- What a node of an expression is like if its text is read as the expression. -/
def IsReadable : Expr → Prop
  | .list _ => True
  | .symbol name => IsSymbolName name.toList
  | .string value => '"' ∉ value.toList
  | .number value => 0 ≤ value.digits ∧ value.WrittenInFull

instance : DecidablePred IsReadable
  | .list _ => inferInstanceAs (Decidable True)
  | .symbol name => inferInstanceAs (Decidable (IsSymbolName name.toList))
  | .string value => inferInstanceAs (Decidable ('"' ∉ value.toList))
  | .number value => inferInstanceAs (Decidable (0 ≤ value.digits ∧ value.WrittenInFull))

theorem isReadable_iff (e : Expr) : e.IsReadable ↔ e.IsSpelled ∧ e.IsInFull := by
  cases e <;> simp [IsReadable, IsSpelled, IsInFull]

theorem eachNode_isReadable_iff (es : List Expr) :
    EachNode IsReadable es ↔ EachNode IsSpelled es ∧ EachNode IsInFull es := by
  rw [← eachNode_and]
  simp only [EachNode, isReadable_iff]

/-- An expression comes back the same from its own text exactly when each node of it is readable; and
a number that is not below zero is readable exactly when its text has no exponent. -/
theorem read_display_same_iff :
    (∀ e : Expr, (∃ e', read (Utf8.encode e.display.toList) = .ok [e'] ∧ e'.same e = true) ↔
      EachNode IsReadable [e]) ∧
    ∀ d : Decimal, IsReadable (.number d) ↔
      0 ≤ d.digits ∧ ∀ c ∈ d.displayChars, Decimal.isExponentMark c = false := by
  refine ⟨fun e => ?_, fun d => ?_⟩
  · have htext : e.display.toList = displayCharsAll [e] := by
      rw [display, String.toList_ofList]
      rfl
    have hsingle (e' : Expr) : sameAll [e'] [e] = e'.same e := by simp [sameAll]
    rw [htext, eachNode_isReadable_iff]
    constructor
    · intro h
      obtain ⟨e', hread, hsame⟩ := h
      rw [← hsingle] at hsame
      -- What is read is spelled and so is what is the same, whatever `e` may look like as a text.
      have hspelled := isSpelled_of_sameAll hsame (read_spelled hread)
      have heq : [e'] = rereadAll [e] :=
        Except.ok.inj (hread.symm.trans (read_displayCharsAll hspelled))
      rw [heq] at hsame
      exact ⟨hspelled, (sameAll_rereadAll_iff hspelled).1 hsame⟩
    · intro h
      obtain ⟨hspelled, hfull⟩ := h
      have hsame := (sameAll_rereadAll_iff hspelled).2 hfull
      obtain ⟨e', he'⟩ := List.length_eq_one_iff.1 (length_of_sameAll hsame)
      have hread := read_displayCharsAll hspelled
      rw [he', hsingle] at hsame
      rw [he'] at hread
      exact ⟨e', hread, hsame⟩
  · rw [IsReadable, Decimal.writtenInFull_iff]

theorem list_display_same :
    ∃ e', read (Utf8.encode (display
        (.list [.symbol "a", .number ⟨5, -2, by decide, by decide⟩, .string "(x"])).toList) =
          .ok [e'] ∧
      e'.same (.list [.symbol "a", .number ⟨5, -2, by decide, by decide⟩, .string "(x"]) = true :=
  (read_display_same_iff.1 _).2 (by decide)

/-- Expressions that were read come back the same from their text exactly when no number of them is
written with an exponent. -/
theorem read_displayAll_same_iff {source : List UInt8} {es : List Expr} (h : read source = .ok es) :
    (∃ fs, read (Utf8.encode (displayAll es).toList) = .ok fs ∧ sameAll fs es = true) ↔
      EachNode IsInFull es := by
  have hspelled := read_spelled h
  have hread := read_displayCharsAll hspelled
  rw [displayAll, String.toList_ofList, ← sameAll_rereadAll_iff hspelled]
  constructor
  · intro h
    obtain ⟨fs, hfs, hsame⟩ := h
    rw [Except.ok.inj (hfs.symm.trans hread)] at hsame
    exact hsame
  · exact fun hsame => ⟨rereadAll es, hread, hsame⟩

theorem plain_numbers_display_same :
    read (Utf8.encode "(0.50 00)".toList) =
        .ok [.list [.number ⟨50, 2, by decide, by decide⟩, .number (.ofInt 0)]] ∧
      ∃ fs, read (Utf8.encode (displayAll
          [.list [.number ⟨50, 2, by decide, by decide⟩, .number (.ofInt 0)]]).toList) = .ok fs ∧
        sameAll fs [.list [.number ⟨50, 2, by decide, by decide⟩, .number (.ofInt 0)]] = true := by
  have hread : read (Utf8.encode "(0.50 00)".toList) =
      .ok [.list [.number ⟨50, 2, by decide, by decide⟩, .number (.ofInt 0)]] := by
    with_unfolding_all rfl
  exact ⟨hread, (read_displayAll_same_iff hread).2 (by decide)⟩

/-- One ten-millionth is written `1E-7`, and that is read as the number one and a symbol. -/
theorem small_number_display_not_same :
    read (Utf8.encode "0.0000001".toList) = .ok [.number ⟨1, 7, by decide, by decide⟩] ∧
      read (Utf8.encode (displayAll [.number ⟨1, 7, by decide, by decide⟩]).toList) =
        .ok [.number (.ofInt 1), .symbol "E-7"] ∧
      ¬ ∃ fs, read (Utf8.encode (displayAll [.number ⟨1, 7, by decide, by decide⟩]).toList) =
          .ok fs ∧
        sameAll fs [.number ⟨1, 7, by decide, by decide⟩] = true := by
  have hread : read (Utf8.encode (displayAll [.number ⟨1, 7, by decide, by decide⟩]).toList) =
      .ok [.number (.ofInt 1), .symbol "E-7"] := by
    with_unfolding_all rfl
  refine ⟨by with_unfolding_all rfl, hread, ?_⟩
  intro h
  obtain ⟨fs, hfs, hsame⟩ := h
  rw [hread] at hfs
  cases hfs
  exact absurd (length_of_sameAll hsame) (by decide)

end Expr

end Sexp
