import Sexp.Proofs.Concatenation

/-!
# Expressions that sources spell

Every expression that a source is read as is spelled: its symbols are symbols of a source, its strings
hold no quote, its numbers are not below zero (`read_spelled`). Conditions on an expression are stated
for each of its nodes (`EachNode`), and proofs about expressions in a row go by `Expr.forest_induction`.
-/

namespace Sexp

/-! ### Expressions in a row -/

namespace Expr

/-- What holds of no expressions, and of an atom or a list in front of expressions if it holds of these
and of the children of the list, holds of all expressions in a row. -/
@[elab_as_elim]
theorem forest_induction {motive : List Expr → Prop} (nil : motive [])
    (symbol : ∀ name es, motive es → motive (.symbol name :: es))
    (string : ∀ value es, motive es → motive (.string value :: es))
    (number : ∀ value es, motive es → motive (.number value :: es))
    (list : ∀ items es, motive items → motive es → motive (.list items :: es)) :
    ∀ es, motive es
  | [] => nil
  | .symbol name :: es => symbol name es (forest_induction nil symbol string number list es)
  | .string value :: es => string value es (forest_induction nil symbol string number list es)
  | .number value :: es => number value es (forest_induction nil symbol string number list es)
  | .list items :: es =>
    list items es (forest_induction nil symbol string number list items)
      (forest_induction nil symbol string number list es)

theorem nodesAll_snd (es : List Expr) (m n : Nat) :
    (nodesAll m es).map Prod.snd = (nodesAll n es).map Prod.snd := by
  induction es using forest_induction generalizing m n with
  | nil => rfl
  | symbol name es ih | string name es ih | number name es ih =>
    simp only [nodesAll, nodes, List.map_append, List.map_cons, List.map_nil, ih m n]
  | list items es ihi ih =>
    simp only [nodesAll, nodes, List.map_append, List.map_cons, ih m n, ihi (m + 1) (n + 1)]

/-- Every node of the expressions, at whatever depth, is as `p` says. -/
def EachNode (p : Expr → Prop) (es : List Expr) : Prop := ∀ x ∈ nodesAll 0 es, p x.2

instance (p : Expr → Prop) [DecidablePred p] (es : List Expr) : Decidable (EachNode p es) :=
  inferInstanceAs (Decidable (∀ x ∈ nodesAll 0 es, p x.2))

section EachNode

variable {p : Expr → Prop}

theorem eachNode_iff (n : Nat) (es : List Expr) :
    EachNode p es ↔ ∀ e ∈ (nodesAll n es).map Prod.snd, p e := by
  rw [nodesAll_snd es n 0, List.forall_mem_map]
  rfl

@[simp] theorem eachNode_nil : EachNode p [] := by simp [EachNode, nodesAll]

theorem eachNode_cons (e : Expr) (es : List Expr) :
    EachNode p (e :: es) ↔ EachNode p [e] ∧ EachNode p es := by
  simp only [EachNode, nodesAll, List.append_nil]
  exact List.forall_mem_append

@[simp] theorem eachNode_symbol (name : String) : EachNode p [.symbol name] ↔ p (.symbol name) := by
  simp [EachNode, nodesAll, nodes]

@[simp] theorem eachNode_string (value : String) : EachNode p [.string value] ↔ p (.string value) := by
  simp [EachNode, nodesAll, nodes]

@[simp] theorem eachNode_number (value : Decimal) : EachNode p [.number value] ↔ p (.number value) := by
  simp [EachNode, nodesAll, nodes]

@[simp] theorem eachNode_list (items : List Expr) :
    EachNode p [.list items] ↔ p (.list items) ∧ EachNode p items := by
  rw [eachNode_iff 1 items, List.forall_mem_map]
  simp only [EachNode, nodesAll, nodes, List.append_nil]
  exact List.forall_mem_cons

theorem eachNode_and {q : Expr → Prop} (es : List Expr) :
    EachNode (fun e => p e ∧ q e) es ↔ EachNode p es ∧ EachNode q es := by
  simp only [EachNode]
  exact ⟨fun h => ⟨fun x hx => (h x hx).1, fun x hx => (h x hx).2⟩, fun h x hx => ⟨h.1 x hx, h.2 x hx⟩⟩

end EachNode

end Expr

/-! ### Names of symbols -/

/-- The characters that end a symbol. -/
def delimiters : List Char := [' ', '\t', '\n', '(', ')']

/-- A symbol of a source: it has characters, none of them a blank or a parenthesis, and does not begin
as a string or a number does. -/
structure IsSymbolName (text : List Char) : Prop where
  ne_nil : text ≠ []
  delimiter : ∀ c ∈ text, c ∉ delimiters
  first : ∀ c ∈ text.head?, c ≠ '"' ∧ c ≠ '.' ∧ c.isDigit = false

instance (text : List Char) : Decidable (IsSymbolName text) :=
  have : Decidable (∀ c ∈ text.head?, c ≠ '"' ∧ c ≠ '.' ∧ c.isDigit = false) :=
    Option.decidableForallMem text.head?
  have : Decidable (∀ c ∈ text, c ∉ delimiters) := List.decidableBAll _ text
  decidable_of_iff (text ≠ [] ∧ (∀ c ∈ text, c ∉ delimiters) ∧
      ∀ c ∈ text.head?, c ≠ '"' ∧ c ≠ '.' ∧ c.isDigit = false)
    ⟨fun h => ⟨h.1, h.2.1, h.2.2⟩, fun h => ⟨h.ne_nil, h.delimiter, h.first⟩⟩

/-- What a node of an expression is like if a source spells it. -/
def Expr.IsSpelled : Expr → Prop
  | .list _ => True
  | .symbol name => IsSymbolName name.toList
  | .string value => '"' ∉ value.toList
  | .number value => 0 ≤ value.digits

theorem mem_delimiters_iff {c : Char} :
    c ∈ delimiters ↔ c.toNat = 0x20 ∨ c.toNat = 0x09 ∨ c.toNat = 0x0A ∨ c.toNat = 0x28 ∨
      c.toNat = 0x29 := by
  simp [delimiters, ← Char.toNat_inj]

section Bytes

variable {c : Char} {b : UInt8}

theorem isDelimiter_iff_mem (h : c.toNat = b.toNat) : isDelimiter b = true ↔ c ∈ delimiters := by
  rw [mem_delimiters_iff, h]
  constructor
  · exact toNat_of_isDelimiter
  · simp only [isDelimiter, isBlank, openParen, closeParen, newline, Bool.or_eq_true, beq_iff_eq,
      ← UInt8.toNat_inj, UInt8.reduceToNat]
    omega

theorem isNumeric_iff_char (h : c.toNat = b.toNat) :
    isNumeric b = true ↔ c.isDigit = true ∨ c = '.' := by
  rw [isNumeric_iff, isDigit_iff_toNat, ← Char.toNat_inj, h]
  rfl

theorem eq_quote_iff (h : c.toNat = b.toNat) : b = quote ↔ c = '"' := by
  rw [← UInt8.toNat_inj, ← Char.toNat_inj, h]
  rfl

end Bytes

/-! ### Lexemes and their texts -/

theorem Lexeme.Valid.isSymbolName {bytes : List UInt8} (h : Lexeme.Valid ⟨.symbol, bytes⟩) :
    IsSymbolName (Utf8.decode bytes) := by
  cases h with
  | @symbol b bytes hq hn hall =>
    obtain ⟨c, cs, hdecode, hfirst⟩ := Utf8.decode_cons b bytes
    refine ⟨by simp [hdecode], fun d hd hmem => ?_, ?_⟩
    · have hlt : d.toNat < 0x80 := by
        have := mem_delimiters_iff.1 hmem
        omega
      obtain ⟨x, hx, hxd⟩ := Utf8.exists_mem_of_mem_decode hd hlt
      have hdelimiter := (isDelimiter_iff_mem hxd.symm).2 hmem
      rw [hall x hx] at hdelimiter
      cases hdelimiter
    · rw [hdecode]
      intro d hd
      cases hd
      have hsame (hlt : c.toNat < 0x80) : c.toNat = b.toNat := hfirst hlt
      refine ⟨?_, ?_, ?_⟩
      · rintro rfl
        exact hq ((eq_quote_iff (hsame (by decide))).2 rfl)
      · rintro rfl
        have hnum := (isNumeric_iff_char (hsame (by decide))).2 (.inr rfl)
        rw [hn] at hnum
        cases hnum
      · refine Bool.eq_false_iff.2 fun hdigit => ?_
        have hlt := isDigit_iff_toNat.1 hdigit
        have hnum := (isNumeric_iff_char (hsame (by omega))).2 (.inl hdigit)
        rw [hn] at hnum
        cases hnum

theorem IsSymbolName.valid {text : List Char} (h : IsSymbolName text) :
    Lexeme.Valid ⟨.symbol, Utf8.encode text⟩ := by
  obtain ⟨b, bytes, hb⟩ := List.exists_cons_of_ne_nil (Utf8.encode_ne_nil h.ne_nil)
  have hhead (hlt : b < 0x80) : ∃ c ∈ text.head?, c.toNat = b.toNat :=
    Utf8.exists_mem_head_of_mem_head_encode (by rw [hb]; rfl) hlt
  rw [hb]
  refine .symbol ?_ (Bool.eq_false_iff.2 fun hn => ?_) fun d hd => Bool.eq_false_iff.2 fun hdel => ?_
  · rintro rfl
    obtain ⟨c, hc, hcb⟩ := hhead (by decide)
    exact (h.first c hc).1 ((eq_quote_iff hcb).1 rfl)
  · obtain ⟨c, hc, hcb⟩ := hhead (lt_of_isNumeric hn)
    obtain ⟨_, hpoint, hdigit⟩ := h.first c hc
    rcases (isNumeric_iff_char hcb).1 hn with hd | hp
    · rw [hdigit] at hd
      cases hd
    · exact hpoint hp
  · rw [← hb] at hd
    obtain ⟨c, hc, hcd⟩ := Utf8.exists_mem_of_mem_encode hd (lt_of_isDelimiter hdel)
    exact h.delimiter c hc ((isDelimiter_iff_mem hcd).1 hdel)

theorem quote_notMem_decode {bytes : List UInt8} (h : quote ∉ bytes) : '"' ∉ Utf8.decode bytes := by
  intro hc
  obtain ⟨b, hb, hbc⟩ := Utf8.exists_mem_of_mem_decode hc (by decide)
  exact h ((eq_quote_iff hbc.symm).2 rfl ▸ hb)

theorem quote_notMem_encode {text : List Char} (h : '"' ∉ text) : quote ∉ Utf8.encode text := by
  intro hb
  obtain ⟨c, hc, hcb⟩ := Utf8.exists_mem_of_mem_encode hb (by decide)
  exact h ((eq_quote_iff hcb).1 rfl ▸ hc)

/-! ### What is read is spelled -/

namespace Token.Written

variable {size : Nat} {t : Token}

theorem isSymbolName (h : t.Written size) (hk : t.kind = .symbol) :
    IsSymbolName t.lexeme.toList := by
  obtain ⟨⟨kind, bytes⟩, hv, _, hshape⟩ := h
  obtain ⟨hkind, hlexeme⟩ := Prod.mk.inj hshape
  rw [hk] at hkind
  subst hkind
  rw [hlexeme, Utf8.text, String.toList_ofList]
  exact hv.isSymbolName

theorem quote_notMem (h : t.Written size) (hk : t.kind = .string) :
    '"' ∉ (unquoted t.lexeme).toList := by
  obtain ⟨l, hv, _, hshape⟩ := h
  obtain ⟨hkind, hlexeme⟩ := Prod.mk.inj hshape
  rw [hk] at hkind
  cases hv with
  | @string inside hmem =>
    rw [hlexeme, text_string, unquoted_quoted, Utf8.text, String.toList_ofList]
    exact quote_notMem_decode hmem
  | _ => cases hkind

end Token.Written

theorem Yields.isSpelled {size : Nat} {es : List Expr} {ts : List Token} (h : Yields es ts)
    (hw : ∀ t ∈ ts, t.Written size) : Expr.EachNode Expr.IsSpelled es := by
  induction h with
  | nil => exact Expr.eachNode_nil
  | @symbol t es ts hk _ ih =>
    rw [Expr.eachNode_cons, Expr.eachNode_symbol]
    exact ⟨(hw t List.mem_cons_self).isSymbolName hk, ih fun u hu => hw u (List.mem_cons_of_mem t hu)⟩
  | @string t value es ts hk hl _ ih =>
    have hquote := (hw t List.mem_cons_self).quote_notMem hk
    rw [hl, unquoted_quoted] at hquote
    rw [Expr.eachNode_cons, Expr.eachNode_string]
    exact ⟨hquote, ih fun u hu => hw u (List.mem_cons_of_mem t hu)⟩
  | @number t d es ts hk hd _ ih =>
    rw [Expr.eachNode_cons, Expr.eachNode_number]
    refine ⟨?_, ih fun u hu => hw u (List.mem_cons_of_mem t hu)⟩
    show 0 ≤ d.digits
    rw [hd.digits]
    exact Int.natCast_nonneg _
  | list ho hc _ _ ihi ih =>
    rw [Expr.eachNode_cons, Expr.eachNode_list]
    exact ⟨⟨trivial, ihi fun u hu => hw u (by simp [hu])⟩, ih fun u hu => hw u (by simp [hu])⟩

/-- What a source is read as is spelled. -/
theorem read_spelled {source : List UInt8} {es : List Expr} (h : read source = .ok es) :
    Expr.EachNode Expr.IsSpelled es := by
  obtain ⟨ts, t, hall, _, hy⟩ := read_eq_ok_iff_yields.1 h
  exact hy.isSpelled (written_of_scanAll hall)

end Sexp
