import Sexp.Lexeme

/-!
# What a lexeme is

The bytes that each kind of lexeme consists of, and what may follow them, said without the cutter.
The cutter takes a lexeme that a source begins with and that does not go on (`cut_lexeme`), and takes
nothing else (`exists_of_cut_eq_lexeme`).
-/

namespace Sexp

/-! ### Bytes -/

theorem isBlank_iff {b : UInt8} : isBlank b = true ↔ b = 0x20 ∨ b = 0x09 ∨ b = newline := by
  simp [isBlank, or_assoc]

theorem isDelimiter_iff {b : UInt8} :
    isDelimiter b = true ↔ isBlank b = true ∨ b = openParen ∨ b = closeParen := by
  simp [isDelimiter, or_assoc]

theorem isDelimiter_of_isBlank {b : UInt8} (h : isBlank b = true) : isDelimiter b = true :=
  isDelimiter_iff.2 (.inl h)

theorem toNat_of_isDelimiter {b : UInt8} (h : isDelimiter b = true) :
    b.toNat = 0x20 ∨ b.toNat = 0x09 ∨ b.toNat = 0x0A ∨ b.toNat = 0x28 ∨ b.toNat = 0x29 := by
  rcases isDelimiter_iff.1 h with h | rfl | rfl
  · rcases isBlank_iff.1 h with rfl | rfl | rfl <;> decide
  · decide
  · decide

theorem isNumeric_iff {b : UInt8} :
    isNumeric b = true ↔ (0x30 ≤ b.toNat ∧ b.toNat ≤ 0x39) ∨ b.toNat = 0x2E := by
  simp [isNumeric, isDigit, point, UInt8.le_iff_toNat_le, ← UInt8.toNat_inj]

theorem isDelimiter_of_isNumeric {b : UInt8} (h : isNumeric b = true) : isDelimiter b = false := by
  rw [Bool.eq_false_iff]
  intro hd
  have hn := isNumeric_iff.1 h
  have hd := toNat_of_isDelimiter hd
  omega

theorem lt_of_isDelimiter {b : UInt8} (h : isDelimiter b = true) : b < 0x80 := by
  have hb := toNat_of_isDelimiter h
  refine UInt8.lt_iff_toNat_lt.2 ?_
  show b.toNat < 0x80
  omega

theorem lt_of_isNumeric {b : UInt8} (h : isNumeric b = true) : b < 0x80 := by
  have hb := isNumeric_iff.1 h
  refine UInt8.lt_iff_toNat_lt.2 ?_
  show b.toNat < 0x80
  omega

/-! ### Lexemes -/

/-- A kind with the bytes that are to be a lexeme of this kind. -/
structure Lexeme where
  kind : TokenKind
  bytes : List UInt8
  deriving DecidableEq

namespace Lexeme

/-- The lexemes of a source. -/
inductive Valid : Lexeme → Prop
  | leftParen : Valid ⟨.leftParen, [openParen]⟩
  | rightParen : Valid ⟨.rightParen, [closeParen]⟩
  | string {inside : List UInt8} (h : quote ∉ inside) :
    Valid ⟨.string, quote :: (inside ++ [quote])⟩
  | number {bytes : List UInt8} (hne : bytes ≠ []) (h : ∀ b ∈ bytes, isNumeric b = true) :
    Valid ⟨.number, bytes⟩
  | symbol {b : UInt8} {bytes : List UInt8} (hq : b ≠ quote) (hn : isNumeric b = false)
    (h : ∀ d ∈ b :: bytes, isDelimiter d = false) : Valid ⟨.symbol, b :: bytes⟩

/-- Whether the lexeme is over where `rest` follows it. -/
def EndsBefore (l : Lexeme) (rest : List UInt8) : Prop :=
  match l.kind with
  | .number => ∀ b ∈ rest.head?, isNumeric b = false
  | .symbol => ∀ b ∈ rest.head?, isDelimiter b = true
  | _ => True

theorem Valid.ne_nil {l : Lexeme} (h : l.Valid) : l.bytes ≠ [] := by
  cases h with
  | number hne _ => exact hne
  | _ => simp

theorem Valid.kind_ne_eof {l : Lexeme} (h : l.Valid) : l.kind ≠ .eof := by
  cases h <;> simp

theorem Valid.isBlank_head {l : Lexeme} (h : l.Valid) : ∀ b ∈ l.bytes.head?, isBlank b = false := by
  cases h with
  | leftParen | rightParen | string _ =>
    intro b hb
    cases hb
    decide
  | @number bytes hne hall =>
    intro b hb
    rw [Bool.eq_false_iff]
    intro hblank
    have hd := isDelimiter_of_isNumeric (hall b (List.mem_of_mem_head? hb))
    rw [isDelimiter_of_isBlank hblank] at hd
    cases hd
  | @symbol d bytes hq hn hall =>
    intro b hb
    rw [Bool.eq_false_iff]
    intro hblank
    have hd := hall b (List.mem_of_mem_head? hb)
    rw [isDelimiter_of_isBlank hblank] at hd
    cases hd

theorem EndsBefore.append_of_nil {l : Lexeme} {rest more : List UInt8} (h : l.EndsBefore rest)
    (hm : rest = [] → l.EndsBefore more) : l.EndsBefore (rest ++ more) := by
  cases rest with
  | nil => exact hm rfl
  | cons b rest =>
    unfold EndsBefore at h ⊢
    exact h

theorem endsBefore_of_isDelimiter (l : Lexeme) {rest : List UInt8}
    (h : ∀ b ∈ rest.head?, isDelimiter b = true) : l.EndsBefore rest := by
  unfold EndsBefore
  split
  · intro b hb
    rw [Bool.eq_false_iff]
    intro hn
    have hd := isDelimiter_of_isNumeric hn
    rw [h b hb] at hd
    cases hd
  · exact h
  · trivial

end Lexeme

/-! ### The cutter -/

theorem takeWhile_append_of_head {α : Type} {p : α → Bool} {xs rest : List α}
    (hxs : ∀ x ∈ xs, p x = true) (hrest : ∀ x ∈ rest.head?, p x = false) :
    (xs ++ rest).takeWhile p = xs := by
  rw [List.takeWhile_append_of_pos hxs]
  cases rest with
  | nil => simp
  | cons x rest => simp [hrest x rfl]

theorem head_dropWhile {α : Type} (p : α → Bool) (xs : List α) :
    ∀ x ∈ (xs.dropWhile p).head?, p x = false := by
  intro x hx
  have h := List.head?_dropWhile_not p xs
  rw [Option.mem_def.1 hx] at h
  simpa using h

theorem cut_eq_atEnd_iff {source : List UInt8} : cut source = .atEnd ↔ source = [] := by
  cases source with
  | nil => simp [cut]
  | cons b rest =>
    rw [cut]
    repeat' split
    all_goals simp

theorem cut_eq_unclosed_iff {source : List UInt8} :
    cut source = .unclosed ↔ ∃ rest, source = quote :: rest ∧ quote ∉ rest := by
  constructor
  · intro h
    cases source with
    | nil => simp [cut] at h
    | cons b rest =>
      rw [cut] at h
      split at h
      · cases h
      split at h
      · cases h
      split at h
      · split at h
        · cases h
        · rename_i hb hmem
          exact ⟨rest, by rw [hb], hmem⟩
      split at h
      · cases h
      · cases h
  · intro h
    obtain ⟨rest, rfl, h⟩ := h
    rw [cut, if_neg (by decide), if_neg (by decide), if_pos rfl, if_neg h]

theorem cut_lexeme {l : Lexeme} {rest : List UInt8} (hv : l.Valid) (he : l.EndsBefore rest) :
    cut (l.bytes ++ rest) = .lexeme l.kind l.bytes := by
  cases hv with
  | leftParen => rfl
  | rightParen => rfl
  | @string inside h =>
    have htake : (inside ++ quote :: rest).takeWhile (· != quote) = inside := by
      refine takeWhile_append_of_head (fun b hb => ?_) (fun b hb => ?_)
      · simpa using fun hq : b = quote => h (hq ▸ hb)
      · cases hb; simp
    have hmem : quote ∈ inside ++ quote :: rest := by simp
    have hcons : quote :: (inside ++ [quote]) ++ rest = quote :: (inside ++ quote :: rest) := by simp
    rw [hcons, cut, if_neg (by decide), if_neg (by decide), if_pos rfl, if_pos hmem, htake]
  | @number bytes hne h =>
    cases bytes with
    | nil => exact absurd rfl hne
    | cons b bytes =>
      have hb := h b List.mem_cons_self
      have htake : (bytes ++ rest).takeWhile isNumeric = bytes :=
        takeWhile_append_of_head (fun d hd => h d (List.mem_cons_of_mem b hd)) he
      have hne {k : UInt8} (hk : isNumeric k = false) : b ≠ k := by
        rintro rfl
        rw [hk] at hb
        cases hb
      rw [List.cons_append, cut, if_neg (hne (by decide)), if_neg (hne (by decide)),
        if_neg (hne (by decide)), if_pos hb, htake]
  | @symbol b bytes hq hn h =>
    have hb := h b List.mem_cons_self
    have htake : (bytes ++ rest).takeWhile (!isDelimiter ·) = bytes := by
      refine takeWhile_append_of_head (fun d hd => ?_) (fun d hd => ?_)
      · simp [h d (List.mem_cons_of_mem b hd)]
      · simp [he d hd]
    have hne {k : UInt8} (hk : isDelimiter k = true) : b ≠ k := by
      rintro rfl
      rw [hk] at hb
      cases hb
    rw [List.cons_append, cut, if_neg (hne (by decide)), if_neg (hne (by decide)), if_neg hq,
      if_neg (by simp [hn]), htake]

/-- What the cutter takes is a lexeme, and one that is over. -/
theorem exists_of_cut_eq_lexeme {source : List UInt8} {kind : TokenKind} {bytes : List UInt8}
    (hs : ∀ b ∈ source.head?, isBlank b = false) (h : cut source = .lexeme kind bytes) :
    ∃ rest, source = bytes ++ rest ∧ Lexeme.Valid ⟨kind, bytes⟩ ∧
      Lexeme.EndsBefore ⟨kind, bytes⟩ rest := by
  cases source with
  | nil => simp [cut] at h
  | cons b rest =>
    rw [cut] at h
    split at h
    · rename_i hb
      cases h
      exact ⟨rest, rfl, hb ▸ .leftParen, trivial⟩
    split at h
    · rename_i hb
      cases h
      exact ⟨rest, rfl, hb ▸ .rightParen, trivial⟩
    split at h
    · split at h
      · rename_i hb hmem
        cases h
        obtain ⟨r, hr⟩ := takeWhile_ne_append_of_mem hmem
        refine ⟨r, ?_, ?_, trivial⟩
        · rw [List.cons_append, List.append_assoc]
          exact congrArg (b :: ·) hr
        · rw [hb]
          refine .string fun hq => ?_
          have hall : (rest.takeWhile (· != quote)).all (· != quote) = true := List.all_takeWhile
          simpa using List.all_eq_true.1 hall quote hq
      · cases h
    split at h
    · rename_i hb
      cases h
      refine ⟨rest.dropWhile isNumeric, ?_, ?_, head_dropWhile isNumeric rest⟩
      · rw [List.cons_append, List.takeWhile_append_dropWhile]
      · refine .number (by simp) fun d hd => ?_
        rcases List.mem_cons.1 hd with rfl | hd
        · exact hb
        · exact List.all_eq_true.1 List.all_takeWhile d hd
    · rename_i hopen hclose hquote hnum
      cases h
      refine ⟨rest.dropWhile (!isDelimiter ·), ?_, ?_, fun d hd => ?_⟩
      · rw [List.cons_append, List.takeWhile_append_dropWhile]
      · refine .symbol hquote (by simpa using hnum) fun d hd => ?_
        rcases List.mem_cons.1 hd with rfl | hd
        · rw [isDelimiter, hs d rfl]
          simp [hopen, hclose]
        · simpa using List.all_eq_true.1 List.all_takeWhile d hd
      · simpa using head_dropWhile (!isDelimiter ·) rest d hd

end Sexp
