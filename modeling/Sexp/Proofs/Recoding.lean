import Sexp.Proofs.Moving
import Sexp.Proofs.Partition
import Sexp.Proofs.Spelling

/-!
# Decoding before or after

A source may be decoded as a whole, before it is cut, instead of lexeme by lexeme. What is no character
is then replaced before the cutter sees it, and still every lexeme begins and ends where it did
(`Lexeme.Valid.recode_append`), since it ends beside a byte below 128 or at the end of the source. So
nothing changes but the columns (`decoded_source_read_alike`).
-/

namespace Sexp

namespace Utf8

/-! ### Bytes of the text of bytes -/

/-- The bytes of the text that the bytes are decoded to. -/
def recode (bytes : List UInt8) : List UInt8 := encode (decode bytes)

@[simp] theorem recode_nil : recode [] = [] := rfl

@[simp] theorem text_recode (bytes : List UInt8) : text (recode bytes) = text bytes := by
  rw [text, recode, decode_encode, text]

theorem recode_append_cons (xs : List UInt8) {b : UInt8} (hb : b < 0x80) (ys : List UInt8) :
    recode (xs ++ b :: ys) = recode xs ++ b :: recode ys := by
  rw [recode, decode_append_ascii xs hb, encode_append, encode_cons, encodeChar_ofNat hb]
  rfl

theorem recode_cons {b : UInt8} (hb : b < 0x80) (ys : List UInt8) :
    recode (b :: ys) = b :: recode ys :=
  recode_append_cons [] hb ys

theorem recode_ascii_append {xs : List UInt8} (h : ∀ b ∈ xs, b < 0x80) (ys : List UInt8) :
    recode (xs ++ ys) = xs ++ recode ys := by
  induction xs with
  | nil => rfl
  | cons b xs ih =>
    rw [List.cons_append, recode_cons (h b List.mem_cons_self),
      ih fun d hd => h d (List.mem_cons_of_mem b hd)]
    rfl

theorem recode_ascii {xs : List UInt8} (h : ∀ b ∈ xs, b < 0x80) : recode xs = xs := by
  have happend := recode_ascii_append h []
  rwa [List.append_nil, recode_nil, List.append_nil] at happend

theorem mem_of_mem_recode {bytes : List UInt8} {b : UInt8} (h : b ∈ recode bytes)
    (hb : b < 0x80) : b ∈ bytes := by
  obtain ⟨c, hc, hcb⟩ := exists_mem_of_mem_encode h hb
  have hlt : c.toNat < 0x80 := by
    rw [hcb]
    exact UInt8.lt_iff_toNat_lt.1 hb
  obtain ⟨d, hd, hdc⟩ := exists_mem_of_mem_decode hc hlt
  rwa [UInt8.toNat_inj.1 (hdc.trans hcb)] at hd

theorem head_of_head_recode {bytes : List UInt8} {b : UInt8} (h : b ∈ (recode bytes).head?)
    (hb : b < 0x80) : b ∈ bytes.head? := by
  obtain ⟨c, hc, hcb⟩ := exists_mem_head_of_mem_head_encode h hb
  cases bytes with
  | nil => cases hc
  | cons d bytes =>
    obtain ⟨c', cs, hdecode, hfirst⟩ := decode_cons d bytes
    rw [hdecode] at hc
    cases hc
    have hlt : c.toNat < 0x80 := by
      rw [hcb]
      exact UInt8.lt_iff_toNat_lt.1 hb
    rw [UInt8.toNat_inj.1 ((hfirst hlt).symm.trans hcb)]
    rfl

theorem count_recode {b : UInt8} (hb : b < 0x80) (bytes : List UInt8) :
    (recode bytes).count b = bytes.count b := by
  -- By the length: a byte that is found parts the bytes into two shorter rows.
  induction hn : bytes.length using Nat.strongRecOn generalizing bytes with
  | ind n ih =>
    by_cases hmem : b ∈ bytes
    · obtain ⟨xs, ys, rfl⟩ := List.append_of_mem hmem
      rw [List.length_append, List.length_cons] at hn
      rw [recode_append_cons xs hb, List.count_append, List.count_append, List.count_cons_self,
        List.count_cons_self, ih xs.length (by omega) xs rfl, ih ys.length (by omega) ys rfl]
    · rw [List.count_eq_zero.2 hmem,
        List.count_eq_zero.2 fun h => hmem (mem_of_mem_recode h hb)]

end Utf8

open Utf8 (recode recode_append_cons recode_cons recode_ascii_append recode_ascii mem_of_mem_recode
  head_of_head_recode count_recode text_recode)

/-! ### Lexemes -/

theorem quote_lt : quote < 0x80 := by decide

theorem IsGap.lt {gap : List UInt8} (h : IsGap gap) : ∀ b ∈ gap, b < 0x80 :=
  fun b hb => lt_of_isDelimiter (isDelimiter_of_isBlank (h b hb))

namespace Lexeme

def recoded (l : Lexeme) : Lexeme := ⟨l.kind, recode l.bytes⟩

theorem token_recoded (l : Lexeme) (p : Position) : l.recoded.token p = l.token p := by
  rw [token, recoded, text_recode, token]

theorem recode_string {inside : List UInt8} :
    recode (quote :: (inside ++ [quote])) = quote :: (recode inside ++ [quote]) := by
  rw [recode_cons quote_lt, recode_append_cons inside quote_lt]
  rfl

theorem Valid.recoded {l : Lexeme} (h : l.Valid) : l.recoded.Valid := by
  cases h with
  | leftParen => exact .leftParen
  | rightParen => exact .rightParen
  | @string inside hq =>
    rw [Lexeme.recoded, recode_string]
    exact .string fun hmem => hq (mem_of_mem_recode hmem quote_lt)
  | number hne hall =>
    rw [Lexeme.recoded, recode_ascii fun b hb => lt_of_isNumeric (hall b hb)]
    exact .number hne hall
  | symbol hq hn hall => exact (Valid.symbol hq hn hall).isSymbolName.valid

theorem EndsBefore.recode {l : Lexeme} {rest : List UInt8} (h : l.EndsBefore rest) :
    l.recoded.EndsBefore (Utf8.recode rest) := by
  unfold EndsBefore at h ⊢
  cases hk : l.kind with
  | number =>
    rw [hk] at h
    simp only [recoded, hk]
    intro b hb
    rw [Bool.eq_false_iff]
    intro hnum
    have hb' := h b (head_of_head_recode hb (lt_of_isNumeric hnum))
    rw [hnum] at hb'
    cases hb'
  | symbol =>
    rw [hk] at h
    simp only [recoded, hk]
    cases rest with
    | nil => exact nofun
    | cons d rest =>
      rw [recode_cons (lt_of_isDelimiter (h d rfl))]
      exact h
  | leftParen | rightParen | string | eof => simp only [recoded, hk]

/-- The bytes of a lexeme that is over are decoded alone to what they are in what they stand in. -/
theorem Valid.recode_append {l : Lexeme} {rest : List UInt8} (h : l.Valid) (he : l.EndsBefore rest) :
    recode (l.bytes ++ rest) = l.recoded.bytes ++ recode rest := by
  cases h with
  | leftParen => exact recode_cons (by decide) rest
  | rightParen => exact recode_cons (by decide) rest
  | @string inside hq =>
    have hcons : quote :: (inside ++ [quote]) ++ rest = quote :: (inside ++ quote :: rest) := by simp
    rw [hcons, recode_cons quote_lt, recode_append_cons inside quote_lt, Lexeme.recoded, recode_string]
    simp
  | number hne hall =>
    have hlt := fun b hb => lt_of_isNumeric (hall b hb)
    rw [recode_ascii_append hlt, Lexeme.recoded, recode_ascii hlt]
  | @symbol b bytes hq hn hall =>
    cases rest with
    | nil => rw [List.append_nil, Utf8.recode_nil, List.append_nil]; rfl
    | cons d rest =>
      have hd : d < 0x80 := lt_of_isDelimiter (he d rfl)
      rw [recode_append_cons _ hd, recode_cons hd]
      rfl

end Lexeme

/-! ### Runs -/

theorem Position.line_after (p : Position) (bytes : List UInt8) :
    (p.after bytes).line = p.line + bytes.count newline := by
  induction bytes generalizing p with
  | nil => rfl
  | cons b bytes ih =>
    rw [after_cons, ih]
    by_cases hb : b = newline
    · rw [afterByte, if_pos hb, hb, List.count_cons_self]
      show p.line + 1 + bytes.count newline = p.line + (bytes.count newline + 1)
      omega
    · rw [afterByte, if_neg hb, List.count_cons_of_ne hb]

def Position.lineStart (p : Position) : Position := ⟨p.line, 1⟩

namespace Cursor

/-- The second cursor stands before the bytes of the text of what the first one stands before, on the
same line. -/
structure Recoded (c d : Cursor) : Prop where
  rest : d.rest = recode c.rest
  line : d.position.line = c.position.line

namespace Recoded

variable {c d : Cursor}

theorem lineStart_after (h : Recoded c d) (bytes : List UInt8) :
    (d.position.after bytes).lineStart = (c.position.after bytes).lineStart := by
  rw [Position.lineStart, Position.line_after, h.line, ← Position.line_after]
  rfl

theorem past (h : Recoded c d) (gap bytes rest : List UInt8) :
    Recoded (c.past gap bytes rest) (d.past gap (recode bytes) (recode rest)) where
  rest := rfl
  line := by
    show ((d.position.after gap).after (recode bytes)).line = ((c.position.after gap).after bytes).line
    rw [Position.line_after, Position.line_after, Position.line_after, Position.line_after, h.line,
      count_recode (by decide)]

end Recoded

theorem alike_recoded : Alike Position.lineStart Position.lineStart Recoded := by
  intro c d h
  have hstep := c.scan_step
  generalize c.scan = s at hstep
  cases hstep with
  | atEnd hg =>
    have hrest : d.rest = c.rest := by rw [h.rest, recode_ascii hg.lt]
    have hscan := scan_atEnd (c := d) (hrest ▸ hg)
    have hplace := h.lineStart_after c.rest
    rw [hscan, hrest]
    refine ⟨?_, h.past c.rest [] []⟩
    show Except.ok (Token.mk .eof "" (c.position.after c.rest).lineStart) =
      Except.ok (Token.mk .eof "" (d.position.after c.rest).lineStart)
    rw [hplace]
  | @unclosed gap rest hr hg hq =>
    have hrest : d.rest = gap ++ quote :: recode rest := by
      rw [h.rest, hr, recode_ascii_append hg.lt, recode_cons quote_lt]
    have hscan := scan_unclosed hrest hg fun hmem => hq (mem_of_mem_recode hmem quote_lt)
    have hplace := h.lineStart_after gap
    rw [hscan, ← recode_cons quote_lt]
    refine ⟨?_, h.past gap (quote :: rest) []⟩
    show Except.error (Error.unterminatedString (c.position.after gap).lineStart) =
      Except.error (Error.unterminatedString (d.position.after gap).lineStart)
    rw [hplace]
  | @lexeme gap l rest hr hg hv he =>
    have hrest : d.rest = gap ++ (l.recoded.bytes ++ recode rest) := by
      rw [h.rest, hr, recode_ascii_append hg.lt, hv.recode_append he]
    have hplace := h.lineStart_after gap
    rw [scan_lexeme hrest hg hv.recoded he.recode, l.token_recoded]
    refine ⟨?_, h.past gap l.bytes rest⟩
    show Except.ok (l.token (c.position.after gap).lineStart) =
      Except.ok (l.token (d.position.after gap).lineStart)
    rw [hplace]

theorem recoded_ofSource (source : List UInt8) :
    Recoded (ofSource source) (ofSource (recode source)) :=
  ⟨rfl, rfl⟩

end Cursor

/-- A source and the bytes of its whole text have the same tokens, or a string without an end, and are
read as the same expressions or have the same fault, but for the columns of what is reported. -/
theorem decoded_source_read_alike (source : List UInt8) :
    let decoded := Utf8.encode (Utf8.decode source)
    let onLines := movedAnswer Position.lineStart (List.map (Token.moved Position.lineStart))
    onLines (Cursor.ofSource decoded).scanAll.1 = onLines (Cursor.ofSource source).scanAll.1 ∧
      (∀ e, (Cursor.ofSource source).scanAll.1 = .error e → ∃ p, e = .unterminatedString p) ∧
      (read decoded).mapError (Error.moved Position.lineStart) =
        (read source).mapError (Error.moved Position.lineStart) := by
  intro decoded onLines
  have hrecoded := Cursor.recoded_ofSource source
  refine ⟨(Cursor.alike_recoded.scanAll hrecoded).symm, fun e he => ?_, ?_⟩
  · obtain ⟨n, _, _, _, rfl⟩ := scanAll_eq_error_iff_partition.1 he
    exact ⟨_, rfl⟩
  · have hempty : Builder.empty.carried Position.lineStart [] =
        Builder.empty.carried Position.lineStart [] := rfl
    have hread := (Cursor.alike_recoded.readInto hrecoded hempty).1
    rw [movedAnswer_nil_append, movedAnswer_nil_append] at hread
    exact hread.symm

end Sexp
