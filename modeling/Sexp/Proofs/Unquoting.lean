import Sexp.Proofs.Places
import Sexp.Proofs.Spelling

/-!
# Taking quotes off

The value of a string is its lexeme without the first and the last byte. Bytes of a text are not all
boundaries of characters, so this may fail (`unquoted?`). It does not for the lexeme of a string, because
the bytes between the quotes are decoded by themselves: what is missing of a character before the closing
quote does not take the quote in (`text_string`). So the value is the text of these bytes
(`string_tokens_unquote`).
-/

namespace Sexp

/-! ### Slices of texts -/

section Slices

variable {text xs ys zs : String} {lo hi : Nat}

/-- The part of a text from one byte to another, if characters begin or end there. -/
def textSlice? (text : String) (lo hi : Nat) : Option String :=
  if h : (⟨lo⟩ : String.Pos.Raw).IsValid text ∧ (⟨hi⟩ : String.Pos.Raw).IsValid text ∧ lo ≤ hi then
    some (text.extract (text.pos ⟨lo⟩ h.1) (text.pos ⟨hi⟩ h.2.1))
  else none

theorem isValid_append (xs ys : String) :
    (⟨xs.utf8ByteSize⟩ : String.Pos.Raw).IsValid (xs ++ ys) :=
  String.Pos.Raw.isValid_iff_exists_append.2 ⟨xs, ys, rfl, rfl⟩

theorem textSlice?_append (xs ys zs : String) :
    textSlice? (xs ++ ys ++ zs) xs.utf8ByteSize (xs ++ ys).utf8ByteSize = some ys := by
  have hlo := isValid_append xs (ys ++ zs)
  rw [← String.append_assoc] at hlo
  have hsize : (xs ++ ys).utf8ByteSize = xs.utf8ByteSize + ys.utf8ByteSize :=
    String.utf8ByteSize_append
  have hmiddle : (xs.toByteArray ++ ys.toByteArray).extract xs.utf8ByteSize
      (xs.utf8ByteSize + ys.utf8ByteSize) = ys.toByteArray :=
    ByteArray.extract_append_eq_right rfl rfl
  rw [textSlice?, dif_pos ⟨hlo, isValid_append (xs ++ ys) zs, by omega⟩, Option.some_inj,
    ← String.toByteArray_inj, String.toByteArray_extract, String.toByteArray_append,
    String.toByteArray_append, ByteArray.extract_append]
  simp [hsize, hmiddle]

/-- A text without its first and its last byte, if it has any and these are characters. -/
def unquoted? (lexeme : String) : Option String :=
  if lexeme.utf8ByteSize = 0 then none else textSlice? lexeme 1 (lexeme.utf8ByteSize - 1)

-- Two quotes are two bytes, and one quote is both the first and the last.
example : unquoted? "\"\"" = some "" ∧ unquoted? "\"" = none := by decide

theorem unquoted?_quoted (value : String) : unquoted? ("\"" ++ value ++ "\"") = some value := by
  have hsize : ("\"" ++ value ++ "\"").utf8ByteSize = ("\"" ++ value).utf8ByteSize + 1 :=
    String.utf8ByteSize_append
  have hslice := textSlice?_append "\"" value "\""
  rw [unquoted?, if_neg (by omega), hsize, Nat.add_sub_cancel]
  exact hslice

end Slices

/-! ### Tokens of strings -/

/-- The lexeme is a text between quotes, and taking these off gives the text of the bytes `inside`. -/
structure Token.Quotes (t : Token) (inside : List UInt8) : Prop where
  first : t.lexeme.toList.head? = some '"'
  last : t.lexeme.toList.getLast? = some '"'
  two_le : 2 ≤ t.lexeme.length
  lower : (⟨1⟩ : String.Pos.Raw).IsValid t.lexeme
  upper : (⟨t.lexeme.utf8ByteSize - 1⟩ : String.Pos.Raw).IsValid t.lexeme
  unquoted : unquoted? t.lexeme = some (Utf8.text inside)
  push : ∀ b : Builder, b.push t = .ok (b.add (.string (Utf8.text inside)))
  no_quote : '"' ∉ (Utf8.text inside).toList

/-- The token stands at its place in the source, as a quote, bytes other than quotes, and a quote. -/
def Mark.Quoted (source : List UInt8) (m : Mark) : Prop :=
  ∃ inside rest, source.drop m.offset = quote :: (inside ++ quote :: rest) ∧ quote ∉ inside ∧
    m.token.position = .at source m.offset ∧ m.token.Quotes inside

theorem quotes_string {inside : List UInt8} (h : quote ∉ inside) (p : Position) :
    (Lexeme.token ⟨.string, quote :: (inside ++ [quote])⟩ p).Quotes inside := by
  have hlexeme : (Lexeme.token ⟨.string, quote :: (inside ++ [quote])⟩ p).lexeme =
      "\"" ++ Utf8.text inside ++ "\"" := text_string inside
  have hchars : ("\"" ++ Utf8.text inside ++ "\"").toList =
      '"' :: (Utf8.text inside).toList ++ ['"'] := by simp
  have hsize : ("\"" ++ Utf8.text inside ++ "\"").utf8ByteSize =
      ("\"" ++ Utf8.text inside).utf8ByteSize + 1 := String.utf8ByteSize_append
  refine ⟨?_, ?_, ?_, ?_, ?_, ?_, fun b => ?_, ?_⟩
  · rw [hlexeme, hchars]
    rfl
  · rw [hlexeme, hchars]
    exact List.getLast?_concat
  · rw [hlexeme, ← String.length_toList, hchars, List.length_append, List.length_cons]
    exact Nat.le_add_left 2 _
  · rw [hlexeme, String.append_assoc]
    exact isValid_append "\"" _
  · rw [hlexeme, hsize, Nat.add_sub_cancel]
    exact isValid_append _ "\""
  · rw [hlexeme]
    exact unquoted?_quoted _
  · show Except.ok (b.add (.string (unquoted (Utf8.text _)))) = _
    rw [text_string, unquoted_quoted]
  · rw [Utf8.text, String.toList_ofList]
    exact quote_notMem_decode h

theorem Mark.Lexed.quoted {source : List UInt8} {m : Mark} (h : m.Lexed source)
    (hk : m.token.kind = .string) : m.Quoted source := by
  obtain ⟨⟨kind, bytes⟩, rest, hdrop, hv, _, ht⟩ := h
  have hkind : kind = .string := by rw [← hk, ht]; rfl
  subst hkind
  cases hv with
  | @string inside hmem =>
    refine ⟨inside, rest, ?_, hmem, ?_, ?_⟩
    · rw [hdrop]
      simp
    · rw [ht]
      rfl
    · rw [ht]
      exact quotes_string hmem _

/-- Whatever is asked of a cursor on a source, each string that was met is a text between quotes, its value
is the text of the bytes between them, and taking the quotes off does not fail. So it is for any bytes
between quotes, wherever a cursor meets them. Bytes below 128 are characters by themselves, whatever stands
before them, and bytes of whole characters are kept as they are. -/
theorem string_tokens_unquote (source : List UInt8) (rs : List Request) :
    let start := Cursor.ofSource source
    let c := start.afterRequests rs
    (∀ ms, start.Steps rs ms → ∀ m ∈ ms, m.token.kind = .string → m.Quoted source) ∧
    (∀ r, ∀ t ∈ (c.answer r).1.heldTokens, t.kind = .string → ∃ n, Mark.Quoted source ⟨n, t⟩) ∧
    (∀ gap inside rest, IsGap gap → quote ∉ inside →
      c.rest = gap ++ quote :: (inside ++ quote :: rest) →
      ∃ t next, c.scan = (.ok t, next) ∧ t.kind = .string ∧ t.Quotes inside ∧ next.rest = rest) ∧
    (∀ inside, quote ∉ inside →
      read (quote :: (inside ++ [quote])) = .ok [.string (Utf8.text inside)]) ∧
    (∀ xs b ys, b < 0x80 →
      Utf8.decode (xs ++ b :: ys) = Utf8.decode xs ++ Char.ofNat b.toNat :: Utf8.decode ys) ∧
    ∀ inside, Utf8.WellFormed inside → Utf8.encode (Utf8.text inside).toList = inside := by
  intro start c
  have hstart : start.IsOn source := Cursor.isOn_ofSource source
  have hon : c.IsOn source := hstart.afterRequests rs
  refine ⟨?_, fun r t ht hk => ?_, fun gap inside rest hg hq hrest => ?_, fun inside hq => ?_,
    fun xs b ys hb => ?_, fun inside hw => ?_⟩
  · rintro ms ⟨last, hs, _⟩ m hm hk
    exact (hs.lexed hstart m hm).quoted hk
  · rcases (hon.answer_placed r).tokens t ht with rfl | ⟨n, hn⟩
    · cases hk
    · exact ⟨n, hn.quoted hk⟩
  · have hsplit : c.rest = gap ++ (quote :: (inside ++ [quote]) ++ rest) := by simpa using hrest
    have hscan := Cursor.scan_lexeme hsplit hg (.string hq) trivial
    exact ⟨_, _, hscan, rfl, quotes_string hq _, rfl⟩
  · have hlexeme := text_string inside
    exact read_eq_ok_iff_segments.2 ⟨_, .singleton (.string hq), .string rfl hlexeme .nil⟩
  · exact Utf8.decode_append_ascii xs hb ys
  · rw [Utf8.text, String.toList_ofList]
    exact hw.encode_decode

/-- A string that ends within a character: its closing quote is a character of its own, and what stands
before the truncated one is kept. -/
theorem truncated_string_unquote :
    read [quote, 0x0A, 0x5C, 0x29, 0xE2, 0x82, quote] = .ok [.string "\n\\)\uFFFD"] ∧
      ∃ t next, (Cursor.ofSource [quote, 0x0A, 0x5C, 0x29, 0xE2, 0x82, quote]).scan = (.ok t, next) ∧
        unquoted? t.lexeme = some "\n\\)\uFFFD" := by
  have hquote : quote ∉ [0x0A, 0x5C, 0x29, 0xE2, 0x82] := by decide
  have htext : Utf8.text [0x0A, 0x5C, 0x29, 0xE2, 0x82] = "\n\\)\uFFFD" := by decide
  obtain ⟨_, _, htoken, hread, _, _⟩ :=
    string_tokens_unquote [quote, 0x0A, 0x5C, 0x29, 0xE2, 0x82, quote] []
  obtain ⟨t, next, hscan, _, hquotes, _⟩ :=
    htoken [] [0x0A, 0x5C, 0x29, 0xE2, 0x82] [] (List.forall_mem_nil _) hquote rfl
  have hunquoted := hquotes.unquoted
  rw [htext] at hunquoted
  exact ⟨htext ▸ hread _ hquote, t, next, hscan, hunquoted⟩

end Sexp
