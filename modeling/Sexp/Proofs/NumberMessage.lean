import Sexp.Proofs.JsonPart
import Sexp.Proofs.NumberLexeme

/-!
# What the message for a number says

The message for a number that is none quotes its lexeme and then gives the reason. Quoted text ends at its
first quote that is not escaped (`Quoted.untilQuote?`), and what stands before that quote is read back as the
text that was quoted (`Quoted.decode?`). So lexeme and reason are settled by the message, whatever is in them
(`Error.message_invalidNumber_unambiguous`). Digits and points are quoted as they are, so the message for a
number of a source holds the very bytes of the source.
-/

namespace Sexp

namespace Quoted

/-! ### The end of quoted text -/

/-- What stands before the first quote that is not escaped, and what stands behind it. A backslash escapes
the character after it, be it a quote or another backslash. -/
def untilQuote? : List Char → Option (List Char × List Char)
  | [] => none
  | '"' :: rest => some ([], rest)
  | '\\' :: c :: rest => (untilQuote? rest).map (Prod.map ('\\' :: c :: ·) id)
  | c :: rest => (untilQuote? rest).map (Prod.map (c :: ·) id)

theorem untilQuote?_cons {c : Char} (hq : c ≠ '"') (hb : c ≠ '\\') (rest : List Char) :
    untilQuote? (c :: rest) = (untilQuote? rest).map (Prod.map (c :: ·) id) := by
  rw [untilQuote?]
  · exact hq
  · exact fun _ _ h => absurd h hb

theorem untilQuote?_append {xs : List Char} (h : ∀ c ∈ xs, c ≠ '"' ∧ c ≠ '\\') (rest : List Char) :
    untilQuote? (xs ++ rest) = (untilQuote? rest).map (Prod.map (xs ++ ·) id) := by
  induction xs with
  | nil =>
    rw [List.nil_append]
    cases untilQuote? rest <;> rfl
  | cons c xs ih =>
    obtain ⟨⟨hq, hb⟩, hxs⟩ := List.forall_mem_cons.1 h
    rw [List.cons_append, untilQuote?_cons hq hb, ih hxs, Option.map_map]
    rfl

/-! ### The forms of a character -/

theorem escapeAll_cons (c : Char) (text : List Char) : escapeAll (c :: text) = escape c ++ escapeAll text :=
  List.flatMap_cons

/-- A character stands for itself, or has a letter after a backslash, or is written by its number. -/
theorem escape_cases (c : Char) :
    (c ≠ '"' ∧ c ≠ '\\' ∧ escape c = [c]) ∨ (∃ e, shortEscape? c = some e ∧ escape c = ['\\', e]) ∨
      escape c = escapeByCode c := by
  by_cases hplain : isPlain c = true
  · have hne : c ≠ '"' ∧ c ≠ '\\' := by
      simp only [isPlain, Bool.and_eq_true, bne_iff_ne] at hplain
      exact hplain.1
    exact .inl ⟨hne.1, hne.2, escape_of_isPlain hplain⟩
  · rw [escape, if_neg hplain]
    cases shortEscape? c with
    | some e => exact .inr (.inl ⟨e, rfl, rfl⟩)
    | none => exact .inr (.inr rfl)

theorem isPlain_of_isNumeric {c : Char} (h : c.isDigit = true ∨ c = '.') : isPlain c = true := by
  have hcode : 0x2E ≤ c.toNat ∧ c.toNat ≤ 0x39 := by
    rcases h with h | rfl
    · have := isDigit_iff_toNat.1 h
      omega
    · decide
  have hquote : c ≠ '"' := Decimal.ne_of_numeric h rfl (by decide)
  have hbackslash : c ≠ '\\' := Decimal.ne_of_numeric h rfl (by decide)
  have hprinted : isPrinted c = true := by
    rw [isPrinted, if_pos (by omega)]
    simp
    omega
  simp [isPlain, hquote, hbackslash, hprinted]

theorem exists_digitChar_of_mem {n : Nat} {c : Char} (h : c ∈ Nat.toDigits 16 n) :
    ∃ k < 16, c = Nat.digitChar k := by
  induction n using Nat.strongRecOn with
  | ind n ih =>
    by_cases hlt : n < 16
    · rw [Nat.toDigits_of_lt_base hlt] at h
      exact ⟨n, hlt, List.mem_singleton.1 h⟩
    · rw [Nat.toDigits_of_base_le (by decide) (by omega)] at h
      rcases List.mem_append.1 h with h | h
      · exact ih (n / 16) (by omega) h
      · exact ⟨n % 16, Nat.mod_lt n (by decide), List.mem_singleton.1 h⟩

theorem untilQuote?_escape (c : Char) (rest : List Char) :
    untilQuote? (escape c ++ rest) = (untilQuote? rest).map (Prod.map (escape c ++ ·) id) := by
  rcases escape_cases c with ⟨hq, hb, hc⟩ | ⟨e, _, hc⟩ | hc
  · rw [hc]
    exact untilQuote?_cons hq hb rest
  · rw [hc]
    rfl
  · -- Behind the backslash and its letter stand a brace, digits and a brace.
    have hcode : ∀ d ∈ '\x7b' :: (Nat.toDigits 16 c.toNat ++ ['\x7d']), d ≠ '"' ∧ d ≠ '\\' := by
      refine List.forall_mem_cons.2 ⟨by decide, List.forall_mem_append.2 ⟨fun d hd => ?_, ?_⟩⟩
      · obtain ⟨k, _, rfl⟩ := exists_digitChar_of_mem hd
        exact ⟨Nat.digitChar_ne _ rfl, Nat.digitChar_ne _ rfl⟩
      · exact List.forall_mem_singleton.2 (by decide)
    have hrest := untilQuote?_append hcode rest
    rw [hc, escapeByCode]
    show (untilQuote? ('\x7b' :: (Nat.toDigits 16 c.toNat ++ ['\x7d']) ++ rest)).map _ = _
    rw [hrest, Option.map_map]
    rfl

theorem untilQuote?_escapeAll (text rest : List Char) :
    untilQuote? (escapeAll text ++ '"' :: rest) = some (escapeAll text, rest) := by
  induction text with
  | nil => rfl
  | cons c text ih =>
    rw [escapeAll_cons, List.append_assoc, untilQuote?_escape, ih]
    rfl

/-! ### Reading quoted text -/

/-- The character that a letter after a backslash stands for. -/
def unescape? : Char → Option Char
  | '"' => some '"'
  | '\\' => some '\\'
  | 'n' => some '\n'
  | 'r' => some '\r'
  | 't' => some '\t'
  | '0' => some '\x00'
  | _ => none

/-- The character with this code point, if there is one. -/
def charOf? (code : Nat) : Option Char := if code.isValidChar then some (Char.ofNat code) else none

/-- An escape that is begun and not finished. -/
inductive Begun
  | backslash
  /-- A backslash and `u`. -/
  | number
  /-- A backslash, `u`, a brace, and digits that make up `value` so far. -/
  | digits (value : Nat)

/-- The text that is written like this, after the escape that is begun. -/
def decodeFrom? : Option Begun → List Char → Option (List Char)
  | none, [] => some []
  | some _, [] => none
  | none, c :: cs =>
    if c = '\\' then decodeFrom? (some .backslash) cs else (decodeFrom? none cs).map (c :: ·)
  | some .backslash, c :: cs =>
    if c = 'u' then decodeFrom? (some .number) cs
    else (unescape? c).bind fun d => (decodeFrom? none cs).map (d :: ·)
  | some .number, c :: cs => if c = '\x7b' then decodeFrom? (some (.digits 0)) cs else none
  | some (.digits n), c :: cs =>
    if c = '\x7d' then (charOf? n).bind fun d => (decodeFrom? none cs).map (d :: ·)
    else (Json.hexValue? c).bind fun d => decodeFrom? (some (.digits (n * 16 + d))) cs

/-- The text that is written like this between quotes. -/
def decode? (inside : List Char) : Option (List Char) := decodeFrom? none inside

theorem unescape?_of_shortEscape? {c e : Char} (h : shortEscape? c = some e) :
    unescape? e = some c ∧ e ≠ 'u' := by
  unfold shortEscape? at h
  split at h <;> cases h <;> decide

theorem charOf?_toNat (c : Char) : charOf? c.toNat = some c := by
  have hvalid : c.toNat.isValidChar := c.valid
  rw [charOf?, if_pos hvalid, Char.ofNat_toNat]

theorem decodeFrom?_digit (n : Nat) {k : Nat} (hk : k < 16) (cs : List Char) :
    decodeFrom? (some (.digits n)) (Nat.digitChar k :: cs) =
      decodeFrom? (some (.digits (n * 16 + k))) cs := by
  rw [decodeFrom?, if_neg (Nat.digitChar_ne _ rfl), Json.hexValue?_digitChar hk]
  rfl

theorem decodeFrom?_toDigits (n : Nat) (cs : List Char) :
    decodeFrom? (some (.digits 0)) (Nat.toDigits 16 n ++ cs) = decodeFrom? (some (.digits n)) cs := by
  -- The last digit is read after the number that the others make up.
  induction n using Nat.strongRecOn generalizing cs with
  | ind n ih =>
    by_cases hlt : n < 16
    · rw [Nat.toDigits_of_lt_base hlt, List.singleton_append, decodeFrom?_digit 0 hlt, Nat.zero_mul,
        Nat.zero_add]
    · have hn : n / 16 * 16 + n % 16 = n := Nat.div_add_mod' n 16
      rw [Nat.toDigits_of_base_le (by decide) (by omega), List.append_assoc, ih (n / 16) (by omega),
        List.singleton_append, decodeFrom?_digit _ (Nat.mod_lt n (by decide)), hn]

theorem decodeFrom?_escape (c : Char) (rest : List Char) :
    decodeFrom? none (escape c ++ rest) = (decodeFrom? none rest).map (c :: ·) := by
  rcases escape_cases c with ⟨_, hb, hc⟩ | ⟨e, he, hc⟩ | hc
  · rw [hc]
    exact if_neg hb
  · obtain ⟨hchar, hne⟩ := unescape?_of_shortEscape? he
    rw [hc]
    show decodeFrom? (some .backslash) (e :: rest) = _
    rw [decodeFrom?, if_neg hne, hchar]
    rfl
  · rw [hc, escapeByCode]
    show decodeFrom? (some (.digits 0)) (Nat.toDigits 16 c.toNat ++ ['\x7d'] ++ rest) = _
    rw [List.append_assoc, decodeFrom?_toDigits, List.singleton_append, decodeFrom?, if_pos rfl,
      charOf?_toNat]
    rfl

theorem decode?_escapeAll (text : List Char) : decode? (escapeAll text) = some text := by
  induction text with
  | nil => rfl
  | cons c text ih =>
    rw [decode?] at ih
    rw [decode?, escapeAll_cons, decodeFrom?_escape, ih]
    rfl

end Quoted

namespace Error

/-! ### Messages -/

theorem toList_message_invalidNumber (lexeme reason : String) (p : Position) :
    (invalidNumber lexeme reason p).message.toList =
      "parsing number \"".toList ++
        (Quoted.escapeAll lexeme.toList ++ '"' :: (": ".toList ++ reason.toList)) := by
  show ("parsing number " ++ String.ofList (Quoted.encode lexeme.toList) ++ ": " ++ reason).toList = _
  simp [Quoted.encode]

/-- Digits and points are quoted as they are. -/
theorem message_of_isNumeric {lexeme : String} (h : Decimal.IsNumeric lexeme.toList) (reason : String)
    (p : Position) :
    (invalidNumber lexeme reason p).message = "parsing number \"" ++ lexeme ++ "\": " ++ reason := by
  have hescape := Quoted.escapeAll_of_isPlain fun c hc => Quoted.isPlain_of_isNumeric (h c hc)
  have hclose : "\": ".toList = '"' :: ": ".toList := by decide
  rw [← String.toList_inj, toList_message_invalidNumber, hescape]
  simp only [String.toList_append, hclose, List.append_assoc, List.cons_append]

/-- The quoted lexeme in a message ends at the first quote that is not escaped and is read back as the
lexeme, and the reason is what follows. So two messages are the same only for the same lexeme and reason,
whatever is in them. A lexeme that is reported for a source stands there, and in the message, as it is. -/
theorem message_invalidNumber_unambiguous :
    (∀ (lexeme reason : String) (p : Position), ∃ inside,
      (invalidNumber lexeme reason p).message.toList =
        "parsing number \"".toList ++ (inside ++ '"' :: (": ".toList ++ reason.toList)) ∧
      Quoted.untilQuote? (inside ++ '"' :: (": ".toList ++ reason.toList)) =
        some (inside, ": ".toList ++ reason.toList) ∧
      Quoted.decode? inside = some lexeme.toList) ∧
    (∀ (x y r s : String) (p q : Position),
      (invalidNumber x r p).message = (invalidNumber y s q).message ↔ x = y ∧ r = s) ∧
    ∀ (source : List UInt8) (rs : List Request) (lexeme reason : String) (p : Position),
      ((Cursor.ofSource source).afterRequests rs).read.1 = .error (.invalidNumber lexeme reason p) →
      ∃ n rest, source.drop n = Utf8.encode lexeme.toList ++ rest ∧
        Lexeme.Valid ⟨.number, Utf8.encode lexeme.toList⟩ ∧
        Lexeme.EndsBefore ⟨.number, Utf8.encode lexeme.toList⟩ rest ∧ p = .at source n ∧
        (invalidNumber lexeme reason p).message =
          "parsing number \"" ++ lexeme ++ "\": " ++ reason := by
  have hends (lexeme reason : String) :=
    Quoted.untilQuote?_escapeAll lexeme.toList (": ".toList ++ reason.toList)
  refine ⟨fun lexeme reason p => ?_, fun x y r s p q => ⟨fun h => ?_, ?_⟩,
    fun source rs lexeme reason p hread => ?_⟩
  · exact ⟨_, toList_message_invalidNumber lexeme reason p, hends lexeme reason,
      Quoted.decode?_escapeAll lexeme.toList⟩
  · -- The messages end their quoted lexemes in the same place.
    have hchars := congrArg String.toList h
    rw [toList_message_invalidNumber, toList_message_invalidNumber] at hchars
    have hsplit := congrArg Quoted.untilQuote? (List.append_cancel_left hchars)
    rw [hends x r, hends y s] at hsplit
    obtain ⟨hinside, hafter⟩ := Prod.mk.inj (Option.some.inj hsplit)
    have hdecode := congrArg Quoted.decode? hinside
    rw [Quoted.decode?_escapeAll, Quoted.decode?_escapeAll] at hdecode
    exact ⟨String.toList_inj.1 (Option.some.inj hdecode),
      String.toList_inj.1 (List.append_cancel_left hafter)⟩
  · rintro ⟨rfl, rfl⟩
    rfl
  · have hon := (Cursor.isOn_ofSource source).afterRequests rs
    obtain ⟨m, hm, hk, rfl, rfl, _⟩ := hon.exists_lexed_of_read hread
    obtain ⟨hnum, _, _⟩ := hm.written.number hk
    have hplace := hm.position
    obtain ⟨⟨kind, bytes⟩, rest, hdrop, hv, he, ht⟩ := hm
    obtain rfl : kind = .number := by
      rw [← hk, ht]
      rfl
    have hbytes : Utf8.encode m.token.lexeme.toList = bytes := by
      rw [ht]
      exact hv.encode_text_number
    rw [hbytes]
    exact ⟨m.offset, rest, hdrop, hv, he, hplace, message_of_isNumeric hnum _ _⟩

/-- A lexeme that looks like the end of a quoted one and a reason is told from these; and a number of a
source is quoted as it is. -/
theorem quote_in_lexeme_unambiguous :
    (invalidNumber "1\": a" "b" ⟨1, 1⟩).message ≠ (invalidNumber "1" "a\": b" ⟨1, 1⟩).message ∧
      (invalidNumber "1\": a" "b" ⟨1, 1⟩).message = "parsing number \"1\\\": a\": b" ∧
      read (Utf8.encode "(1..2".toList) =
        .error (.invalidNumber "1..2" "invalid digit found in string" ⟨1, 2⟩) ∧
      (invalidNumber "1..2" "invalid digit found in string" ⟨1, 2⟩).message =
        "parsing number \"1..2\": invalid digit found in string" := by
  have hread : read (Utf8.encode "(1..2".toList) =
      .error (.invalidNumber "1..2" "invalid digit found in string" ⟨1, 2⟩) := by
    with_unfolding_all rfl
  obtain ⟨_, _, _, _, _, _, hmessage⟩ :=
    message_invalidNumber_unambiguous.2.2 _ [] _ _ _ hread
  refine ⟨fun h => ?_, by decide, hread, hmessage⟩
  obtain ⟨hlexeme, _⟩ := (message_invalidNumber_unambiguous.2.1 _ _ _ _ _ _).1 h
  exact absurd hlexeme (by decide)

end Error
end Sexp
