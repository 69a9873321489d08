import Sexp.Token

/-!
# Lexemes

How a source is cut. Blanks separate lexemes and belong to none. A parenthesis is a lexeme of its
own. A quote begins a string, which the very next quote ends, whatever stands between. A digit or a
point begins a number, which goes on as long as digits and points follow. Any other byte begins a
symbol, which goes on up to a blank or a parenthesis, so a symbol may hold quotes and digits.
`cut_append` says that a lexeme is a non-empty beginning of what was cut.
-/

namespace Sexp

/-! ### Bytes -/

def openParen : UInt8 := 0x28

def closeParen : UInt8 := 0x29

def quote : UInt8 := 0x22

def point : UInt8 := 0x2E

/-- Space, tab and newline. -/
def isBlank (b : UInt8) : Bool := b == 0x20 || b == 0x09 || b == newline

/-- A byte that ends a symbol. -/
def isDelimiter (b : UInt8) : Bool := isBlank b || b == openParen || b == closeParen

def isDigit (b : UInt8) : Bool := 0x30 ≤ b && b ≤ 0x39

/-- A byte that numbers consist of. -/
def isNumeric (b : UInt8) : Bool := isDigit b || b == point

/-! ### The first lexeme -/

/-- What stands at the beginning of a source whose leading blanks are gone. -/
inductive Cut
  | atEnd
  | unclosed
  | lexeme (kind : TokenKind) (bytes : List UInt8)
  deriving DecidableEq

/-- The first lexeme of `source`, which does not begin with a blank. -/
def cut : List UInt8 → Cut
  | [] => .atEnd
  | b :: rest =>
    if b = openParen then .lexeme .leftParen [b]
    else if b = closeParen then .lexeme .rightParen [b]
    else if b = quote then
      if quote ∈ rest then .lexeme .string (b :: (rest.takeWhile (· != quote) ++ [quote]))
      else .unclosed
    else if isNumeric b then .lexeme .number (b :: rest.takeWhile isNumeric)
    else .lexeme .symbol (b :: rest.takeWhile (!isDelimiter ·))

theorem takeWhile_ne_append_of_mem {q : UInt8} {bytes : List UInt8} (h : q ∈ bytes) :
    ∃ rest, bytes = bytes.takeWhile (· != q) ++ q :: rest := by
  induction bytes with
  | nil => simp at h
  | cons b bytes ih =>
    by_cases hb : b = q
    · exact ⟨bytes, by simp [hb]⟩
    · obtain ⟨rest, hr⟩ := ih ((List.mem_cons.1 h).resolve_left (Ne.symm hb))
      exact ⟨rest, by rw [List.takeWhile_cons_of_pos (by simpa using hb), List.cons_append, ← hr]⟩

theorem cut_append {source : List UInt8} {kind : TokenKind} {bytes : List UInt8}
    (h : cut source = .lexeme kind bytes) : bytes ≠ [] ∧ ∃ rest, source = bytes ++ rest := by
  cases source with
  | nil => simp [cut] at h
  | cons b rest =>
    rw [cut] at h
    split at h
    · cases h; exact ⟨by simp, rest, rfl⟩
    split at h
    · cases h; exact ⟨by simp, rest, rfl⟩
    split at h
    · split at h
      · rename_i hq
        cases h
        obtain ⟨r, hr⟩ := takeWhile_ne_append_of_mem hq
        exact ⟨by simp, r, by rw [List.cons_append, List.append_assoc]; exact congrArg (b :: ·) hr⟩
      · cases h
    split at h
    · cases h
      exact ⟨by simp, rest.dropWhile isNumeric, by
        rw [List.cons_append, List.takeWhile_append_dropWhile]⟩
    · cases h
      exact ⟨by simp, rest.dropWhile (!isDelimiter ·), by
        rw [List.cons_append, List.takeWhile_append_dropWhile]⟩

end Sexp
