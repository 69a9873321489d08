import Sexp.Error
import Sexp.Lexeme
import Sexp.Text.Utf8

/-!
# A cursor on a source

A cursor holds what is left of a source and where that stands in it. `scan` moves it past the next
lexeme; it never moves back. Past the last lexeme every `scan` answers the end of the source again,
and past a string that is never closed the cursor stands at the end. `rest_scan_lt` says that a step
which does not answer the end leaves less than it found, so every loop over steps comes to an end.
-/

namespace Sexp

/-- A place in a source together with what follows it. -/
structure Cursor where
  /-- The bytes still to be read. -/
  rest : List UInt8
  /-- The place of the first of them. -/
  position : Position
  /-- How many bytes have been read. -/
  offset : Nat
  /-- How many bytes stand before the lexeme that was looked for last. -/
  lexemeStart : Nat
  deriving DecidableEq

namespace Cursor

def ofSource (source : List UInt8) : Cursor := ⟨source, .start, 0, 0⟩

def advance (c : Cursor) (n : Nat) : Cursor :=
  { c with
    rest := c.rest.drop n
    position := c.position.after (c.rest.take n)
    offset := c.offset + (c.rest.take n).length }

@[simp] theorem rest_advance (c : Cursor) (n : Nat) : (c.advance n).rest = c.rest.drop n := rfl

/-- The cursor past the blanks it stands at, where a lexeme begins. -/
def skipBlanks (c : Cursor) : Cursor :=
  let c := c.advance (c.rest.takeWhile isBlank).length
  { c with lexemeStart := c.offset }

def toEnd (c : Cursor) : Cursor := c.advance c.rest.length

theorem length_rest_skipBlanks_le (c : Cursor) : c.skipBlanks.rest.length ≤ c.rest.length := by
  simp [skipBlanks]

/-- The next token, or the fault that stands in its place, and the cursor past it. -/
def scan (c : Cursor) : Except Error Token × Cursor :=
  let c := c.skipBlanks
  match cut c.rest with
  | .atEnd => (.ok ⟨.eof, "", c.position⟩, c)
  | .unclosed => (.error (.unterminatedString c.position), c.toEnd)
  | .lexeme kind bytes => (.ok ⟨kind, Utf8.text bytes, c.position⟩, c.advance bytes.length)

/-- A step that answers a token other than the end leaves less than it found. -/
theorem rest_scan_lt {c next : Cursor} {t : Token} (h : c.scan = (.ok t, next))
    (ht : t.isEof = false) : next.rest.length < c.rest.length := by
  have hle := length_rest_skipBlanks_le c
  simp only [scan] at h
  split at h
  · cases h; simp [Token.isEof] at ht
  · cases h
  · rename_i kind bytes hcut
    cases h
    obtain ⟨hne, r, hr⟩ := cut_append hcut
    have hpos : 0 < bytes.length := List.length_pos_iff.2 hne
    have hlen : c.skipBlanks.rest.length = bytes.length + r.length := by rw [hr, List.length_append]
    simp only [rest_advance, List.length_drop]
    omega

/-- All tokens from here on, the end of the source included, or the first fault; and the cursor past
the last of them. -/
def scanAll (c : Cursor) : Except Error (List Token) × Cursor :=
  match h : c.scan with
  | (.error e, next) => (.error e, next)
  | (.ok t, next) =>
    if ht : t.isEof then (.ok [t], next)
    else
      have : next.rest.length < c.rest.length := rest_scan_lt h (by simpa using ht)
      match next.scanAll with
      | (.ok ts, last) => (.ok (t :: ts), last)
      | (.error e, last) => (.error e, last)
termination_by c.rest.length

end Cursor
end Sexp
