/-!
# JSON strings as they are written

Between its quotes a string is a row of signs: characters that stand for themselves, a backslash with
a letter, and a backslash with the number of a UTF-16 unit. `RawString.ofString` writes a text;
`RawString.decode?` reads one. It fails on half a character, which may be written but stands for no
text.
-/

namespace Sexp.Json

inductive Sign
  | plain (c : Char)
  | escape (letter : Char)
  /-- A backslash, `u`, and a UTF-16 unit as four hexadecimal digits. -/
  | code (unit : UInt16)
  deriving DecidableEq

/-- A string as it is written, without its quotes. -/
structure RawString where
  signs : List Sign
  deriving DecidableEq, Inhabited

/-! ### Writing a text -/

/-- The letter that stands for a character after a backslash, where one is needed. -/
def escapeLetter? : Char → Option Char
  | '"' => some '"'
  | '\\' => some '\\'
  | '\x08' => some 'b'
  | '\x0c' => some 'f'
  | '\n' => some 'n'
  | '\r' => some 'r'
  | '\t' => some 't'
  | _ => none

/-- The sign for a character: a letter if there is one, a number for the other controls, and the
character itself for all else. -/
def Sign.ofChar (c : Char) : Sign :=
  match escapeLetter? c with
  | some letter => .escape letter
  | none => if c.toNat < 0x20 then .code (UInt16.ofNat c.toNat) else .plain c

def RawString.ofString (text : String) : RawString := ⟨text.toList.map Sign.ofChar⟩

/-! ### Reading a text -/

/-- The character that a letter stands for after a backslash. -/
def unescape? : Char → Option Char
  | '"' => some '"'
  | '\\' => some '\\'
  | '/' => some '/'
  | 'b' => some '\x08'
  | 'f' => some '\x0c'
  | 'n' => some '\n'
  | 'r' => some '\r'
  | 't' => some '\t'
  | _ => none

theorem unescape?_of_escapeLetter? {c letter : Char} (h : escapeLetter? c = some letter) :
    unescape? letter = some c := by
  unfold escapeLetter? at h
  split at h
  all_goals cases h
  all_goals rfl

/-- The first half of a character of two units. -/
def isHigh (u : UInt16) : Bool := 0xD800 ≤ u && u ≤ 0xDBFF

def isLow (u : UInt16) : Bool := 0xDC00 ≤ u && u ≤ 0xDFFF

/-- The character that two halves make up. -/
def joinHalves (high low : UInt16) : Char :=
  Char.ofNat (0x10000 + (high.toNat - 0xD800) * 0x400 + (low.toNat - 0xDC00))

/-- The characters that signs stand for. No half of a character may stand alone. -/
def decodeSigns? : List Sign → Option (List Char)
  | [] => some []
  | .plain c :: signs => (decodeSigns? signs).map (c :: ·)
  | .escape letter :: signs => do
    let c ← unescape? letter
    let cs ← decodeSigns? signs
    return c :: cs
  | .code u :: .code v :: signs =>
    if isHigh u then
      if isLow v then (decodeSigns? signs).map (joinHalves u v :: ·) else none
    else if isLow u then none
    else (decodeSigns? (.code v :: signs)).map (Char.ofNat u.toNat :: ·)
  | .code u :: signs =>
    if isHigh u || isLow u then none
    else (decodeSigns? signs).map (Char.ofNat u.toNat :: ·)

def RawString.decode? (s : RawString) : Option String := (decodeSigns? s.signs).map String.ofList

def Sign.plain? : Sign → Option Char
  | .plain c => some c
  | _ => none

/-- The text, if it is written without a backslash. -/
def RawString.verbatim? (s : RawString) : Option String :=
  (s.signs.mapM Sign.plain?).map String.ofList

end Sexp.Json
