import Sexp.Text.GraphemeExtend
import Sexp.Text.Unprintable

/-!
# Quoted text

A text between two double quotes, in which a quote, a backslash and whatever has no shape of its own
is written as an escape, so that the quoted form ends at its first quote that no backslash precedes.
A character that needs no escape stands for itself (`escape_of_isPlain`); in ASCII those are the
blank and the printed characters other than the quote and the backslash.
-/

namespace Sexp.Quoted

/-- The halfwidth marks of voicing, which extend the character before them but have a place and a
shape of their own. -/
def isHalfwidthMark (c : Char) : Bool := 0xFF9E ≤ c.toNat && c.toNat ≤ 0xFF9F

/-- The Hangul fillers, letters that stand for a missing one and have no shape. -/
def isFiller (c : Char) : Bool := [0x115F, 0x1160, 0x3164, 0xFFA0].contains c.toNat

/-- Whether a character has a shape of its own on paper. -/
def isPrinted (c : Char) : Bool :=
  if c.toNat < 0x80 then 0x20 ≤ c.toNat && c.toNat < 0x7F
  else
    (!GraphemeExtend.contains c || isHalfwidthMark c) && !Unprintable.contains c && !isFiller c

def isPlain (c : Char) : Bool := c != '"' && c != '\\' && isPrinted c

/-- The short escapes: the character after the backslash. -/
def shortEscape? : Char → Option Char
  | '"' => some '"'
  | '\\' => some '\\'
  | '\n' => some 'n'
  | '\r' => some 'r'
  | '\t' => some 't'
  | '\x00' => some '0'
  | _ => none

/-- An escape by number: the code point in hexadecimal between braces, without leading zeros. -/
def escapeByCode (c : Char) : List Char :=
  '\\' :: 'u' :: '\x7b' :: (Nat.toDigits 16 c.toNat ++ ['\x7d'])

/-- One character inside the quotes: itself, else its short escape, else an escape by number. -/
def escape (c : Char) : List Char :=
  if isPlain c then [c]
  else match shortEscape? c with
    | some e => ['\\', e]
    | none => escapeByCode c

theorem escape_of_isPlain {c : Char} (h : isPlain c = true) : escape c = [c] := if_pos h

def escapeAll (text : List Char) : List Char := text.flatMap escape

theorem escapeAll_of_isPlain {text : List Char} (h : ∀ c ∈ text, isPlain c = true) :
    escapeAll text = text := by
  induction text with
  | nil => rfl
  | cons c text ih =>
    rw [escapeAll, List.flatMap_cons, escape_of_isPlain (h c List.mem_cons_self)]
    exact congrArg (c :: ·) (ih fun d hd => h d (List.mem_cons_of_mem c hd))

def encode (text : List Char) : List Char := '"' :: (escapeAll text ++ ['"'])

end Sexp.Quoted
