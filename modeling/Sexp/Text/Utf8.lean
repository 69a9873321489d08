/-!
# UTF-8

`encode` writes characters as bytes. `decode` reads any bytes at all: a character that is begun and
cannot be finished is replaced by one U+FFFD, whatever number of its bytes stand there, and a byte
that begins no character is replaced by one U+FFFD of its own. The decoder is a machine whose state
is the unfinished character; `step_ascii` says that a byte below 128 always ends what was begun and
stands for itself, so no such byte is ever swallowed by a broken character before it.
-/

namespace Sexp.Utf8

/-! ### Writing -/

/-- The bytes of one character: one to four, the first of them telling how many follow. -/
def encodeChar (c : Char) : List UInt8 :=
  let n := c.toNat
  if n < 0x80 then [UInt8.ofNat n]
  else if n < 0x800 then [UInt8.ofNat (0xC0 + n / 64), UInt8.ofNat (0x80 + n % 64)]
  else if n < 0x10000 then
    [UInt8.ofNat (0xE0 + n / 4096), UInt8.ofNat (0x80 + n / 64 % 64), UInt8.ofNat (0x80 + n % 64)]
  else
    [UInt8.ofNat (0xF0 + n / 262144), UInt8.ofNat (0x80 + n / 4096 % 64),
      UInt8.ofNat (0x80 + n / 64 % 64), UInt8.ofNat (0x80 + n % 64)]

def encode (text : List Char) : List UInt8 := text.flatMap encodeChar

@[simp] theorem encode_nil : encode [] = [] := rfl

@[simp] theorem encode_cons (c : Char) (text : List Char) :
    encode (c :: text) = encodeChar c ++ encode text := rfl

@[simp] theorem encode_append (xs ys : List Char) : encode (xs ++ ys) = encode xs ++ encode ys :=
  List.flatMap_append

/-! ### Reading -/

/-- What stands for bytes that are no character. -/
def replacement : Char := '\uFFFD'

/-- A character that is begun but not finished: the value of the bytes read so far, how many bytes
are missing after the next one, and the bounds of the next one. -/
structure Pending where
  value : Nat
  missing : Nat
  low : UInt8
  high : UInt8
  deriving DecidableEq

def isTail (b : UInt8) : Bool := 0x80 ≤ b && b ≤ 0xBF

/-- What a byte from 128 on begins. The bounds of the second byte shut out spellings that are longer
than need be, surrogates, and values past the last character. -/
def lead? (b : UInt8) : Option Pending :=
  if 0xC2 ≤ b ∧ b ≤ 0xDF then some ⟨b.toNat - 0xC0, 0, 0x80, 0xBF⟩
  else if b = 0xE0 then some ⟨0, 1, 0xA0, 0xBF⟩
  else if b = 0xED then some ⟨0xD, 1, 0x80, 0x9F⟩
  else if 0xE1 ≤ b ∧ b ≤ 0xEF then some ⟨b.toNat - 0xE0, 1, 0x80, 0xBF⟩
  else if b = 0xF0 then some ⟨0, 2, 0x90, 0xBF⟩
  else if 0xF1 ≤ b ∧ b ≤ 0xF3 then some ⟨b.toNat - 0xF0, 2, 0x80, 0xBF⟩
  else if b = 0xF4 then some ⟨4, 2, 0x80, 0x8F⟩
  else none

/-- A byte where no character is unfinished: the characters it completes and what it leaves. -/
def first (b : UInt8) : List Char × Option Pending :=
  if b < 0x80 then ([Char.ofNat b.toNat], none)
  else match lead? b with
    | some p => ([], some p)
    | none => ([replacement], none)

def Pending.accepts (p : Pending) (b : UInt8) : Bool := isTail b && p.low ≤ b && b ≤ p.high

/-- The character with its next byte `b`. -/
def Pending.extend (p : Pending) (b : UInt8) : List Char × Option Pending :=
  let value := p.value * 64 + (b.toNat - 0x80)
  match p.missing with
  | 0 => ([Char.ofNat value], none)
  | missing + 1 => ([], some ⟨value, missing, 0x80, 0xBF⟩)

/-- The characters that are written when the input ends here. -/
def finish : Option Pending → List Char
  | none => []
  | some _ => [replacement]

/-- One byte: the characters it completes and what it leaves unfinished. A byte that cannot continue
the unfinished character gives it up and begins anew. -/
def step : Option Pending → UInt8 → List Char × Option Pending
  | none, b => first b
  | some p, b =>
    if p.accepts b then p.extend b else (replacement :: (first b).1, (first b).2)

/-- The text of `bytes`, after the unfinished character `s`. -/
def decodeFrom (s : Option Pending) : List UInt8 → List Char
  | [] => finish s
  | b :: bytes => (step s b).1 ++ decodeFrom (step s b).2 bytes

/-- The text of `bytes`, which need not be well-formed. -/
def decode (bytes : List UInt8) : List Char := decodeFrom none bytes

@[simp] theorem decode_nil : decode [] = [] := rfl

theorem step_ascii (s : Option Pending) {b : UInt8} (h : b < 0x80) :
    step s b = (finish s ++ [Char.ofNat b.toNat], none) := by
  cases s with
  | none => simp [step, first, finish, h]
  | some p =>
    have hb : isTail b = false := by
      have : ¬ (0x80 : UInt8) ≤ b := UInt8.not_le.2 h
      simp [isTail, this]
    simp [step, first, finish, Pending.accepts, hb, h]

def text (bytes : List UInt8) : String := String.ofList (decode bytes)

end Sexp.Utf8
