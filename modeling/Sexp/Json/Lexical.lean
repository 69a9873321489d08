import Sexp.Json.Text

/-!
# The parts of a JSON text

`Json.parts?` cuts a text into its parts. Between them blanks, tabs, newlines and carriage returns
may stand. A number has no needless zero before its digits, and digits on both sides of its point. A
string holds no raw control, and a backslash only before a letter that stands for something or before
`u` and four hexadecimal digits.
-/

namespace Sexp.Json

def isSpace (c : Char) : Bool := c == ' ' || c == '\n' || c == '\t' || c == '\r'

/-! ### Numbers -/

def digit? (c : Char) : Option (Fin 10) :=
  if h : 48 ≤ c.toNat ∧ c.toNat < 58 then some ⟨c.toNat - 48, by omega⟩ else none

/-- The digits that a text begins with, and what follows them. -/
def digitRun : List Char → List (Fin 10) × List Char
  | [] => ([], [])
  | c :: cs =>
    match digit? c with
    | some d => (d :: (digitRun cs).1, (digitRun cs).2)
    | none => ([], c :: cs)

theorem length_digitRun (cs : List Char) : (digitRun cs).2.length ≤ cs.length := by
  induction cs with
  | nil => exact Nat.le_refl _
  | cons c cs ih =>
    rw [digitRun]
    split
    · exact Nat.le_succ_of_le ih
    · exact Nat.le_refl _

def ofDigits (ds : List (Fin 10)) : Nat := ds.foldl (fun n (d : Fin 10) => n * 10 + d.val) 0

/-- The digits before the point: one at least, and no zero before others. -/
def readWhole (cs : List Char) : Option (Nat × List Char) :=
  match digitRun cs with
  | ([], _) => none
  | (d :: ds, rest) => if d = 0 ∧ ds ≠ [] then none else some (ofDigits (d :: ds), rest)

def readFraction : List Char → Option (List (Fin 10) × List Char)
  | '.' :: cs =>
    match digitRun cs with
    | ([], _) => none
    | (ds, rest) => some (ds, rest)
  | cs => some ([], cs)

/-- The digits of an exponent, below zero if `negative`. -/
def readExponentDigits (negative : Bool) (cs : List Char) : Option (Option Int × List Char) :=
  match digitRun cs with
  | ([], _) => none
  | (ds, rest) => some (some (if negative then -(ofDigits ds : Int) else ofDigits ds), rest)

/-- What follows the mark of an exponent: a sign or none, then digits. -/
def readSignedExponent : List Char → Option (Option Int × List Char)
  | '-' :: cs => readExponentDigits true cs
  | '+' :: cs => readExponentDigits false cs
  | cs => readExponentDigits false cs

def readExponent : List Char → Option (Option Int × List Char)
  | 'e' :: cs => readSignedExponent cs
  | 'E' :: cs => readSignedExponent cs
  | cs => some (none, cs)

def readUnsigned (negative : Bool) (cs : List Char) : Option (Part × List Char) := do
  let (whole, cs) ← readWhole cs
  let (fraction, cs) ← readFraction cs
  let (exponent, cs) ← readExponent cs
  return (.number ⟨negative, whole, fraction, exponent⟩, cs)

theorem length_readWhole {cs rest : List Char} {n : Nat} (h : readWhole cs = some (n, rest)) :
    rest.length < cs.length := by
  cases cs with
  | nil => simp [readWhole, digitRun] at h
  | cons c cs =>
    have hle := length_digitRun cs
    rw [readWhole, digitRun] at h
    cases hd : digit? c with
    | none => simp [hd] at h
    | some d =>
      simp only [hd] at h
      split at h
      · cases h
      · cases h; exact Nat.lt_succ_of_le hle

theorem length_readFraction {cs rest : List Char} {ds : List (Fin 10)}
    (h : readFraction cs = some (ds, rest)) : rest.length ≤ cs.length := by
  unfold readFraction at h
  split at h
  · rename_i cs
    have hle := length_digitRun cs
    split at h
    · cases h
    · rename_i heq
      cases h
      rw [heq] at hle
      exact Nat.le_succ_of_le hle
  · cases h; exact Nat.le_refl _

theorem length_readExponentDigits {negative : Bool} {cs rest : List Char} {x : Option Int}
    (h : readExponentDigits negative cs = some (x, rest)) : rest.length ≤ cs.length := by
  have hle := length_digitRun cs
  unfold readExponentDigits at h
  split at h
  · cases h
  · rename_i heq
    cases h
    rwa [heq] at hle

theorem length_readSignedExponent {cs rest : List Char} {x : Option Int}
    (h : readSignedExponent cs = some (x, rest)) : rest.length ≤ cs.length := by
  unfold readSignedExponent at h
  split at h
  · exact Nat.le_succ_of_le (length_readExponentDigits h)
  · exact Nat.le_succ_of_le (length_readExponentDigits h)
  · exact length_readExponentDigits h

theorem length_readExponent {cs rest : List Char} {x : Option Int}
    (h : readExponent cs = some (x, rest)) : rest.length ≤ cs.length := by
  unfold readExponent at h
  split at h
  · exact Nat.le_succ_of_le (length_readSignedExponent h)
  · exact Nat.le_succ_of_le (length_readSignedExponent h)
  · cases h; exact Nat.le_refl _

theorem length_readUnsigned {negative : Bool} {cs rest : List Char} {p : Part}
    (h : readUnsigned negative cs = some (p, rest)) : rest.length < cs.length := by
  simp only [readUnsigned, Option.bind_eq_bind, Option.bind_eq_some_iff, Option.pure_def,
    Option.some.injEq, Prod.mk.injEq, Prod.exists] at h
  obtain ⟨_, _, hw, _, _, hf, _, _, hx, _, rfl⟩ := h
  exact Nat.lt_of_le_of_lt (length_readExponent hx)
    (Nat.lt_of_le_of_lt (length_readFraction hf) (length_readWhole hw))

/-! ### Strings -/

def hexValue? (c : Char) : Option Nat :=
  if '0' ≤ c ∧ c ≤ '9' then some (c.toNat - 48)
  else if 'a' ≤ c ∧ c ≤ 'f' then some (c.toNat - 87)
  else if 'A' ≤ c ∧ c ≤ 'F' then some (c.toNat - 55)
  else none

/-- The UTF-16 unit that four hexadecimal digits spell. -/
def hexUnit? (a b c d : Char) : Option UInt16 := do
  let w ← hexValue? a
  let x ← hexValue? b
  let y ← hexValue? c
  let z ← hexValue? d
  return UInt16.ofNat (((w * 16 + x) * 16 + y) * 16 + z)

/-- The signs of a string up to its closing quote, and what follows the quote. -/
def readSigns : List Char → Option (List Sign × List Char)
  | '"' :: rest => some ([], rest)
  | '\\' :: 'u' :: a :: b :: c :: d :: cs => do
    let u ← hexUnit? a b c d
    let (signs, rest) ← readSigns cs
    return (.code u :: signs, rest)
  | '\\' :: letter :: cs =>
    if (unescape? letter).isSome then do
      let (signs, rest) ← readSigns cs
      return (.escape letter :: signs, rest)
    else none
  | c :: cs =>
    if c.toNat < 0x20 then none
    else do
      let (signs, rest) ← readSigns cs
      return (.plain c :: signs, rest)
  | [] => none

theorem length_readSigns {cs rest : List Char} {signs : List Sign}
    (h : readSigns cs = some (signs, rest)) : rest.length ≤ cs.length := by
  fun_induction readSigns cs generalizing signs rest with
  | case1 => cases h; exact Nat.le_succ _
  | case2 a b c d cs ih =>
    simp only [Option.bind_eq_bind, Option.bind_eq_some_iff, Option.pure_def, Option.some.injEq,
      Prod.mk.injEq, Prod.exists] at h
    obtain ⟨_, _, _, _, hr, _, rfl⟩ := h
    have := ih hr
    simp only [List.length_cons]
    omega
  | case3 letter cs _ _ ih =>
    simp only [Option.bind_eq_bind, Option.bind_eq_some_iff, Option.pure_def, Option.some.injEq,
      Prod.mk.injEq, Prod.exists] at h
    obtain ⟨_, _, hr, _, rfl⟩ := h
    have := ih hr
    simp only [List.length_cons]
    omega
  | case4 => cases h
  | case5 => cases h
  | case6 c cs _ _ _ _ ih =>
    simp only [Option.bind_eq_bind, Option.bind_eq_some_iff, Option.pure_def, Option.some.injEq,
      Prod.mk.injEq, Prod.exists] at h
    obtain ⟨_, _, hr, _, rfl⟩ := h
    exact Nat.le_succ_of_le (ih hr)
  | case7 => cases h

def readString (cs : List Char) : Option (Part × List Char) := do
  let (signs, rest) ← readSigns cs
  return (.string ⟨signs⟩, rest)

theorem length_readString {cs rest : List Char} {p : Part} (h : readString cs = some (p, rest)) :
    rest.length ≤ cs.length := by
  simp only [readString, Option.bind_eq_bind, Option.bind_eq_some_iff, Option.pure_def,
    Option.some.injEq, Prod.mk.injEq, Prod.exists] at h
  obtain ⟨_, _, hs, _, rfl⟩ := h
  exact length_readSigns hs

/-! ### The whole text -/

/-- The part that a text begins with, and what follows it. -/
def readPart : List Char → Option (Part × List Char)
  | '[' :: cs => some (.openArray, cs)
  | ']' :: cs => some (.closeArray, cs)
  | '\x7b' :: cs => some (.openObject, cs)
  | '\x7d' :: cs => some (.closeObject, cs)
  | ',' :: cs => some (.comma, cs)
  | ':' :: cs => some (.colon, cs)
  | 'n' :: 'u' :: 'l' :: 'l' :: cs => some (.null, cs)
  | 't' :: 'r' :: 'u' :: 'e' :: cs => some (.bool true, cs)
  | 'f' :: 'a' :: 'l' :: 's' :: 'e' :: cs => some (.bool false, cs)
  | '"' :: cs => readString cs
  | '-' :: cs => readUnsigned true cs
  | cs => readUnsigned false cs

theorem length_readPart {cs rest : List Char} {p : Part} (h : readPart cs = some (p, rest)) :
    rest.length < cs.length := by
  unfold readPart at h
  split at h
  case h_10 => exact Nat.lt_succ_of_le (length_readString h)
  case h_11 => exact Nat.lt_succ_of_lt (length_readUnsigned h)
  case h_12 => exact length_readUnsigned h
  all_goals
    cases h
    simp only [List.length_cons]
    omega

/-- The parts of a text, if it consists of parts. -/
def parts? (cs : List Char) : Option (List Part) :=
  match hs : cs.dropWhile isSpace with
  | [] => some []
  | d :: ds =>
    match h : readPart (d :: ds) with
    | none => none
    | some (p, rest) =>
      have : rest.length < cs.length := by
        have h₁ := length_readPart h
        have h₂ := congrArg List.length (List.takeWhile_append_dropWhile (p := isSpace) (l := cs))
        rw [hs, List.length_append] at h₂
        omega
      (parts? rest).map (p :: ·)
termination_by cs.length

end Sexp.Json
