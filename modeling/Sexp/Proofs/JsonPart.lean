import Mathlib.Data.List.Chain
import Mathlib.Data.List.TakeWhile
import Sexp.Json.Assembly

/-!
# The parts of a JSON text are read back

What a part is written as is read as that part, whatever follows it; only a number must not be
followed by what could go on with it (`readPart_chars`). So a row of parts in which no two numbers stand
side by side is read back from its text, with any white space between the parts (`Spaced.parts?_eq`).
-/

namespace Sexp.Json

/-! ### Digits -/

theorem digit?_digitChar (d : Fin 10) : digit? (Nat.digitChar d) = some d := by
  revert d
  decide

theorem isSpace_digitChar (d : Fin 10) : isSpace (Nat.digitChar d) = false := by
  revert d
  decide

def digitText (ds : List (Fin 10)) : List Char := ds.map fun (d : Fin 10) => Nat.digitChar d

/-- No digit goes on here. -/
def DigitsEnd (rest : List Char) : Prop := ∀ c ∈ rest.head?, digit? c = none

theorem digitRun_digitText (ds : List (Fin 10)) {rest : List Char} (h : DigitsEnd rest) :
    digitRun (digitText ds ++ rest) = (ds, rest) := by
  induction ds with
  | nil =>
    cases rest with
    | nil => rfl
    | cons c rest =>
      have hc := h c rfl
      show digitRun (c :: rest) = _
      rw [digitRun, hc]
  | cons d ds ih =>
    show digitRun (Nat.digitChar d :: (digitText ds ++ rest)) = _
    rw [digitRun, digit?_digitChar, ih]

theorem ofDigits_concat (ds : List (Fin 10)) (d : Fin 10) :
    ofDigits (ds ++ [d]) = ofDigits ds * 10 + d := by
  rw [ofDigits, List.foldl_append]
  rfl

/-- The digits of a number, no zero before others. -/
theorem exists_digits (n : Nat) :
    ∃ d ds, Nat.toDigits 10 n = digitText (d :: ds) ∧ ofDigits (d :: ds) = n ∧
      (d = 0 → ds = []) := by
  induction n using Nat.strongRecOn with
  | ind n ih =>
    rw [Nat.toDigits_eq_if (by decide)]
    by_cases hn : n < 10
    · rw [if_pos hn]
      refine ⟨⟨n, hn⟩, [], rfl, ?_, fun _ => rfl⟩
      show 0 * 10 + n = n
      omega
    · obtain ⟨d, ds, hchars, hvalue, hzero⟩ := ih (n / 10) (by omega)
      have hlast : n % 10 < 10 := Nat.mod_lt n (by decide)
      rw [if_neg hn, hchars]
      refine ⟨d, ds ++ [⟨n % 10, hlast⟩], ?_, ?_, fun hd => ?_⟩
      · rw [← List.cons_append, digitText, digitText, List.map_append]
        rfl
      · rw [← List.cons_append, ofDigits_concat, hvalue]
        show n / 10 * 10 + n % 10 = n
        omega
      · rw [hd, hzero hd] at hvalue
        have hnone : n / 10 = 0 := hvalue.symm
        omega

/-! ### Numbers -/

theorem readWhole_toDigits (n : Nat) {rest : List Char} (h : DigitsEnd rest) :
    readWhole (Nat.toDigits 10 n ++ rest) = some (n, rest) := by
  obtain ⟨d, ds, hchars, hvalue, hzero⟩ := exists_digits n
  have hnot : ¬ (d = 0 ∧ ds ≠ []) := fun hboth => hboth.2 (hzero hboth.1)
  rw [readWhole, hchars, digitRun_digitText _ h]
  simp only [if_neg hnot, hvalue]

/-- The text of the digits after the point. -/
def fractionText (ds : List (Fin 10)) : List Char := if ds = [] then [] else '.' :: digitText ds

theorem readFraction_fractionText (ds : List (Fin 10)) {rest : List Char} (h : DigitsEnd rest)
    (hpoint : ∀ c ∈ rest.head?, c ≠ '.') :
    readFraction (fractionText ds ++ rest) = some (ds, rest) := by
  cases ds with
  | nil =>
    cases rest with
    | nil => rfl
    | cons c rest =>
      show readFraction (c :: rest) = _
      unfold readFraction
      split
      · rename_i heq
        cases heq
        exact absurd rfl (hpoint '.' rfl)
      · rfl
  | cons d ds =>
    show readFraction ('.' :: (digitText (d :: ds) ++ rest)) = _
    simp only [readFraction, digitRun_digitText _ h]

theorem readExponentDigits_toDigits (negative : Bool) (n : Nat) {rest : List Char}
    (h : DigitsEnd rest) :
    readExponentDigits negative (Nat.toDigits 10 n ++ rest) =
      some (some (if negative then -(n : Int) else n), rest) := by
  obtain ⟨d, ds, hchars, hvalue, _⟩ := exists_digits n
  simp only [readExponentDigits, hchars, digitRun_digitText _ h, hvalue]

theorem readSignedExponent_intChars (x : Int) {rest : List Char} (h : DigitsEnd rest) :
    readSignedExponent (intChars x ++ rest) = some (some x, rest) := by
  unfold intChars
  split
  · have hdigits := readExponentDigits_toDigits true x.natAbs h
    have hx : -(x.natAbs : Int) = x := by omega
    rw [if_pos rfl, hx] at hdigits
    exact hdigits
  · have hdigits := readExponentDigits_toDigits false x.natAbs h
    have hx : (x.natAbs : Int) = x := by omega
    rw [if_neg Bool.false_ne_true, hx] at hdigits
    obtain ⟨d, ds, hchars, _, _⟩ := exists_digits x.natAbs
    rw [hchars] at hdigits ⊢
    have hd := digit?_digitChar d
    rw [← hdigits]
    show readSignedExponent (Nat.digitChar d :: _) = _
    unfold readSignedExponent
    split
    · rename_i heq
      rw [(List.cons.inj heq).1] at hd
      cases hd
    · rename_i heq
      rw [(List.cons.inj heq).1] at hd
      cases hd
    · rfl

/-- The text of an exponent. -/
def exponentText : Option Int → List Char
  | none => []
  | some x => 'e' :: intChars x

theorem readExponent_exponentText (x : Option Int) {rest : List Char} (h : DigitsEnd rest)
    (hmark : ∀ c ∈ rest.head?, c ≠ 'e' ∧ c ≠ 'E') :
    readExponent (exponentText x ++ rest) = some (x, rest) := by
  cases x with
  | some x => exact readSignedExponent_intChars x h
  | none =>
    show readExponent rest = _
    unfold readExponent
    split
    · exact absurd rfl (hmark 'e' rfl).1
    · exact absurd rfl (hmark 'E' rfl).2
    · rfl

theorem readPart_digit {c : Char} {d : Fin 10} (hc : digit? c = some d) (cs : List Char) :
    readPart (c :: cs) = readUnsigned false (c :: cs) := by
  unfold readPart
  split
  case h_12 => rfl
  all_goals
    rename_i heq
    rw [(List.cons.inj heq).1] at hc
    cases hc

/-- No number goes on here. -/
def NumberEnds (rest : List Char) : Prop :=
  ∀ c ∈ rest.head?, digit? c = none ∧ c ≠ '.' ∧ c ≠ 'e' ∧ c ≠ 'E'

section Number

variable {rest : List Char} (h : NumberEnds rest)

include h

theorem NumberEnds.exponentText (x : Option Int) :
    ∀ c ∈ (exponentText x ++ rest).head?, digit? c = none ∧ c ≠ '.' := by
  cases x with
  | none => exact fun c hc => ⟨(h c hc).1, (h c hc).2.1⟩
  | some x =>
    intro c hc
    cases hc
    decide

theorem readUnsigned_chars (n : Number) :
    readUnsigned n.negative (Nat.toDigits 10 n.whole ++
      (fractionText n.fraction ++ (exponentText n.exponent ++ rest))) = some (.number n, rest) := by
  have hexponent := h.exponentText n.exponent
  have hfraction : DigitsEnd (fractionText n.fraction ++ (exponentText n.exponent ++ rest)) := by
    unfold fractionText
    split
    · exact fun c hc => (hexponent c hc).1
    · intro c hc
      cases hc
      rfl
  rw [readUnsigned, readWhole_toDigits _ hfraction]
  simp only [Option.bind_eq_bind, Option.bind_some]
  rw [readFraction_fractionText _ (fun c hc => (hexponent c hc).1) fun c hc => (hexponent c hc).2]
  simp only [Option.bind_some]
  rw [readExponent_exponentText _ (fun c hc => (h c hc).1) fun c hc => (h c hc).2.2]
  rfl

theorem readPart_number (n : Number) : readPart (n.chars ++ rest) = some (.number n, rest) := by
  have hchars : n.chars ++ rest = (if n.negative then ['-'] else []) ++ (Nat.toDigits 10 n.whole ++
      (fractionText n.fraction ++ (exponentText n.exponent ++ rest))) := by
    rw [Number.chars, List.append_assoc, List.append_assoc, List.append_assoc]
    rfl
  have hread := readUnsigned_chars h n
  rw [hchars]
  cases hsign : n.negative with
  | true =>
    rw [hsign] at hread
    exact hread
  | false =>
    rw [hsign] at hread
    obtain ⟨d, ds, hdigits, _, _⟩ := exists_digits n.whole
    rw [hdigits] at hread ⊢
    exact (readPart_digit (digit?_digitChar d) _).trans hread

end Number

/-! ### Strings -/

theorem hexValue?_digitChar {n : Nat} (h : n < 16) : hexValue? (Nat.digitChar n) = some n := by
  have hall : ∀ k : Fin 16, hexValue? (Nat.digitChar k) = some k.val := by decide
  exact hall ⟨n, h⟩

theorem hexUnit?_chars (u : UInt16) :
    hexUnit? (Nat.digitChar (u.toNat / 4096)) (Nat.digitChar (u.toNat / 256 % 16))
      (Nat.digitChar (u.toNat / 16 % 16)) (Nat.digitChar (u.toNat % 16)) = some u := by
  have hlt := u.toNat_lt
  have hvalue : ((u.toNat / 4096 * 16 + u.toNat / 256 % 16) * 16 + u.toNat / 16 % 16) * 16 +
      u.toNat % 16 = u.toNat := by omega
  rw [hexUnit?, hexValue?_digitChar (by omega), hexValue?_digitChar (by omega),
    hexValue?_digitChar (by omega), hexValue?_digitChar (by omega)]
  simp only [Option.bind_eq_bind, Option.bind_some, hvalue]
  exact congrArg some u.ofNat_toNat

/-- A sign that a string may hold: a character that needs no backslash, or a letter that stands for
something after one. -/
def Sign.Written : Sign → Prop
  | plain c => c ≠ '"' ∧ c ≠ '\\' ∧ 0x20 ≤ c.toNat
  | escape letter => (unescape? letter).isSome = true
  | code _ => True

theorem readSigns_chars {signs : List Sign} (h : ∀ s ∈ signs, s.Written) (rest : List Char) :
    readSigns (signs.flatMap Sign.chars ++ '"' :: rest) = some (signs, rest) := by
  induction signs with
  | nil => rfl
  | cons s signs ih =>
    obtain ⟨hs, hsigns⟩ := List.forall_mem_cons.1 h
    have hrest := ih hsigns
    rw [List.flatMap_cons, List.append_assoc]
    cases s with
    | plain c =>
      obtain ⟨hquote, hslash, hlow⟩ := hs
      show readSigns (c :: (signs.flatMap Sign.chars ++ '"' :: rest)) = _
      rw [readSigns, if_neg (by omega), hrest]
      · rfl
      · exact hquote
      · exact fun _ _ _ _ _ hc => absurd hc hslash
      · exact fun _ _ hc => absurd hc hslash
    | escape letter =>
      have hsome : (unescape? letter).isSome = true := hs
      show readSigns ('\\' :: letter :: (signs.flatMap Sign.chars ++ '"' :: rest)) = _
      rw [readSigns, if_pos hsome, hrest]
      · rfl
      · rintro _ _ _ _ _ rfl _
        cases hsome
    | code u =>
      show readSigns ('\\' :: 'u' :: _ :: _ :: _ :: _ ::
        (signs.flatMap Sign.chars ++ '"' :: rest)) = _
      rw [readSigns, hexUnit?_chars, hrest]
      rfl

/-! ### Parts -/

def Part.isNumber : Part → Bool
  | number _ => true
  | _ => false

/-- A part that a text can hold: the signs of a string are what they must be. -/
def Part.Written : Part → Prop
  | string s => ∀ sign ∈ s.signs, sign.Written
  | _ => True

theorem readPart_chars {p : Part} (h : p.Written) {rest : List Char}
    (hends : p.isNumber = true → NumberEnds rest) : readPart (p.chars ++ rest) = some (p, rest) := by
  cases p with
  | number n => exact readPart_number (hends rfl) n
  | string s =>
    show readPart ('"' :: (s.signs.flatMap Sign.chars ++ ['"'] ++ rest)) = _
    rw [List.append_assoc, readPart, readString]
    show ((readSigns (s.signs.flatMap Sign.chars ++ '"' :: rest)).bind _) = _
    rw [readSigns_chars h]
    rfl
  | bool b => cases b <;> rfl
  | _ => rfl

theorem Part.isSpace_head (p : Part) : ∃ c cs, p.chars = c :: cs ∧ isSpace c = false := by
  cases p with
  | number n =>
    obtain ⟨d, ds, hdigits, _, _⟩ := exists_digits n.whole
    show ∃ c cs, n.chars = c :: cs ∧ isSpace c = false
    rw [Number.chars, hdigits]
    cases n.negative with
    | true => exact ⟨'-', _, rfl, rfl⟩
    | false => exact ⟨Nat.digitChar d, _, rfl, isSpace_digitChar d⟩
  | bool b => cases b <;> exact ⟨_, _, rfl, rfl⟩
  | _ => exact ⟨_, _, rfl, rfl⟩

theorem Part.numberEnds {p : Part} (h : p.isNumber = false) (rest : List Char) :
    NumberEnds (p.chars ++ rest) := by
  intro c hc
  cases p with
  | number n => cases h
  | bool b => cases b <;> cases hc <;> decide
  | _ =>
    cases hc
    decide

theorem numberEnds_space {c : Char} (h : isSpace c = true) (rest : List Char) :
    NumberEnds (c :: rest) := by
  intro d hd
  cases hd
  have hc : ((c = ' ' ∨ c = '\n') ∨ c = '\t') ∨ c = '\r' := by simpa [isSpace] using h
  rcases hc with ((rfl | rfl) | rfl) | rfl <;> decide

theorem parts?_of_space {cs : List Char} (h : ∀ c ∈ cs, isSpace c = true) : parts? cs = some [] := by
  have hdrop : cs.dropWhile isSpace = [] := List.dropWhile_eq_nil_iff.2 h
  rw [parts?]
  split
  · rfl
  · rename_i hs
    rw [hdrop] at hs
    cases hs

theorem parts?_of_readPart {c : Char} {spaces cs rest : List Char} {p : Part}
    (hspaces : ∀ c ∈ spaces, isSpace c = true) (hc : isSpace c = false)
    (h : readPart (c :: cs) = some (p, rest)) :
    parts? (spaces ++ c :: cs) = (parts? rest).map (p :: ·) := by
  have hdrop : (spaces ++ c :: cs).dropWhile isSpace = c :: cs := by
    rw [List.dropWhile_append_of_pos hspaces, List.dropWhile_cons_of_neg (by simp [hc])]
  rw [parts?]
  split
  · rename_i hs
    rw [hdrop] at hs
    cases hs
  · rename_i hs
    rw [hdrop] at hs
    cases hs
    split
    · rename_i hnone
      rw [h] at hnone
      cases hnone
    · rename_i hsome
      rw [h] at hsome
      cases hsome
      rfl

/-! ### Rows of parts -/

/-- No two numbers stand side by side. -/
def Part.Apart (p q : Part) : Prop := p.isNumber = false ∨ q.isNumber = false

/-- The text is that of the parts, with white space before, between and after them. -/
inductive Spaced : List Part → List Char → Prop
  | nil {spaces : List Char} (hs : ∀ c ∈ spaces, isSpace c = true) : Spaced [] spaces
  | cons {spaces text : List Char} {p : Part} {ps : List Part} (hs : ∀ c ∈ spaces, isSpace c = true)
    (h : Spaced ps text) : Spaced (p :: ps) (spaces ++ (p.chars ++ text))

namespace Spaced

variable {p : Part} {ps : List Part} {text : List Char}

theorem chars (ps : List Part) : Spaced ps (ps.flatMap Part.chars) := by
  induction ps with
  | nil => exact .nil (List.forall_mem_nil _)
  | cons p ps ih => exact .cons (List.forall_mem_nil _) ih

theorem numberEnds (h : Spaced ps text) (hnext : ∀ q ∈ ps.head?, q.isNumber = false) :
    NumberEnds text := by
  cases h with
  | nil hs =>
    cases text with
    | nil => exact nofun
    | cons c text => exact numberEnds_space (hs c List.mem_cons_self) _
  | @cons spaces _ q _ hs _ =>
    cases spaces with
    | nil => exact Part.numberEnds (hnext q rfl) _
    | cons c spaces => exact numberEnds_space (hs c List.mem_cons_self) _

theorem parts?_eq (h : Spaced ps text) (hw : ∀ p ∈ ps, p.Written) (hapart : ps.IsChain Part.Apart) :
    parts? text = some ps := by
  induction h with
  | nil hs => exact parts?_of_space hs
  | @cons spaces text p ps hs htext ih =>
    obtain ⟨hp, hps⟩ := List.forall_mem_cons.1 hw
    have hends : p.isNumber = true → NumberEnds text := by
      intro hnum
      refine htext.numberEnds fun q hq => ?_
      refine ((List.isChain_cons.1 hapart).1 q hq).resolve_left ?_
      rw [hnum]
      exact nofun
    have hread := readPart_chars hp hends
    obtain ⟨c, cs, hchars, hc⟩ := p.isSpace_head
    rw [hchars, List.cons_append] at hread
    rw [hchars, List.cons_append, parts?_of_readPart hs hc hread, ih hps hapart.tail]
    rfl

end Spaced

end Sexp.Json
