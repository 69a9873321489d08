import Sexp.Proofs.Partition
import Sexp.Proofs.Reading

/-!
# Scanning by looking bytes up

A cursor holds what is left of its source, so it cannot look anywhere else. `Pointer.scan?` is the same
step by numbers: each byte is looked up in the whole source and each lexeme is cut out of it between
two numbers, and the step fails if there is nothing there. From where a cursor stands it never fails
and does what the cursor does (`Cursor.IsOn.scan?_pointer`), and so does every row of requests that is
answered by such steps (`Cursor.IsOn.answers?_pointer`).
-/

namespace Sexp

/-- Where the lexeme begins that was looked for last, which byte is next, and its place. -/
structure Pointer where
  start : Nat
  current : Nat
  position : Position

def Cursor.pointer (c : Cursor) : Pointer := ⟨c.lexemeStart, c.offset, c.position⟩

namespace Pointer

/-! ### The step -/

/-- The next byte, and the pointer past it. -/
def advance? (source : List UInt8) (p : Pointer) : Option (UInt8 × Pointer) :=
  source[p.current]?.map fun b => (b, ⟨p.start, p.current + 1, p.position.afterByte b⟩)

theorem current_of_advance? {source : List UInt8} {p next : Pointer} {b : UInt8}
    (h : p.advance? source = some (b, next)) : next.current = p.current + 1 := by
  obtain ⟨d, _, hd⟩ := Option.map_eq_some_iff.1 h
  cases hd
  rfl

/-- The pointer past the bytes that pass the test, up to one that does not or to the end. -/
def advanceWhile? (source : List UInt8) (test : UInt8 → Bool) (p : Pointer) : Option Pointer :=
  if p.current < source.length then
    match h : p.advance? source with
    | none => none
    | some (b, next) =>
      have := current_of_advance? h
      if test b then next.advanceWhile? source test else some p
  else some p
termination_by source.length - p.current

/-- The kind of the lexeme that begins with `b`, and the pointer past it; no kind if it is a string
that is never closed. -/
def finish? (source : List UInt8) (b : UInt8) (p : Pointer) : Option (Option TokenKind × Pointer) :=
  if b = openParen then some (some .leftParen, p)
  else if b = closeParen then some (some .rightParen, p)
  else if b = quote then do
    let inside ← p.advanceWhile? source (· != quote)
    if inside.current < source.length then
      let (_, last) ← inside.advance? source
      return (some .string, last)
    else return (none, inside)
  else if isNumeric b then do
    let last ← p.advanceWhile? source isNumeric
    return (some .number, last)
  else do
    let last ← p.advanceWhile? source (!isDelimiter ·)
    return (some .symbol, last)

/-- The bytes of the source from `lo` up to `hi`. -/
def slice? (source : List UInt8) (lo hi : Nat) : Option (List UInt8) :=
  if lo ≤ hi ∧ hi ≤ source.length then some (source.extract lo hi) else none

/-- What is answered for a lexeme of this kind that begins at `place`, which the pointer is past. -/
def result? (source : List UInt8) (place : Position) (kind : Option TokenKind) (p : Pointer) :
    Option (Except Error Token × Pointer) :=
  match kind with
  | none => some (.error (.unterminatedString place), p)
  | some kind =>
    (slice? source p.start p.current).map fun bytes => (.ok ⟨kind, Utf8.text bytes, place⟩, p)

/-- The pointer where a lexeme begins. -/
def mark (p : Pointer) : Pointer := { p with start := p.current }

/-- The next token, or the fault that stands in its place, and the pointer past it. -/
def scan? (source : List UInt8) (p : Pointer) : Option (Except Error Token × Pointer) := do
  let begun ← (p.advanceWhile? source isBlank).map mark
  if begun.current < source.length then
    let (b, next) ← begun.advance? source
    let (kind, last) ← next.finish? source b
    result? source begun.position kind last
  else return (.ok ⟨.eof, "", begun.position⟩, begun)

/-! ### A step goes on -/

section Forward

variable {source : List UInt8} {p q : Pointer}

theorem current_le_of_advanceWhile? {test : UInt8 → Bool}
    (h : p.advanceWhile? source test = some q) : p.current ≤ q.current := by
  fun_induction advanceWhile? source test p with
  | case1 => cases h
  | case2 p _ b next hmove _ _ ih =>
    have hone := current_of_advance? hmove
    have hrest := ih h
    omega
  | case3 => cases h; exact Nat.le_refl _
  | case4 => cases h; exact Nat.le_refl _

theorem current_le_of_finish? {b : UInt8} {kind : Option TokenKind}
    (h : p.finish? source b = some (kind, q)) : p.current ≤ q.current := by
  unfold finish? at h
  split at h
  · cases h
    exact Nat.le_refl _
  split at h
  · cases h
    exact Nat.le_refl _
  split at h
  · obtain ⟨inside, hinside, h⟩ := Option.bind_eq_some_iff.1 h
    have hle := current_le_of_advanceWhile? hinside
    split at h
    · obtain ⟨⟨d, last⟩, hlast, h⟩ := Option.bind_eq_some_iff.1 h
      have hone := current_of_advance? hlast
      cases h
      omega
    · cases h
      exact hle
  split at h
  · obtain ⟨last, hlast, h⟩ := Option.bind_eq_some_iff.1 h
    cases h
    exact current_le_of_advanceWhile? hlast
  · obtain ⟨last, hlast, h⟩ := Option.bind_eq_some_iff.1 h
    cases h
    exact current_le_of_advanceWhile? hlast

/-- A step that answers a token other than the end goes on, and not from the end. -/
theorem current_lt_of_scan? {t : Token} (h : p.scan? source = some (.ok t, q))
    (ht : t.isEof = false) : p.current < q.current ∧ p.current < source.length := by
  obtain ⟨begun, hbegun, h⟩ := Option.bind_eq_some_iff.1 h
  obtain ⟨blank, hblank, rfl⟩ := Option.map_eq_some_iff.1 hbegun
  have hle : p.current ≤ blank.current := current_le_of_advanceWhile? hblank
  have hmark : blank.mark.current = blank.current := rfl
  split at h
  · obtain ⟨⟨b, next⟩, hnext, h⟩ := Option.bind_eq_some_iff.1 h
    obtain ⟨⟨kind, last⟩, hlast, h⟩ := Option.bind_eq_some_iff.1 h
    have hone := current_of_advance? hnext
    have hfinish := current_le_of_finish? hlast
    have hq : last = q := by
      simp only [result?] at h
      split at h
      · cases h
      · obtain ⟨_, _, h⟩ := Option.map_eq_some_iff.1 h
        cases h
        rfl
    subst hq
    omega
  · cases h
    cases ht

end Forward

/-! ### Requests -/

/-- All tokens from here on or the first fault, and the pointer past the last of them. -/
def scanAll? (source : List UInt8) (p : Pointer) : Option (Except Error (List Token) × Pointer) :=
  match h : p.scan? source with
  | none => none
  | some (.error e, next) => some (.error e, next)
  | some (.ok t, next) =>
    if ht : t.isEof then some (.ok [t], next)
    else
      have := current_lt_of_scan? h (by simpa using ht)
      (next.scanAll? source).map fun (all, last) => (all.map (t :: ·), last)
termination_by source.length - p.current

/-- The expressions that begin with those of the builder or the first fault, and the pointer past what
was read. -/
def readInto? (source : List UInt8) (b : Builder) (p : Pointer) :
    Option (Except Error (List Expr) × Pointer) :=
  match h : p.scan? source with
  | none => none
  | some (.error e, next) => some (.error e, next)
  | some (.ok t, next) =>
    if ht : t.isEof then some (b.finish, next)
    else
      have := current_lt_of_scan? h (by simpa using ht)
      match b.push t with
      | .error e => some (.error e, next)
      | .ok b => next.readInto? source b
termination_by source.length - p.current

/-- The loop, without what makes it end. -/
theorem scanAll?_eq (source : List UInt8) (p : Pointer) :
    p.scanAll? source = (p.scan? source).bind fun
      | (.error e, next) => some (.error e, next)
      | (.ok t, next) =>
        if t.isEof then some (.ok [t], next)
        else (next.scanAll? source).map fun (all, last) => (all.map (t :: ·), last) := by
  rw [scanAll?]
  split <;> rename_i h <;> simp only [h, dite_eq_ite, Option.bind_some, Option.bind_none]

theorem readInto?_eq (source : List UInt8) (b : Builder) (p : Pointer) :
    p.readInto? source b = (p.scan? source).bind fun
      | (.error e, next) => some (.error e, next)
      | (.ok t, next) =>
        if t.isEof then some (b.finish, next)
        else
          match b.push t with
          | .error e => some (.error e, next)
          | .ok b => next.readInto? source b := by
  rw [readInto?]
  split <;> rename_i h <;> simp only [h, dite_eq_ite, Option.bind_some, Option.bind_none]

def answer? (source : List UInt8) (p : Pointer) : Request → Option (Reply × Pointer)
  | .scan => (p.scan? source).map fun (result, next) => (.token result, next)
  | .scanAll => (p.scanAll? source).map fun (result, next) => (.tokens result, next)
  | .read => (p.readInto? source .empty).map fun (result, next) => (.exprs result, next)

/-- The answers to requests one after the other, each with the pointer after it. -/
def answers? (source : List UInt8) (p : Pointer) : List Request → Option (List (Reply × Pointer))
  | [] => some []
  | r :: rs => do
    let (reply, next) ← p.answer? source r
    let replies ← next.answers? source rs
    return (reply, next) :: replies

/-! ### What each move does -/

/-- The pointer past these bytes. -/
def past (p : Pointer) (bytes : List UInt8) : Pointer :=
  ⟨p.start, p.current + bytes.length, p.position.after bytes⟩

theorem past_past (p : Pointer) (xs ys : List UInt8) : (p.past xs).past ys = p.past (xs ++ ys) := by
  simp [past, Position.after_append, Nat.add_assoc]

section Moves

variable {source bytes rest : List UInt8} {p : Pointer} {b : UInt8}

theorem drop_past (h : source.drop p.current = bytes ++ rest) :
    source.drop (p.past bytes).current = rest := by
  show source.drop (p.current + bytes.length) = rest
  rw [← List.drop_drop, h, List.drop_left]

theorem current_lt_of_drop (h : source.drop p.current = b :: rest) :
    p.current < source.length := by
  have hlen := congrArg List.length h
  rw [List.length_drop, List.length_cons] at hlen
  omega

theorem not_current_lt_of_drop (h : source.drop p.current = []) :
    ¬ p.current < source.length := by
  have hle := List.drop_eq_nil_iff.1 h
  omega

theorem advance?_of_drop (h : source.drop p.current = b :: rest) :
    p.advance? source = some (b, p.past [b]) := by
  have hget := getElem?_of_drop h 0
  rw [Nat.add_zero] at hget
  rw [advance?, hget]
  rfl

theorem advanceWhile?_of_drop {test : UInt8 → Bool} (h : source.drop p.current = bytes ++ rest)
    (hbytes : ∀ d ∈ bytes, test d = true) (hrest : ∀ d ∈ rest.head?, test d = false) :
    p.advanceWhile? source test = some (p.past bytes) := by
  induction bytes generalizing p with
  | nil =>
    rw [advanceWhile?]
    cases rest with
    | nil => exact if_neg (not_current_lt_of_drop h)
    | cons d rest =>
      have hd := hrest d rfl
      rw [if_pos (current_lt_of_drop h)]
      split
      · rename_i hnone
        rw [advance?_of_drop h] at hnone
        cases hnone
      · rename_i hsome
        rw [advance?_of_drop h] at hsome
        cases hsome
        rw [hd]
        rfl
  | cons d bytes ih =>
    have hd := hbytes d List.mem_cons_self
    have hnext : source.drop (p.past [d]).current = bytes ++ rest := drop_past h
    rw [advanceWhile?, if_pos (current_lt_of_drop h)]
    split
    · rename_i hnone
      rw [advance?_of_drop h] at hnone
      cases hnone
    · rename_i hsome
      rw [advance?_of_drop h] at hsome
      cases hsome
      rw [if_pos hd]
      exact (ih hnext fun x hx => hbytes x (List.mem_cons_of_mem d hx)).trans
        (congrArg some (p.past_past [d] bytes))

theorem finish?_unclosed (h : source.drop p.current = rest) (hq : quote ∉ rest) :
    p.finish? source quote = some (none, p.past rest) := by
  have hinside : ∀ d ∈ rest, (d != quote) = true := fun d hd => by
    simpa using fun hdq : d = quote => hq (hdq ▸ hd)
  have hdrop : source.drop p.current = rest ++ [] := by rw [List.append_nil, h]
  have hend := not_current_lt_of_drop (drop_past hdrop)
  have hmove := advanceWhile?_of_drop hdrop hinside (by simp)
  rw [finish?, if_neg (by decide), if_neg (by decide), if_pos rfl, hmove]
  simp only [Option.bind_eq_bind, Option.bind_some, if_neg hend]
  rfl

theorem finish?_of_valid {kind : TokenKind} (hv : Lexeme.Valid ⟨kind, b :: bytes⟩)
    (he : Lexeme.EndsBefore ⟨kind, b :: bytes⟩ rest) (h : source.drop p.current = bytes ++ rest) :
    p.finish? source b = some (some kind, p.past bytes) := by
  cases hv with
  | leftParen => rfl
  | rightParen => rfl
  | @string inside hq =>
    have hinside : ∀ d ∈ inside, (d != quote) = true := fun d hd => by
      simpa using fun hdq : d = quote => hq (hdq ▸ hd)
    rw [List.append_assoc] at h
    have hclose := drop_past h
    have hmove := advanceWhile?_of_drop h hinside fun d hd => by cases hd; rfl
    rw [finish?, if_neg (by decide), if_neg (by decide), if_pos rfl, hmove]
    simp only [Option.bind_eq_bind, Option.bind_some, if_pos (current_lt_of_drop hclose),
      advance?_of_drop hclose, past_past]
    rfl
  | number _ hall =>
    have hb := hall b List.mem_cons_self
    have hdelimiter := isDelimiter_of_isNumeric hb
    have hopen : b ≠ openParen := by rintro rfl; cases hdelimiter
    have hclose : b ≠ closeParen := by rintro rfl; cases hdelimiter
    have hquote : b ≠ quote := by rintro rfl; cases hb
    have hmove := advanceWhile?_of_drop h (fun d hd => hall d (List.mem_cons_of_mem b hd)) he
    rw [finish?, if_neg hopen, if_neg hclose, if_neg hquote, if_pos hb, hmove]
    rfl
  | symbol hquote hn hall =>
    have hdelimiter := hall b List.mem_cons_self
    have hopen : b ≠ openParen := by rintro rfl; cases hdelimiter
    have hclose : b ≠ closeParen := by rintro rfl; cases hdelimiter
    have hbytes : ∀ d ∈ bytes, (!isDelimiter d) = true := fun d hd => by
      simp [hall d (List.mem_cons_of_mem b hd)]
    have hmove := advanceWhile?_of_drop h hbytes fun d hd => by simp [he d hd]
    rw [finish?, if_neg hopen, if_neg hclose, if_neg hquote, if_neg (by simp [hn]), hmove]
    rfl

theorem scan?_of_drop {gap : List UInt8} (h : source.drop p.current = gap ++ b :: rest)
    (hg : IsGap gap) (hb : isBlank b = false) {kind : Option TokenKind} {last : Pointer}
    (hfinish : ((p.past gap).mark.past [b]).finish? source b = some (kind, last)) :
    p.scan? source = result? source (p.position.after gap) kind last := by
  have hmove := advanceWhile?_of_drop h hg fun d hd => by cases hd; exact hb
  have hbegun : source.drop (p.past gap).mark.current = b :: rest := drop_past h
  rw [scan?, hmove]
  simp only [Option.bind_eq_bind, Option.map_some, Option.bind_some,
    if_pos (current_lt_of_drop hbegun), advance?_of_drop hbegun, hfinish]
  rfl

theorem slice?_of_drop {lo : Nat} (h : source.drop lo = bytes ++ rest) (hlo : lo ≤ source.length) :
    slice? source lo (lo + bytes.length) = some bytes := by
  have hlen := congrArg List.length h
  rw [List.length_drop, List.length_append] at hlen
  rw [slice?, if_pos (by omega), extract_of_drop h]

end Moves

end Pointer

/-! ### It does what the cursor does -/

namespace Cursor

theorem pointer_past (c : Cursor) (gap bytes rest : List UInt8) :
    (c.past gap bytes rest).pointer = (c.pointer.past gap).mark.past bytes := rfl

namespace IsOn

variable {source : List UInt8} {c : Cursor}

theorem scan?_pointer (h : IsOn source c) :
    c.pointer.scan? source = some (c.scan.1, c.scan.2.pointer) := by
  have hdrop : source.drop c.pointer.current = c.rest := h.rest
  have hstep := c.scan_step
  generalize c.scan = s at hstep
  cases hstep with
  | atEnd hg =>
    rw [← List.append_nil c.rest] at hdrop
    have hmove := Pointer.advanceWhile?_of_drop hdrop hg (by simp)
    have hend : ¬ (c.pointer.past c.rest).mark.current < source.length :=
      Pointer.not_current_lt_of_drop (Pointer.drop_past hdrop)
    rw [Pointer.scan?, hmove]
    simp only [Option.bind_eq_bind, Option.map_some, Option.bind_some, if_neg hend]
    rfl
  | @unclosed gap rest hr hg hq =>
    rw [hr] at hdrop
    have hbegun : source.drop (c.pointer.past gap).mark.current = [quote] ++ rest :=
      Pointer.drop_past hdrop
    have hrest := Pointer.drop_past hbegun
    rw [Pointer.scan?_of_drop hdrop hg rfl (Pointer.finish?_unclosed hrest hq), Pointer.past_past,
      c.pointer_past]
    rfl
  | @lexeme gap l rest hr hg hv he =>
    obtain ⟨kind, bytes⟩ := l
    obtain ⟨b, bytes, rfl⟩ := List.exists_cons_of_ne_nil hv.ne_nil
    have hgap := h.gap hr
    rw [hr] at hdrop
    have hbegun : source.drop (c.pointer.past gap).mark.current = [b] ++ (bytes ++ rest) :=
      Pointer.drop_past hdrop
    have hrest := Pointer.drop_past hbegun
    have hslice := Pointer.slice?_of_drop hgap.rest hgap.offset_le
    rw [Pointer.scan?_of_drop hdrop hg (hv.isBlank_head b rfl) (Pointer.finish?_of_valid hv he hrest),
      Pointer.past_past, c.pointer_past, Pointer.result?]
    exact congrArg (Option.map _) hslice

theorem scanAll?_pointer (h : IsOn source c) :
    c.pointer.scanAll? source = some (c.scanAll.1, c.scanAll.2.pointer) := by
  -- By how much is left: a token other than the end leaves less.
  induction hn : c.rest.length using Nat.strongRecOn generalizing c with
  | ind n ih =>
    rw [Pointer.scanAll?_eq, h.scan?_pointer]
    cases hscan : c.scan with
    | mk result next =>
      cases result with
      | error e =>
        rw [scanAll_of_error hscan]
        rfl
      | ok t =>
        cases ht : t.isEof with
        | true =>
          rw [scanAll_of_isEof hscan ht]
          exact if_pos ht
        | false =>
          have hlt := rest_scan_lt hscan ht
          have hnext := ih next.rest.length (by omega) (h.next hscan) rfl
          rw [scanAll_of_token hscan ht]
          simp only [Option.bind_some, ht, hnext]
          rfl

theorem readInto?_pointer (h : IsOn source c) (b : Builder) :
    c.pointer.readInto? source b = some ((c.readInto b).1, (c.readInto b).2.pointer) := by
  induction hn : c.rest.length using Nat.strongRecOn generalizing c b with
  | ind n ih =>
    rw [Pointer.readInto?_eq, h.scan?_pointer]
    cases hscan : c.scan with
    | mk result next =>
      cases result with
      | error e =>
        rw [readInto_of_error hscan]
        rfl
      | ok t =>
        cases ht : t.isEof with
        | true =>
          rw [readInto_of_isEof hscan ht]
          exact if_pos ht
        | false =>
          simp only [Option.bind_some, ht, Bool.false_eq_true, if_false]
          cases hb : b.push t with
          | error e =>
            rw [readInto_of_push_error hscan ht hb]
          | ok b' =>
            have hlt := rest_scan_lt hscan ht
            rw [readInto_of_push hscan ht hb]
            exact ih next.rest.length (by omega) (h.next hscan) b' rfl

theorem answer?_pointer (h : IsOn source c) (r : Request) :
    c.pointer.answer? source r = some ((c.answer r).1, (c.answer r).2.pointer) := by
  cases r with
  | scan => exact congrArg (Option.map _) h.scan?_pointer
  | scanAll => exact congrArg (Option.map _) h.scanAll?_pointer
  | read => exact congrArg (Option.map _) (h.readInto?_pointer .empty)

theorem answers?_pointer (h : IsOn source c) (rs : List Request) :
    c.pointer.answers? source rs = some ((c.answers rs).map fun a => (a.1, a.2.pointer)) := by
  induction rs generalizing c with
  | nil => rfl
  | cons r rs ih =>
    rw [Pointer.answers?, h.answer?_pointer r]
    simp only [Option.bind_eq_bind, Option.bind_some, ih (h.answer r)]
    rfl

end IsOn
end Cursor
end Sexp
