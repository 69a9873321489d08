import Sexp.Cursor
import Sexp.Proofs.Lexeme

/-!
# Runs of a cursor

What one step of a cursor can do (`Cursor.scan_step`), and what a row of steps does (`Cursor.Scans`):
each token of it is a lexeme of the source, decoded, with the place where that lexeme begins
(`Cursor.Scans.lexed`). Without its places a run is a decomposition of the source into blanks and
lexemes that are over (`Lexes`, `Cursor.Scans.lexes`, `Lexes.scans`).
-/

namespace Sexp

/-! ### Places -/

/-- The place past `bytes` at the beginning of a source: its line is one more than there are newlines
in them, its column one more than there are bytes since the last newline. -/
def Position.past (bytes : List UInt8) : Position :=
  ⟨1 + bytes.count newline, 1 + (bytes.reverse.takeWhile (· != newline)).length⟩

theorem Position.past_concat (bytes : List UInt8) (b : UInt8) :
    past (bytes ++ [b]) = (past bytes).afterByte b := by
  by_cases hb : b = newline
  · simp [past, afterByte, hb, Nat.add_assoc]
  · simp [past, afterByte, hb, Nat.add_comm]

theorem Position.after_past (xs ys : List UInt8) : (past xs).after ys = past (xs ++ ys) := by
  induction ys generalizing xs with
  | nil => simp
  | cons y ys ih =>
    rw [after_cons, ← past_concat, ih, List.append_assoc]
    rfl

/-- On a line further up, or on the same line and further to the left. -/
def Position.Before (p q : Position) : Prop :=
  p.line < q.line ∨ p.line = q.line ∧ p.column < q.column

theorem Position.Before.ne {p q : Position} (h : p.Before q) : p ≠ q := by
  rintro rfl
  rcases h with h | ⟨_, h⟩
  · exact Nat.lt_irrefl _ h
  · exact Nat.lt_irrefl _ h

theorem Position.past_before_append {xs ys : List UInt8} (h : ys ≠ []) :
    (past xs).Before (past (xs ++ ys)) := by
  by_cases hmem : newline ∈ ys
  · apply Or.inl
    have hpos := List.count_pos_iff.2 hmem
    simp only [past, List.count_append]
    omega
  · have hys : ∀ b ∈ ys.reverse, (b != newline) = true := by
      intro b hb
      simpa using fun hn : b = newline => hmem (hn ▸ List.mem_reverse.1 hb)
    have hcount := List.count_eq_zero.2 hmem
    have hpos := List.length_pos_iff.2 h
    apply Or.inr
    simp only [past, List.count_append, List.reverse_append, List.takeWhile_append_of_pos hys,
      List.length_append, List.length_reverse]
    omega

/-- The place of the byte that `n` bytes stand before. -/
def Position.at (source : List UInt8) (n : Nat) : Position := past (source.take n)

/-- What stands later in a source has a later place. -/
theorem Position.at_before {source : List UInt8} {m n : Nat} (hmn : m < n)
    (hn : n ≤ source.length) : (Position.at source m).Before (.at source n) := by
  obtain ⟨k, rfl⟩ := Nat.exists_eq_add_of_le (Nat.le_of_lt hmn)
  rw [Position.at, Position.at, List.take_add]
  apply past_before_append
  apply List.ne_nil_of_length_pos
  rw [List.length_take, List.length_drop]
  omega

/-- No two places of a source are the same. -/
theorem Position.at_inj {source : List UInt8} {m n : Nat} (hm : m ≤ source.length)
    (hn : n ≤ source.length) (h : Position.at source m = .at source n) : m = n := by
  rcases Nat.lt_trichotomy m n with hlt | rfl | hlt
  · exact absurd h (at_before hlt hn).ne
  · rfl
  · exact absurd h.symm (at_before hlt hm).ne

/-! ### One step -/

/-- The token of a lexeme that stands at `p`. -/
def Lexeme.token (l : Lexeme) (p : Position) : Token := ⟨l.kind, Utf8.text l.bytes, p⟩

/-- Blanks and nothing else. -/
def IsGap (bytes : List UInt8) : Prop := ∀ b ∈ bytes, isBlank b = true

theorem Lexeme.Valid.isEof_token {l : Lexeme} (h : l.Valid) (p : Position) :
    (l.token p).isEof = false :=
  decide_eq_false h.kind_ne_eof

namespace Cursor

/-- The cursor past a gap and the bytes looked for, with `rest` left. -/
def past (c : Cursor) (gap bytes rest : List UInt8) : Cursor where
  rest := rest
  position := (c.position.after gap).after bytes
  offset := c.offset + gap.length + bytes.length
  lexemeStart := c.offset + gap.length

theorem advance_length {c : Cursor} {bytes rest : List UInt8} (h : c.rest = bytes ++ rest) :
    c.advance bytes.length =
      ⟨rest, c.position.after bytes, c.offset + bytes.length, c.lexemeStart⟩ := by
  simp [advance, h]

theorem toEnd_eq (c : Cursor) :
    c.toEnd = ⟨[], c.position.after c.rest, c.offset + c.rest.length, c.lexemeStart⟩ :=
  advance_length (List.append_nil c.rest).symm

theorem skipBlanks_eq_past {c : Cursor} {gap rest : List UInt8} (h : c.rest = gap ++ rest)
    (hg : IsGap gap) (hr : ∀ b ∈ rest.head?, isBlank b = false) :
    c.skipBlanks = c.past gap [] rest := by
  have htake : c.rest.takeWhile isBlank = gap := by rw [h, takeWhile_append_of_head hg hr]
  simp only [skipBlanks, htake, advance_length h]
  rfl

/-- What a step can answer, and where it leaves the cursor. -/
inductive ScanStep (c : Cursor) : Except Error Token × Cursor → Prop
  | atEnd (hg : IsGap c.rest) :
    ScanStep c (.ok ⟨.eof, "", c.position.after c.rest⟩, c.past c.rest [] [])
  | unclosed {gap rest : List UInt8} (hr : c.rest = gap ++ quote :: rest) (hg : IsGap gap)
    (hq : quote ∉ rest) :
    ScanStep c (.error (.unterminatedString (c.position.after gap)), c.past gap (quote :: rest) [])
  | lexeme {gap : List UInt8} {l : Lexeme} {rest : List UInt8}
    (hr : c.rest = gap ++ (l.bytes ++ rest)) (hg : IsGap gap) (hv : l.Valid)
    (he : l.EndsBefore rest) :
    ScanStep c (.ok (l.token (c.position.after gap)), c.past gap l.bytes rest)

theorem scan_lexeme {c : Cursor} {gap rest : List UInt8} {l : Lexeme}
    (hr : c.rest = gap ++ (l.bytes ++ rest)) (hg : IsGap gap) (hv : l.Valid)
    (he : l.EndsBefore rest) :
    c.scan = (.ok (l.token (c.position.after gap)), c.past gap l.bytes rest) := by
  have hhead : ∀ b ∈ (l.bytes ++ rest).head?, isBlank b = false := by
    obtain ⟨d, ds, hd⟩ := List.exists_cons_of_ne_nil hv.ne_nil
    intro b hb
    refine hv.isBlank_head b ?_
    rw [hd] at hb ⊢
    exact hb
  have hskip := skipBlanks_eq_past hr hg hhead
  have hrest : (c.past gap [] (l.bytes ++ rest)).rest = l.bytes ++ rest := rfl
  have hcut : cut (c.past gap [] (l.bytes ++ rest)).rest = .lexeme l.kind l.bytes := cut_lexeme hv he
  simp only [scan, hskip, hcut]
  rw [advance_length hrest]
  rfl

theorem scan_atEnd {c : Cursor} (h : IsGap c.rest) :
    c.scan = (.ok ⟨.eof, "", c.position.after c.rest⟩, c.past c.rest [] []) := by
  have hskip := skipBlanks_eq_past (List.append_nil c.rest).symm h (by simp)
  simp only [scan, hskip]
  rfl

theorem scan_unclosed {c : Cursor} {gap rest : List UInt8} (hr : c.rest = gap ++ quote :: rest)
    (hg : IsGap gap) (hq : quote ∉ rest) :
    c.scan =
      (.error (.unterminatedString (c.position.after gap)), c.past gap (quote :: rest) []) := by
  have hskip := skipBlanks_eq_past hr hg fun b hb => by cases hb; rfl
  have hcut : cut (c.past gap [] (quote :: rest)).rest = .unclosed :=
    cut_eq_unclosed_iff.2 ⟨rest, rfl, hq⟩
  simp only [scan, hskip, hcut, toEnd_eq]
  rfl

theorem scan_step (c : Cursor) : c.ScanStep c.scan := by
  have hsplit : c.rest = c.rest.takeWhile isBlank ++ c.rest.dropWhile isBlank :=
    List.takeWhile_append_dropWhile.symm
  have hgap : IsGap (c.rest.takeWhile isBlank) := List.all_eq_true.1 List.all_takeWhile
  have hhead := head_dropWhile isBlank c.rest
  cases hcut : cut (c.rest.dropWhile isBlank) with
  | atEnd =>
    have hrest : c.rest.takeWhile isBlank = c.rest := by
      rw [cut_eq_atEnd_iff.1 hcut, List.append_nil] at hsplit
      exact hsplit.symm
    rw [hrest] at hgap
    rw [scan_atEnd hgap]
    exact .atEnd hgap
  | unclosed =>
    obtain ⟨rest, hq, hmem⟩ := cut_eq_unclosed_iff.1 hcut
    rw [hq] at hsplit
    rw [scan_unclosed hsplit hgap hmem]
    exact .unclosed hsplit hgap hmem
  | lexeme kind bytes =>
    obtain ⟨rest, hr, hv, he⟩ := exists_of_cut_eq_lexeme hhead hcut
    rw [hr] at hsplit
    rw [scan_lexeme hsplit hgap hv he]
    exact .lexeme hsplit hgap hv he

theorem ScanStep.of_scan {c : Cursor} {answer : Except Error Token × Cursor}
    (h : c.scan = answer) : c.ScanStep answer := by
  rw [← h]
  exact c.scan_step

/-! ### Many steps -/

end Cursor

/-- A token with the number of bytes that stand before its lexeme. -/
structure Mark where
  offset : Nat
  token : Token

namespace Cursor

/-- Steps from the one cursor to the other answer these tokens, none of them the end. -/
inductive Scans : Cursor → List Mark → Cursor → Prop
  | nil (c : Cursor) : Scans c [] c
  | cons {c next last : Cursor} {t : Token} {ms : List Mark} (h : c.scan = (.ok t, next))
    (ht : t.isEof = false) (hs : Scans next ms last) :
    Scans c (⟨next.lexemeStart, t⟩ :: ms) last

/-- The next step is the last one, for it answers the end or a fault. -/
def Stops (c : Cursor) : Prop := ∀ t next, c.scan = (.ok t, next) → t.isEof = true

section Stops

variable {c next : Cursor}

theorem stops_of_isEof {t : Token} (hscan : c.scan = (.ok t, next)) (ht : t.isEof = true) :
    c.Stops := by
  intro u last h
  rw [hscan] at h
  cases h
  exact ht

theorem stops_of_error {e : Error} (hscan : c.scan = (.error e, next)) : c.Stops := by
  intro u last h
  rw [hscan] at h
  cases h

theorem Stops.rest_scan (h : c.Stops) : c.scan.2.rest = [] := by
  cases hscan : c.scan with
  | mk result next =>
    cases ScanStep.of_scan hscan with
    | atEnd _ => rfl
    | unclosed _ _ _ => rfl
    | lexeme _ _ hv _ =>
      have ht := h _ _ hscan
      rw [hv.isEof_token] at ht
      cases ht

end Stops

theorem exists_scans (c : Cursor) : ∃ ms last, c.Scans ms last ∧ last.Stops := by
  induction hn : c.rest.length using Nat.strongRecOn generalizing c with
  | ind n ih =>
    cases hscan : c.scan with
    | mk result next =>
      cases result with
      | error e => exact ⟨[], c, .nil c, stops_of_error hscan⟩
      | ok t =>
        cases ht : t.isEof with
        | true => exact ⟨[], c, .nil c, stops_of_isEof hscan ht⟩
        | false =>
          have hlt := rest_scan_lt hscan ht
          obtain ⟨ms, last, hs, hstop⟩ := ih next.rest.length (by omega) next rfl
          exact ⟨_, last, .cons hscan ht hs, hstop⟩

theorem scanAll_eq (c : Cursor) :
    c.scanAll = match c.scan with
      | (.error e, next) => (.error e, next)
      | (.ok t, next) =>
        if t.isEof then (.ok [t], next) else (next.scanAll.1.map (t :: ·), next.scanAll.2) := by
  rw [scanAll]
  split <;> rename_i h <;> simp only [h, dite_eq_ite]
  split
  · rfl
  · split <;> rename_i hall <;> rw [hall] <;> rfl

section Step

variable {c next : Cursor} {t : Token}

theorem scanAll_of_error {e : Error} (h : c.scan = (.error e, next)) :
    c.scanAll = (.error e, next) := by
  rw [scanAll_eq, h]

theorem scanAll_of_isEof (h : c.scan = (.ok t, next)) (ht : t.isEof = true) :
    c.scanAll = (.ok [t], next) := by
  rw [scanAll_eq, h]
  exact if_pos ht

theorem scanAll_of_token (h : c.scan = (.ok t, next)) (ht : t.isEof = false) :
    c.scanAll = (next.scanAll.1.map (t :: ·), next.scanAll.2) := by
  rw [scanAll_eq, h]
  simp only [ht, Bool.false_eq_true, if_false]

end Step

theorem Scans.scanAll {c last : Cursor} {ms : List Mark} (h : c.Scans ms last) :
    c.scanAll = (last.scanAll.1.map (ms.map Mark.token ++ ·), last.scanAll.2) := by
  induction h with
  | nil c => cases hall : c.scanAll with | mk result next => cases result <;> rfl
  | cons hscan ht _ ih =>
    rw [scanAll_of_token hscan ht, ih]
    cases Cursor.scanAll _ with | mk result next => cases result <;> rfl

/-- All tokens up to the end are those of the steps that lead there. -/
theorem scanAll_eq_ok_iff {c : Cursor} {ts : List Token} {t : Token} :
    c.scanAll.1 = .ok (ts ++ [t]) ↔
      ∃ ms last next, c.Scans ms last ∧ last.scan = (.ok t, next) ∧ t.isEof = true ∧
        ms.map Mark.token = ts := by
  constructor
  · intro h
    obtain ⟨ms, last, hs, hstop⟩ := c.exists_scans
    rw [hs.scanAll] at h
    cases hscan : last.scan with
    | mk result next =>
      cases result with
      | error e =>
        rw [scanAll_of_error hscan] at h
        cases h
      | ok t' =>
        have ht := hstop t' next hscan
        rw [scanAll_of_isEof hscan ht] at h
        obtain ⟨hts, htt⟩ := List.append_inj' (Except.ok.inj h) rfl
        cases htt
        exact ⟨ms, last, next, hs, hscan, ht, hts⟩
  · intro h
    obtain ⟨ms, last, next, hs, hscan, ht, rfl⟩ := h
    rw [hs.scanAll, scanAll_of_isEof hscan ht]
    rfl

/-! ### Where the tokens stand -/

/-- The cursor stands in `source`, and knows where. -/
structure IsOn (source : List UInt8) (c : Cursor) : Prop where
  offset_le : c.offset ≤ source.length
  rest : source.drop c.offset = c.rest
  position : c.position = .at source c.offset
  lexemeStart_le : c.lexemeStart ≤ c.offset

theorem isOn_ofSource (source : List UInt8) : IsOn source (ofSource source) where
  offset_le := Nat.zero_le _
  rest := rfl
  position := rfl
  lexemeStart_le := Nat.le_refl 0

namespace IsOn

variable {source : List UInt8} {c : Cursor}

theorem source_eq (h : IsOn source c) : source = source.take c.offset ++ c.rest := by
  rw [← h.rest, List.take_append_drop]

theorem past (h : IsOn source c) {gap bytes rest : List UInt8}
    (hr : c.rest = gap ++ (bytes ++ rest)) : IsOn source (c.past gap bytes rest) := by
  have hs : source = (source.take c.offset ++ gap ++ bytes) ++ rest := by
    rw [List.append_assoc, List.append_assoc, ← hr]
    exact h.source_eq
  have hlen : (source.take c.offset ++ gap ++ bytes).length = c.offset + gap.length + bytes.length := by
    have := h.offset_le
    simp only [List.length_append, List.length_take]
    omega
  refine ⟨?_, ?_, ?_, ?_⟩
  · have := congrArg List.length hs
    rw [List.length_append, hlen] at this
    exact Nat.le.intro this.symm
  · show source.drop (c.offset + gap.length + bytes.length) = rest
    rw [← hlen]
    exact (congrArg (List.drop _) hs).trans List.drop_left
  · show (c.position.after gap).after bytes = .at source (c.offset + gap.length + bytes.length)
    rw [h.position, Position.at, Position.at, Position.after_past, Position.after_past, ← hlen]
    exact congrArg Position.past (((congrArg (List.take _) hs).trans List.take_left).symm)
  · exact Nat.le_add_right _ _

theorem atEnd (h : IsOn source c) : IsOn source (c.past c.rest [] []) :=
  h.past (by simp)

theorem gap (h : IsOn source c) {gap rest : List UInt8} (hr : c.rest = gap ++ rest) :
    IsOn source (c.past gap [] rest) :=
  h.past hr

theorem scan (h : IsOn source c) : IsOn source c.scan.2 := by
  have hstep := c.scan_step
  generalize c.scan = s at hstep
  cases hstep with
  | atEnd hg => exact h.atEnd
  | unclosed hr _ _ => exact h.past (by rw [List.append_nil]; exact hr)
  | lexeme hr _ _ _ => exact h.past hr

theorem next (h : IsOn source c) {result : Except Error Token} {next : Cursor}
    (hscan : c.scan = (result, next)) : IsOn source next := by
  have hnext := h.scan
  rw [hscan] at hnext
  exact hnext

end IsOn

end Cursor

/-- The token is a lexeme of the source, decoded, and knows the place of its first byte. -/
def Mark.Lexed (source : List UInt8) (m : Mark) : Prop :=
  ∃ (l : Lexeme) (rest : List UInt8), source.drop m.offset = l.bytes ++ rest ∧ l.Valid ∧
    l.EndsBefore rest ∧ m.token = l.token (.at source m.offset)

namespace Cursor

theorem lexed_of_scan {source : List UInt8} {c next : Cursor} {t : Token} (hc : IsOn source c)
    (h : c.scan = (.ok t, next)) (ht : t.isEof = false) :
    Mark.Lexed source ⟨next.lexemeStart, t⟩ := by
  cases ScanStep.of_scan h with
  | atEnd hg => cases ht
  | @lexeme gap l rest hr hg hv he =>
    have hgap := hc.gap hr
    exact ⟨l, rest, hgap.rest, hv, he, congrArg l.token hgap.position⟩

theorem Scans.isOn {source : List UInt8} {c last : Cursor} {ms : List Mark} (h : c.Scans ms last)
    (hc : IsOn source c) : IsOn source last := by
  induction h with
  | nil c => exact hc
  | cons hscan _ _ ih => exact ih (hc.next hscan)

theorem Scans.lexed {source : List UInt8} {c last : Cursor} {ms : List Mark} (h : c.Scans ms last)
    (hc : IsOn source c) : ∀ m ∈ ms, m.Lexed source := by
  induction h with
  | nil c => simp
  | cons hscan ht _ ih =>
    intro m hm
    rcases List.mem_cons.1 hm with rfl | hm
    · exact lexed_of_scan hc hscan ht
    · exact ih (hc.next hscan) m hm

end Cursor

/-! ### Without places -/

/-- The source begins with these lexemes, each of them over where it ends and gaps before them, and
goes on with `rest`. -/
inductive Lexes : List UInt8 → List Lexeme → List UInt8 → Prop
  | nil (source : List UInt8) : Lexes source [] source
  | cons {gap source rest : List UInt8} {l : Lexeme} {ls : List Lexeme} (hg : IsGap gap)
    (hv : l.Valid) (he : l.EndsBefore source) (h : Lexes source ls rest) :
    Lexes (gap ++ (l.bytes ++ source)) (l :: ls) rest

/-- What a token is, wherever it stands. -/
def Token.shape (t : Token) : TokenKind × String := (t.kind, t.lexeme)

/-- What the token of a lexeme is, wherever it stands. -/
def Lexeme.shape (l : Lexeme) : TokenKind × String := (l.kind, Utf8.text l.bytes)

theorem Cursor.Scans.lexes {c last : Cursor} {ms : List Mark} (h : c.Scans ms last) :
    ∃ ls, Lexes c.rest ls last.rest ∧ ms.map (·.token.shape) = ls.map Lexeme.shape := by
  induction h with
  | nil c => exact ⟨[], .nil c.rest, rfl⟩
  | @cons c next last t ms hscan ht _ ih =>
    obtain ⟨ls, hlex, hshape⟩ := ih
    cases ScanStep.of_scan hscan with
    | atEnd hg => cases ht
    | @lexeme gap l rest hr hg hv he =>
      rw [hr]
      exact ⟨l :: ls, .cons hg hv he hlex, by rw [List.map_cons, List.map_cons, hshape]; rfl⟩

theorem Lexes.scans {c : Cursor} {ls : List Lexeme} {rest : List UInt8}
    (h : Lexes c.rest ls rest) :
    ∃ ms last, c.Scans ms last ∧ last.rest = rest ∧
      ms.map (·.token.shape) = ls.map Lexeme.shape := by
  generalize hs : c.rest = source at h
  induction h generalizing c with
  | nil source => exact ⟨[], c, .nil c, hs, rfl⟩
  | @cons gap source rest l ls hg hv he h ih =>
    have hscan := Cursor.scan_lexeme hs hg hv he
    have hrest : (c.past gap l.bytes source).rest = source := rfl
    obtain ⟨ms, last, hms, hlast, hshape⟩ := ih hrest
    exact ⟨_, last, .cons hscan (hv.isEof_token _) hms, hlast, by
      rw [List.map_cons, List.map_cons, hshape]; rfl⟩

end Sexp
