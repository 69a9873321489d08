import Sexp.Proofs.FirstFault
import Sexp.Proofs.Moving
import Sexp.Proofs.Reading

/-!
# Reading on

A cursor that has been read from before reads on like a new one on what is left of the source, except
that the places it reports are those of the whole source: a run that begins elsewhere is the same run
(`Cursor.Shifted.readInto`), and no list that was open before is open now (`reads_resume`).
-/

namespace Sexp

/-! ### Places of a source that begins elsewhere -/

namespace Position

theorem relativeTo_afterByte {p : Position} (origin : Position) (b : UInt8) (hl : 1 ≤ p.line)
    (hc : 1 ≤ p.column) :
    origin.relativeTo (p.afterByte b) = (origin.relativeTo p).afterByte b := by
  have hline : ¬ p.line = 0 := by omega
  by_cases hb : b = newline
  · simp only [afterByte, relativeTo, hb, if_true, Nat.add_eq_right, hline, if_false, mk.injEq, and_true]
    omega
  · simp only [afterByte, relativeTo, hb, if_false, mk.injEq, true_and]
    split <;> omega

theorem one_le_afterByte {p : Position} (b : UInt8) (hl : 1 ≤ p.line) :
    1 ≤ (p.afterByte b).line ∧ 1 ≤ (p.afterByte b).column := by
  unfold afterByte
  split
  · exact ⟨Nat.le_add_left 1 _, Nat.le_refl 1⟩
  · exact ⟨hl, Nat.le_add_left 1 _⟩

theorem relativeTo_after {p : Position} (origin : Position) (bytes : List UInt8) (hl : 1 ≤ p.line)
    (hc : 1 ≤ p.column) :
    origin.relativeTo (p.after bytes) = (origin.relativeTo p).after bytes ∧
      1 ≤ (p.after bytes).line ∧ 1 ≤ (p.after bytes).column := by
  induction bytes generalizing p with
  | nil => exact ⟨rfl, hl, hc⟩
  | cons b bytes ih =>
    obtain ⟨hl', hc'⟩ := one_le_afterByte b hl
    rw [after_cons, after_cons, ← relativeTo_afterByte origin b hl hc]
    exact ih hl' hc'

end Position

def Token.relativeTo (origin : Position) (t : Token) : Token :=
  { t with position := origin.relativeTo t.position }

def Builder.relativeTo (origin : Position) (b : Builder) : Builder :=
  { b with frames := b.frames.map fun f => { f with opened := origin.relativeTo f.opened } }

/-- An answer as it is when the source begins at `origin`. -/
def answerRelativeTo {α : Type} (origin : Position) (move : α → α) (x : Except Error α) :
    Except Error α :=
  (x.map move).mapError (Error.relativeTo origin)

theorem Error.relativeTo_eq_moved (origin : Position) :
    Error.relativeTo origin = Error.moved origin.relativeTo := by
  funext e
  cases e <;> rfl

/-! ### A cursor of a source that begins elsewhere -/

namespace Cursor

/-- The second cursor stands before what the first one stands before, in a source that begins at
`origin`. -/
structure Shifted (origin : Position) (c d : Cursor) : Prop where
  rest : d.rest = c.rest
  position : d.position = origin.relativeTo c.position
  line : 1 ≤ c.position.line
  column : 1 ≤ c.position.column

namespace Shifted

variable {origin : Position} {c d : Cursor}

theorem advance (h : Shifted origin c d) (n : Nat) : Shifted origin (c.advance n) (d.advance n) := by
  obtain ⟨hplace, hline, hcolumn⟩ :=
    Position.relativeTo_after origin (c.rest.take n) h.line h.column
  refine ⟨?_, ?_, hline, hcolumn⟩
  · rw [rest_advance, rest_advance, h.rest]
  · show d.position.after (d.rest.take n) = _
    rw [h.rest, h.position]
    exact hplace.symm

theorem skipBlanks (h : Shifted origin c d) : Shifted origin c.skipBlanks d.skipBlanks := by
  obtain ⟨hrest, hposition, hline, hcolumn⟩ := h.advance (c.rest.takeWhile isBlank).length
  simp only [Cursor.skipBlanks, h.rest]
  exact ⟨hrest, hposition, hline, hcolumn⟩

theorem scan (h : Shifted origin c d) :
    d.scan.1 = answerRelativeTo origin (Token.relativeTo origin) c.scan.1 ∧
      Shifted origin c.scan.2 d.scan.2 := by
  have hskip := h.skipBlanks
  simp only [Cursor.scan, hskip.rest]
  cases cut c.skipBlanks.rest with
  | atEnd =>
    refine ⟨?_, hskip⟩
    rw [hskip.position]
    rfl
  | unclosed =>
    refine ⟨?_, ?_⟩
    · rw [hskip.position]
      rfl
    · show Shifted origin c.skipBlanks.toEnd d.skipBlanks.toEnd
      rw [toEnd, toEnd, hskip.rest]
      exact hskip.advance _
  | lexeme kind bytes =>
    refine ⟨?_, hskip.advance bytes.length⟩
    rw [hskip.position]
    rfl

theorem alike (origin : Position) : Alike origin.relativeTo id (Shifted origin) := by
  intro c d h
  obtain ⟨hscan, hnext⟩ := h.scan
  have hsame : d.scan.1.map (Token.moved id) = d.scan.1 := by cases d.scan.1 <;> rfl
  refine ⟨?_, hnext⟩
  rw [movedAnswer_id, hsame, hscan, answerRelativeTo, Error.relativeTo_eq_moved]
  rfl

/-- A run that begins elsewhere is the same run, up to the places of its faults. -/
theorem readInto (h : Shifted origin c d) (b : Builder) :
    (d.readInto (b.relativeTo origin)).1 = (c.readInto b).1.mapError (Error.relativeTo origin) ∧
      Shifted origin (c.readInto b).2 (d.readInto (b.relativeTo origin)).2 := by
  have hb : b.carried origin.relativeTo [] = (b.relativeTo origin).carried id [] := by
    rw [Builder.carried_id_nil, Builder.carried, List.reverse_nil, List.append_nil]
    rfl
  obtain ⟨hread, hnext⟩ := (alike origin).readInto h hb
  rw [movedAnswer_nil_append, movedAnswer_id_nil, ← Error.relativeTo_eq_moved] at hread
  exact ⟨hread.symm, hnext⟩

end Shifted

/-- What is read from a cursor is what is read of the rest of its source alone. -/
theorem IsOn.read_eq {source : List UInt8} {c : Cursor} (h : IsOn source c) :
    c.read.1 = (Sexp.read (source.drop c.offset)).mapError
      (Error.relativeTo (.at source c.offset)) := by
  have hshift : Shifted (.at source c.offset) (ofSource (source.drop c.offset)) c :=
    ⟨h.rest.symm, h.position, Nat.le_refl 1, Nat.le_refl 1⟩
  exact (hshift.readInto .empty).1

end Cursor

/-! ### Reading again and again -/

/-- The cursor of a source that has been read `k` times. -/
def resumed (source : List UInt8) (k : Nat) : Cursor :=
  (Cursor.ofSource source).afterRequests (List.replicate k .read)

/-- Where a reading leaves off that was the one after `k` others and had this outcome: past the closing
parenthesis or the number that it complains about, and else at the end, with nothing left to read. -/
def LeavesOff (source : List UInt8) (k : Nat) : Except Error (List Expr) → Prop
  | .error (.unexpectedRightParen p) =>
    ∃ n, p = .at source n ∧ source[n]? = some closeParen ∧ (resumed source (k + 1)).offset = n + 1
  | .error (.invalidNumber lexeme _ p) =>
    ∃ n rest, p = .at source n ∧ source.drop n = Utf8.encode lexeme.toList ++ rest ∧
      (∀ b ∈ rest.head?, isNumeric b = false) ∧
      (resumed source (k + 1)).offset = n + (Utf8.encode lexeme.toList).length
  | _ =>
    (resumed source (k + 1)).offset = source.length ∧
      ∀ j, k < j → (resumed source j).read.1 = .ok []

/-- The tokens of a source up to its end or a string that has none. -/
def TokensOf (source : List UInt8) (ms : List Mark) : Prop :=
  ∃ last, (Cursor.ofSource source).Scans ms last ∧ last.Stops

/-- The reading after `k` others takes the byte at offset `i`. -/
def Takes (source : List UInt8) (k i : Nat) : Prop :=
  (resumed source k).offset ≤ i ∧ i < (resumed source (k + 1)).offset

theorem Cursor.rest_afterReads_of_nil {c : Cursor} (h : c.rest = []) (k : Nat) :
    (c.afterRequests (List.replicate k .read)).rest = [] := by
  induction k with
  | zero => exact h
  | succ k ih =>
    rw [afterRequests_replicate_succ]
    exact (read_of_nil ih).2

section Resumed

variable (source : List UInt8)

theorem isOn_resumed (k : Nat) : (resumed source k).IsOn source :=
  (Cursor.isOn_ofSource source).afterRequests _

theorem resumed_add (k i : Nat) :
    resumed source (k + i) = (resumed source k).afterRequests (List.replicate i .read) := by
  rw [resumed, ← List.replicate_append_replicate, Cursor.afterRequests_append]
  rfl

theorem resumed_succ (k : Nat) : resumed source (k + 1) = (resumed source k).read.2 :=
  Cursor.afterRequests_replicate_succ _ _ k

variable {source}

theorem resumed_of_nil {k : Nat} (h : (resumed source k).rest = []) :
    (resumed source k).offset = source.length ∧
      ∀ j, k ≤ j → (resumed source j).read.1 = .ok [] := by
  have hon := isOn_resumed source k
  have hle := hon.offset_le
  have hdrop := hon.rest.trans h
  rw [List.drop_eq_nil_iff] at hdrop
  refine ⟨by omega, fun j hj => ?_⟩
  obtain ⟨i, rfl⟩ := Nat.exists_eq_add_of_le hj
  rw [resumed_add]
  exact (Cursor.read_of_nil (Cursor.rest_afterReads_of_nil h i)).1

theorem leavesOff (source : List UInt8) (k : Nat) : LeavesOff source k (resumed source k).read.1 := by
  obtain ⟨ms, last, b, hs, _, hend⟩ := (resumed source k).readInto_ends .empty
  have hon := hs.isOn (isOn_resumed source k)
  have hnext : ((resumed source k).readInto .empty).2 = resumed source (k + 1) :=
    (resumed_succ source k).symm
  have hstep := last.scan_step
  rw [Cursor.read]
  generalize (resumed source k).readInto .empty = r at hend hnext
  cases hend with
  | @atEnd t next hscan ht =>
    rw [hscan] at hstep
    have hrest : (resumed source (k + 1)).rest = [] := by
      rw [← hnext]
      cases hstep with
      | atEnd _ => rfl
      | lexeme _ _ hv _ =>
        rw [hv.isEof_token] at ht
        cases ht
    obtain ⟨done, frames⟩ := b
    cases frames <;> exact resumed_of_nil hrest
  | @fault e next hscan =>
    rw [hscan] at hstep
    cases hstep with
    | unclosed _ _ _ =>
      have hrest : (resumed source (k + 1)).rest = [] := by rw [← hnext]; rfl
      exact resumed_of_nil hrest
  | @misfit t e next hscan ht hpush =>
    have hoff : next.offset = (resumed source (k + 1)).offset := by rw [← hnext]
    cases hon.misfit hscan ht hpush with
    | paren _ hdrop hoffset =>
      exact ⟨_, rfl, getElem?_of_drop hdrop 0, hoff.symm.trans hoffset⟩
    | @number bytes reason _ hl hv he hdrop hoffset _ =>
      have hbytes : Utf8.encode t.lexeme.toList = bytes := by
        rw [hl]
        exact hv.encode_text_number
      exact ⟨_, next.rest, rfl, by rw [hbytes, hdrop], he, by rw [← hoff, hoffset, hbytes]⟩

/-! ### No byte twice, and an end -/

theorem offset_le_resumed {j k : Nat} (h : j ≤ k) :
    (resumed source j).offset ≤ (resumed source k).offset := by
  induction h with
  | refl => exact Nat.le_refl _
  | step _ ih =>
    rw [resumed_succ]
    exact Nat.le_trans ih (Cursor.offset_le_readInto _ _)

theorem eq_of_takes {j k i : Nat} (hj : Takes source j i) (hk : Takes source k i) : j = k := by
  obtain ⟨hj₁, hj₂⟩ := hj
  obtain ⟨hk₁, hk₂⟩ := hk
  rcases Nat.lt_trichotomy j k with h | h | h
  · have hle : (resumed source (j + 1)).offset ≤ (resumed source k).offset := offset_le_resumed h
    omega
  · exact h
  · have hle : (resumed source (k + 1)).offset ≤ (resumed source j).offset := offset_le_resumed h
    omega

end Resumed

namespace Cursor

/-- A reading takes a token, or it is the last one. -/
theorem Scans.read_cases {c last : Cursor} {ms : List Mark} (h : c.Scans ms last)
    (hstop : last.Stops) :
    c.read.2.rest = [] ∨ ∃ vs, vs.length < ms.length ∧ c.read.2.Scans vs last := by
  obtain ⟨us, mid, b, hs, _, hend⟩ := c.readInto_ends .empty
  obtain ⟨vs, rfl, hvs⟩ := hs.exists_rest h hstop
  rw [read]
  generalize c.readInto .empty = r at hend
  cases hend with
  | atEnd hscan ht =>
    have hrest := (stops_of_isEof hscan ht).rest_scan
    rw [hscan] at hrest
    exact .inl hrest
  | fault hscan =>
    have hrest := (stops_of_error hscan).rest_scan
    rw [hscan] at hrest
    exact .inl hrest
  | misfit hscan ht _ =>
    cases hvs with
    | nil =>
      rw [hstop _ _ hscan] at ht
      cases ht
    | @cons _ next' _ t' vs hscan' _ hs' =>
      obtain ⟨_, rfl⟩ := Prod.mk.inj (hscan.symm.trans hscan')
      refine .inr ⟨vs, ?_, hs'⟩
      rw [List.length_append, List.length_cons]
      omega

theorem rest_afterReads {c last : Cursor} {ms : List Mark} (h : c.Scans ms last)
    (hstop : last.Stops) {k : Nat} (hk : ms.length < k) :
    (c.afterRequests (List.replicate k .read)).rest = [] := by
  induction k generalizing c ms with
  | zero => cases hk
  | succ k ih =>
    show (c.read.2.afterRequests (List.replicate k .read)).rest = []
    rcases h.read_cases hstop with hnil | ⟨vs, hlt, hvs⟩
    · exact rest_afterReads_of_nil hnil k
    · exact ih hvs (by omega)

end Cursor

/-- Reading a source again after a fault reads what is left of it as a source of its own; it leaves off
past the fault or at the end, where nothing is left to read, and it gets there: each reading but the
last takes a token, and none takes a byte that another has taken. -/
theorem reads_resume (source : List UInt8) :
    (∀ k, (resumed source k).position = .at source (resumed source k).offset ∧
      (resumed source k).read.1 =
        (read (source.drop (resumed source k).offset)).mapError
          (Error.relativeTo (.at source (resumed source k).offset)) ∧
      LeavesOff source k (resumed source k).read.1) ∧
    (∀ ms, TokensOf source ms → ∀ k, ms.length < k → (resumed source k).read.1 = .ok []) ∧
    ∀ i j k, Takes source j i → Takes source k i → j = k := by
  refine ⟨fun k => ?_, fun ms hms k hk => ?_, fun i j k hj hk => eq_of_takes hj hk⟩
  · have hon := isOn_resumed source k
    exact ⟨hon.position, hon.read_eq, leavesOff source k⟩
  · obtain ⟨last, hs, hstop⟩ := hms
    exact (Cursor.read_of_nil (Cursor.rest_afterReads hs hstop hk)).1

theorem stray_paren_reads_resume :
    ∃ ms, ms.length = 3 ∧ TokensOf (Utf8.encode ")\n(x".toList) ms ∧
      (resumed (Utf8.encode ")\n(x".toList) 1).read.1 = .error (.unterminatedList ⟨2, 1⟩) ∧
      (∀ k, 3 < k → (resumed (Utf8.encode ")\n(x".toList) k).read.1 = .ok []) ∧
      Takes (Utf8.encode ")\n(x".toList) 1 2 ∧
      ∀ k, Takes (Utf8.encode ")\n(x".toList) k 2 → 1 = k := by
  have h₁ : (Cursor.ofSource (Utf8.encode ")\n(x".toList)).scan =
      (.ok ⟨.rightParen, ")", ⟨1, 1⟩⟩, ⟨Utf8.encode "\n(x".toList, ⟨1, 2⟩, 1, 0⟩) := by
    with_unfolding_all rfl
  have h₂ : Cursor.scan ⟨Utf8.encode "\n(x".toList, ⟨1, 2⟩, 1, 0⟩ =
      (.ok ⟨.leftParen, "(", ⟨2, 1⟩⟩, ⟨Utf8.encode "x".toList, ⟨2, 2⟩, 3, 2⟩) := by
    with_unfolding_all rfl
  have h₃ : Cursor.scan ⟨Utf8.encode "x".toList, ⟨2, 2⟩, 3, 2⟩ =
      (.ok ⟨.symbol, "x", ⟨2, 2⟩⟩, ⟨[], ⟨2, 3⟩, 4, 3⟩) := by
    with_unfolding_all rfl
  have hs := Cursor.Scans.cons h₁ rfl (.cons h₂ rfl (.cons h₃ rfl (.nil _)))
  have htokens : TokensOf (Utf8.encode ")\n(x".toList) _ := ⟨_, hs, fun t next h => by cases h; rfl⟩
  have htakes : Takes (Utf8.encode ")\n(x".toList) 1 2 := by
    constructor <;> with_unfolding_all decide
  refine ⟨_, rfl, htokens, ?_, (reads_resume _).2.1 _ htokens, htakes, fun k hk => ?_⟩
  · rw [((reads_resume _).1 1).2.1]
    with_unfolding_all rfl
  · exact (reads_resume _).2.2 2 1 k htakes hk

end Sexp
