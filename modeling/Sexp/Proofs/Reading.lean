import Sexp.Proofs.Grammar
import Sexp.Session

/-!
# How a reading ends

A reading takes tokens that fit and then ends with one more step: the end of the source, a fault of
that step, or a token that does not fit (`Cursor.readInto_ends`). Whatever is asked of a cursor is done
by steps, so it stays on its source (`Cursor.IsOn.afterRequests`), and the tokens that a request has
taken are the first of those that lay ahead (`Cursor.Scans.exists_rest`).
-/

namespace Sexp

theorem Token.number_error {t : Token} {e : Error} (h : t.number = .error e) :
    ∃ reason, e = .invalidNumber t.lexeme reason t.position := by
  unfold number at h
  split at h
  · cases h
  · exact ⟨_, (Except.error.inj h).symm⟩

/-- A token that does not fit is a closing parenthesis too many or a number that is no decimal. -/
theorem Builder.push_error_cases {b : Builder} {t : Token} {e : Error} (h : b.push t = .error e) :
    (t.kind = .rightParen ∧ e = .unexpectedRightParen t.position) ∨
      (t.kind = .number ∧ t.number = .error e ∧
        ∃ reason, e = .invalidNumber t.lexeme reason t.position) := by
  cases hk : t.kind with
  | rightParen =>
    simp only [push, hk, closeList] at h
    split at h
    · cases h
      exact .inl ⟨rfl, rfl⟩
    · cases h
  | number =>
    simp only [push, hk] at h
    cases hn : t.number with
    | ok e' =>
      rw [hn] at h
      cases h
    | error e' =>
      rw [hn] at h
      cases h
      exact .inr ⟨rfl, rfl, Token.number_error hn⟩
  | leftParen | symbol | string | eof =>
    simp only [push, hk] at h
    cases h

namespace Cursor

/-! ### The last step -/

/-- The step that ends a reading with builder `b`: what the reading answers, and where it leaves the
cursor. -/
inductive ReadEnd (b : Builder) (c : Cursor) : Except Error (List Expr) × Cursor → Prop
  | atEnd {t : Token} {next : Cursor} (h : c.scan = (.ok t, next)) (ht : t.isEof = true) :
    ReadEnd b c (b.finish, next)
  | fault {e : Error} {next : Cursor} (h : c.scan = (.error e, next)) :
    ReadEnd b c (.error e, next)
  | misfit {t : Token} {e : Error} {next : Cursor} (h : c.scan = (.ok t, next))
    (ht : t.isEof = false) (hb : b.push t = .error e) : ReadEnd b c (.error e, next)

theorem ReadEnd.scan_snd {b : Builder} {c : Cursor} {r : Except Error (List Expr) × Cursor}
    (h : c.ReadEnd b r) : c.scan.2 = r.2 := by
  cases h with
  | atEnd h _ => rw [h]
  | fault h => rw [h]
  | misfit h _ _ => rw [h]

theorem readInto_ends (b : Builder) (c : Cursor) :
    ∃ ms last b', c.Scans ms last ∧ b.pushAll (ms.map Mark.token) = .ok b' ∧
      last.ReadEnd b' (c.readInto b) := by
  -- By how much is left: a token that fits leaves less.
  induction hn : c.rest.length using Nat.strongRecOn generalizing c b with
  | ind n ih =>
    cases hscan : c.scan with
    | mk result next =>
      cases result with
      | error e =>
        refine ⟨[], c, b, .nil c, rfl, ?_⟩
        rw [readInto_of_error hscan]
        exact .fault hscan
      | ok t =>
        cases ht : t.isEof with
        | true =>
          refine ⟨[], c, b, .nil c, rfl, ?_⟩
          rw [readInto_of_isEof hscan ht]
          exact .atEnd hscan ht
        | false =>
          cases hb : b.push t with
          | error e =>
            refine ⟨[], c, b, .nil c, rfl, ?_⟩
            rw [readInto_of_push_error hscan ht hb]
            exact .misfit hscan ht hb
          | ok b₁ =>
            have hlt := rest_scan_lt hscan ht
            obtain ⟨ms, last, b', hs, hpush, hend⟩ := ih next.rest.length (by omega) b₁ next rfl
            refine ⟨_, last, b', .cons hscan ht hs, ?_, ?_⟩
            · rw [List.map_cons, Builder.pushAll_cons hb, hpush]
            · rw [readInto_of_push hscan ht hb]
              exact hend

theorem scanAll_ends (c : Cursor) :
    ∃ ms last, c.Scans ms last ∧ last.Stops ∧ c.scanAll.2 = last.scan.2 := by
  obtain ⟨ms, last, hs, hstop⟩ := c.exists_scans
  refine ⟨ms, last, hs, hstop, ?_⟩
  rw [hs.scanAll]
  cases hscan : last.scan with
  | mk result next =>
    cases result with
    | error e => rw [scanAll_of_error hscan]
    | ok t => rw [scanAll_of_isEof hscan (hstop t next hscan)]

theorem read_of_nil {c : Cursor} (h : c.rest = []) : c.read.1 = .ok [] ∧ c.read.2.rest = [] := by
  have hgap : IsGap c.rest := by
    rw [h]
    exact List.forall_mem_nil _
  rw [read, readInto_of_isEof (scan_atEnd hgap) rfl]
  exact ⟨rfl, rfl⟩

/-! ### What lies ahead -/

/-- Of the tokens up to a step that stops, those taken so far are the first. -/
theorem Scans.exists_rest {c mid last : Cursor} {us ms : List Mark} (hu : c.Scans us mid)
    (hm : c.Scans ms last) (hstop : last.Stops) : ∃ vs, ms = us ++ vs ∧ mid.Scans vs last := by
  induction hu generalizing ms with
  | nil c => exact ⟨ms, rfl, hm⟩
  | cons hscan ht _ ih =>
    cases hm with
    | nil =>
      rw [hstop _ _ hscan] at ht
      cases ht
    | cons hscan' _ hs =>
      obtain ⟨ht', hnext⟩ := Prod.mk.inj (hscan.symm.trans hscan')
      cases ht'
      subst hnext
      obtain ⟨vs, rfl, hvs⟩ := ih hs
      exact ⟨vs, rfl, hvs⟩

theorem Scans.of_rest_nil {c last : Cursor} {ms : List Mark} (h : c.Scans ms last)
    (hc : c.rest = []) : ms = [] ∧ last = c := by
  cases h with
  | nil => exact ⟨rfl, rfl⟩
  | cons hscan ht _ =>
    have hlt := rest_scan_lt hscan ht
    rw [hc] at hlt
    cases hlt

/-! ### Never back -/

theorem offset_le_scan (c : Cursor) : c.offset ≤ c.scan.2.offset := by
  have hstep := c.scan_step
  generalize c.scan = s at hstep
  cases hstep <;> simp only [past, Nat.add_assoc, Nat.le_add_right]

theorem Scans.offset_le {c last : Cursor} {ms : List Mark} (h : c.Scans ms last) :
    c.offset ≤ last.offset := by
  induction h with
  | nil c => exact Nat.le_refl _
  | @cons c _ _ _ _ hscan _ _ ih =>
    have hle := c.offset_le_scan
    rw [hscan] at hle
    exact Nat.le_trans hle ih

theorem offset_le_readInto (c : Cursor) (b : Builder) : c.offset ≤ (c.readInto b).2.offset := by
  obtain ⟨ms, last, b', hs, _, hend⟩ := c.readInto_ends b
  rw [← hend.scan_snd]
  exact Nat.le_trans hs.offset_le last.offset_le_scan

theorem offset_le_answer (c : Cursor) (r : Request) : c.offset ≤ (c.answer r).2.offset := by
  cases r with
  | scan => exact c.offset_le_scan
  | scanAll =>
    obtain ⟨ms, last, hs, _, hend⟩ := c.scanAll_ends
    show c.offset ≤ c.scanAll.2.offset
    rw [hend]
    exact Nat.le_trans hs.offset_le last.offset_le_scan
  | read => exact c.offset_le_readInto .empty

/-! ### Requests stay on their source -/

namespace IsOn

variable {source : List UInt8} {c : Cursor}

theorem exists_lexeme (h : IsOn source c) {t : Token} {next : Cursor} (hscan : c.scan = (.ok t, next))
    (ht : t.isEof = false) :
    ∃ l : Lexeme, l.Valid ∧ l.EndsBefore next.rest ∧ t = l.token (.at source next.lexemeStart) ∧
      source.drop next.lexemeStart = l.bytes ++ next.rest ∧
      next.offset = next.lexemeStart + l.bytes.length := by
  cases ScanStep.of_scan hscan with
  | atEnd _ => cases ht
  | @lexeme gap l rest hr _ hv he =>
    have hgap := h.gap hr
    exact ⟨l, hv, he, congrArg l.token hgap.position, hgap.rest, rfl⟩

theorem scanAll (h : IsOn source c) : IsOn source c.scanAll.2 := by
  obtain ⟨ms, last, hs, _, hend⟩ := c.scanAll_ends
  rw [hend]
  exact (hs.isOn h).scan

theorem readInto (h : IsOn source c) (b : Builder) : IsOn source (c.readInto b).2 := by
  obtain ⟨ms, last, b', hs, _, hend⟩ := c.readInto_ends b
  rw [← hend.scan_snd]
  exact (hs.isOn h).scan

theorem answer (h : IsOn source c) (r : Request) : IsOn source (c.answer r).2 := by
  cases r with
  | scan => exact h.scan
  | scanAll => exact h.scanAll
  | read => exact h.readInto .empty

theorem afterRequests (h : IsOn source c) (rs : List Request) :
    IsOn source (c.afterRequests rs) := by
  induction rs generalizing c with
  | nil => exact h
  | cons r rs ih => exact ih (h.answer r)

end IsOn

/-! ### A token that does not fit -/

/-- The token that a step has answered does not fit: which lexeme of the source it is, where the step
leaves the cursor, and the fault that this is. -/
inductive Misfit (source : List UInt8) (t : Token) (next : Cursor) : Error → Prop
  | paren (ht : t.kind = .rightParen) (hdrop : source.drop next.lexemeStart = closeParen :: next.rest)
    (hoffset : next.offset = next.lexemeStart + 1) :
    Misfit source t next (.unexpectedRightParen (.at source next.lexemeStart))
  | number {bytes : List UInt8} {reason : String} (ht : t.kind = .number)
    (hl : t.lexeme = Utf8.text bytes) (hv : Lexeme.Valid ⟨.number, bytes⟩)
    (he : ∀ b ∈ next.rest.head?, isNumeric b = false)
    (hdrop : source.drop next.lexemeStart = bytes ++ next.rest)
    (hoffset : next.offset = next.lexemeStart + bytes.length)
    (hn : t.number = .error (.invalidNumber t.lexeme reason (.at source next.lexemeStart))) :
    Misfit source t next (.invalidNumber t.lexeme reason (.at source next.lexemeStart))

theorem IsOn.misfit {source : List UInt8} {c next : Cursor} {t : Token} {b : Builder} {e : Error}
    (h : IsOn source c) (hscan : c.scan = (.ok t, next)) (ht : t.isEof = false)
    (hpush : b.push t = .error e) : Misfit source t next e := by
  obtain ⟨⟨kind, bytes⟩, hv, he, htoken, hdrop, hoffset⟩ := h.exists_lexeme hscan ht
  have hkind : t.kind = kind := congrArg Token.kind htoken
  have hlexeme : t.lexeme = Utf8.text bytes := congrArg Token.lexeme htoken
  have hplace : t.position = .at source next.lexemeStart := congrArg Token.position htoken
  rcases Builder.push_error_cases hpush with ⟨hk, rfl⟩ | ⟨hk, hn, reason, rfl⟩
  · obtain rfl : kind = .rightParen := hkind.symm.trans hk
    cases hv
    rw [hplace]
    exact .paren hk hdrop hoffset
  · obtain rfl : kind = .number := hkind.symm.trans hk
    rw [hplace] at hn ⊢
    exact .number hk hlexeme hv he hdrop hoffset hn

theorem afterRequests_replicate_succ (c : Cursor) (r : Request) (n : Nat) :
    c.afterRequests (List.replicate (n + 1) r) =
      ((c.afterRequests (List.replicate n r)).answer r).2 := by
  rw [List.replicate_succ', afterRequests_append]
  rfl

end Cursor
end Sexp
