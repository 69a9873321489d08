import Sexp.Proofs.Grammar

/-!
# Runs that differ in places only

What is read depends on the kinds and texts of the tokens; places are only handed on, and so are the
expressions that are finished already (`Builder.push_carried`). When two cursors answer every step
alike up to where it stands, all that is answered by steps is alike up to where it stands: all tokens
(`Cursor.Alike.scanAll`) and all expressions (`Cursor.Alike.readInto`).
-/

namespace Sexp

section Moved

variable (f : Position → Position)

def Token.moved (t : Token) : Token := { t with position := f t.position }

def Error.moved : Error → Error
  | unterminatedString p => unterminatedString (f p)
  | invalidNumber lexeme reason p => invalidNumber lexeme reason (f p)
  | unexpectedRightParen p => unexpectedRightParen (f p)
  | unterminatedList p => unterminatedList (f p)
  | workersUnavailable detail => workersUnavailable detail

/-- The builder with its places moved, and with finished expressions before its own. -/
def Builder.carried (es : List Expr) (b : Builder) : Builder where
  done := b.done ++ es.reverse
  frames := b.frames.map fun r => { r with opened := f r.opened }

/-- An answer with its places moved, if `move` does so with what it holds. -/
def movedAnswer {α : Type} (move : α → α) (x : Except Error α) : Except Error α :=
  (x.map move).mapError (Error.moved f)

/-! ### One token -/

namespace Builder

variable (es : List Expr)

theorem add_carried (b : Builder) (e : Expr) : (b.carried f es).add e = (b.add e).carried f es := by
  obtain ⟨done, frames⟩ := b
  cases frames <;> rfl

theorem closeList_carried (b : Builder) (p : Position) :
    (b.carried f es).closeList (f p) = movedAnswer f (carried f es) (b.closeList p) := by
  obtain ⟨done, frames⟩ := b
  cases frames with
  | nil => rfl
  | cons r rs =>
    simp only [closeList, carried, List.map_cons]
    exact congrArg Except.ok (add_carried f es ⟨done, rs⟩ (.list r.items.reverse))

theorem push_carried (b : Builder) (t : Token) :
    (b.carried f es).push (t.moved f) = movedAnswer f (carried f es) (b.push t) := by
  obtain ⟨kind, lexeme, p⟩ := t
  cases kind with
  | rightParen => exact b.closeList_carried f es p
  | number =>
    simp only [push, Token.moved, Token.number]
    cases Decimal.read lexeme with
    | error fault => rfl
    | ok value => exact congrArg Except.ok (add_carried f es b (.number value))
  | symbol => exact congrArg Except.ok (add_carried f es b (.symbol lexeme))
  | string => exact congrArg Except.ok (add_carried f es b (.string (unquoted lexeme)))
  | leftParen | eof => rfl

theorem finish_carried (b : Builder) :
    (b.carried f es).finish = movedAnswer f (es ++ ·) b.finish := by
  obtain ⟨done, frames⟩ := b
  cases frames with
  | nil =>
    show Except.ok (done ++ es.reverse).reverse = Except.ok (es ++ done.reverse)
    rw [List.reverse_append, List.reverse_reverse]
  | cons r rs => rfl

end Builder

end Moved

theorem Error.moved_id (e : Error) : e.moved id = e := by cases e <;> rfl

theorem Builder.carried_id (es : List Expr) (b : Builder) :
    b.carried id es = { b with done := b.done ++ es.reverse } := by
  simp [carried]

theorem Builder.carried_id_nil (b : Builder) : b.carried id [] = b := by simp [carried_id]

theorem movedAnswer_id {α : Type} (move : α → α) (x : Except Error α) :
    movedAnswer id move x = x.map move := by
  cases x with
  | error e => exact congrArg Except.error e.moved_id
  | ok a => rfl

theorem movedAnswer_id_nil (x : Except Error (List Expr)) : movedAnswer id ([] ++ ·) x = x := by
  rw [movedAnswer_id]
  cases x <;> rfl

theorem movedAnswer_nil_append (f : Position → Position) (x : Except Error (List Expr)) :
    movedAnswer f ([] ++ ·) x = x.mapError (Error.moved f) := by
  cases x <;> rfl

/-! ### All tokens and all expressions -/

namespace Cursor

/-- Cursors in this relation answer a step alike, once the places are moved, and stay in it. -/
def Alike (f g : Position → Position) (R : Cursor → Cursor → Prop) : Prop :=
  ∀ c d : Cursor, R c d →
    movedAnswer f (Token.moved f) c.scan.1 = movedAnswer g (Token.moved g) d.scan.1 ∧
      R c.scan.2 d.scan.2

namespace Alike

variable {f g : Position → Position} {R : Cursor → Cursor → Prop}

theorem scan_cases (h : Alike f g R) {c d : Cursor} (hcd : R c d) :
    ∃ next next', R next next' ∧
      ((∃ e e', c.scan = (.error e, next) ∧ d.scan = (.error e', next') ∧ e.moved f = e'.moved g) ∨
        ∃ t t', c.scan = (.ok t, next) ∧ d.scan = (.ok t', next') ∧ t.moved f = t'.moved g ∧
          t'.isEof = t.isEof) := by
  obtain ⟨hscan, hnext⟩ := h c d hcd
  cases hc : c.scan with
  | mk result next =>
    cases hd : d.scan with
    | mk result' next' =>
      rw [hc, hd] at hscan hnext
      refine ⟨next, next', hnext, ?_⟩
      cases result with
      | error e =>
        cases result' with
        | ok t' => cases hscan
        | error e' => exact .inl ⟨e, e', rfl, rfl, Except.error.inj hscan⟩
      | ok t =>
        cases result' with
        | error e' => cases hscan
        | ok t' =>
          have ht : t.moved f = t'.moved g := Except.ok.inj hscan
          have heof : (t.moved f).isEof = (t'.moved g).isEof := congrArg Token.isEof ht
          exact .inr ⟨t, t', rfl, rfl, ht, heof.symm⟩

theorem scanAll (h : Alike f g R) {c d : Cursor} (hcd : R c d) :
    movedAnswer f (List.map (Token.moved f)) c.scanAll.1 =
      movedAnswer g (List.map (Token.moved g)) d.scanAll.1 := by
  -- By how much is left: a token other than the end leaves less.
  induction hn : c.rest.length using Nat.strongRecOn generalizing c d with
  | ind n ih =>
    obtain ⟨next, next', hnext, ⟨e, e', hc, hd, he⟩ | ⟨t, t', hc, hd, ht, heof⟩⟩ := h.scan_cases hcd
    · rw [scanAll_of_error hc, scanAll_of_error hd]
      exact congrArg Except.error he
    · cases hlast : t.isEof with
      | true =>
        rw [scanAll_of_isEof hc hlast, scanAll_of_isEof hd (heof.trans hlast)]
        exact congrArg (fun u => Except.ok [u]) ht
      | false =>
        have hlt := rest_scan_lt hc hlast
        have hrest := ih next.rest.length (by omega) hnext rfl
        have hcons (f : Position → Position) (u : Token) (x : Except Error (List Token)) :
            movedAnswer f (List.map (Token.moved f)) (x.map (u :: ·)) =
              (movedAnswer f (List.map (Token.moved f)) x).map (u.moved f :: ·) := by
          cases x <;> rfl
        rw [scanAll_of_token hc hlast, scanAll_of_token hd (heof.trans hlast), hcons, hcons, ht, hrest]

theorem readInto (h : Alike f g R) {c d : Cursor} (hcd : R c d) {es fs : List Expr}
    {b b' : Builder} (hb : b.carried f es = b'.carried g fs) :
    movedAnswer f (es ++ ·) (c.readInto b).1 = movedAnswer g (fs ++ ·) (d.readInto b').1 ∧
      R (c.readInto b).2 (d.readInto b').2 := by
  induction hn : c.rest.length using Nat.strongRecOn generalizing c d b b' with
  | ind n ih =>
    obtain ⟨next, next', hnext, ⟨e, e', hc, hd, he⟩ | ⟨t, t', hc, hd, ht, heof⟩⟩ := h.scan_cases hcd
    · rw [readInto_of_error hc, readInto_of_error hd]
      exact ⟨congrArg Except.error he, hnext⟩
    · cases hlast : t.isEof with
      | true =>
        rw [readInto_of_isEof hc hlast, readInto_of_isEof hd (heof.trans hlast),
          ← b.finish_carried, ← b'.finish_carried, hb]
        exact ⟨rfl, hnext⟩
      | false =>
        have hlast' := heof.trans hlast
        have hpush : movedAnswer f (Builder.carried f es) (b.push t) =
            movedAnswer g (Builder.carried g fs) (b'.push t') := by
          rw [← b.push_carried, ← b'.push_carried, hb, ht]
        cases hpb : b.push t with
        | error e =>
          cases hpb' : b'.push t' with
          | ok b₁' =>
            rw [hpb, hpb'] at hpush
            cases hpush
          | error e' =>
            rw [hpb, hpb'] at hpush
            rw [readInto_of_push_error hc hlast hpb, readInto_of_push_error hd hlast' hpb']
            exact ⟨congrArg Except.error (Except.error.inj hpush), hnext⟩
        | ok b₁ =>
          cases hpb' : b'.push t' with
          | error e' =>
            rw [hpb, hpb'] at hpush
            cases hpush
          | ok b₁' =>
            rw [hpb, hpb'] at hpush
            rw [readInto_of_push hc hlast hpb, readInto_of_push hd hlast' hpb']
            have hlt := rest_scan_lt hc hlast
            exact ih next.rest.length (by omega) hnext (Except.ok.inj hpush) rfl

end Alike
end Cursor
end Sexp
