import Sexp.Proofs.Yield
import Sexp.Reader

/-!
# The grammar of sources

A source is read as the expressions that yield its tokens, and as nothing else
(`read_eq_ok_iff_yields`). Tokens have no more than one such reading (`Yields.unique`), and they have
one exactly when their parentheses are balanced and their numbers are numerals (`exists_yields_iff`).
-/

namespace Sexp

/-! ### Reading along a run -/

namespace Cursor

theorem readInto_eq (b : Builder) (c : Cursor) :
    c.readInto b = match c.scan with
      | (.error e, next) => (.error e, next)
      | (.ok t, next) =>
        if t.isEof then (b.finish, next)
        else match b.push t with
          | .error e => (.error e, next)
          | .ok b => next.readInto b := by
  rw [readInto]
  split
  · rename_i h
    simp only [h]
  · rename_i t next h
    cases hb : b.push t <;> simp only [h, hb, dite_eq_ite]

section Step

variable {c next : Cursor} {t : Token} {b b' : Builder} {e : Error}

theorem readInto_of_error (h : c.scan = (.error e, next)) (b : Builder) :
    c.readInto b = (.error e, next) := by
  rw [readInto_eq, h]

theorem readInto_of_isEof (h : c.scan = (.ok t, next)) (ht : t.isEof = true) (b : Builder) :
    c.readInto b = (b.finish, next) := by
  rw [readInto_eq, h]
  exact if_pos ht

theorem readInto_of_push_error (h : c.scan = (.ok t, next)) (ht : t.isEof = false)
    (hb : b.push t = .error e) : c.readInto b = (.error e, next) := by
  rw [readInto_eq, h]
  simp only [ht, hb, Bool.false_eq_true, if_false]

theorem readInto_of_push (h : c.scan = (.ok t, next)) (ht : t.isEof = false)
    (hb : b.push t = .ok b') : c.readInto b = next.readInto b' := by
  rw [readInto_eq, h]
  simp only [ht, hb, Bool.false_eq_true, if_false]

end Step

theorem Scans.readInto {c last : Cursor} {ms : List Mark} (h : c.Scans ms last) {b b' : Builder}
    (hb : b.pushAll (ms.map Mark.token) = .ok b') : c.readInto b = last.readInto b' := by
  induction h generalizing b with
  | nil c =>
    cases hb
    rfl
  | cons hscan ht _ ih =>
    rw [List.map_cons, Builder.pushAll] at hb
    split at hb
    · cases hb
    · rename_i hpush
      rw [readInto_of_push hscan ht hpush, ih hb]

theorem Scans.readInto_error {c last : Cursor} {ms : List Mark} (h : c.Scans ms last) {b : Builder}
    {e : Error} (hb : b.pushAll (ms.map Mark.token) = .error e) : (c.readInto b).1 = .error e := by
  induction h generalizing b with
  | nil c => cases hb
  | cons hscan ht _ ih =>
    rw [List.map_cons, Builder.pushAll] at hb
    split at hb
    · rename_i hpush
      cases hb
      rw [readInto_of_push_error hscan ht hpush]
    · rename_i hpush
      rw [readInto_of_push hscan ht hpush, ih hb]

theorem Scans.written {source : List UInt8} {last : Cursor} {ms : List Mark}
    (h : (ofSource source).Scans ms last) :
    ∀ t ∈ ms.map Mark.token, t.Written source.length := by
  intro t ht
  obtain ⟨m, hm, rfl⟩ := List.mem_map.1 ht
  exact (h.lexed (isOn_ofSource source) m hm).written

end Cursor

theorem written_of_scanAll {source : List UInt8} {ts : List Token} {eof : Token}
    (h : (Cursor.ofSource source).scanAll.1 = .ok (ts ++ [eof])) :
    ∀ t ∈ ts, t.Written source.length := by
  obtain ⟨ms, last, next, hs, _, _, rfl⟩ := Cursor.scanAll_eq_ok_iff.1 h
  exact hs.written

/-- A source is read as the expressions that yield its tokens. -/
theorem read_eq_ok_iff_yields {source : List UInt8} {es : List Expr} :
    read source = .ok es ↔
      ∃ ts t, (Cursor.ofSource source).scanAll.1 = .ok (ts ++ [t]) ∧ t.isEof = true ∧
        Yields es ts := by
  constructor
  · intro h
    obtain ⟨ms, last, hs, hstop⟩ := (Cursor.ofSource source).exists_scans
    rw [read, Cursor.read] at h
    cases hpush : Builder.empty.pushAll (ms.map Mark.token) with
    | error e =>
      rw [hs.readInto_error hpush] at h
      cases h
    | ok b =>
      rw [hs.readInto hpush] at h
      cases hscan : last.scan with
      | mk result next =>
        cases result with
        | error e =>
          rw [Cursor.readInto_of_error hscan] at h
          cases h
        | ok t =>
          have ht := hstop t next hscan
          rw [Cursor.readInto_of_isEof hscan ht] at h
          have hholds := Builder.holds_empty.pushAll hs.written hpush
          exact ⟨ms.map Mark.token, t, Cursor.scanAll_eq_ok_iff.2 ⟨ms, last, next, hs, hscan, ht, rfl⟩,
            ht, hholds.yields h⟩
  · intro h
    obtain ⟨ts, t, hall, ht, hy⟩ := h
    obtain ⟨ms, last, next, hs, hscan, _, rfl⟩ := Cursor.scanAll_eq_ok_iff.1 hall
    have hpush := hy.pushAll hs.written .empty
    rw [read, Cursor.read, hs.readInto hpush, Cursor.readInto_of_isEof hscan ht]
    simp [Builder.empty, Builder.finish]

/-! ### No more than one reading -/

theorem Yields.unique {size : Nat} {es fs : List Expr} {ts : List Token} (he : Yields es ts)
    (hf : Yields fs ts) (hw : ∀ t ∈ ts, t.Written size) : es = fs := by
  have h := (he.pushAll hw .empty).symm.trans (hf.pushAll hw .empty)
  simp only [Builder.empty, Builder.addAll_top, List.append_nil, Except.ok.injEq,
    Builder.mk.injEq, and_true] at h
  exact List.reverse_inj.1 h

/-! ### When there is one -/

def opens (ts : List Token) : Nat := ts.countP (·.kind = .leftParen)

def closes (ts : List Token) : Nat := ts.countP (·.kind = .rightParen)

/-- Every list is closed, and none that is not open. -/
structure Balanced (ts : List Token) : Prop where
  within : ∀ us, us <+: ts → closes us ≤ opens us
  whole : closes ts = opens ts

theorem opens_cons (t : Token) (ts : List Token) : opens (t :: ts) = opens [t] + opens ts := by
  rw [opens, ← List.singleton_append, List.countP_append]
  rfl

theorem closes_cons (t : Token) (ts : List Token) : closes (t :: ts) = closes [t] + closes ts := by
  rw [closes, ← List.singleton_append, List.countP_append]
  rfl

namespace Builder

theorem opened_frames_add (b : Builder) (e : Expr) :
    (b.add e).frames.map Frame.opened = b.frames.map Frame.opened := by
  obtain ⟨done, frames⟩ := b
  cases frames <;> rfl

theorem length_frames_add (b : Builder) (e : Expr) : (b.add e).frames.length = b.frames.length := by
  have hlen := congrArg List.length (b.opened_frames_add e)
  rwa [List.length_map, List.length_map] at hlen

theorem length_frames_push {size : Nat} {b b' : Builder} {t : Token} (hw : t.Written size)
    (h : b.push t = .ok b') : b'.frames.length + closes [t] = b.frames.length + opens [t] := by
  cases push_step hw h with
  | opened hk => simp [opens, closes, hk, openList]
  | closed hk hf => simp [opens, closes, hk, hf, length_frames_add]
  | added ho hc _ => simp [opens, closes, ho, hc, length_frames_add]

theorem length_frames_pushAll {size : Nat} {b b' : Builder} {ts : List Token}
    (hw : ∀ t ∈ ts, t.Written size) (h : b.pushAll ts = .ok b') :
    b'.frames.length + closes ts = b.frames.length + opens ts := by
  induction ts generalizing b with
  | nil =>
    cases h
    rfl
  | cons t ts ih =>
    rw [pushAll] at h
    split at h
    · cases h
    · rename_i b₁ hb₁
      have h₁ := length_frames_push (hw t List.mem_cons_self) hb₁
      have h₂ := ih (fun u hu => hw u (List.mem_cons_of_mem t hu)) h
      rw [opens_cons, closes_cons]
      omega

theorem exists_push {b : Builder} {t : Token} (hc : closes [t] ≤ b.frames.length + opens [t])
    (hn : t.kind = .number → ∃ e, t.number = .ok e) : ∃ b', b.push t = .ok b' := by
  unfold push
  split
  · exact ⟨_, rfl⟩
  · rename_i hk
    unfold closeList
    split
    · rename_i hframes
      simp [opens, closes, hk, hframes] at hc
    · exact ⟨_, rfl⟩
  · exact ⟨_, rfl⟩
  · exact ⟨_, rfl⟩
  · rename_i hk
    obtain ⟨e, he⟩ := hn hk
    rw [he]
    exact ⟨_, rfl⟩
  · exact ⟨_, rfl⟩

theorem exists_pushAll {size : Nat} {b : Builder} {ts : List Token}
    (hw : ∀ t ∈ ts, t.Written size)
    (hc : ∀ us, us <+: ts → closes us ≤ b.frames.length + opens us)
    (hn : ∀ t ∈ ts, t.kind = .number → ∃ e, t.number = .ok e) : ∃ b', b.pushAll ts = .ok b' := by
  induction ts generalizing b with
  | nil => exact ⟨b, rfl⟩
  | cons t ts ih =>
    have hc₁ := hc [t] ⟨ts, rfl⟩
    obtain ⟨b₁, hb₁⟩ := exists_push hc₁ (hn t List.mem_cons_self)
    have hlen := length_frames_push (hw t List.mem_cons_self) hb₁
    have hc' : ∀ us, us <+: ts → closes us ≤ b₁.frames.length + opens us := by
      intro us hus
      have hc₂ := hc (t :: us) (List.cons_prefix_cons.2 ⟨rfl, hus⟩)
      rw [opens_cons, closes_cons] at hc₂
      omega
    obtain ⟨b', hb'⟩ := ih (fun u hu => hw u (List.mem_cons_of_mem t hu)) hc'
      fun u hu => hn u (List.mem_cons_of_mem t hu)
    exact ⟨b', (pushAll_cons hb₁ ts).trans hb'⟩

theorem exists_pushAll_of_append {b b' : Builder} {us vs : List Token}
    (h : b.pushAll (us ++ vs) = .ok b') : ∃ b₁, b.pushAll us = .ok b₁ := by
  induction us generalizing b with
  | nil => exact ⟨b, rfl⟩
  | cons u us ih =>
    rw [List.cons_append, pushAll] at h
    rw [pushAll]
    split at h
    · cases h
    · exact ih h

theorem exists_number_of_pushAll {b b' : Builder} {ts : List Token} (h : b.pushAll ts = .ok b') :
    ∀ t ∈ ts, t.kind = .number → ∃ e, t.number = .ok e := by
  induction ts generalizing b with
  | nil => simp
  | cons u ts ih =>
    rw [pushAll] at h
    split at h
    · cases h
    · rename_i b₁ hb₁
      intro t ht hk
      rcases List.mem_cons.1 ht with rfl | ht
      · simp only [push, hk] at hb₁
        cases hnum : t.number with
        | error e =>
          rw [hnum] at hb₁
          cases hb₁
        | ok e => exact ⟨e, rfl⟩
      · exact ih h t ht hk

end Builder

theorem Token.Written.exists_number_iff {size : Nat} {t : Token} (h : t.Written size)
    (hs : size ≤ 9223372036854775807) (hk : t.kind = .number) :
    (∃ e, t.number = .ok e) ↔ Decimal.IsNumeral t.lexeme.toList := by
  constructor
  · intro h
    obtain ⟨e, he⟩ := h
    obtain ⟨d, _, hd⟩ := (h.number_eq_ok_iff hk).1 he
    exact hd.toIsNumeral
  · intro hn
    obtain ⟨hnum, hne, hlen⟩ := h.number hk
    have hlt := Decimal.fractionLength_lt hne
    obtain ⟨d, hd⟩ := hn.exists_spells hnum (by omega)
    exact ⟨.number d, (h.number_eq_ok_iff hk).2 ⟨d, rfl, hd⟩⟩

theorem exists_yields_iff {size : Nat} {ts : List Token} (hs : size ≤ 9223372036854775807)
    (hw : ∀ t ∈ ts, t.Written size) :
    (∃ es, Yields es ts) ↔
      Balanced ts ∧ ∀ t ∈ ts, t.kind = .number → Decimal.IsNumeral t.lexeme.toList := by
  constructor
  · intro h
    obtain ⟨es, hy⟩ := h
    have hpush := hy.pushAll hw .empty
    refine ⟨⟨?_, ?_⟩, ?_⟩
    · rintro us ⟨vs, rfl⟩
      obtain ⟨b₁, hb₁⟩ := Builder.exists_pushAll_of_append hpush
      have hlen := Builder.length_frames_pushAll (fun t ht => hw t (by simp [ht])) hb₁
      simp only [Builder.empty, List.length_nil] at hlen
      omega
    · have hlen := Builder.length_frames_pushAll hw hpush
      simp only [Builder.empty, Builder.addAll_top, List.length_nil] at hlen
      omega
    · intro t ht hk
      exact ((hw t ht).exists_number_iff hs hk).1 (Builder.exists_number_of_pushAll hpush t ht hk)
  · intro h
    obtain ⟨hbal, hn⟩ := h
    have hopen : ∀ us, us <+: ts → closes us ≤ Builder.empty.frames.length + opens us := by
      intro us hus
      exact Nat.le_trans (hbal.within us hus) (Nat.le_add_left _ _)
    have hnumber : ∀ t ∈ ts, t.kind = .number → ∃ e, t.number = .ok e := by
      intro t ht hk
      exact ((hw t ht).exists_number_iff hs hk).2 (hn t ht hk)
    obtain ⟨b, hb⟩ := Builder.exists_pushAll hw hopen hnumber
    have hlen := Builder.length_frames_pushAll hw hb
    have hframes : b.frames = [] := by
      rw [hbal.whole] at hlen
      exact List.length_eq_zero_iff.1 (Nat.add_right_cancel hlen)
    have hfin : b.finish = .ok b.done.reverse := by simp only [Builder.finish, hframes]
    exact ⟨b.done.reverse, (Builder.holds_empty.pushAll hw hb).yields hfin⟩

/-- A source is read as the one list of expressions that yields its tokens; and its tokens have such a
list exactly when their parentheses are balanced and each number has a digit and one point at most. -/
theorem read_recognizes_grammar (source : List UInt8)
    (hlen : source.length ≤ 9223372036854775807) :
    (∀ es, read source = .ok es ↔
      ∃ ts eof, (Cursor.ofSource source).scanAll.1 = .ok (ts ++ [eof]) ∧ eof.isEof = true ∧
        Yields es ts) ∧
    ∀ ts eof, (Cursor.ofSource source).scanAll.1 = .ok (ts ++ [eof]) →
      (∀ es fs, Yields es ts → Yields fs ts → es = fs) ∧
      ((∃ es, Yields es ts) ↔
        Balanced ts ∧ ∀ t ∈ ts, t.kind = .number → Decimal.IsNumeral t.lexeme.toList) := by
  refine ⟨fun es => read_eq_ok_iff_yields, fun ts eof hall => ⟨fun es fs he hf => ?_, ?_⟩⟩
  · exact he.unique hf (written_of_scanAll hall)
  · exact exists_yields_iff hlen (written_of_scanAll hall)

theorem nested_source_yields :
    (Utf8.encode "(f (1.50) \"x\")".toList).length ≤ 9223372036854775807 ∧
      ∃ ts eof, (Cursor.ofSource (Utf8.encode "(f (1.50) \"x\")".toList)).scanAll.1 =
          .ok (ts ++ [eof]) ∧ eof.isEof = true ∧
        Yields [.list [.symbol "f", .list [.number ⟨150, 2, by decide, by decide⟩], .string "x"]] ts :=
  ⟨by decide, ((read_recognizes_grammar _ (by decide)).1 _).1 (by with_unfolding_all rfl)⟩

end Sexp
