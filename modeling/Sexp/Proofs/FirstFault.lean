import Sexp.Proofs.Grammar

/-!
# The first fault of a source

Going through the tokens of a source from the left with the parentheses that are open, a step offends
when it is a string without an end, a closing parenthesis too many, a number that is no numeral, or
the end of the source with a list open (`Offence`). Reading reports the first step that offends, and
nothing else (`read_reports_first_offence`); the place that it reports is that of a byte of the source
(`Error.PointsAt`).
-/

namespace Sexp

/-! ### Steps and offences -/

/-- The open lists after one more token, if `opened` are open before it; a list goes by the offset of
its parenthesis, and the innermost is first. -/
def openAfter (opened : List Nat) (m : Mark) : List Nat :=
  match m.token.kind with
  | .leftParen => m.offset :: opened
  | .rightParen => opened.tail
  | _ => opened

/-- The lists that are open after these tokens. -/
def openLists (ms : List Mark) : List Nat := ms.foldl openAfter []

/-- After the tokens `ms` of the source comes a step that looks for a lexeme at offset `n` and answers
`result`. -/
def NextStep (source : List UInt8) (ms : List Mark) (n : Nat) (result : Except Error Token) : Prop :=
  ∃ c next, (Cursor.ofSource source).Scans ms c ∧ c.scan = (result, next) ∧ next.lexemeStart = n

/-- What is wrong with a step that begins at offset `n`, where the lists `opened` are open, and the
fault that is reported for it. -/
inductive Offence (source : List UInt8) (opened : List Nat) (n : Nat)
    (result : Except Error Token) : Error → Prop
  | unclosedString (hq : source[n]? = some quote) (hlast : ∀ k, n < k → source[k]? ≠ some quote) :
    Offence source opened n result (.unterminatedString (.at source n))
  | strayParen {t : Token} (hr : result = .ok t) (hk : t.kind = .rightParen) (ho : opened = []) :
    Offence source opened n result (.unexpectedRightParen (.at source n))
  | badNumber {t : Token} (hr : result = .ok t) (hk : t.kind = .number)
    (hn : 2 ≤ t.lexeme.toList.count '.' ∨ ∀ c ∈ t.lexeme.toList, c.isDigit = false) :
    Offence source opened n result
      (.invalidNumber t.lexeme (Decimal.numeralFault t.lexeme.toList).message (.at source n))
  | unclosedList {t : Token} {o : Nat} {os : List Nat} (hr : result = .ok t) (hk : t.kind = .eof)
    (ho : opened = o :: os) : Offence source opened n result (.unterminatedList (.at source o))

/-- No step that answered one of these tokens offends. -/
def Unobjectionable (source : List UInt8) (opened : List Nat) (ms : List Mark) : Prop :=
  ∀ us m vs, ms = us ++ m :: vs →
    ∀ e, ¬ Offence source (us.foldl openAfter opened) m.offset (.ok m.token) e

/-- The first step that offends does so with this fault. -/
def FirstOffence (source : List UInt8) (e : Error) : Prop :=
  ∃ ms n result, NextStep source ms n result ∧ Offence source (openLists ms) n result e ∧
    Unobjectionable source [] ms

/-- What stands at offset `n` is what the fault is about. -/
def Error.PointsAt (source : List UInt8) (n : Nat) : Error → Prop
  | .unterminatedString _ => source[n]? = some quote
  | .unexpectedRightParen _ => source[n]? = some closeParen
  | .unterminatedList _ => source[n]? = some openParen
  | .invalidNumber lexeme _ _ =>
    (∃ b, source[n]? = some b ∧ isNumeric b = true) ∧
      ∃ rest, source.drop n = Utf8.encode lexeme.toList ++ rest ∧
        ∀ b ∈ rest.head?, isNumeric b = false
  | .workersUnavailable _ => False

theorem not_isNumeral_iff {text : List Char} :
    ¬ Decimal.IsNumeral text ↔ 2 ≤ text.count '.' ∨ ∀ c ∈ text, c.isDigit = false := by
  constructor
  · intro h
    by_cases hp : 2 ≤ text.count '.'
    · exact .inl hp
    · refine .inr fun c hc => Bool.eq_false_iff.2 fun hd => h ⟨⟨c, hc, hd⟩, ?_⟩
      omega
  · rintro h ⟨⟨c, hc, hd⟩, hp⟩
    rcases h with h | h
    · omega
    · rw [h c hc] at hd
      cases hd

/-! ### One step -/

theorem getElem?_of_drop {source rest : List UInt8} {n : Nat} (h : source.drop n = rest) (k : Nat) :
    source[n + k]? = rest[k]? := by
  rw [← h, List.getElem?_drop]

theorem getElem?_ne_of_drop {source rest : List UInt8} {b q : UInt8} {n : Nat}
    (h : source.drop n = b :: rest) (hq : q ∉ rest) (k : Nat) (hk : n < k) :
    source[k]? ≠ some q := by
  intro hkq
  obtain ⟨i, rfl⟩ := Nat.exists_eq_add_of_lt hk
  have hget := getElem?_of_drop h (i + 1)
  rw [List.getElem?_cons_succ, ← Nat.add_assoc] at hget
  exact hq (List.mem_of_getElem? (hget.symm.trans hkq))

theorem Mark.Lexed.not_unclosed {source : List UInt8} {m : Mark} (h : m.Lexed source)
    (hq : source[m.offset]? = some quote) : ∃ k, m.offset < k ∧ source[k]? = some quote := by
  obtain ⟨l, rest, hdrop, hv, _, _⟩ := h
  have hget := getElem?_of_drop hdrop
  have hzero := hget 0
  rw [Nat.add_zero, hq] at hzero
  cases hv with
  | leftParen | rightParen => cases hzero
  | @string inside hmem =>
    refine ⟨m.offset + (inside.length + 1), by omega, ?_⟩
    rw [hget]
    simp
  | @number bytes hne hall =>
    cases bytes with
    | nil => exact absurd rfl hne
    | cons b bytes =>
      cases hzero
      exact absurd (hall quote List.mem_cons_self) (by decide)
  | symbol hne _ _ =>
    cases hzero
    exact absurd rfl hne

theorem Mark.Lexed.position {source : List UInt8} {m : Mark} (h : m.Lexed source) :
    m.token.position = .at source m.offset := by
  obtain ⟨l, rest, _, _, _, ht⟩ := h
  rw [ht]
  rfl

theorem Mark.Lexed.offset_lt {source : List UInt8} {m : Mark} (h : m.Lexed source) :
    m.offset < source.length := by
  obtain ⟨l, rest, hdrop, hv, _, _⟩ := h
  have hpos := List.length_pos_iff.2 hv.ne_nil
  have hlen := congrArg List.length hdrop
  rw [List.length_drop, List.length_append] at hlen
  omega

theorem encode_text_number {bytes : List UInt8} (h : ∀ b ∈ bytes, isNumeric b = true) :
    Utf8.encode (Utf8.text bytes).toList = bytes := by
  rw [Utf8.text, String.toList_ofList]
  exact (Utf8.wellFormed_ascii fun b hb => lt_of_isNumeric (h b hb)).encode_decode

theorem Lexeme.Valid.encode_text_number {bytes : List UInt8}
    (h : Lexeme.Valid ⟨.number, bytes⟩) : Utf8.encode (Utf8.text bytes).toList = bytes := by
  cases h with
  | number _ hall => exact Sexp.encode_text_number hall

section Lexed

variable {source : List UInt8} {m : Mark}

theorem Mark.Lexed.leftParen (h : m.Lexed source) (hk : m.token.kind = .leftParen) :
    source[m.offset]? = some openParen := by
  obtain ⟨l, rest, hdrop, hv, _, ht⟩ := h
  rw [ht] at hk
  cases hv <;> cases hk
  exact getElem?_of_drop hdrop 0

theorem Mark.Lexed.rightParen (h : m.Lexed source) (hk : m.token.kind = .rightParen) :
    source[m.offset]? = some closeParen := by
  obtain ⟨l, rest, hdrop, hv, _, ht⟩ := h
  rw [ht] at hk
  cases hv <;> cases hk
  exact getElem?_of_drop hdrop 0

theorem Mark.Lexed.number (h : m.Lexed source) (hk : m.token.kind = .number) :
    (∃ b, source[m.offset]? = some b ∧ isNumeric b = true) ∧
      ∃ rest, source.drop m.offset = Utf8.encode m.token.lexeme.toList ++ rest ∧
        ∀ b ∈ rest.head?, isNumeric b = false := by
  obtain ⟨l, rest, hdrop, hv, hends, ht⟩ := h
  rw [ht] at hk ⊢
  cases hv with
  | @number bytes hne hall =>
    obtain ⟨b, bs, rfl⟩ := List.exists_cons_of_ne_nil hne
    refine ⟨⟨b, getElem?_of_drop hdrop 0, hall b List.mem_cons_self⟩, rest, ?_, hends⟩
    show _ = Utf8.encode (Utf8.text (b :: bs)).toList ++ rest
    rw [encode_text_number hall]
    exact hdrop
  | _ => cases hk

end Lexed

/-- The open lists of a builder are those of `opened`. -/
def Tracks (source : List UInt8) (b : Builder) (opened : List Nat) : Prop :=
  b.frames.map Frame.opened = opened.map (Position.at source)

theorem Tracks.frames_eq_nil_iff {source : List UInt8} {b : Builder} {opened : List Nat}
    (h : Tracks source b opened) : b.frames = [] ↔ opened = [] := by
  rw [← List.map_eq_nil_iff (f := Frame.opened), h, List.map_eq_nil_iff]

theorem Tracks.push {source : List UInt8} {b b' : Builder} {opened : List Nat} {m : Mark}
    (h : Tracks source b opened) (hm : m.Lexed source) (hb : b.push m.token = .ok b') :
    Tracks source b' (openAfter opened m) := by
  cases Builder.push_step hm.written hb with
  | opened hk =>
    simp only [Tracks, openAfter, hk, Builder.openList, List.map_cons, hm.position]
    rw [h]
  | closed hk hf =>
    have htail := congrArg List.tail h
    rw [hf, ← List.map_tail, ← List.map_tail] at htail
    simp only [Tracks, openAfter, hk, Builder.opened_frames_add]
    exact htail
  | added ho hc _ =>
    have hopened : openAfter opened m = opened := by
      unfold openAfter
      split
      · exact absurd ‹_› ho
      · exact absurd ‹_› hc
      · rfl
    rw [Tracks, Builder.opened_frames_add, hopened]
    exact h

theorem Token.Written.number_eq_error {size : Nat} {t : Token} (h : t.Written size)
    (hs : size ≤ 9223372036854775807) (hk : t.kind = .number)
    (hn : ¬ Decimal.IsNumeral t.lexeme.toList) :
    t.number =
      .error (.invalidNumber t.lexeme (Decimal.numeralFault t.lexeme.toList).message t.position) := by
  obtain ⟨hnum, hne, hlen⟩ := h.number hk
  have hread := Decimal.read_of_not_isNumeral hnum hne (by omega) hn
  simp only [Token.number, hread]
  rfl

section Step

variable {source : List UInt8} {b : Builder} {opened : List Nat}

/-- A token does not fit exactly when it offends. -/
theorem push_eq_error_iff (hlen : source.length ≤ 9223372036854775807) (ht : Tracks source b opened)
    {m : Mark} (hm : m.Lexed source) {e : Error} :
    b.push m.token = .error e ↔ Offence source opened m.offset (.ok m.token) e := by
  have hw := hm.written
  have hpos := hm.position
  constructor
  · intro h
    cases hk : m.token.kind with
    | rightParen =>
      simp only [Builder.push, hk] at h
      unfold Builder.closeList at h
      split at h
      · rename_i hframes
        cases h
        rw [hpos]
        exact .strayParen rfl hk (ht.frames_eq_nil_iff.1 hframes)
      · cases h
    | number =>
      simp only [Builder.push, hk] at h
      by_cases hn : Decimal.IsNumeral m.token.lexeme.toList
      · obtain ⟨x, hx⟩ := (hw.exists_number_iff hlen hk).2 hn
        rw [hx] at h
        cases h
      · rw [hw.number_eq_error hlen hk hn] at h
        cases h
        rw [hpos]
        exact .badNumber rfl hk (not_isNumeral_iff.1 hn)
    | leftParen | symbol | string | eof =>
      simp only [Builder.push, hk] at h
      cases h
  · intro h
    cases h with
    | unclosedString hq hlast =>
      obtain ⟨k, hk, hkq⟩ := hm.not_unclosed hq
      exact absurd hkq (hlast k hk)
    | strayParen hr hk ho =>
      cases hr
      simp only [Builder.push, hk, Builder.closeList, ht.frames_eq_nil_iff.2 ho, hpos]
    | badNumber hr hk hn =>
      cases hr
      simp only [Builder.push, hk, hw.number_eq_error hlen hk (not_isNumeral_iff.2 hn), hpos]
      rfl
    | unclosedList hr hk ho =>
      cases hr
      obtain ⟨l, _, _, hv, _, h⟩ := hm
      rw [h] at hk
      exact absurd hk hv.kind_ne_eof

theorem finish_eq_error_iff (ht : Tracks source b opened) {c next : Cursor} {t : Token}
    (hc : c.IsOn source) (h : c.scan = (.ok t, next)) (hend : t.isEof = true) {e : Error} :
    b.finish = .error e ↔ Offence source opened next.lexemeStart (.ok t) e := by
  have hk : t.kind = .eof := of_decide_eq_true hend
  have hnone : source[next.lexemeStart]? = none := by
    cases Cursor.ScanStep.of_scan h with
    | atEnd hg =>
      have hdrop := (hc.gap (List.append_nil c.rest).symm).rest
      exact getElem?_of_drop hdrop 0
    | lexeme _ _ hv _ =>
      rw [hv.isEof_token] at hend
      cases hend
  obtain ⟨done, frames⟩ := b
  constructor
  · intro hfin
    cases frames with
    | nil => cases hfin
    | cons f fs =>
      cases hfin
      cases opened with
      | nil => cases ht
      | cons o os =>
        rw [(List.cons.inj ht).1]
        exact .unclosedList rfl hk rfl
  · intro hoff
    cases hoff with
    | unclosedString hq _ =>
      rw [hnone] at hq
      cases hq
    | strayParen hr hk' _ =>
      cases hr
      rw [hk] at hk'
      cases hk'
    | badNumber hr hk' _ =>
      cases hr
      rw [hk] at hk'
      cases hk'
    | unclosedList hr _ ho =>
      subst ho
      cases frames with
      | nil => cases ht
      | cons f fs =>
        rw [← (List.cons.inj ht).1]
        rfl

theorem eq_of_scan_error {c next : Cursor} {e e' : Error} (hc : c.IsOn source)
    (h : c.scan = (.error e', next)) :
    e' = e ↔ Offence source opened next.lexemeStart (.error e') e := by
  cases Cursor.ScanStep.of_scan h with
  | @unclosed gap rest hr hg hq =>
    have hgap := hc.gap hr
    have hdrop : source.drop (c.offset + gap.length) = quote :: rest := hgap.rest
    have hpos : c.position.after gap = .at source (c.offset + gap.length) := hgap.position
    constructor
    · intro he
      rw [← he, hpos]
      exact .unclosedString (getElem?_of_drop hdrop 0) (getElem?_ne_of_drop hdrop hq)
    · intro hoff
      cases hoff with
      | unclosedString => rw [hpos]; rfl
      | strayParen hr _ _ => cases hr
      | badNumber hr _ _ => cases hr
      | unclosedList hr _ _ => cases hr

theorem readInto_of_offence (hlen : source.length ≤ 9223372036854775807) {c next : Cursor}
    {result : Except Error Token} {e : Error} (hc : c.IsOn source) (ht : Tracks source b opened)
    (h : c.scan = (result, next)) (ho : Offence source opened next.lexemeStart result e) :
    (c.readInto b).1 = .error e := by
  cases result with
  | error e' =>
    rw [Cursor.readInto_of_error h]
    exact congrArg Except.error ((eq_of_scan_error hc h).2 ho)
  | ok t =>
    cases hend : t.isEof with
    | true =>
      rw [Cursor.readInto_of_isEof h hend]
      exact (finish_eq_error_iff ht hc h hend).2 ho
    | false =>
      have hm := Cursor.lexed_of_scan hc h hend
      rw [Cursor.readInto_of_push_error h hend ((push_eq_error_iff hlen ht hm).2 ho)]

theorem exists_offence_of_stops {c : Cursor} {e : Error} (hc : c.IsOn source)
    (ht : Tracks source b opened) (hstop : c.Stops) (h : (c.readInto b).1 = .error e) :
    ∃ result next, c.scan = (result, next) ∧ Offence source opened next.lexemeStart result e := by
  cases hscan : c.scan with
  | mk result next =>
    refine ⟨result, next, rfl, ?_⟩
    cases result with
    | error e' =>
      rw [Cursor.readInto_of_error hscan] at h
      exact (eq_of_scan_error hc hscan).1 (Except.error.inj h)
    | ok t =>
      have hend := hstop t next hscan
      rw [Cursor.readInto_of_isEof hscan hend] at h
      exact (finish_eq_error_iff ht hc hscan hend).1 h

end Step

/-! ### A run -/

theorem unobjectionable_nil (source : List UInt8) (opened : List Nat) :
    Unobjectionable source opened [] := by
  intro us m vs h
  simp at h

theorem unobjectionable_cons {source : List UInt8} {opened : List Nat} {m : Mark}
    {ms : List Mark} :
    Unobjectionable source opened (m :: ms) ↔
      (∀ e, ¬ Offence source opened m.offset (.ok m.token) e) ∧
        Unobjectionable source (openAfter opened m) ms := by
  constructor
  · intro h
    refine ⟨h [] m ms rfl, fun us m' vs hms => ?_⟩
    rw [hms] at h
    exact h (m :: us) m' vs rfl
  · rintro ⟨hm, h⟩ us m' vs hms
    cases us with
    | nil =>
      cases hms
      exact hm
    | cons u us =>
      obtain ⟨rfl, htail⟩ := List.cons.inj hms
      exact h us m' vs htail

section Run

variable {source : List UInt8} {c last : Cursor} {ms : List Mark}

/-- Along steps that lead to one that stops, a fault is that of the first step that offends. -/
theorem exists_first_offence (hlen : source.length ≤ 9223372036854775807) (h : c.Scans ms last)
    (hstop : last.Stops) {b : Builder} {opened : List Nat} {e : Error} (hc : c.IsOn source)
    (ht : Tracks source b opened) (hread : (c.readInto b).1 = .error e) :
    ∃ us c' result next, c.Scans us c' ∧ c'.scan = (result, next) ∧
      Offence source (us.foldl openAfter opened) next.lexemeStart result e ∧
      Unobjectionable source opened us := by
  -- By the steps: the builder keeps track of the open lists, and a token that fits does not offend.
  induction h generalizing b opened with
  | nil c =>
    obtain ⟨result, next, hscan, ho⟩ := exists_offence_of_stops hc ht hstop hread
    exact ⟨[], c, result, next, .nil c, hscan, ho, unobjectionable_nil source opened⟩
  | @cons c next last t ms hscan hend _ ih =>
    have hm := Cursor.lexed_of_scan hc hscan hend
    have hnext := hc.next hscan
    cases hpush : b.push t with
    | error e' =>
      rw [Cursor.readInto_of_push_error hscan hend hpush] at hread
      cases hread
      have ho := (push_eq_error_iff hlen ht hm).1 hpush
      exact ⟨[], c, .ok t, next, .nil c, hscan, ho, unobjectionable_nil source opened⟩
    | ok b' =>
      rw [Cursor.readInto_of_push hscan hend hpush] at hread
      have ht' := ht.push hm hpush
      obtain ⟨us, c', result, next', hs, hscan', ho, hun⟩ := ih hstop hnext ht' hread
      refine ⟨⟨next.lexemeStart, t⟩ :: us, c', result, next', .cons hscan hend hs, hscan', ho, ?_⟩
      refine unobjectionable_cons.2 ⟨fun e' ho' => ?_, hun⟩
      have hpush' := (push_eq_error_iff hlen ht hm).2 ho'
      rw [hpush] at hpush'
      cases hpush'

theorem readInto_of_first_offence (hlen : source.length ≤ 9223372036854775807)
    (h : c.Scans ms last) {b : Builder} {opened : List Nat} {result : Except Error Token}
    {next : Cursor} {e : Error} (hc : c.IsOn source) (ht : Tracks source b opened)
    (hscan : last.scan = (result, next))
    (ho : Offence source (ms.foldl openAfter opened) next.lexemeStart result e)
    (hun : Unobjectionable source opened ms) : (c.readInto b).1 = .error e := by
  induction h generalizing b opened with
  | nil c => exact readInto_of_offence hlen hc ht hscan ho
  | @cons c next' last t ms hscan' hend _ ih =>
    have hm := Cursor.lexed_of_scan hc hscan' hend
    have hnext := hc.next hscan'
    obtain ⟨hno, hun⟩ := unobjectionable_cons.1 hun
    cases hpush : b.push t with
    | error e' => exact absurd ((push_eq_error_iff hlen ht hm).1 hpush) (hno e')
    | ok b' =>
      rw [Cursor.readInto_of_push hscan' hend hpush]
      exact ih hnext (ht.push hm hpush) hscan ho hun

theorem exists_error_of_offence (hlen : source.length ≤ 9223372036854775807)
    (h : c.Scans ms last) {b : Builder} {opened : List Nat} {result : Except Error Token}
    {next : Cursor} {e : Error} (hc : c.IsOn source) (ht : Tracks source b opened)
    (hscan : last.scan = (result, next))
    (ho : Offence source (ms.foldl openAfter opened) next.lexemeStart result e) :
    ∃ e', (c.readInto b).1 = .error e' := by
  induction h generalizing b opened with
  | nil c => exact ⟨e, readInto_of_offence hlen hc ht hscan ho⟩
  | @cons c next' last t ms hscan' hend _ ih =>
    have hm := Cursor.lexed_of_scan hc hscan' hend
    have hnext := hc.next hscan'
    cases hpush : b.push t with
    | error e' => exact ⟨e', by rw [Cursor.readInto_of_push_error hscan' hend hpush]⟩
    | ok b' =>
      rw [Cursor.readInto_of_push hscan' hend hpush]
      exact ih hnext (ht.push hm hpush) hscan ho

end Run

/-! ### A whole source -/

theorem tracks_empty (source : List UInt8) : Tracks source .empty [] := rfl

theorem read_eq_error_iff_firstOffence {source : List UInt8}
    (hlen : source.length ≤ 9223372036854775807) {e : Error} :
    read source = .error e ↔ FirstOffence source e := by
  have hc := Cursor.isOn_ofSource source
  constructor
  · intro h
    obtain ⟨ms, last, hs, hstop⟩ := (Cursor.ofSource source).exists_scans
    obtain ⟨us, c', result, next, hs', hscan, ho, hun⟩ :=
      exists_first_offence hlen hs hstop hc (tracks_empty source) h
    exact ⟨us, next.lexemeStart, result, ⟨c', next, hs', hscan, rfl⟩, ho, hun⟩
  · intro h
    obtain ⟨ms, n, result, ⟨c', next, hs, hscan, rfl⟩, ho, hun⟩ := h
    exact readInto_of_first_offence hlen hs hc (tracks_empty source) hscan ho hun

theorem getElem?_of_mem_foldl {source : List UInt8} {ms : List Mark} {opened : List Nat}
    (hms : ∀ m ∈ ms, m.Lexed source) (ho : ∀ o ∈ opened, source[o]? = some openParen) :
    ∀ o ∈ ms.foldl openAfter opened, source[o]? = some openParen := by
  induction ms generalizing opened with
  | nil => exact ho
  | cons m ms ih =>
    refine ih (fun m' hm' => hms m' (List.mem_cons_of_mem m hm')) fun o hmem => ?_
    unfold openAfter at hmem
    split at hmem
    · rename_i hk
      rcases List.mem_cons.1 hmem with rfl | hmem
      · exact (hms m List.mem_cons_self).leftParen hk
      · exact ho o hmem
    · exact ho o (List.mem_of_mem_tail hmem)
    · exact ho o hmem

/-- A fault points at the byte that it is about. -/
theorem pointsAt_of_offence {source : List UInt8} {ms : List Mark} {n : Nat}
    {result : Except Error Token} {e : Error} (h : NextStep source ms n result)
    (ho : Offence source (openLists ms) n result e) :
    ∃ k, e.position? = some (.at source k) ∧ e.PointsAt source k := by
  obtain ⟨c, next, hs, hscan, rfl⟩ := h
  have hc := hs.isOn (Cursor.isOn_ofSource source)
  have hms := hs.lexed (Cursor.isOn_ofSource source)
  cases ho with
  | unclosedString hq _ => exact ⟨next.lexemeStart, rfl, hq⟩
  | strayParen hr hk _ =>
    subst hr
    have hm := Cursor.lexed_of_scan hc hscan (decide_eq_false (by simp [hk]))
    exact ⟨next.lexemeStart, rfl, hm.rightParen hk⟩
  | badNumber hr hk _ =>
    subst hr
    have hm := Cursor.lexed_of_scan hc hscan (decide_eq_false (by simp [hk]))
    exact ⟨next.lexemeStart, rfl, hm.number hk⟩
  | @unclosedList t o os _ _ hopen =>
    have hall := getElem?_of_mem_foldl hms (List.forall_mem_nil _)
    have hmem : o ∈ openLists ms := hopen ▸ List.mem_cons_self
    exact ⟨o, rfl, hall o hmem⟩

/-- Reading fails exactly when some step offends, and with what the first one that offends does; the
place reported is that of the byte which the fault is about. -/
theorem read_reports_first_offence (source : List UInt8)
    (hlen : source.length ≤ 9223372036854775807) :
    ((∃ e, read source = .error e) ↔
      ∃ ms n result e, NextStep source ms n result ∧ Offence source (openLists ms) n result e) ∧
    (∀ e, read source = .error e ↔ FirstOffence source e) ∧
    ∀ e, read source = .error e →
      ∃ n, e.position? = some (.at source n) ∧ e.PointsAt source n := by
  refine ⟨⟨?_, ?_⟩, fun e => read_eq_error_iff_firstOffence hlen, fun e h => ?_⟩
  · intro h
    obtain ⟨e, h⟩ := h
    obtain ⟨ms, n, result, hstep, ho, _⟩ := (read_eq_error_iff_firstOffence hlen).1 h
    exact ⟨ms, n, result, e, hstep, ho⟩
  · intro h
    obtain ⟨ms, n, result, e, ⟨c, next, hs, hscan, rfl⟩, ho⟩ := h
    exact exists_error_of_offence hlen hs (Cursor.isOn_ofSource source) (tracks_empty source) hscan ho
  · obtain ⟨ms, n, result, hstep, ho, _⟩ := (read_eq_error_iff_firstOffence hlen).1 h
    exact pointsAt_of_offence hstep ho

theorem inner_list_is_first_offence :
    (Utf8.encode "(a\n (b".toList).length ≤ 9223372036854775807 ∧
      FirstOffence (Utf8.encode "(a\n (b".toList) (.unterminatedList ⟨2, 2⟩) :=
  ⟨by decide, ((read_reports_first_offence _ (by decide)).2.1 _).1 (by with_unfolding_all rfl)⟩

end Sexp
