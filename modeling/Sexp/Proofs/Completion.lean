import Sexp.Proofs.FirstFault
import Sexp.Proofs.Reading

/-!
# Sources that go on

What has been read of a source stays read when the source is made longer, up to the last lexeme, which
may go on (`Cursor.Scans.extend`). So a source that is at fault can be completed if it ends too early,
inside a string, inside a list or after a lone point (`exists_completion`), and any other fault stays
whatever follows (`fault_stays`); together this is `completable_iff`.
-/

namespace Sexp

/-! ### Longer sources -/

namespace Cursor

/-- The same place in the source with `more` at its end. -/
def extend (c : Cursor) (more : List UInt8) : Cursor := { c with rest := c.rest ++ more }

/-- A token stays the same when the source is made longer, if its lexeme is over there or stays so. -/
theorem scan_extend {c next : Cursor} {t : Token} {more : List UInt8} (h : c.scan = (.ok t, next))
    (ht : t.isEof = false)
    (hm : next.rest = [] → ∀ l : Lexeme, l.kind = t.kind → l.EndsBefore more) :
    (c.extend more).scan = (.ok t, next.extend more) := by
  cases Cursor.ScanStep.of_scan h with
  | atEnd _ => cases ht
  | @lexeme gap l rest hr hg hv he =>
    have hr' : (c.extend more).rest = gap ++ (l.bytes ++ (rest ++ more)) := by
      simp only [extend, hr, List.append_assoc]
    exact scan_lexeme hr' hg hv (he.append_of_nil fun hnil => hm hnil l rfl)

theorem Scans.rest_eq_nil {c last : Cursor} {ms : List Mark} (h : c.Scans ms last)
    (hc : c.rest = []) : last.rest = [] := by
  rw [(h.of_rest_nil hc).2, hc]

/-- Tokens stay the same when the source is made longer, if something follows the last of them or what
is added cannot go on with it. -/
theorem Scans.extend {c last : Cursor} {ms : List Mark} (h : c.Scans ms last) {more : List UInt8}
    (hm : last.rest = [] → ∀ b ∈ more.head?, isDelimiter b = true) :
    (c.extend more).Scans ms (last.extend more) := by
  induction h with
  | nil c => exact .nil _
  | @cons c next last t ms hscan ht hs ih =>
    have hscan' := scan_extend hscan ht fun hnil l _ =>
      l.endsBefore_of_isDelimiter (hm (hs.rest_eq_nil hnil))
    show (c.extend more).Scans (⟨(next.extend more).lexemeStart, t⟩ :: ms) (last.extend more)
    exact .cons hscan' ht (ih hm)

end Cursor

theorem read_append_of_scans {source : List UInt8} {last : Cursor} {ms : List Mark} {b : Builder}
    (h : (Cursor.ofSource source).Scans ms last)
    (hb : Builder.empty.pushAll (ms.map Mark.token) = .ok b) {more : List UInt8}
    (hm : last.rest = [] → ∀ b ∈ more.head?, isDelimiter b = true) :
    read (source ++ more) = ((last.extend more).readInto b).1 :=
  congrArg Prod.fst ((h.extend hm).readInto hb)

theorem read_append_of_ne_nil {source : List UInt8} {last : Cursor} {ms : List Mark} {b : Builder}
    (h : (Cursor.ofSource source).Scans ms last)
    (hb : Builder.empty.pushAll (ms.map Mark.token) = .ok b) (hne : last.rest ≠ [])
    (more : List UInt8) : read (source ++ more) = ((last.extend more).readInto b).1 :=
  read_append_of_scans h hb fun hnil => absurd hnil hne

/-! ### Closing what is open -/

/-- One closing parenthesis for each open list. -/
def Builder.closing (b : Builder) : List UInt8 := List.replicate b.frames.length closeParen

@[simp] theorem Builder.closing_add (b : Builder) (e : Expr) : (b.add e).closing = b.closing := by
  rw [closing, length_frames_add, closing]

theorem isDelimiter_closing (b : Builder) : ∀ d ∈ b.closing.head?, isDelimiter d = true := by
  intro d hd
  rw [List.eq_of_mem_replicate (List.mem_of_mem_head? hd)]
  rfl

theorem Cursor.exists_readInto_closing {c : Cursor} {b : Builder} {gap : List UInt8}
    (hg : IsGap gap) (hr : c.rest = gap ++ b.closing) : ∃ es, (c.readInto b).1 = .ok es := by
  -- By the open lists: each parenthesis closes the innermost of them.
  induction hn : b.frames.length generalizing c b gap with
  | zero =>
    have hrest : c.rest = gap := by
      rw [hr, Builder.closing, hn]
      exact List.append_nil gap
    have hscan := scan_atEnd (hrest ▸ hg)
    rw [readInto_of_isEof hscan rfl, Builder.finish, List.length_eq_zero_iff.1 hn]
    exact ⟨_, rfl⟩
  | succ n ih =>
    obtain ⟨done, frames⟩ := b
    cases frames with
    | nil => cases hn
    | cons f fs =>
      have hscan := scan_lexeme (l := ⟨.rightParen, [closeParen]⟩) hr hg .rightParen trivial
      have hlen := Builder.length_frames_add ⟨done, fs⟩ (.list f.items.reverse)
      rw [readInto_of_push hscan rfl rfl]
      refine ih (List.forall_mem_nil _) ?_ (hlen.trans (Nat.succ.inj hn))
      rw [Builder.closing_add]
      rfl

theorem Cursor.exists_readInto_lexeme_closing {c : Cursor} {b : Builder} {e : Expr}
    {gap : List UInt8} {l : Lexeme} (hg : IsGap gap) (hr : c.rest = gap ++ (l.bytes ++ b.closing))
    (hv : l.Valid) (hpush : b.push (l.token (c.position.after gap)) = .ok (b.add e)) :
    ∃ es, (c.readInto b).1 = .ok es := by
  have hscan := scan_lexeme hr hg hv (l.endsBefore_of_isDelimiter (isDelimiter_closing b))
  rw [readInto_of_push hscan (hv.isEof_token _) hpush]
  refine exists_readInto_closing (List.forall_mem_nil _) ?_
  rw [Builder.closing_add]
  rfl

/-! ### Kinds of faults -/

namespace Error

inductive Kind
  | unterminatedString
  | invalidNumber
  | unexpectedRightParen
  | unterminatedList
  | workersUnavailable
  deriving DecidableEq

def kind : Error → Kind
  | unterminatedString _ => .unterminatedString
  | invalidNumber .. => .invalidNumber
  | unexpectedRightParen _ => .unexpectedRightParen
  | unterminatedList _ => .unterminatedList
  | workersUnavailable _ => .workersUnavailable

/-- The fault is a number that nothing follows. -/
def EndsSource (source : List UInt8) : Error → Prop
  | invalidNumber lexeme _ p =>
    ∃ n, p = .at source n ∧ source.drop n = Utf8.encode lexeme.toList
  | _ => False

/-- The source ends too early: in a string, in a list, or after a lone point. -/
def Completable (source : List UInt8) (e : Error) : Prop :=
  match e with
  | unterminatedString _ | unterminatedList _ => True
  | invalidNumber lexeme _ _ => lexeme = "." ∧ e.EndsSource source
  | _ => False

end Error

theorem endsSource_iff {source bytes rest : List UInt8} {n : Nat} {lexeme : String}
    (hdrop : source.drop n = bytes ++ rest) (hne : bytes ≠ [])
    (hbytes : Utf8.encode lexeme.toList = bytes) (reason : String) :
    (Error.invalidNumber lexeme reason (.at source n)).EndsSource source ↔ rest = [] := by
  have hlt {k : Nat} {xs : List UInt8} (hk : source.drop k = bytes ++ xs) : k ≤ source.length := by
    refine Nat.le_of_lt (Nat.lt_of_not_le fun hle => ?_)
    rw [List.drop_eq_nil_of_le hle] at hk
    exact List.append_ne_nil_of_left_ne_nil hne xs hk.symm
  constructor
  · rintro ⟨k, hplace, hk⟩
    rw [hbytes, ← List.append_nil bytes] at hk
    obtain rfl := Position.at_inj (hlt hdrop) (hlt hk) hplace
    exact List.append_cancel_left (hdrop.symm.trans hk)
  · intro hnil
    exact ⟨n, rfl, by rw [hdrop, hnil, List.append_nil, hbytes]⟩

/-! ### Numbers that go on -/

/-- A number takes all digits and points that are added at its end. -/
theorem Lexeme.Valid.exists_longer {l : Lexeme} (h : l.Valid) (hk : l.kind = .number)
    (more : List UInt8) :
    ∃ (l' : Lexeme) (rest : List UInt8), l'.kind = .number ∧ l.bytes ++ more = l'.bytes ++ rest ∧ l'.Valid ∧
      l'.EndsBefore rest ∧
      (Utf8.text l.bytes).toList.count '.' ≤ (Utf8.text l'.bytes).toList.count '.' := by
  cases h with
  | @number bytes hne hall =>
    have hall' : ∀ b ∈ bytes ++ more.takeWhile isNumeric, isNumeric b = true :=
      List.forall_mem_append.2 ⟨hall, List.all_eq_true.1 List.all_takeWhile⟩
    have hsplit : bytes ++ more = bytes ++ more.takeWhile isNumeric ++ more.dropWhile isNumeric := by
      rw [List.append_assoc, List.takeWhile_append_dropWhile]
    refine ⟨⟨.number, _⟩, _, rfl, hsplit,
      .number (List.append_ne_nil_of_left_ne_nil hne _) hall', head_dropWhile isNumeric more, ?_⟩
    rw [text_number hall, text_number hall', List.map_append, List.count_append]
    exact Nat.le_add_right _ _
  | _ => cases hk

theorem Token.Written.number_of_two_points {size : Nat} {t : Token} (h : t.Written size)
    (hk : t.kind = .number) (hp : 2 ≤ t.lexeme.toList.count '.') :
    ∃ reason, t.number = .error (.invalidNumber t.lexeme reason t.position) := by
  cases hn : t.number with
  | ok e =>
    obtain ⟨d, _, hd⟩ := (h.number_eq_ok_iff hk).1 hn
    have := hd.point
    omega
  | error e =>
    obtain ⟨reason, rfl⟩ := Token.number_error hn
    exact ⟨reason, rfl⟩

theorem Token.Written.two_points {size : Nat} {t : Token} {e : Error} (h : t.Written size)
    (hs : size ≤ 9223372036854775807) (hk : t.kind = .number) (he : t.number = .error e)
    (hone : t.lexeme ≠ ".") : 2 ≤ t.lexeme.toList.count '.' := by
  have hnot : ¬ Decimal.IsNumeral t.lexeme.toList := fun hn => by
    obtain ⟨e', he'⟩ := (h.exists_number_iff hs hk).2 hn
    rw [he] at he'
    cases he'
  obtain ⟨hnum, hne, _⟩ := h.number hk
  rcases not_isNumeral_iff.1 hnot with hp | hd
  · exact hp
  · refine Decimal.two_le_count_of_no_digit hnum hne (fun hlist => ?_) fun ⟨c, hc, hdigit⟩ => ?_
    · exact hone (String.toList_inj.1 hlist)
    · rw [hd c hc] at hdigit
      cases hdigit

section Ended

variable {source : List UInt8} {last : Cursor} {ms : List Mark} {b : Builder}
  (hs : (Cursor.ofSource source).Scans ms last)
  (hb : Builder.empty.pushAll (ms.map Mark.token) = .ok b)

include hs hb

/-! ### Faults that can be mended -/

theorem completes_list (hg : IsGap last.rest) : ∃ more es, read (source ++ more) = .ok es := by
  refine ⟨b.closing, ?_⟩
  rw [read_append_of_scans hs hb fun _ => isDelimiter_closing b]
  exact Cursor.exists_readInto_closing hg rfl

theorem completes_string {gap rest : List UInt8} (hr : last.rest = gap ++ quote :: rest)
    (hg : IsGap gap) (hq : quote ∉ rest) : ∃ more es, read (source ++ more) = .ok es := by
  refine ⟨quote :: b.closing, ?_⟩
  rw [read_append_of_ne_nil hs hb (by simp [hr])]
  have hr' : (last.extend (quote :: b.closing)).rest =
      gap ++ (quote :: (rest ++ [quote]) ++ b.closing) := by
    simp [Cursor.extend, hr]
  exact Cursor.exists_readInto_lexeme_closing (l := ⟨.string, _⟩) hg hr' (.string hq) rfl

theorem completes_point {gap : List UInt8} (hr : last.rest = gap ++ [point]) (hg : IsGap gap) :
    ∃ more es, read (source ++ more) = .ok es := by
  refine ⟨0x30 :: b.closing, ?_⟩
  rw [read_append_of_ne_nil hs hb (by simp [hr])]
  have hr' : (last.extend (0x30 :: b.closing)).rest = gap ++ ([point, 0x30] ++ b.closing) := by
    simp [Cursor.extend, hr]
  have hv : Lexeme.Valid ⟨.number, [point, 0x30]⟩ := .number (by simp) (List.all_eq_true.1 rfl)
  have hnumeral : Decimal.IsNumeral (Utf8.text [point, 0x30]).toList := by
    rw [text_number (List.all_eq_true.1 rfl)]
    exact ⟨⟨'0', List.mem_cons_of_mem _ List.mem_cons_self, rfl⟩, Nat.le_refl 1⟩
  have hw : (Lexeme.token ⟨.number, [point, 0x30]⟩
      ((last.extend (0x30 :: b.closing)).position.after gap)).Written 2 :=
    ⟨_, hv, Nat.le_refl 2, rfl⟩
  obtain ⟨e, he⟩ := (hw.exists_number_iff (by decide) rfl).2 hnumeral
  refine Cursor.exists_readInto_lexeme_closing hg hr' hv (e := e) ?_
  show Except.map b.add (Token.number _) = _
  rw [he]
  rfl

/-! ### Faults that stay -/

variable {t : Token} {next : Cursor} {e : Error} (hscan : last.scan = (.ok t, next))
  (ht : t.isEof = false) (hpush : b.push t = .error e)

include hscan ht hpush

theorem misfit_stays {more : List UInt8}
    (hm : next.rest = [] → ∀ l : Lexeme, l.kind = t.kind → l.EndsBefore more) :
    read (source ++ more) = .error e := by
  have hne : last.rest ≠ [] := fun hnil => by
    have hlt := Cursor.rest_scan_lt hscan ht
    rw [hnil] at hlt
    cases hlt
  rw [read_append_of_ne_nil hs hb hne,
    Cursor.readInto_of_push_error (Cursor.scan_extend hscan ht hm) ht hpush]

omit hpush in
/-- A number with two points at the end of a source goes on as a number with two points. -/
theorem long_number_stays (hk : t.kind = .number) (hrest : next.rest = [])
    (hpoints : 2 ≤ t.lexeme.toList.count '.') (more : List UInt8) :
    ∃ lexeme reason, read (source ++ more) = .error (.invalidNumber lexeme reason t.position) := by
  cases Cursor.ScanStep.of_scan hscan with
  | atEnd _ => cases ht
  | @lexeme gap l rest hr hg hv _ =>
    obtain rfl : rest = [] := hrest
    obtain ⟨l', rest', hk', hsplit, hv', he', hcount⟩ := hv.exists_longer hk more
    have hr' : (last.extend more).rest = gap ++ (l'.bytes ++ rest') := by
      rw [← hsplit, Cursor.extend, hr, List.append_nil, List.append_assoc]
    have hscan' := Cursor.scan_lexeme hr' hg hv' he'
    generalize hplace : (last.extend more).position.after gap = place at hscan'
    have hw : (l'.token place).Written l'.bytes.length := ⟨l', hv', Nat.le_refl _, rfl⟩
    obtain ⟨reason, hnumber⟩ := hw.number_of_two_points hk' (Nat.le_trans hpoints hcount)
    have hpush : b.push (l'.token place) =
        .error (.invalidNumber (Utf8.text l'.bytes) reason place) := by
      simp only [Builder.push, show (l'.token place).kind = .number from hk', hnumber]
      rfl
    rw [read_append_of_ne_nil hs hb (by simp [hr, hv.ne_nil]),
      Cursor.readInto_of_push_error hscan' (hv'.isEof_token _) hpush]
    exact ⟨Utf8.text l'.bytes, reason, by rw [← hplace]; rfl⟩

end Ended

/-! ### A whole source -/

section Source

variable {source : List UInt8} {e : Error}

theorem exists_end_of_error (h : read source = .error e) :
    ∃ ms last b r, (Cursor.ofSource source).Scans ms last ∧
      Builder.empty.pushAll (ms.map Mark.token) = .ok b ∧ last.ReadEnd b r ∧ r.1 = .error e := by
  obtain ⟨ms, last, b, hs, hb, hend⟩ := (Cursor.ofSource source).readInto_ends .empty
  exact ⟨ms, last, b, _, hs, hb, hend, h⟩

theorem exists_completion (h : read source = .error e) (hc : e.Completable source) :
    ∃ more es, read (source ++ more) = .ok es := by
  obtain ⟨ms, last, b, r, hs, hb, hend, hr⟩ := exists_end_of_error h
  have hstep := last.scan_step
  cases hend with
  | atEnd hscan ht =>
    rw [hscan] at hstep
    cases hstep with
    | atEnd hg => exact completes_list hs hb hg
    | lexeme _ _ hv _ =>
      rw [hv.isEof_token] at ht
      cases ht
  | fault hscan =>
    rw [hscan] at hstep
    cases hstep with
    | unclosed hrest hg hq => exact completes_string hs hb hrest hg hq
  | @misfit t e' next hscan ht hpush =>
    obtain rfl : e' = e := Except.error.inj hr
    have hon := hs.isOn (Cursor.isOn_ofSource source)
    cases hon.misfit hscan ht hpush with
    | paren _ _ _ => cases hc
    | @number bytes reason hk hl hv _ hdrop _ _ =>
      obtain ⟨hpoint, hends⟩ := hc
      have hbytes := hl ▸ hv.encode_text_number
      have hnil := (endsSource_iff hdrop hv.ne_nil hbytes reason).1 hends
      rw [hpoint] at hbytes
      rw [hscan] at hstep
      cases hstep with
      | atEnd _ => cases ht
      | @lexeme gap l rest hrest hg _ _ =>
        have hsame : l.bytes ++ rest = bytes ++ rest := (hon.gap hrest).rest.symm.trans hdrop
        obtain rfl : rest = [] := hnil
        rw [hsame, List.append_nil, ← hbytes] at hrest
        exact completes_point hs hb hrest hg

/-- Any other fault stays what it is and where it is, and is the very same unless it is a number that
goes on. -/
theorem fault_stays (hlen : source.length ≤ 9223372036854775807) (h : read source = .error e)
    (hc : ¬ e.Completable source) (more : List UInt8) :
    ∃ e', read (source ++ more) = .error e' ∧ e'.kind = e.kind ∧ e'.position? = e.position? ∧
      (¬ (e.EndsSource source ∧ ∃ b ∈ more.head?, isNumeric b = true) → e' = e) := by
  obtain ⟨ms, last, b, r, hs, hb, hend, hr⟩ := exists_end_of_error h
  cases hend with
  | atEnd hscan ht =>
    obtain ⟨done, frames⟩ := b
    cases frames with
    | nil => cases hr
    | cons f fs =>
      cases hr
      exact absurd trivial hc
  | fault hscan =>
    have hstep := last.scan_step
    rw [hscan] at hstep
    cases hstep
    cases hr
    exact absurd trivial hc
  | @misfit t e' next hscan ht hpush =>
    obtain rfl : e' = e := Except.error.inj hr
    have hon := hs.isOn (Cursor.isOn_ofSource source)
    cases hon.misfit hscan ht hpush with
    | paren hk _ _ =>
      have hover : ∀ l : Lexeme, l.kind = t.kind → l.EndsBefore more := fun l hl => by
        simp only [Lexeme.EndsBefore, hl, hk]
      exact ⟨_, misfit_stays hs hb hscan ht hpush fun _ => hover, rfl, rfl, fun _ => rfl⟩
    | @number bytes reason hk hl hv _ hdrop _ hn =>
      have hends := endsSource_iff hdrop hv.ne_nil (hl ▸ hv.encode_text_number) reason
      by_cases hgoes : next.rest = [] ∧ ∃ d ∈ more.head?, isNumeric d = true
      · -- The number goes on, and has two points since it is not completable.
        have hone : t.lexeme ≠ "." := fun hone => hc ⟨hone, hends.2 hgoes.1⟩
        have hm := Cursor.lexed_of_scan hon hscan ht
        obtain ⟨lexeme, reason', hread⟩ :=
          long_number_stays hs hb hscan ht hk hgoes.1 (hm.written.two_points hlen hk hn hone) more
        rw [hm.position] at hread
        exact ⟨_, hread, rfl, rfl, fun hno => absurd ⟨hends.2 hgoes.1, hgoes.2⟩ hno⟩
      · have hover : next.rest = [] → ∀ l : Lexeme, l.kind = t.kind → l.EndsBefore more := by
          intro hnil l hl
          simp only [Lexeme.EndsBefore, hl, hk]
          exact fun d hd => Bool.eq_false_iff.2 fun hnumeric => hgoes ⟨hnil, d, hd, hnumeric⟩
        exact ⟨_, misfit_stays hs hb hscan ht hpush hover, rfl, rfl, fun _ => rfl⟩

end Source

/-- A source at fault can go on so that it is read exactly when it ends too early: in a string, in a
list, or after a lone point. Any other fault stays, whatever the source goes on with: it is of the same
kind and at the same place, and the very same fault unless it is about a number that goes on. -/
theorem completable_iff (source : List UInt8) (hlen : source.length ≤ 9223372036854775807) {e : Error}
    (h : read source = .error e) :
    ((∃ more es, read (source ++ more) = .ok es) ↔ e.Completable source) ∧
    (¬ e.Completable source → ∀ more, ∃ e', read (source ++ more) = .error e' ∧
      e'.kind = e.kind ∧ e'.position? = e.position? ∧
      (¬ (e.EndsSource source ∧ ∃ b ∈ more.head?, isNumeric b = true) → e' = e)) := by
  refine ⟨⟨fun hmore => Classical.byContradiction fun hc => ?_, exists_completion h⟩,
    fault_stays hlen h⟩
  obtain ⟨more, es, hread⟩ := hmore
  obtain ⟨e', hread', _⟩ := fault_stays hlen h hc more
  rw [hread] at hread'
  cases hread'

/-- The lone point of `(.` can become a number, the second point of `(1..` stays one too many. -/
theorem lone_point_completable :
    (∃ more es, read (Utf8.encode "(.".toList ++ more) = .ok es) ∧
      ∀ more, ∃ e', read (Utf8.encode "(1..".toList ++ more) = .error e' ∧
        e'.kind = .invalidNumber ∧ e'.position? = some ⟨1, 2⟩ := by
  have hpoint : read (Utf8.encode "(.".toList) =
      .error (.invalidNumber "." (Decimal.numeralFault ['.']).message ⟨1, 2⟩) := by
    with_unfolding_all rfl
  have hlong : read (Utf8.encode "(1..".toList) =
      .error (.invalidNumber "1.." (Decimal.numeralFault ['1', '.', '.']).message ⟨1, 2⟩) := by
    with_unfolding_all rfl
  constructor
  · exact (completable_iff _ (by decide) hpoint).1.2 ⟨rfl, 1, by with_unfolding_all rfl, rfl⟩
  · intro more
    have hnot : ¬ Error.Completable (Utf8.encode "(1..".toList) (.invalidNumber "1.."
        (Decimal.numeralFault ['1', '.', '.']).message ⟨1, 2⟩) := fun hc =>
      absurd hc.1 (by decide)
    obtain ⟨e', hread, hkind, hplace, _⟩ := (completable_iff _ (by decide) hlong).2 hnot more
    exact ⟨e', hread, hkind, hplace⟩

end Sexp
