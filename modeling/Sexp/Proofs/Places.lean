import Sexp.Proofs.Lookup

/-!
# Places through a session

Whatever is asked of a cursor, and whatever was answered, it stands on its source and knows where. So
the replies say where their tokens and faults stand in it (`Reply.Placed`), the tokens of a whole
session are those of one run of steps (`Cursor.Steps`), each of them behind the ones before it, and no
byte is looked up that is not there (`requests_keep_places`).
-/

namespace Sexp

/-! ### What a reply says -/

/-- The tokens of a reply, none if it is a fault or expressions. -/
def Reply.heldTokens : Reply → List Token
  | .token (.ok t) => [t]
  | .tokens (.ok ts) => ts
  | _ => []

def Reply.fault? : Reply → Option Error
  | .token (.error e) | .tokens (.error e) | .exprs (.error e) => some e
  | _ => none

/-- The token is that of the end, or it is a lexeme and has the place where this begins. -/
def Token.Placed (source : List UInt8) (t : Token) : Prop :=
  t = endToken source ∨ ∃ n, Mark.Lexed source ⟨n, t⟩

/-- The tokens of a reply have their places; a string without an end is reported where the lexeme
begins that was looked for last, which is where the last quote of the source stands. -/
structure Reply.Placed (source : List UInt8) (reply : Reply) (next : Cursor) : Prop where
  tokens : ∀ t ∈ reply.heldTokens, t.Placed source
  unclosed : ∀ p, reply.fault? = some (.unterminatedString p) →
    p = .at source next.lexemeStart ∧ LastQuote source next.lexemeStart

theorem Builder.finish_ne_unterminatedString (b : Builder) (p : Position) :
    b.finish ≠ .error (.unterminatedString p) := by
  unfold finish
  split
  · exact nofun
  · exact nofun

namespace Cursor

section Step

variable {source : List UInt8} {c next : Cursor}

theorem IsOn.token_placed (h : IsOn source c) {t : Token} (hscan : c.scan = (.ok t, next)) :
    t.Placed source := by
  cases ScanStep.of_scan hscan with
  | atEnd _ =>
    have hplace := h.position_extract h.offset_le (Nat.le_refl _)
    have hrest := h.extract_offset h.offset_le
    rw [List.drop_length, List.append_nil] at hrest
    rw [← hrest] at hplace
    exact .inl (congrArg (Token.mk .eof "") hplace)
  | lexeme _ _ hv _ => exact .inr ⟨_, lexed_of_scan h hscan (hv.isEof_token _)⟩

theorem IsOn.reply_placed (h : IsOn source c) {e : Error} (hscan : c.scan = (.error e, next))
    {reply : Reply} (hheld : reply.heldTokens = []) (hfault : reply.fault? = some e) :
    reply.Placed source next := by
  cases ScanStep.of_scan hscan with
  | @unclosed gap rest hr _ hq =>
    have hgap := h.gap hr
    refine ⟨?_, fun p hp => ?_⟩
    · rw [hheld]
      exact List.forall_mem_nil _
    · rw [hfault] at hp
      cases hp
      exact ⟨hgap.position, lastQuote_iff.2 ⟨rest, hgap.rest, hq⟩⟩

end Step

/-! ### One request -/

theorem IsOn.answer_placed {source : List UInt8} {c : Cursor} (h : IsOn source c) (r : Request) :
    (c.answer r).1.Placed source (c.answer r).2 := by
  cases r with
  | scan =>
    show Reply.Placed source (.token c.scan.1) c.scan.2
    cases hscan : c.scan with
    | mk result next =>
      cases result with
      | ok t => exact ⟨List.forall_mem_singleton.2 (h.token_placed hscan), nofun⟩
      | error e => exact h.reply_placed hscan rfl rfl
  | scanAll =>
    show Reply.Placed source (.tokens c.scanAll.1) c.scanAll.2
    obtain ⟨ms, last, hs, hstop⟩ := c.exists_scans
    have hlast := hs.isOn h
    rw [hs.scanAll]
    cases hscan : last.scan with
    | mk result next =>
      cases result with
      | ok t =>
        rw [scanAll_of_isEof hscan (hstop t next hscan)]
        refine ⟨fun u hu => ?_, nofun⟩
        rcases List.mem_append.1 hu with hu | hu
        · obtain ⟨m, hm, rfl⟩ := List.mem_map.1 hu
          exact .inr ⟨m.offset, hs.lexed h m hm⟩
        · obtain rfl := List.mem_singleton.1 hu
          exact hlast.token_placed hscan
      | error e =>
        rw [scanAll_of_error hscan]
        exact hlast.reply_placed hscan rfl rfl
  | read =>
    show Reply.Placed source (.exprs c.read.1) c.read.2
    obtain ⟨ms, last, b, hs, _, hend⟩ := c.readInto_ends .empty
    have hlast := hs.isOn h
    rw [read]
    generalize c.readInto .empty = a at hend
    -- A builder has no fault of this kind, so it is one of the last step.
    cases hend with
    | atEnd _ _ =>
      refine ⟨List.forall_mem_nil _, fun p hp => ?_⟩
      cases hfin : b.finish with
      | ok es =>
        rw [hfin] at hp
        cases hp
      | error e =>
        rw [hfin] at hp
        cases hp
        exact absurd hfin (b.finish_ne_unterminatedString p)
    | fault hscan => exact hlast.reply_placed hscan rfl rfl
    | misfit _ _ hb =>
      refine ⟨List.forall_mem_nil _, fun p hp => ?_⟩
      cases hp
      rcases Builder.push_error_cases hb with ⟨_, h⟩ | ⟨_, _, _, h⟩ <;> cases h

/-! ### All steps of a session -/

theorem Scans.append {c mid last : Cursor} {ms vs : List Mark} (h : c.Scans ms mid)
    (hv : mid.Scans vs last) : c.Scans (ms ++ vs) last := by
  induction h with
  | nil c => exact hv
  | cons hscan ht _ ih => exact .cons hscan ht (ih hv)

/-- The tokens of steps come one behind the other. -/
theorem Scans.ordered {c last : Cursor} {ms : List Mark} (h : c.Scans ms last) :
    (∀ m ∈ ms, c.offset ≤ m.offset) ∧ ms.Pairwise (·.offset < ·.offset) := by
  induction h with
  | nil c => exact ⟨List.forall_mem_nil _, .nil⟩
  | @cons c next last t ms hscan ht _ ih =>
    obtain ⟨hle, hms⟩ := ih
    cases ScanStep.of_scan hscan with
    | atEnd _ => cases ht
    | @lexeme gap l rest _ _ hv _ =>
      have hpos := List.length_pos_iff.2 hv.ne_nil
      have hahead : ∀ m ∈ ms, c.offset + gap.length + l.bytes.length ≤ m.offset := hle
      refine ⟨List.forall_mem_cons.2 ⟨Nat.le_add_right _ _, fun m hm => ?_⟩,
        List.pairwise_cons.2 ⟨fun m hm => ?_, hms⟩⟩
      · have := hahead m hm
        omega
      · show c.offset + gap.length < m.offset
        have := hahead m hm
        omega

/-- These are the tokens, without that of the end, of all steps that requests make, also of those whose
answers no reply holds. The steps lead to where the requests leave the cursor; or the last of them
answers the end or a fault, and the cursor has nothing left. -/
def Steps (c : Cursor) (rs : List Request) (ms : List Mark) : Prop :=
  ∃ last, c.Scans ms last ∧
    (c.afterRequests rs = last ∨ last.Stops ∧ (c.afterRequests rs).rest = [])

/-- The tokens that replies hold, without those of the end. -/
def held (replies : List (Reply × Cursor)) : List Token :=
  replies.flatMap fun a => a.1.heldTokens.filter (!·.isEof)

/-- A request whose last step answers the end or a fault leaves nothing. -/
theorem Scans.steps_of_stops {c last : Cursor} {ms : List Mark} {r : Request}
    (h : c.Scans ms last) (hstop : last.Stops) (hend : (c.answer r).2 = last.scan.2) :
    c.Steps [r] ms := by
  refine ⟨last, h, .inr ⟨hstop, ?_⟩⟩
  show (c.answer r).2.rest = []
  rw [hend]
  exact hstop.rest_scan

theorem held_singleton (reply : Reply) (next : Cursor) :
    held [(reply, next)] = reply.heldTokens.filter (!·.isEof) := by
  rw [held, List.flatMap_singleton]

theorem answer_steps (c : Cursor) (r : Request) :
    ∃ ms, c.Steps [r] ms ∧ (held [c.answer r]).Sublist (ms.map Mark.token) := by
  cases r with
  | scan =>
    cases hscan : c.scan with
    | mk result next =>
      have hanswer : c.answer .scan = (.token result, next) := by rw [answer, hscan]
      rw [hanswer, held_singleton]
      have hend : (c.answer .scan).2 = c.scan.2 := rfl
      cases result with
      | error e =>
        exact ⟨[], (Scans.nil c).steps_of_stops (stops_of_error hscan) hend, .slnil⟩
      | ok t =>
        cases ht : t.isEof with
        | true =>
          refine ⟨[], (Scans.nil c).steps_of_stops (stops_of_isEof hscan ht) hend, ?_⟩
          simp [Reply.heldTokens, ht]
        | false =>
          refine ⟨_, ⟨next, .cons hscan ht (.nil next), .inl (congrArg Prod.snd hanswer)⟩, ?_⟩
          exact List.filter_sublist
  | scanAll =>
    obtain ⟨ms, last, hs, hstop, hend⟩ := c.scanAll_ends
    refine ⟨ms, hs.steps_of_stops hstop hend, ?_⟩
    show (held [(.tokens c.scanAll.1, c.scanAll.2)]).Sublist _
    rw [held_singleton, hs.scanAll]
    cases hscan : last.scan with
    | mk result next =>
      cases result with
      | error e =>
        rw [scanAll_of_error hscan]
        exact List.nil_sublist _
      | ok t =>
        have ht := hstop t next hscan
        rw [scanAll_of_isEof hscan ht]
        show ((ms.map Mark.token ++ [t]).filter (!·.isEof)).Sublist _
        rw [List.filter_append]
        simp [ht, List.filter_sublist]
  | read =>
    obtain ⟨ms, last, b, hs, _, hend⟩ := c.readInto_ends .empty
    have hnone (ms : List Mark) : (held [c.answer .read]).Sublist (ms.map Mark.token) :=
      List.nil_sublist _
    have hnext := hend.scan_snd
    generalize ha : c.readInto .empty = a at hend hnext
    have hanswer : (c.answer .read).2 = a.2 := congrArg Prod.snd ha
    cases hend with
    | atEnd hscan ht =>
      exact ⟨ms, hs.steps_of_stops (stops_of_isEof hscan ht) (hanswer.trans hnext.symm), hnone _⟩
    | fault hscan =>
      exact ⟨ms, hs.steps_of_stops (stops_of_error hscan) (hanswer.trans hnext.symm), hnone _⟩
    | misfit hscan ht _ =>
      exact ⟨_, ⟨_, hs.append (.cons hscan ht (.nil _)), .inl hanswer⟩, hnone _⟩

theorem exists_steps (c : Cursor) (rs : List Request) :
    ∃ ms, c.Steps rs ms ∧ (held (c.answers rs)).Sublist (ms.map Mark.token) := by
  induction rs generalizing c with
  | nil => exact ⟨[], ⟨c, .nil c, .inl rfl⟩, .slnil⟩
  | cons r rs ih =>
    obtain ⟨ms, ⟨mid, hs, hmid⟩, hheld⟩ := c.answer_steps r
    obtain ⟨vs, ⟨last, hv, hlast⟩, hmore⟩ := ih (c.answer r).2
    have happend : (held (c.answers (r :: rs))).Sublist ((ms ++ vs).map Mark.token) := by
      have hcons : held (c.answers (r :: rs)) =
          held [c.answer r] ++ held ((c.answer r).2.answers rs) := by
        simp [held, answers]
      rw [hcons, List.map_append]
      exact hheld.append hmore
    -- Either the next request goes on from the last of these tokens, or nothing is left for it.
    rcases hmid with hmid | ⟨hstop, hrest⟩
    · have hnext : (c.answer r).2 = mid := hmid
      rw [← hnext] at hs
      exact ⟨ms ++ vs, ⟨last, hs.append hv, hlast⟩, happend⟩
    · have hnil : (c.answer r).2.rest = [] := hrest
      obtain ⟨rfl, rfl⟩ := hv.of_rest_nil hnil
      rw [List.append_nil] at happend
      refine ⟨ms, ⟨mid, hs, .inr ⟨hstop, ?_⟩⟩, happend⟩
      rcases hlast with hlast | ⟨_, hlast⟩
      · exact (congrArg Cursor.rest hlast).trans hnil
      · exact hlast

end Cursor

/-! ### A whole session -/

/-- Whatever is asked of a cursor on a source: it stands on the source and knows where; it never goes
back; replies have the places of their tokens and of a string without an end; the tokens of all steps,
with those that replies hold, come one behind the other; and the same replies are given by looking bytes
up, which never fails. -/
theorem requests_keep_places (source : List UInt8) (rs : List Request) :
    let start := Cursor.ofSource source
    let c := start.afterRequests rs
    (c.lexemeStart ≤ c.offset ∧ c.offset ≤ source.length ∧ c.position = .at source c.offset) ∧
    (∀ r, c.offset ≤ (c.answer r).2.offset ∧ (c.answer r).1.Placed source (c.answer r).2) ∧
    (∃ ms, start.Steps rs ms ∧ (∀ m ∈ ms, m.Lexed source) ∧
      ms.Pairwise (fun m n => m.token.position.Before n.token.position) ∧
      (Cursor.held (start.answers rs)).Sublist (ms.map Mark.token)) ∧
    start.pointer.answers? source rs =
      some ((start.answers rs).map fun (reply, next) => (reply, next.pointer)) := by
  intro start c
  have hstart : start.IsOn source := Cursor.isOn_ofSource source
  have hon : c.IsOn source := hstart.afterRequests rs
  refine ⟨⟨hon.lexemeStart_le, hon.offset_le, hon.position⟩, fun r => ⟨?_, hon.answer_placed r⟩, ?_,
    hstart.answers?_pointer rs⟩
  · exact c.offset_le_answer r
  · -- The tokens of one run have growing offsets, and places grow as offsets do.
    obtain ⟨ms, hsteps, hheld⟩ := start.exists_steps rs
    have ⟨last, hs, _⟩ := hsteps
    have hlexed := hs.lexed hstart
    refine ⟨ms, hsteps, hlexed, hs.ordered.2.imp_of_mem fun {m n} hm hn hlt => ?_, hheld⟩
    rw [(hlexed m hm).position, (hlexed n hn).position]
    exact Position.at_before hlt (Nat.le_of_lt (hlexed n hn).offset_lt)

end Sexp
