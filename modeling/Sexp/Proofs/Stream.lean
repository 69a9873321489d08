import Sexp.Proofs.Places

/-!
# One stream for all requests

What the steps of a cursor answer is settled by the source alone: first its tokens, then the fault of a
string without an end if there is one, and then its end, again and again (`Stream`, `Stream.get`). A
step takes the element that comes next (`Stream.IsAhead.scan`), and a request for all tokens takes
those up to the end or the fault (`Stream.IsAhead.scanAll`); so it makes no difference to the elements
how the two are mixed (`requests_cut_one_stream`).
-/

namespace Sexp

/-- What a step answers, and where the lexeme stops that it has taken. -/
structure Element where
  result : Except Error Token
  stop : Nat

def Element.isLast (e : Element) : Bool :=
  match e.result with
  | .ok t => t.isEof
  | .error _ => true

/-- The spans of tokens, and where the quote stands behind them that begins a string without an end. -/
structure Stream where
  spans : List Span
  unclosed : Option Nat

namespace Stream

def head (source : List UInt8) : Stream → Element
  | ⟨s :: _, _⟩ => ⟨.ok s.token, s.stop⟩
  | ⟨[], some n⟩ => ⟨.error (.unterminatedString (.at source n)), source.length⟩
  | ⟨[], none⟩ => ⟨.ok (endToken source), source.length⟩

def tail : Stream → Stream
  | ⟨_ :: ss, q⟩ => ⟨ss, q⟩
  | ⟨[], _⟩ => ⟨[], none⟩

def drop (st : Stream) (n : Nat) : Stream :=
  ⟨st.spans.drop n, if n ≤ st.spans.length then st.unclosed else none⟩

/-- The element that `n` others stand before. There always is one: the tokens and the fault are
followed by the end. -/
def get (source : List UInt8) (st : Stream) (n : Nat) : Element := (st.drop n).head source

/-- The spans and blanks make up the source from `lo` on, up to its end or to a quote that begins a
string without an end. -/
structure IsAhead (source : List UInt8) (lo : Nat) (st : Stream) : Prop where
  le : lo ≤ st.unclosed.getD source.length
  spans : Partition source lo (st.unclosed.getD source.length) st.spans
  unclosed : ∀ n ∈ st.unclosed, LastQuote source n

/-! ### Requests -/

/-- What the elements from `n` on answer, `k` of them, or the first fault among them. -/
def results (source : List UInt8) (st : Stream) (n k : Nat) : Except Error (List Token) :=
  (List.range' n k).mapM fun i => (st.get source i).result

/-- A request to which `n` elements are given has this reply, and the element `last` is the last that it
takes: a request for one token takes element `n`, and one for all tokens takes those from `n` up to the
first that is the end or a fault. -/
inductive Gives (source : List UInt8) (st : Stream) (n : Nat) : Request → Reply → Nat → Prop
  | scan : Gives source st n .scan (.token (st.get source n).result) n
  | scanAll {k : Nat} (hbefore : ∀ i, i < k → (st.get source (n + i)).isLast = false)
    (hlast : (st.get source (n + k)).isLast = true) :
    Gives source st n .scanAll (.tokens (st.results source n (k + 1))) (n + k)

/-- Requests one after the other, when `n` elements are taken, have these replies, each with the place
where the last element stops that was taken for it. -/
inductive Serves (source : List UInt8) (st : Stream) :
    Nat → List Request → List (Reply × Nat) → Prop
  | nil (n : Nat) : Serves source st n [] []
  | cons {n last : Nat} {r : Request} {reply : Reply} {rs : List Request}
    {replies : List (Reply × Nat)} (h : st.Gives source n r reply last)
    (hs : Serves source st (last + 1) rs replies) :
    Serves source st n (r :: rs) ((reply, (st.get source last).stop) :: replies)

/-! ### Elements -/

@[simp] theorem drop_zero (st : Stream) : st.drop 0 = st := by simp [drop]

theorem tail_drop (st : Stream) (n : Nat) : (st.drop n).tail = st.drop (n + 1) := by
  by_cases hn : n < st.spans.length
  · have hcons := List.drop_eq_getElem_cons hn
    simp only [drop, hcons, tail, Nat.le_of_lt hn, Nat.succ_le_of_lt hn]
  · have hnil : st.spans.drop n = [] := List.drop_eq_nil_of_le (by omega)
    have hnil' : st.spans.drop (n + 1) = [] := List.drop_eq_nil_of_le (by omega)
    have hlt : ¬ n + 1 ≤ st.spans.length := by omega
    simp only [drop, hnil, hnil', tail, hlt, if_false]

theorem results_succ {source : List UInt8} {st : Stream} {n : Nat} {t : Token}
    (h : (st.get source n).result = .ok t) (k : Nat) :
    st.results source n (k + 1) = (st.results source (n + 1) k).map (t :: ·) := by
  rw [results, List.range'_succ, List.mapM_cons, h]
  show ((List.range' (n + 1) k).mapM fun i => (st.get source i).result) >>= _ = _
  rw [← results]
  cases st.results source (n + 1) k <;> rfl

theorem results_one {source : List UInt8} {st : Stream} {n : Nat} :
    st.results source n 1 = (st.get source n).result.map fun t => [t] := by
  rw [results, List.range'_one, List.mapM_cons]
  cases (st.get source n).result <;> rfl

/-! ### One step, and all steps to the end -/

namespace IsAhead

variable {source : List UInt8} {st : Stream} {c : Cursor}

theorem scan (h : st.IsAhead source c.offset) (hc : c.IsOn source) :
    ∃ next, c.scan = ((st.head source).result, next) ∧ next.offset = (st.head source).stop ∧
      st.tail.IsAhead source next.offset := by
  have hend : (⟨[], none⟩ : Stream).IsAhead source source.length :=
    ⟨Nat.le_refl _, partition_end source, nofun⟩
  obtain ⟨spans, unclosed⟩ := st
  obtain ⟨hle, hspans, hquote⟩ := h
  cases spans with
  | cons s ss =>
    obtain ⟨next, hscan, hoffset⟩ := hspans.scan_span hc
    obtain ⟨_, _, hstop, _, htail⟩ := partition_cons_iff.1 hspans
    exact ⟨next, hscan, hoffset, hoffset ▸ ⟨hstop, htail, hquote⟩⟩
  | nil =>
    cases unclosed with
    | none =>
      obtain ⟨next, hscan, hoffset⟩ := hspans.scan_end hc
      exact ⟨next, hscan, hoffset, hoffset ▸ hend⟩
    | some n =>
      obtain ⟨next, hscan, hoffset⟩ := hspans.scan_unclosed hc hle (hquote n rfl)
      exact ⟨next, hscan, hoffset, hoffset ▸ hend⟩

theorem scan_get {n : Nat} (h : (st.drop n).IsAhead source c.offset) (hc : c.IsOn source) :
    ∃ next, c.scan = ((st.get source n).result, next) ∧ next.offset = (st.get source n).stop ∧
      (st.drop (n + 1)).IsAhead source next.offset := by
  rw [← tail_drop]
  exact h.scan hc

theorem scanAll {n : Nat} (h : (st.drop n).IsAhead source c.offset) (hc : c.IsOn source) :
    ∃ k, (∀ i, i < k → (st.get source (n + i)).isLast = false) ∧
      (st.get source (n + k)).isLast = true ∧ c.scanAll.1 = st.results source n (k + 1) ∧
      c.scanAll.2.offset = (st.get source (n + k)).stop ∧
      (st.drop (n + k + 1)).IsAhead source c.scanAll.2.offset := by
  -- By how much is left: a token other than the end leaves less.
  induction hlen : c.rest.length using Nat.strongRecOn generalizing c n with
  | ind m ih =>
    obtain ⟨next, hscan, hoffset, hnext⟩ := h.scan_get hc
    have hnone : ∀ i, i < 0 → (st.get source (n + i)).isLast = false := nofun
    cases hresult : (st.get source n).result with
    | error e =>
      have hone : st.results source n (0 + 1) = .error e := by rw [results_one, hresult]; rfl
      rw [hresult] at hscan
      rw [Cursor.scanAll_of_error hscan]
      exact ⟨0, hnone, by simp [Element.isLast, hresult], hone.symm, hoffset, hnext⟩
    | ok t =>
      rw [hresult] at hscan
      cases ht : t.isEof with
      | true =>
        have hone : st.results source n (0 + 1) = .ok [t] := by rw [results_one, hresult]; rfl
        rw [Cursor.scanAll_of_isEof hscan ht]
        exact ⟨0, hnone, by simp [Element.isLast, hresult, ht], hone.symm, hoffset, hnext⟩
      | false =>
        have hlt := Cursor.rest_scan_lt hscan ht
        obtain ⟨k, hbefore, hlast, hall, hstop, hahead⟩ :=
          ih next.rest.length (by omega) hnext (hc.next hscan) rfl
        rw [Cursor.scanAll_of_token hscan ht]
        have hshift (i : Nat) : n + (i + 1) = n + 1 + i := by omega
        refine ⟨k + 1, fun i hi => ?_, ?_, ?_, ?_, ?_⟩
        · cases i with
          | zero => simp [Element.isLast, hresult, ht]
          | succ i =>
            rw [hshift]
            exact hbefore i (by omega)
        · rw [hshift]
          exact hlast
        · rw [results_succ hresult, ← hall]
        · rw [hshift]
          exact hstop
        · rw [hshift]
          exact hahead

theorem gives {n : Nat} (h : (st.drop n).IsAhead source c.offset) (hc : c.IsOn source)
    {r : Request} (hr : r ≠ .read) :
    ∃ last, st.Gives source n r (c.answer r).1 last ∧
      (c.answer r).2.offset = (st.get source last).stop ∧
      (st.drop (last + 1)).IsAhead source (c.answer r).2.offset := by
  cases r with
  | scan =>
    obtain ⟨next, hscan, hoffset, hnext⟩ := h.scan_get hc
    have hanswer : c.answer .scan = (.token (st.get source n).result, next) := by
      rw [Cursor.answer, hscan]
    rw [hanswer]
    exact ⟨n, .scan, hoffset, hnext⟩
  | scanAll =>
    obtain ⟨k, hbefore, hlast, hall, hoffset, hnext⟩ := h.scanAll hc
    have hanswer : c.answer .scanAll = (.tokens (st.results source n (k + 1)), c.scanAll.2) := by
      rw [← hall]
      rfl
    rw [hanswer]
    exact ⟨n + k, .scanAll hbefore hlast, hoffset, hnext⟩
  | read => exact absurd rfl hr

theorem serves {n : Nat} (h : (st.drop n).IsAhead source c.offset) (hc : c.IsOn source)
    {rs : List Request} (hrs : .read ∉ rs) :
    st.Serves source n rs ((c.answers rs).map fun a => (a.1, a.2.offset)) := by
  induction rs generalizing c n with
  | nil => exact .nil n
  | cons r rs ih =>
    rw [List.mem_cons, not_or] at hrs
    obtain ⟨last, hgives, hoffset, hnext⟩ := h.gives hc (Ne.symm hrs.1)
    rw [Cursor.answers, List.map_cons, hoffset]
    exact .cons hgives (ih hnext (hc.answer r) hrs.2)

end IsAhead

/-! ### No other stream -/

theorem isAhead_unique {source : List UInt8} {c : Cursor} {st st' : Stream} (hc : c.IsOn source)
    (h : st.IsAhead source c.offset) (h' : st'.IsAhead source c.offset) : st = st' := by
  -- Both have the element that the cursor answers, so both go on alike behind it.
  obtain ⟨spans, q⟩ := st
  obtain ⟨spans', q'⟩ := st'
  induction spans generalizing c spans' with
  | nil =>
    obtain ⟨next, hscan, _, _⟩ := h.scan hc
    obtain ⟨next', hscan', _, _⟩ := h'.scan hc
    have hresult := congrArg Prod.fst (hscan.symm.trans hscan')
    cases spans' with
    | cons s ss =>
      have heof := (h'.spans.lexed s List.mem_cons_self).isEof_token
      cases q with
      | none =>
        rw [← Except.ok.inj hresult] at heof
        cases heof
      | some n => cases hresult
    | nil =>
      cases q with
      | none =>
        cases q' with
        | none => rfl
        | some n' => cases hresult
      | some n =>
        cases q' with
        | none => cases hresult
        | some n' => rw [(h.unclosed n rfl).unique (h'.unclosed n' rfl)]
  | cons s ss ih =>
    obtain ⟨next, hscan, hoffset, hnext⟩ := h.scan hc
    obtain ⟨next', hscan', hoffset', hnext'⟩ := h'.scan hc
    obtain ⟨hresult, rfl⟩ := Prod.mk.inj (hscan.symm.trans hscan')
    have hs := h.spans.lexed s List.mem_cons_self
    have heof := hs.isEof_token
    cases spans' with
    | nil =>
      cases q' with
      | none =>
        rw [Except.ok.inj hresult] at heof
        cases heof
      | some n => cases hresult
    | cons u us =>
      have hu := h'.spans.lexed u List.mem_cons_self
      obtain rfl := hs.ext hu (Except.ok.inj hresult) (hoffset.symm.trans hoffset')
      obtain ⟨rfl, rfl⟩ := Stream.mk.inj (ih (hc.next hscan) hnext us hnext')
      rfl

theorem exists_isAhead (source : List UInt8) : ∃ st : Stream, st.IsAhead source 0 := by
  rcases exists_partition source with ⟨ss, h⟩ | ⟨n, ss, h, hq⟩
  · exact ⟨⟨ss, none⟩, Nat.zero_le _, h, nofun⟩
  · refine ⟨⟨ss, some n⟩, Nat.zero_le _, h, fun m hm => ?_⟩
    cases hm
    exact hq

end Stream

/-! ### After the end -/

/-- The reply holds the token of the end, or it is a fault. -/
def Reply.EndsStream (reply : Reply) : Prop :=
  (∃ t ∈ reply.heldTokens, t.isEof = true) ∨ ∃ e, reply.fault? = some e

theorem Stream.stop_of_isLast {source : List UInt8} {st : Stream}
    (h : ∀ s ∈ st.spans, s.Lexed source) {n : Nat} (hlast : (st.get source n).isLast = true) :
    (st.get source n).stop = source.length := by
  rw [get, drop] at hlast ⊢
  generalize (if n ≤ st.spans.length then st.unclosed else none) = q at hlast ⊢
  cases hspans : st.spans.drop n with
  | cons s ss =>
    have hmem : s ∈ st.spans := List.mem_of_mem_drop (hspans ▸ List.mem_cons_self)
    rw [hspans] at hlast
    have heof : s.token.isEof = true := hlast
    rw [(h s hmem).isEof_token] at heof
    cases heof
  | nil => cases q <;> rfl

theorem Stream.Gives.isLast {source : List UInt8} {st : Stream} {n last : Nat} {r : Request}
    {reply : Reply} (h : st.Gives source n r reply last) (hend : reply.EndsStream) :
    (st.get source last).isLast = true := by
  cases h with
  | scan =>
    cases hresult : (st.get source n).result with
    | error e => simp [Element.isLast, hresult]
    | ok t =>
      rw [hresult] at hend
      rcases hend with ⟨u, hu, heof⟩ | ⟨e, he⟩
      · rw [List.mem_singleton.1 hu] at heof
        simp [Element.isLast, hresult, heof]
      · cases he
  | scanAll _ hlast => exact hlast

namespace Cursor.IsOn

variable {source : List UInt8} {c : Cursor}

theorem offset_afterRequests (hc : c.IsOn source) (h : c.offset = source.length)
    (rs : List Request) : (c.afterRequests rs).offset = source.length := by
  induction rs generalizing c with
  | nil => exact h
  | cons r rs ih =>
    have hle := c.offset_le_answer r
    have hnext := (hc.answer r).offset_le
    have hoffset : (c.answer r).2.offset = source.length := by omega
    exact ih (hc.answer r) hoffset

theorem scanAll_of_end (hc : c.IsOn source) (h : c.offset = source.length) :
    c.scanAll.1 = .ok [endToken source] := by
  have hnil : Partition source c.offset source.length [] := by
    rw [h]
    exact partition_end source
  obtain ⟨next, hscan, _⟩ := hnil.scan_end hc
  rw [scanAll_of_isEof hscan rfl]

theorem offset_of_endsStream {st : Stream} {n : Nat} (hst : ∀ s ∈ st.spans, s.Lexed source)
    (hc : c.IsOn source) (h : (st.drop n).IsAhead source c.offset) {rs : List Request} (hrs : .read ∉ rs)
    (hend : ∃ a ∈ c.answers rs, a.1.EndsStream) : (c.afterRequests rs).offset = source.length := by
  induction rs generalizing c n with
  | nil =>
    obtain ⟨a, ha, _⟩ := hend
    cases ha
  | cons r rs ih =>
    rw [List.mem_cons, not_or] at hrs
    obtain ⟨last, hgives, hoffset, hnext⟩ := h.gives hc (Ne.symm hrs.1)
    obtain ⟨a, ha, hends⟩ := hend
    rcases List.mem_cons.1 ha with rfl | ha
    · have hstop := Stream.stop_of_isLast hst (hgives.isLast hends)
      exact (hc.answer r).offset_afterRequests (hoffset.trans hstop) rs
    · exact ih (hc.answer r) hnext hrs.2 ⟨a, ha, hends⟩

end Cursor.IsOn

/-- There is one stream of elements for a source, and requests for one token and for all tokens, in
whatever order, are served from it: each takes the elements that come next and leaves the cursor where
the last of them stops. When the end or a fault was among them, nothing is left for any request. -/
theorem requests_cut_one_stream (source : List UInt8) :
    let start := Cursor.ofSource source
    ∃ st : Stream, (st.IsAhead source 0 ∧ ∀ st' : Stream, st'.IsAhead source 0 → st' = st) ∧
      ∀ rs, .read ∉ rs →
        st.Serves source 0 rs ((start.answers rs).map fun (reply, next) => (reply, next.offset)) ∧
        ((∃ a ∈ start.answers rs, a.1.EndsStream) → ∀ ss,
          let c := start.afterRequests (rs ++ ss)
          c.offset = source.length ∧ c.scanAll.1 = .ok [endToken source]) := by
  intro start
  have hon : start.IsOn source := Cursor.isOn_ofSource source
  obtain ⟨st, hst⟩ := Stream.exists_isAhead source
  have hahead : (st.drop 0).IsAhead source start.offset := by
    rw [Stream.drop_zero]
    exact hst
  refine ⟨st, ⟨hst, fun st' hst' => Stream.isAhead_unique (c := start) hon hst' hst⟩,
    fun rs hrs => ⟨hahead.serves hon hrs, fun hend ss => ?_⟩⟩
  have hrs' := hon.afterRequests rs
  have hoffset := hrs'.offset_afterRequests (hon.offset_of_endsStream hst.spans.lexed hahead hrs hend) ss
  rw [← Cursor.afterRequests_append] at hoffset
  exact ⟨hoffset, (hon.afterRequests (rs ++ ss)).scanAll_of_end hoffset⟩

/-- The symbol is taken by a step, the fault by a request for all tokens, and then the end is left. -/
theorem open_string_cuts_one_stream :
    .read ∉ [Request.scan, .scanAll, .scanAll] ∧
      ∃ st : Stream, st.IsAhead (Utf8.encode "x \"y".toList) 0 ∧
        st.Serves (Utf8.encode "x \"y".toList) 0 [.scan, .scanAll, .scanAll]
          [(.token (.ok ⟨.symbol, "x", ⟨1, 1⟩⟩), 1),
            (.tokens (.error (.unterminatedString ⟨1, 3⟩)), 4),
            (.tokens (.ok [⟨.eof, "", ⟨1, 5⟩⟩]), 4)] ∧
        ∀ ss, ((Cursor.ofSource (Utf8.encode "x \"y".toList)).afterRequests
          ([.scan, .scanAll, .scanAll] ++ ss)).offset = 4 := by
  have hrs : .read ∉ [Request.scan, .scanAll, .scanAll] := by decide
  obtain ⟨st, ⟨hst, _⟩, hserves⟩ := requests_cut_one_stream (Utf8.encode "x \"y".toList)
  obtain ⟨hreplies, hend⟩ := hserves _ hrs
  have hanswers : (Cursor.ofSource (Utf8.encode "x \"y".toList)).answers
      [.scan, .scanAll, .scanAll] =
        [(.token (.ok ⟨.symbol, "x", ⟨1, 1⟩⟩), ⟨Utf8.encode " \"y".toList, ⟨1, 2⟩, 1, 0⟩),
          (.tokens (.error (.unterminatedString ⟨1, 3⟩)), ⟨[], ⟨1, 5⟩, 4, 2⟩),
          (.tokens (.ok [⟨.eof, "", ⟨1, 5⟩⟩]), ⟨[], ⟨1, 5⟩, 4, 4⟩)] := by
    with_unfolding_all rfl
  rw [hanswers] at hreplies hend
  refine ⟨hrs, st, hst, hreplies, fun ss => (hend ⟨_, List.mem_cons_of_mem _ List.mem_cons_self, ?_⟩ ss).1⟩
  exact .inr ⟨_, rfl⟩

end Sexp
