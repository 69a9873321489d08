import Sexp.Proofs.FirstFault
import Sexp.Proofs.Utf8

/-!
# Every byte of a source

The tokens of a source stand for spans of it that do not overlap, and between them are blanks only
(`Partition`). Scanning a source to its end answers the tokens of such spans, and it fails exactly when
spans and blanks lead up to a quote that begins a string and is the last quote of the source
(`scanAll_partitions`). A source that is UTF-8 is cut between characters.
-/

namespace Sexp

/-! ### Pieces of a source -/

section Extract

variable {source : List UInt8} {lo mid hi : Nat}

theorem drop_eq_extract_append (source : List UInt8) (h : lo ≤ mid) :
    source.drop lo = source.extract lo mid ++ source.drop mid := by
  have hdrop : (source.drop lo).drop (mid - lo) = source.drop mid := by
    rw [List.drop_drop, Nat.add_sub_cancel' h]
  rw [List.extract_eq_take_drop, ← hdrop, List.take_append_drop]

theorem extract_of_drop {bytes rest : List UInt8} (h : source.drop lo = bytes ++ rest) :
    source.extract lo (lo + bytes.length) = bytes := by
  rw [List.extract_eq_take_drop, h, Nat.add_sub_cancel_left, List.take_left]

theorem length_extract (h : hi ≤ source.length) : (source.extract lo hi).length = hi - lo := by
  rw [List.extract_eq_take_drop, List.length_take, List.length_drop]
  omega

theorem mem_extract_iff {b : UInt8} :
    b ∈ source.extract lo hi ↔ ∃ i, lo ≤ i ∧ i < hi ∧ source[i]? = some b := by
  rw [List.extract_eq_take_drop, List.mem_iff_getElem?]
  constructor
  · rintro ⟨k, hk⟩
    rw [List.getElem?_take, List.getElem?_drop] at hk
    split at hk
    · exact ⟨lo + k, by omega, by omega, hk⟩
    · cases hk
  · rintro ⟨i, hlo, hhi, hi⟩
    refine ⟨i - lo, ?_⟩
    rw [List.getElem?_take, List.getElem?_drop, if_pos (by omega), Nat.add_sub_cancel' hlo]
    exact hi

end Extract

/-! ### Spans -/

/-- A token with the bytes of a source that it stands for: those from `start` up to `stop`. -/
structure Span where
  start : Nat
  stop : Nat
  token : Token

def Span.lexeme (source : List UInt8) (s : Span) : Lexeme :=
  ⟨s.token.kind, source.extract s.start s.stop⟩

/-- The span is a lexeme of the kind of its token and is over where it stops; the token is this lexeme
decoded, with the place of its first byte. -/
structure Span.Lexed (source : List UInt8) (s : Span) : Prop where
  start_lt : s.start < s.stop
  stop_le : s.stop ≤ source.length
  valid : (s.lexeme source).Valid
  ends : (s.lexeme source).EndsBefore (source.drop s.stop)
  token : s.token = (s.lexeme source).token (.at source s.start)

/-- The bytes of the source from `lo` up to `hi` are these spans, one after the other, and blanks. -/
structure Partition (source : List UInt8) (lo hi : Nat) (ss : List Span) : Prop where
  lexed : ∀ s ∈ ss, s.Lexed source
  inside : ∀ s ∈ ss, lo ≤ s.start ∧ s.stop ≤ hi
  ordered : ss.Pairwise fun s u => s.stop ≤ u.start
  blank : ∀ i b, lo ≤ i → i < hi → source[i]? = some b →
    (∀ s ∈ ss, i < s.start ∨ s.stop ≤ i) → isBlank b = true

theorem partition_nil_iff {source : List UInt8} {lo hi : Nat} :
    Partition source lo hi [] ↔ IsGap (source.extract lo hi) := by
  constructor
  · intro h b hb
    obtain ⟨i, hlo, hhi, hi⟩ := mem_extract_iff.1 hb
    exact h.blank i b hlo hhi hi (List.forall_mem_nil _)
  · intro h
    refine ⟨List.forall_mem_nil _, List.forall_mem_nil _, .nil, fun i b hlo hhi hi _ => ?_⟩
    exact h b (mem_extract_iff.2 ⟨i, hlo, hhi, hi⟩)

theorem partition_end (source : List UInt8) : Partition source source.length source.length [] := by
  apply partition_nil_iff.2
  rw [List.extract_eq_take_drop, List.drop_length, List.take_nil]
  exact List.forall_mem_nil _

theorem partition_cons_iff {source : List UInt8} {lo hi : Nat} {s : Span} {ss : List Span} :
    Partition source lo hi (s :: ss) ↔ s.Lexed source ∧ lo ≤ s.start ∧ s.stop ≤ hi ∧
      IsGap (source.extract lo s.start) ∧ Partition source s.stop hi ss := by
  constructor
  · intro h
    have hs := h.lexed s List.mem_cons_self
    have hinside := h.inside s List.mem_cons_self
    have hordered := List.pairwise_cons.1 h.ordered
    have hlt := hs.start_lt
    refine ⟨hs, hinside.1, hinside.2, fun b hb => ?_, ?_⟩
    · obtain ⟨i, hlo, hhi, hi⟩ := mem_extract_iff.1 hb
      refine h.blank i b hlo (by omega) hi fun u hu => .inl ?_
      rcases List.mem_cons.1 hu with rfl | hu
      · exact hhi
      · have := hordered.1 u hu
        omega
    · refine ⟨fun u hu => h.lexed u (List.mem_cons_of_mem s hu), fun u hu => ⟨hordered.1 u hu, ?_⟩,
        hordered.2, fun i b hlo hhi hi hout => ?_⟩
      · exact (h.inside u (List.mem_cons_of_mem s hu)).2
      · exact h.blank i b (by omega) hhi hi (List.forall_mem_cons.2 ⟨.inr hlo, hout⟩)
  · rintro ⟨hs, hlo, hhi, hgap, h⟩
    have hlt := hs.start_lt
    refine ⟨List.forall_mem_cons.2 ⟨hs, h.lexed⟩, List.forall_mem_cons.2 ⟨⟨hlo, hhi⟩, ?_⟩,
      List.pairwise_cons.2 ⟨fun u hu => (h.inside u hu).1, h.ordered⟩, fun i b hi₁ hi₂ hi hout => ?_⟩
    · intro u hu
      have := h.inside u hu
      omega
    · obtain ⟨hout, houts⟩ := List.forall_mem_cons.1 hout
      rcases hout with hout | hout
      · exact hgap b (mem_extract_iff.2 ⟨i, hi₁, hout, hi⟩)
      · exact h.blank i b hout hi₂ hi houts

/-! ### Spans and steps -/

namespace Cursor

variable {source : List UInt8} {c : Cursor}

theorem IsOn.drop_gap (h : IsOn source c) {gap rest : List UInt8} (hr : c.rest = gap ++ rest) :
    source.drop (c.offset + gap.length) = rest :=
  (h.gap hr).rest

theorem IsOn.extract_gap (h : IsOn source c) {gap rest : List UInt8} (hr : c.rest = gap ++ rest) :
    source.extract c.offset (c.offset + gap.length) = gap :=
  extract_of_drop (h.rest.trans hr)

/-- The tokens of steps are those of spans, as far as blanks follow the last of them. -/
theorem Scans.exists_partition {last : Cursor} {ms : List Mark} (h : c.Scans ms last)
    (hc : IsOn source c) {hi : Nat} (hle : last.offset ≤ hi)
    (hgap : IsGap (source.extract last.offset hi)) :
    c.offset ≤ hi ∧ ∃ ss, Partition source c.offset hi ss ∧
      ss.map Span.token = ms.map Mark.token := by
  induction h with
  | nil c => exact ⟨hle, [], partition_nil_iff.2 hgap, rfl⟩
  | @cons c next last t ms hscan ht hs ih =>
    have hon := hc.next hscan
    obtain ⟨hnext, ss, hss, htokens⟩ := ih hon hle hgap
    cases ScanStep.of_scan hscan with
    | atEnd _ => cases ht
    | @lexeme gap l rest hr hg hv he =>
      have hstart := hc.drop_gap hr
      have hpos := List.length_pos_iff.2 hv.ne_nil
      let s : Span := ⟨c.offset + gap.length, c.offset + gap.length + l.bytes.length,
        l.token (c.position.after gap)⟩
      have hlexeme : s.lexeme source = l := congrArg (Lexeme.mk l.kind) (extract_of_drop hstart)
      have hlexed : s.Lexed source := by
        refine ⟨Nat.lt_add_of_pos_right hpos, hon.offset_le, ?_, ?_, ?_⟩
        · rw [hlexeme]
          exact hv
        · rw [hlexeme]
          exact hon.rest ▸ he
        · rw [hlexeme]
          exact congrArg l.token (hc.gap hr).position
      have hoffset : c.offset + gap.length + l.bytes.length ≤ hi := hnext
      refine ⟨by omega, s :: ss, partition_cons_iff.2 ⟨hlexed, ?_, hoffset, ?_, hss⟩, ?_⟩
      · exact Nat.le_add_right _ _
      · show IsGap (source.extract c.offset (c.offset + gap.length))
        rw [hc.extract_gap hr]
        exact hg
      · rw [List.map_cons, List.map_cons, htokens]

end Cursor

section Span

variable {source : List UInt8} {c : Cursor} {hi : Nat} {s : Span} {ss : List Span}

/-- A step takes the first of the spans that lie ahead. -/
theorem Partition.scan_span (h : Partition source c.offset hi (s :: ss)) (hc : c.IsOn source) :
    ∃ next, c.scan = (.ok s.token, next) ∧ next.offset = s.stop := by
  obtain ⟨hs, hstart, hstop, hgap, htail⟩ := partition_cons_iff.1 h
  have hlt := hs.start_lt
  have hfits := hs.stop_le
  have hrest : c.rest = source.extract c.offset s.start ++
      ((s.lexeme source).bytes ++ source.drop s.stop) := by
    have hbytes := drop_eq_extract_append source (Nat.le_of_lt hlt)
    rw [← hc.rest, drop_eq_extract_append source hstart, hbytes]
    rfl
  have hlen : c.offset + (source.extract c.offset s.start).length = s.start := by
    rw [length_extract (by omega)]
    omega
  have hscan := Cursor.scan_lexeme hrest hgap hs.valid hs.ends
  have hplace : c.position.after (source.extract c.offset s.start) =
      .at source (c.offset + (source.extract c.offset s.start).length) := (hc.gap hrest).position
  rw [hlen] at hplace
  rw [hplace, ← hs.token] at hscan
  refine ⟨_, hscan, ?_⟩
  show c.offset + _ + (source.extract s.start s.stop).length = s.stop
  rw [hlen, length_extract hfits]
  omega

theorem Span.Lexed.isEof_token (h : s.Lexed source) : s.token.isEof = false := by
  rw [h.token]
  exact h.valid.isEof_token _

/-- A token and where it stops settle where it begins. -/
theorem Span.Lexed.ext {u : Span} (hs : s.Lexed source) (hu : u.Lexed source)
    (ht : s.token = u.token) (hstop : s.stop = u.stop) : s = u := by
  have hplace : Position.at source s.start = .at source u.start := by
    have hs' := congrArg Token.position hs.token
    have hu' := congrArg Token.position hu.token
    rw [ht] at hs'
    exact hs'.symm.trans hu'
  have hslt := hs.start_lt
  have hult := hu.start_lt
  have hsle := hs.stop_le
  have hule := hu.stop_le
  have hstart := Position.at_inj (by omega) (by omega) hplace
  cases s
  cases u
  cases ht
  cases hstop
  cases hstart
  rfl

/-- Spans one after the other are what steps find. -/
theorem Partition.exists_scans (h : Partition source c.offset hi ss) (hc : c.IsOn source)
    (hle : c.offset ≤ hi) :
    ∃ ms last, c.Scans ms last ∧ ms.map Mark.token = ss.map Span.token ∧ last.offset ≤ hi ∧
      IsGap (source.extract last.offset hi) := by
  induction ss generalizing c with
  | nil => exact ⟨[], c, .nil c, rfl, hle, partition_nil_iff.1 h⟩
  | cons s ss ih =>
    obtain ⟨next, hscan, hoffset⟩ := h.scan_span hc
    obtain ⟨hs, _, hstop, _, htail⟩ := partition_cons_iff.1 h
    rw [← hoffset] at htail hstop
    obtain ⟨ms, last, hms, htokens, hlast, hend⟩ := ih htail (hc.next hscan) hstop
    refine ⟨_, last, .cons hscan hs.isEof_token hms, ?_, hlast, hend⟩
    rw [List.map_cons, List.map_cons, htokens]

end Span

/-! ### A whole source -/

/-- The token of the end of a source. -/
def endToken (source : List UInt8) : Token := ⟨.eof, "", .at source source.length⟩

/-- At offset `n` stands a quote, and no other after it. -/
structure LastQuote (source : List UInt8) (n : Nat) : Prop where
  quote : source[n]? = some quote
  last : ∀ k, n < k → source[k]? ≠ some Sexp.quote

theorem lastQuote_iff {source : List UInt8} {n : Nat} :
    LastQuote source n ↔ ∃ rest, source.drop n = quote :: rest ∧ quote ∉ rest := by
  constructor
  · rintro ⟨hq, hlast⟩
    obtain ⟨hlt, hget⟩ := List.getElem?_eq_some_iff.1 hq
    have hdrop := List.drop_eq_getElem_cons hlt
    rw [hget] at hdrop
    refine ⟨_, hdrop, fun hmem => ?_⟩
    obtain ⟨i, hi⟩ := List.mem_iff_getElem?.1 hmem
    rw [List.getElem?_drop] at hi
    exact hlast (n + 1 + i) (by omega) hi
  · rintro ⟨rest, hdrop, hmem⟩
    exact ⟨getElem?_of_drop hdrop 0, getElem?_ne_of_drop hdrop hmem⟩

theorem LastQuote.unique {source : List UInt8} {m n : Nat} (hm : LastQuote source m)
    (hn : LastQuote source n) : m = n := by
  rcases Nat.lt_trichotomy m n with hlt | heq | hlt
  · exact absurd hn.quote (hm.last n hlt)
  · exact heq
  · exact absurd hm.quote (hn.last m hlt)

section Source

variable {source : List UInt8}

theorem Cursor.IsOn.extract_offset {c : Cursor} (hc : c.IsOn source) {n : Nat}
    (h : c.offset ≤ n) : c.rest = source.extract c.offset n ++ source.drop n := by
  rw [← hc.rest, drop_eq_extract_append source h]

theorem Cursor.IsOn.position_extract {c : Cursor} (hc : c.IsOn source) {n : Nat}
    (h : c.offset ≤ n) (hn : n ≤ source.length) :
    c.position.after (source.extract c.offset n) = .at source n := by
  have hplace : c.position.after (source.extract c.offset n) =
      .at source (c.offset + (source.extract c.offset n).length) :=
    (hc.gap (hc.extract_offset h)).position
  rwa [length_extract hn, Nat.add_sub_cancel' h] at hplace

section Step

variable {c : Cursor}

/-- Past the last span a step answers the end. -/
theorem Partition.scan_end (h : Partition source c.offset source.length []) (hc : c.IsOn source) :
    ∃ next, c.scan = (.ok (endToken source), next) ∧ next.offset = source.length := by
  have hrest := hc.extract_offset hc.offset_le
  rw [List.drop_length, List.append_nil] at hrest
  have hscan := Cursor.scan_atEnd (hrest ▸ partition_nil_iff.1 h)
  rw [hrest, hc.position_extract hc.offset_le (Nat.le_refl _)] at hscan
  refine ⟨_, hscan, ?_⟩
  show c.offset + (source.extract c.offset source.length).length + 0 = source.length
  rw [length_extract (Nat.le_refl _), Nat.add_zero, Nat.add_sub_cancel' hc.offset_le]

/-- Past the last span a step meets the string that has no end, and goes to the end of the source. -/
theorem Partition.scan_unclosed {n : Nat} (h : Partition source c.offset n []) (hc : c.IsOn source)
    (hle : c.offset ≤ n) (hq : LastQuote source n) :
    ∃ next, c.scan = (.error (.unterminatedString (.at source n)), next) ∧
      next.offset = source.length := by
  obtain ⟨rest, hdrop, hmem⟩ := lastQuote_iff.1 hq
  have hlt := (List.getElem?_eq_some_iff.1 hq.quote).1
  have hrest := hc.extract_offset hle
  have hlen := congrArg List.length hdrop
  rw [hdrop] at hrest
  rw [List.length_drop] at hlen
  have hscan := Cursor.scan_unclosed hrest (partition_nil_iff.1 h) hmem
  rw [hc.position_extract hle (Nat.le_of_lt hlt)] at hscan
  refine ⟨_, hscan, ?_⟩
  show c.offset + (source.extract c.offset n).length + (quote :: rest).length = source.length
  rw [length_extract (Nat.le_of_lt hlt), ← hlen]
  omega

end Step

theorem Partition.scanAll {ss : List Span} (h : Partition source 0 source.length ss) :
    (Cursor.ofSource source).scanAll.1 = .ok (ss.map Span.token ++ [endToken source]) := by
  have hc := Cursor.isOn_ofSource source
  obtain ⟨ms, last, hs, htokens, _, hgap⟩ := h.exists_scans (c := .ofSource source) hc (Nat.zero_le _)
  obtain ⟨next, hscan, _⟩ := (partition_nil_iff.2 hgap).scan_end (hs.isOn hc)
  rw [hs.scanAll, Cursor.scanAll_of_isEof hscan rfl, htokens]
  rfl

theorem Partition.scanAll_error {n : Nat} {ss : List Span} (h : Partition source 0 n ss)
    (hq : LastQuote source n) :
    (Cursor.ofSource source).scanAll.1 = .error (.unterminatedString (.at source n)) := by
  have hc := Cursor.isOn_ofSource source
  obtain ⟨ms, last, hs, _, hle, hgap⟩ := h.exists_scans (c := .ofSource source) hc (Nat.zero_le _)
  obtain ⟨next, hscan, _⟩ := (partition_nil_iff.2 hgap).scan_unclosed (hs.isOn hc) hle hq
  rw [hs.scanAll, Cursor.scanAll_of_error hscan]
  rfl

/-- Spans and blanks lead to the end of a source, or to a quote that begins a string without an end. -/
theorem exists_partition (source : List UInt8) :
    (∃ ss, Partition source 0 source.length ss) ∨
      ∃ n ss, Partition source 0 n ss ∧ LastQuote source n := by
  obtain ⟨ms, last, hs, hstop⟩ := (Cursor.ofSource source).exists_scans
  have hc := Cursor.isOn_ofSource source
  have hon := hs.isOn hc
  have hstep := last.scan_step
  cases hscan : last.scan with
  | mk result next =>
    rw [hscan] at hstep
    cases hstep with
    | atEnd hg =>
      have hrest := hon.extract_offset hon.offset_le
      rw [List.drop_length, List.append_nil] at hrest
      rw [hrest] at hg
      obtain ⟨_, ss, h, _⟩ := hs.exists_partition hc hon.offset_le hg
      exact .inl ⟨ss, h⟩
    | @unclosed gap rest hr hg hq =>
      have hgap : IsGap (source.extract last.offset (last.offset + gap.length)) := by
        rw [hon.extract_gap hr]
        exact hg
      obtain ⟨_, ss, h, _⟩ := hs.exists_partition hc (Nat.le_add_right _ _) hgap
      exact .inr ⟨_, ss, h, lastQuote_iff.2 ⟨rest, hon.drop_gap hr, hq⟩⟩
    | lexeme _ _ hv _ =>
      have heof := hstop _ _ hscan
      rw [hv.isEof_token] at heof
      cases heof

theorem scanAll_eq_ok_iff_partition {ts : List Token} :
    (Cursor.ofSource source).scanAll.1 = .ok ts ↔
      ∃ ss, Partition source 0 source.length ss ∧ ts = ss.map Span.token ++ [endToken source] := by
  constructor
  · intro h
    rcases exists_partition source with ⟨ss, hss⟩ | ⟨n, ss, hss, hq⟩
    · rw [hss.scanAll] at h
      exact ⟨ss, hss, (Except.ok.inj h).symm⟩
    · rw [hss.scanAll_error hq] at h
      cases h
  · rintro ⟨ss, hss, rfl⟩
    exact hss.scanAll

theorem scanAll_eq_error_iff_partition {e : Error} :
    (Cursor.ofSource source).scanAll.1 = .error e ↔
      ∃ n ss, Partition source 0 n ss ∧ LastQuote source n ∧
        e = .unterminatedString (.at source n) := by
  constructor
  · intro h
    rcases exists_partition source with ⟨ss, hss⟩ | ⟨n, ss, hss, hq⟩
    · rw [hss.scanAll] at h
      cases h
    · rw [hss.scanAll_error hq] at h
      exact ⟨n, ss, hss, hq, (Except.error.inj h).symm⟩
  · rintro ⟨n, ss, hss, hq, rfl⟩
    exact hss.scanAll_error hq

end Source

/-! ### Characters -/

theorem Lexeme.Valid.wellFormed {l : Lexeme} {rest : List UInt8} (hv : l.Valid)
    (he : l.EndsBefore rest) (h : Utf8.WellFormed (l.bytes ++ rest)) :
    Utf8.WellFormed l.bytes ∧ Utf8.WellFormed rest := by
  have hquote : quote < 0x80 := by decide
  -- A lexeme other than a symbol begins and ends with bytes below 128; what ends a symbol is one.
  cases hv with
  | leftParen | rightParen =>
    have hascii : ∀ (b : UInt8), b < 0x80 → ∀ d ∈ [b], d < 0x80 := by simp
    exact ⟨Utf8.wellFormed_ascii (hascii _ (by decide)), h.of_ascii_append (hascii _ (by decide))⟩
  | @string inside hq =>
    have hsplit : Utf8.WellFormed ([] ++ quote :: (inside ++ quote :: rest)) := by simpa using h
    obtain ⟨hinside, hrest⟩ := (hsplit.split hquote).2.split hquote
    have hone : Utf8.WellFormed [quote] := Utf8.wellFormed_ascii (by simpa using hquote)
    exact ⟨hone.append (hinside.append hone), hrest⟩
  | number _ hall =>
    have hascii := fun b hb => lt_of_isNumeric (hall b hb)
    exact ⟨Utf8.wellFormed_ascii hascii, h.of_ascii_append hascii⟩
  | @symbol b bytes _ _ _ =>
    cases rest with
    | nil =>
      rw [List.append_nil] at h
      exact ⟨h, Utf8.wellFormed_ascii (List.forall_mem_nil _)⟩
    | cons d rest =>
      have hd := lt_of_isDelimiter (he d rfl)
      obtain ⟨hbytes, hrest⟩ := h.split hd
      have hone : Utf8.WellFormed [d] := Utf8.wellFormed_ascii (by simpa using hd)
      exact ⟨hbytes, hone.append hrest⟩

/-- Spans of what is UTF-8 are UTF-8. -/
theorem Partition.wellFormed {source : List UInt8} {lo hi : Nat} {ss : List Span}
    (h : Partition source lo hi ss) (hw : Utf8.WellFormed (source.drop lo)) :
    ∀ s ∈ ss, Utf8.WellFormed (s.lexeme source).bytes := by
  induction ss generalizing lo with
  | nil => exact List.forall_mem_nil _
  | cons s ss ih =>
    obtain ⟨hs, hstart, _, hgap, htail⟩ := partition_cons_iff.1 h
    rw [drop_eq_extract_append source hstart] at hw
    have hstop := hw.of_ascii_append fun b hb =>
      lt_of_isDelimiter (isDelimiter_of_isBlank (hgap b hb))
    rw [drop_eq_extract_append source (Nat.le_of_lt hs.start_lt)] at hstop
    obtain ⟨hbytes, hrest⟩ := hs.valid.wellFormed hs.ends hstop
    exact List.forall_mem_cons.2 ⟨hbytes, ih htail hrest⟩

/-- A source is scanned to its end as the tokens of spans, with blanks and nothing else between them;
it is not when spans and blanks lead to a string without an end; and the spans of a source that is
UTF-8 are UTF-8 and are the texts of their tokens. -/
theorem scanAll_partitions (source : List UInt8) :
    (∀ ts, (Cursor.ofSource source).scanAll.1 = .ok ts ↔
      ∃ ss, Partition source 0 source.length ss ∧ ts = ss.map Span.token ++ [endToken source]) ∧
    (∀ e, (Cursor.ofSource source).scanAll.1 = .error e ↔
      ∃ n ss, Partition source 0 n ss ∧ LastQuote source n ∧
        e = .unterminatedString (.at source n)) ∧
    (Utf8.WellFormed source → ∀ hi ss, Partition source 0 hi ss → ∀ s ∈ ss,
      Utf8.WellFormed (source.extract s.start s.stop) ∧
        Utf8.encode s.token.lexeme.toList = source.extract s.start s.stop) := by
  refine ⟨fun ts => scanAll_eq_ok_iff_partition, fun e => scanAll_eq_error_iff_partition, ?_⟩
  intro hw hi ss h s hs
  have hbytes : Utf8.WellFormed (source.extract s.start s.stop) := h.wellFormed hw s hs
  refine ⟨hbytes, ?_⟩
  rw [(h.lexed s hs).token]
  show Utf8.encode (Utf8.text (source.extract s.start s.stop)).toList = _
  rw [Utf8.text, String.toList_ofList, hbytes.encode_decode]

theorem letter_after_digit_partitions :
    Utf8.WellFormed (Utf8.encode "1é \"(\"".toList) ∧
      ∃ ss, Partition (Utf8.encode "1é \"(\"".toList) 0 (Utf8.encode "1é \"(\"".toList).length ss ∧
        ss.map Span.token =
          [⟨.number, "1", ⟨1, 1⟩⟩, ⟨.symbol, "é", ⟨1, 2⟩⟩, ⟨.string, "\"(\"", ⟨1, 5⟩⟩] ∧
        ∀ s ∈ ss, Utf8.encode s.token.lexeme.toList =
          (Utf8.encode "1é \"(\"".toList).extract s.start s.stop := by
  have hw : Utf8.WellFormed (Utf8.encode "1é \"(\"".toList) := ⟨_, rfl⟩
  have hscan : (Cursor.ofSource (Utf8.encode "1é \"(\"".toList)).scanAll.1 =
      .ok ([⟨.number, "1", ⟨1, 1⟩⟩, ⟨.symbol, "é", ⟨1, 2⟩⟩, ⟨.string, "\"(\"", ⟨1, 5⟩⟩] ++
        [endToken (Utf8.encode "1é \"(\"".toList)]) := by
    with_unfolding_all rfl
  obtain ⟨ss, hss, htokens⟩ := ((scanAll_partitions _).1 _).1 hscan
  exact ⟨hw, ss, hss, (List.append_inj' htokens rfl).1.symm,
    fun s hs => ((scanAll_partitions _).2.2 hw _ ss hss s hs).2⟩

end Sexp
