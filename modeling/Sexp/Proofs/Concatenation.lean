import Sexp.Proofs.Grammar

/-!
# Sources in a row

A source that lexemes and blanks make up is read as the expressions that the lexemes are the tokens of
(`read_eq_ok_iff_segments`), wherever they stand. So two sources can be read one by one when nothing
runs together where they meet (`read_append`), and parentheses around a source make a list of what it
is read as (`read_parens`).
-/

namespace Sexp

/-! ### Lexemes and blanks -/

/-- The source consists of these lexemes and of blanks before, between and after them. -/
def Segments (source : List UInt8) (ls : List Lexeme) : Prop :=
  ∃ gap, IsGap gap ∧ Lexes source ls gap

/-- The token of a lexeme at the beginning of a source. -/
def Lexeme.first (l : Lexeme) : Token := l.token .start

namespace Segments

theorem of_isGap {gap : List UInt8} (h : IsGap gap) : Segments gap [] := ⟨gap, h, .nil gap⟩

theorem cons {source : List UInt8} {l : Lexeme} {ls : List Lexeme} (hv : l.Valid)
    (he : l.EndsBefore source) (h : Segments source ls) : Segments (l.bytes ++ source) (l :: ls) := by
  obtain ⟨gap, hg, h⟩ := h
  exact ⟨gap, hg, .cons (List.forall_mem_nil _) hv he h⟩

theorem singleton {l : Lexeme} (hv : l.Valid) : Segments l.bytes [l] := by
  have h := cons hv (l.endsBefore_of_isDelimiter (by simp)) (of_isGap (List.forall_mem_nil _))
  rwa [List.append_nil] at h

theorem gap_append {gap source : List UInt8} {ls : List Lexeme} (hg : IsGap gap)
    (h : Segments source ls) : Segments (gap ++ source) ls := by
  obtain ⟨last, hlast, h⟩ := h
  cases h with
  | nil => exact of_isGap (List.forall_mem_append.2 ⟨hg, hlast⟩)
  | @cons gap' source rest l ls hg' hv he h =>
    rw [← List.append_assoc]
    exact ⟨last, hlast, .cons (List.forall_mem_append.2 ⟨hg, hg'⟩) hv he h⟩

end Segments

/-! ### Two sources -/

/-- Where `ys` follows `xs`, the last byte of the one or the first byte of the other is a blank or a
parenthesis, if both have bytes. -/
def Parted (xs ys : List UInt8) : Prop :=
  (∀ b ∈ xs.getLast?, isDelimiter b = true) ∨ ∀ b ∈ ys.head?, isDelimiter b = true

theorem Lexeme.EndsBefore.append {l : Lexeme} {rest ys : List UInt8} (h : l.EndsBefore rest)
    (hv : l.Valid) (hp : Parted (l.bytes ++ rest) ys) : l.EndsBefore (rest ++ ys) := by
  refine h.append_of_nil fun hnil => ?_
  rw [hnil, List.append_nil] at hp
  rcases hp with hlast | hhead
  · -- The last byte of the lexeme is a delimiter, so it is no number and no symbol.
    have hmem := List.getLast_mem hv.ne_nil
    have hd := hlast _ (List.getLast?_eq_some_getLast hv.ne_nil)
    cases hv with
    | leftParen | rightParen | string _ => trivial
    | number hne hall =>
      rw [isDelimiter_of_isNumeric (hall _ hmem)] at hd
      cases hd
    | symbol _ _ hall =>
      rw [hall _ hmem] at hd
      cases hd
  · exact l.endsBefore_of_isDelimiter hhead

theorem Parted.of_append {xs ys zs : List UInt8} (h : Parted (xs ++ ys) zs) (hne : ys ≠ []) :
    Parted ys zs := by
  rw [Parted, List.getLast?_append, List.getLast?_eq_some_getLast hne, Option.some_or] at h
  rw [Parted, List.getLast?_eq_some_getLast hne]
  exact h

theorem Lexes.trans {xs ys zs : List UInt8} {ls ms : List Lexeme} (h : Lexes xs ls ys)
    (h' : Lexes ys ms zs) : Lexes xs (ls ++ ms) zs := by
  induction h with
  | nil source => exact h'
  | cons hg hv he _ ih => exact .cons hg hv he (ih h')

theorem Lexes.append {xs rest ys : List UInt8} {ls : List Lexeme} (h : Lexes xs ls rest)
    (hp : Parted xs ys) : Lexes (xs ++ ys) ls (rest ++ ys) := by
  -- Only the last lexeme of `xs` meets `ys`; each one before it is followed by the next.
  induction h with
  | nil source => exact .nil _
  | @cons gap source rest l ls hg hv he h ih =>
    have hne : l.bytes ++ source ≠ [] := List.append_ne_nil_of_left_ne_nil hv.ne_nil source
    have hparted := hp.of_append hne
    rw [List.append_assoc, List.append_assoc]
    apply Lexes.cons hg hv (he.append hv hparted)
    apply ih
    cases source with
    | nil => exact .inl (by simp)
    | cons b source => exact hparted.of_append (by simp)

theorem Segments.append {xs ys : List UInt8} {ls ms : List Lexeme} (hxs : Segments xs ls)
    (hys : Segments ys ms) (hp : Parted xs ys) : Segments (xs ++ ys) (ls ++ ms) := by
  obtain ⟨gap, hg, h⟩ := hxs
  obtain ⟨last, hlast, h'⟩ := hys.gap_append hg
  exact ⟨last, hlast, (h.append hp).trans h'⟩

/-! ### Reading them -/

theorem Cursor.scan_of_isGap {c : Cursor} (h : IsGap c.rest) :
    ∃ t next, c.scan = (.ok t, next) ∧ t.isEof = true := by
  have hblank {gap rest : List UInt8} (hr : c.rest = gap ++ rest) : ∀ b ∈ rest, isBlank b = true := by
    rw [hr] at h
    exact (List.forall_mem_append.1 h).2
  have hstep := c.scan_step
  generalize c.scan = s at hstep
  cases hstep with
  | atEnd => exact ⟨_, _, rfl, rfl⟩
  | unclosed hr _ _ => exact absurd (hblank hr quote List.mem_cons_self) (by decide)
  | @lexeme gap l rest hr _ hv _ =>
    obtain ⟨b, bs, hb⟩ := List.exists_cons_of_ne_nil hv.ne_nil
    have hhead := hv.isBlank_head b (by rw [hb]; rfl)
    rw [hblank hr b (by simp [hb])] at hhead
    cases hhead

/-- A source of these lexemes is read as what they are the tokens of, and as nothing else. -/
theorem Segments.read_eq_ok_iff {source : List UInt8} {ls : List Lexeme} (h : Segments source ls)
    {es : List Expr} : read source = .ok es ↔ Yields es (ls.map Lexeme.first) := by
  obtain ⟨gap, hg, hlex⟩ := h
  obtain ⟨ms, last, hs, hrest, hshape⟩ := Lexes.scans (c := Cursor.ofSource source) hlex
  obtain ⟨t, next, hscan, ht⟩ := Cursor.scan_of_isGap (hrest ▸ hg)
  have hall := Cursor.scanAll_eq_ok_iff.2 ⟨ms, last, next, hs, hscan, ht, rfl⟩
  have hshape : (ms.map Mark.token).map Token.shape = (ls.map Lexeme.first).map Token.shape := by
    rw [List.map_map, List.map_map]
    exact hshape
  rw [read_eq_ok_iff_yields]
  constructor
  · rintro ⟨ts, t', hall', _, hy⟩
    obtain ⟨rfl, _⟩ := List.append_inj' (Except.ok.inj (hall'.symm.trans hall)) rfl
    exact hy.congr hshape
  · intro hy
    exact ⟨_, t, hall, ht, hy.congr hshape.symm⟩

/-- A source is read as what its lexemes are the tokens of. -/
theorem read_eq_ok_iff_segments {source : List UInt8} {es : List Expr} :
    read source = .ok es ↔ ∃ ls, Segments source ls ∧ Yields es (ls.map Lexeme.first) := by
  constructor
  · intro h
    obtain ⟨ts, t, hall, ht, hy⟩ := read_eq_ok_iff_yields.1 h
    obtain ⟨ms, last, next, hs, hscan, _, rfl⟩ := Cursor.scanAll_eq_ok_iff.1 hall
    obtain ⟨ls, hlex, hshape⟩ := hs.lexes
    have hgap : IsGap last.rest := by
      cases Cursor.ScanStep.of_scan hscan with
      | atEnd hg => exact hg
      | lexeme _ _ hv _ =>
        rw [hv.isEof_token] at ht
        cases ht
    refine ⟨ls, ⟨last.rest, hgap, hlex⟩, hy.congr ?_⟩
    rw [List.map_map, List.map_map]
    exact hshape
  · rintro ⟨ls, hls, hy⟩
    exact hls.read_eq_ok_iff.2 hy

theorem read_append {xs ys : List UInt8} {es fs : List Expr} (hxs : read xs = .ok es)
    (hys : read ys = .ok fs) (hp : Parted xs ys) : read (xs ++ ys) = .ok (es ++ fs) := by
  obtain ⟨ls, hls, he⟩ := read_eq_ok_iff_segments.1 hxs
  obtain ⟨ms, hms, hf⟩ := read_eq_ok_iff_segments.1 hys
  refine read_eq_ok_iff_segments.2 ⟨ls ++ ms, hls.append hms hp, ?_⟩
  rw [List.map_append]
  exact he.append hf

theorem read_append_blank {xs ys : List UInt8} {b : UInt8} {es fs : List Expr}
    (hxs : read xs = .ok es) (hb : isBlank b = true) (hys : read ys = .ok fs) :
    read (xs ++ b :: ys) = .ok (es ++ fs) := by
  obtain ⟨ms, hms, hf⟩ := read_eq_ok_iff_segments.1 hys
  have hgap : IsGap [b] := List.forall_mem_singleton.2 hb
  have htail : read (b :: ys) = .ok fs :=
    read_eq_ok_iff_segments.2 ⟨ms, hms.gap_append hgap, hf⟩
  refine read_append hxs htail (.inr fun d hd => ?_)
  cases hd
  exact isDelimiter_of_isBlank hb

/-- Parentheses around a source make a list. -/
theorem read_parens {source : List UInt8} {items : List Expr} (h : read source = .ok items) :
    read (openParen :: (source ++ [closeParen])) = .ok [.list items] := by
  obtain ⟨ls, hls, hy⟩ := read_eq_ok_iff_segments.1 h
  have hclose : Segments (source ++ [closeParen]) (ls ++ [⟨.rightParen, [closeParen]⟩]) := by
    apply hls.append (.singleton .rightParen) (.inr fun b hb => ?_)
    cases hb
    decide
  have hopen := Segments.cons .leftParen trivial hclose
  refine read_eq_ok_iff_segments.2 ⟨_, hopen, ?_⟩
  rw [List.map_cons, List.map_append]
  exact .list rfl rfl hy .nil

end Sexp
