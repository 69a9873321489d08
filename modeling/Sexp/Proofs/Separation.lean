import Sexp.Proofs.Concatenation
import Sexp.Proofs.Reading

/-!
# Where a blank may be left out

Lexemes written one after the other, with or without blanks between them, are a layout. Scanning the
source of a layout gives back its lexemes if and only if blanks stand wherever two of them would run
together: between a symbol and an atom after it, and between a number and a number after it
(`Layout.scansBack_iff_separated`).
-/

namespace Sexp

/-- A lexeme and the blanks before it, which may be none. -/
structure Piece where
  gap : List UInt8
  lexeme : Lexeme
  isGap : IsGap gap
  valid : lexeme.Valid

def Piece.bytes (p : Piece) : List UInt8 := p.gap ++ p.lexeme.bytes

/-- Lexemes with the blanks before each of them, and the blanks after the last. -/
structure Layout where
  pieces : List Piece
  ending : List UInt8
  isGap : IsGap ending

/-- Whether a lexeme of the second kind directly after one of the first is scanned as part of it. -/
def TokenKind.RunsInto : TokenKind → TokenKind → Prop
  | .symbol, .symbol | .symbol, .number | .symbol, .string | .number, .number => True
  | _, _ => False

namespace Layout

def source (t : Layout) : List UInt8 := t.pieces.flatMap Piece.bytes ++ t.ending

/-- How many bytes the first `i` pieces have. -/
def edge (t : Layout) (i : Nat) : Nat := ((t.pieces.take i).flatMap Piece.bytes).length

/-- The cursor after `i` steps. -/
def cursor (t : Layout) (i : Nat) : Cursor :=
  (Cursor.ofSource t.source).afterRequests (List.replicate i .scan)

/-- Step by step the lexemes come back, each as its kind with its text and the place of its first
byte, and the cursor stands where it ends; past the last of them comes the end of the source. -/
structure ScansBack (t : Layout) : Prop where
  lexeme : ∀ i p, t.pieces[i]? = some p → ∃ next,
    (t.cursor i).scan = (.ok (p.lexeme.token (.at t.source (t.edge i + p.gap.length))), next) ∧
      next.offset = t.edge (i + 1)
  ending : ∃ eof next, (t.cursor t.pieces.length).scan = (.ok eof, next) ∧ eof.kind = .eof

/-- No lexeme runs into the next one with no blank between them. -/
def Separated (t : Layout) : Prop :=
  ∀ i p q, t.pieces[i]? = some p → t.pieces[i + 1]? = some q → q.gap = [] →
    ¬ p.lexeme.kind.RunsInto q.lexeme.kind

end Layout

/-! ### Two lexemes -/

/-- The first byte of a lexeme tells numbers and parentheses from all others. -/
theorem Lexeme.Valid.exists_head {l : Lexeme} (h : l.Valid) :
    ∃ b bs, l.bytes = b :: bs ∧ (isNumeric b = true ↔ l.kind = .number) ∧
      (isDelimiter b = true ↔ l.kind = .leftParen ∨ l.kind = .rightParen) := by
  cases h with
  | leftParen => exact ⟨openParen, [], rfl, by decide, by decide⟩
  | rightParen => exact ⟨closeParen, [], rfl, by decide, by decide⟩
  | @string inside _ =>
    have hnum : isNumeric quote = true ↔ TokenKind.string = .number := by decide
    have hdel : isDelimiter quote = true ↔
        TokenKind.string = .leftParen ∨ TokenKind.string = .rightParen := by decide
    exact ⟨quote, inside ++ [quote], rfl, hnum, hdel⟩
  | @number bytes hne hall =>
    obtain ⟨b, bs, rfl⟩ := List.exists_cons_of_ne_nil hne
    have hb := hall b List.mem_cons_self
    exact ⟨b, bs, rfl, by simp [hb], by simp [isDelimiter_of_isNumeric hb]⟩
  | @symbol b bs _ hn hall =>
    exact ⟨b, bs, rfl, by simp [hn], by simp [hall b List.mem_cons_self]⟩

/-- A lexeme is over before a piece unless that has no blanks and runs into it. -/
theorem Lexeme.Valid.endsBefore_piece_iff {l : Lexeme} (h : l.Valid) (q : Piece)
    (rest : List UInt8) :
    l.EndsBefore (q.gap ++ (q.lexeme.bytes ++ rest)) ↔
      (q.gap = [] → ¬ l.kind.RunsInto q.lexeme.kind) := by
  cases hgap : q.gap with
  | cons b gap =>
    have hb : isBlank b = true := q.isGap b (by rw [hgap]; exact List.mem_cons_self)
    have hends : l.EndsBefore (b :: gap ++ (q.lexeme.bytes ++ rest)) :=
      l.endsBefore_of_isDelimiter fun d hd => by cases hd; exact isDelimiter_of_isBlank hb
    exact ⟨fun _ hnil => (by cases hnil), fun _ => hends⟩
  | nil =>
    obtain ⟨b, bs, hbytes, hnum, hdel⟩ := q.valid.exists_head
    have hkind := q.valid.kind_ne_eof
    simp only [List.nil_append, hbytes, List.cons_append, eq_self, true_implies]
    -- What may follow depends on the kind alone, and so does the first byte of what follows.
    cases h with
    | leftParen | rightParen | string _ =>
      simp [EndsBefore, TokenKind.RunsInto]
    | number _ _ =>
      simp only [EndsBefore, List.head?_cons, Option.mem_some, forall_eq', ← Bool.not_eq_true, hnum]
      cases hk : q.lexeme.kind <;> simp [TokenKind.RunsInto]
    | symbol _ _ _ =>
      simp only [EndsBefore, List.head?_cons, Option.mem_some, forall_eq', hdel]
      cases hk : q.lexeme.kind <;> simp [TokenKind.RunsInto]
      exact hkind hk

/-! ### The edges of the pieces -/

namespace Layout

variable {t : Layout} {i : Nat} {p : Piece}

theorem drop_edge (t : Layout) (i : Nat) :
    t.source.drop (t.edge i) = (t.pieces.drop i).flatMap Piece.bytes ++ t.ending := by
  have hsplit : t.source = (t.pieces.take i).flatMap Piece.bytes ++
      ((t.pieces.drop i).flatMap Piece.bytes ++ t.ending) := by
    rw [← List.append_assoc, ← List.flatMap_append, List.take_append_drop]
    rfl
  exact (congrArg (List.drop _) hsplit).trans List.drop_left

theorem drop_eq_cons (h : t.pieces[i]? = some p) :
    t.pieces.drop i = p :: t.pieces.drop (i + 1) := by
  obtain ⟨hlt, rfl⟩ := List.getElem?_eq_some_iff.1 h
  exact List.drop_eq_getElem_cons hlt

theorem drop_edge_piece (h : t.pieces[i]? = some p) :
    t.source.drop (t.edge i) =
      p.gap ++ (p.lexeme.bytes ++ t.source.drop (t.edge (i + 1))) := by
  rw [drop_edge, drop_edge, drop_eq_cons h, List.flatMap_cons, Piece.bytes]
  simp only [List.append_assoc]

theorem drop_edge_length (t : Layout) : t.source.drop (t.edge t.pieces.length) = t.ending := by
  rw [drop_edge, List.drop_length]
  rfl

theorem edge_succ (h : t.pieces[i]? = some p) :
    t.edge (i + 1) = t.edge i + p.gap.length + p.lexeme.bytes.length := by
  rw [edge, List.take_add_one, h, List.flatMap_append, List.length_append]
  simp [edge, Piece.bytes, Nat.add_assoc]

/-- Each lexeme is over where the blanks before the next one begin. -/
def AllEnd (t : Layout) : Prop :=
  ∀ i (p : Piece), t.pieces[i]? = some p → p.lexeme.EndsBefore (t.source.drop (t.edge (i + 1)))

theorem separated_iff_allEnd : t.Separated ↔ t.AllEnd := by
  have hpiece (i : Nat) (p : Piece) (hp : t.pieces[i]? = some p) :
      p.lexeme.EndsBefore (t.source.drop (t.edge (i + 1))) ↔
        ∀ q, t.pieces[i + 1]? = some q → q.gap = [] → ¬ p.lexeme.kind.RunsInto q.lexeme.kind := by
    cases hq : t.pieces[i + 1]? with
    | some q =>
      rw [drop_edge_piece hq, p.valid.endsBefore_piece_iff]
      simp
    | none =>
      have hlen : t.pieces.length = i + 1 := by
        have hlt := (List.getElem?_eq_some_iff.1 hp).1
        have hle := List.getElem?_eq_none_iff.1 hq
        omega
      rw [← hlen, drop_edge_length]
      have hends := p.lexeme.endsBefore_of_isDelimiter fun b (hb : b ∈ t.ending.head?) =>
        isDelimiter_of_isBlank (t.isGap b (List.mem_of_mem_head? hb))
      simp [hends]
  exact ⟨fun h i p hp => (hpiece i p hp).2 fun q hq => h i p q hp hq,
    fun h i p q hp hq => (hpiece i p hp).1 (h i p hp) q hq⟩

/-! ### Scanning a layout -/

theorem isOn_cursor (t : Layout) (i : Nat) : (t.cursor i).IsOn t.source :=
  (Cursor.isOn_ofSource t.source).afterRequests _

theorem cursor_succ (t : Layout) (i : Nat) : t.cursor (i + 1) = (t.cursor i).scan.2 :=
  Cursor.afterRequests_replicate_succ _ _ i

theorem rest_cursor (h : (t.cursor i).offset = t.edge i) :
    (t.cursor i).rest = t.source.drop (t.edge i) := by
  rw [← (t.isOn_cursor i).rest, h]

/-- From the edge before a piece, the step gives its lexeme if that is over where it ends. -/
theorem scan_cursor (h : t.pieces[i]? = some p) (hedge : (t.cursor i).offset = t.edge i)
    (he : p.lexeme.EndsBefore (t.source.drop (t.edge (i + 1)))) :
    ∃ next,
      (t.cursor i).scan = (.ok (p.lexeme.token (.at t.source (t.edge i + p.gap.length))), next) ∧
        next.offset = t.edge (i + 1) := by
  have hrest := (rest_cursor hedge).trans (drop_edge_piece h)
  have hscan := Cursor.scan_lexeme hrest p.isGap p.valid he
  have hplace : (t.cursor i).position.after p.gap =
      .at t.source ((t.cursor i).offset + p.gap.length) :=
    ((t.isOn_cursor i).gap hrest).position
  rw [hplace, hedge] at hscan
  refine ⟨_, hscan, ?_⟩
  rw [edge_succ h, ← hedge]
  rfl

/-- From the edge before a piece, a step that gives its lexeme has found it to be over. -/
theorem endsBefore_of_scan_cursor (h : t.pieces[i]? = some p)
    (hedge : (t.cursor i).offset = t.edge i) {pos : Position} {next : Cursor}
    (hscan : (t.cursor i).scan = (.ok (p.lexeme.token pos), next))
    (hnext : next.offset = t.edge (i + 1)) :
    p.lexeme.EndsBefore (t.source.drop (t.edge (i + 1))) := by
  have hrest := (rest_cursor hedge).trans (drop_edge_piece h)
  have hon := (t.isOn_cursor i).next hscan
  have hstep := (t.cursor i).scan_step
  rw [hscan] at hstep
  generalize htoken : p.lexeme.token pos = token at hstep
  cases hstep with
  | atEnd _ => exact absurd (congrArg Token.kind htoken) p.valid.kind_ne_eof
  | @lexeme gap l rest hr _ hv he =>
    -- The lexeme found is of the kind looked for and ends where that ends, so what follows is the same.
    have hkind : p.lexeme.kind = l.kind := congrArg Token.kind htoken
    have hdrop : t.source.drop (t.edge (i + 1)) = rest := hnext ▸ hon.rest
    rw [hdrop]
    unfold Lexeme.EndsBefore at he ⊢
    rw [hkind]
    exact he

theorem offset_cursor (h : t.AllEnd) (hi : i ≤ t.pieces.length) :
    (t.cursor i).offset = t.edge i := by
  induction i with
  | zero => rfl
  | succ i ih =>
    have hp : t.pieces[i]? = some t.pieces[i] := List.getElem?_eq_getElem hi
    obtain ⟨next, hscan, hnext⟩ := scan_cursor hp (ih (by omega)) (h i _ hp)
    rw [cursor_succ, hscan]
    exact hnext

theorem scansBack_iff_allEnd : t.ScansBack ↔ t.AllEnd := by
  constructor
  · intro h i p hp
    have hedge : (t.cursor i).offset = t.edge i := by
      cases i with
      | zero => rfl
      | succ j =>
        have hlt := (List.getElem?_eq_some_iff.1 hp).1
        have hq : t.pieces[j]? = some t.pieces[j] := List.getElem?_eq_getElem (by omega)
        obtain ⟨next, hscan, hnext⟩ := h.lexeme j _ hq
        rw [cursor_succ, hscan]
        exact hnext
    obtain ⟨next, hscan, hnext⟩ := h.lexeme i p hp
    exact endsBefore_of_scan_cursor hp hedge hscan hnext
  · intro h
    refine ⟨fun i p hp => ?_, ?_⟩
    · have hlt := (List.getElem?_eq_some_iff.1 hp).1
      exact scan_cursor hp (offset_cursor h (by omega)) (h i p hp)
    · have hrest := (rest_cursor (offset_cursor h (Nat.le_refl _))).trans t.drop_edge_length
      obtain ⟨eof, next, hscan, heof⟩ := Cursor.scan_of_isGap (hrest ▸ t.isGap)
      exact ⟨eof, next, hscan, of_decide_eq_true heof⟩

/-! ### The same lexemes with other blanks -/

def lexemes (t : Layout) : List Lexeme := t.pieces.map Piece.lexeme

theorem AllEnd.lexes (h : t.AllEnd) : Lexes t.source t.lexemes t.ending := by
  -- From the last piece to the first.
  have htail (k i : Nat) (hk : i + k = t.pieces.length) :
      Lexes (t.source.drop (t.edge i)) ((t.pieces.drop i).map Piece.lexeme) t.ending := by
    induction k generalizing i with
    | zero =>
      obtain rfl : i = t.pieces.length := hk
      rw [drop_edge_length, List.drop_length]
      exact .nil t.ending
    | succ k ih =>
      have hp : t.pieces[i]? = some t.pieces[i] := List.getElem?_eq_getElem (by omega)
      rw [drop_edge_piece hp, drop_eq_cons hp]
      exact .cons t.pieces[i].isGap t.pieces[i].valid (h i _ hp) (ih (i + 1) (by omega))
  exact htail t.pieces.length 0 (Nat.zero_add _)

/-- What the tokens of a source are, wherever they stand. -/
def shapes (source : List UInt8) : Except Error (List (TokenKind × String)) :=
  (Cursor.ofSource source).scanAll.1.map (List.map Token.shape)

theorem AllEnd.shapes (h : t.AllEnd) :
    shapes t.source = .ok (t.lexemes.map Lexeme.shape ++ [(.eof, "")]) := by
  obtain ⟨ms, last, hs, hrest, hshape⟩ := Lexes.scans (c := Cursor.ofSource t.source) h.lexes
  have hend := last.scan_of_isGap (hrest ▸ t.isGap)
  have hstep := last.scan_step
  obtain ⟨eof, next, hscan, heof⟩ := hend
  rw [hscan] at hstep
  cases hstep with
  | atEnd _ =>
    rw [Layout.shapes, hs.scanAll, Cursor.scanAll_of_isEof hscan heof, ← hshape]
    simp [Except.map, Token.shape]
  | lexeme _ _ hv _ =>
    rw [hv.isEof_token] at heof
    cases heof

/-- The lexemes of a layout come back exactly when blanks stand wherever one would run into the next;
and then it does not matter what blanks they are. -/
theorem scansBack_iff_separated (t : Layout) :
    (t.ScansBack ↔ t.Separated) ∧
      ∀ u : Layout, u.lexemes = t.lexemes → t.Separated → u.Separated →
        shapes u.source = shapes t.source := by
  refine ⟨scansBack_iff_allEnd.trans separated_iff_allEnd.symm, fun u hl ht hu => ?_⟩
  rw [(separated_iff_allEnd.1 ht).shapes, (separated_iff_allEnd.1 hu).shapes, hl]

theorem number_before_string_separated :
    ∃ t u : Layout, t.source = Utf8.encode "1.\"(\"".toList ∧
      u.source = Utf8.encode "\t1. \n\"(\" ".toList ∧ u.lexemes = t.lexemes ∧ t.Separated ∧
      u.Separated ∧ t.ScansBack ∧ shapes u.source = shapes t.source := by
  have hnumber : Lexeme.Valid ⟨.number, Utf8.encode "1.".toList⟩ := .number (by decide) (List.all_eq_true.1 rfl)
  have hinside : quote ∉ Utf8.encode ['('] := by decide
  have hstring : Lexeme.Valid ⟨.string, Utf8.encode "\"(\"".toList⟩ := .string hinside
  let t : Layout := ⟨[⟨[], _, List.forall_mem_nil _, hnumber⟩, ⟨[], _, List.forall_mem_nil _, hstring⟩],
    [], List.forall_mem_nil _⟩
  let u : Layout := ⟨[⟨[0x09], _, List.all_eq_true.1 rfl, hnumber⟩,
    ⟨[0x20, 0x0A], _, List.all_eq_true.1 rfl, hstring⟩], [0x20], List.all_eq_true.1 rfl⟩
  have ht : t.Separated := by
    intro i p q hp hq _
    cases i with
    | zero =>
      cases hp
      cases hq
      exact id
    | succ i => cases hq
  have hu : u.Separated := by
    intro i p q hp hq hgap
    cases i with
    | zero =>
      cases hq
      cases hgap
    | succ i => cases hq
  exact ⟨t, u, rfl, rfl, rfl, ht, hu, (scansBack_iff_separated t).1.2 ht,
    (scansBack_iff_separated t).2 u rfl ht hu⟩

end Layout
end Sexp
