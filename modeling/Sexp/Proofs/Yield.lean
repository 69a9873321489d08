import Sexp.Expr.Builder
import Sexp.Proofs.Numeral
import Sexp.Proofs.Scanning
import Sexp.Proofs.Utf8

/-!
# The tokens of expressions

`Yields` says what tokens expressions consist of, without a builder. A builder that is given the
tokens of expressions adds just these (`Yields.pushAll`); and whatever it was given, what it holds is
accounted for token by token (`Builder.Holds`, `Builder.Holds.pushAll`), so that the expressions it
ends with yield all of them (`Builder.Holds.yields`).
-/

namespace Sexp

/-! ### Tokens as they are written -/

/-- The token is the lexeme of some bytes, no more of them than `size`, wherever it stands. -/
def Token.Written (size : Nat) (t : Token) : Prop :=
  ∃ l : Lexeme, l.Valid ∧ l.bytes.length ≤ size ∧ t.shape = l.shape

theorem Mark.Lexed.written {source : List UInt8} {m : Mark} (h : m.Lexed source) :
    m.token.Written source.length := by
  obtain ⟨l, rest, hdrop, hv, _, ht⟩ := h
  have hlen := congrArg List.length hdrop
  rw [List.length_drop, List.length_append] at hlen
  exact ⟨l, hv, by omega, by rw [ht]; rfl⟩

theorem text_string (inside : List UInt8) :
    Utf8.text (quote :: (inside ++ [quote])) = "\"" ++ Utf8.text inside ++ "\"" := by
  have hquote : quote < 0x80 := by decide
  have hopen := Utf8.decode_append_ascii [] hquote (inside ++ [quote])
  have hclose := Utf8.decode_append_ascii inside hquote []
  rw [List.nil_append] at hopen
  rw [Utf8.text, hopen, hclose, Utf8.text, ← String.toList_inj]
  simp [quote]

theorem unquoted_quoted (value : String) : unquoted ("\"" ++ value ++ "\"") = value := by
  rw [unquoted, ← String.toList_inj]
  simp

theorem isDigit_ofNat {n : Nat} (h : 0x30 ≤ n ∧ n ≤ 0x39) : (Char.ofNat n).isDigit = true := by
  have hall : ∀ n < 0x3A, 0x30 ≤ n → (Char.ofNat n).isDigit = true := by decide
  exact hall n (by omega) h.1

theorem text_number {bytes : List UInt8} (h : ∀ b ∈ bytes, isNumeric b = true) :
    (Utf8.text bytes).toList = bytes.map fun b => Char.ofNat b.toNat := by
  rw [Utf8.text, String.toList_ofList]
  exact Utf8.decode_ascii fun b hb => lt_of_isNumeric (h b hb)

theorem isNumeric_text {bytes : List UInt8} (h : ∀ b ∈ bytes, isNumeric b = true) :
    Decimal.IsNumeric (Utf8.text bytes).toList := by
  intro c hc
  rw [text_number h] at hc
  obtain ⟨b, hb, rfl⟩ := List.mem_map.1 hc
  rcases isNumeric_iff.1 (h b hb) with hd | hp
  · exact .inl (isDigit_ofNat hd)
  · exact .inr (by rw [hp])

namespace Token.Written

variable {size : Nat} {t : Token}

theorem string (h : t.Written size) (hk : t.kind = .string) :
    t.lexeme = "\"" ++ unquoted t.lexeme ++ "\"" := by
  obtain ⟨l, hv, _, hshape⟩ := h
  obtain ⟨hkind, hlexeme⟩ := Prod.mk.inj hshape
  rw [hk] at hkind
  cases hv <;> cases hkind
  rw [hlexeme, text_string, unquoted_quoted]

theorem number (h : t.Written size) (hk : t.kind = .number) :
    Decimal.IsNumeric t.lexeme.toList ∧ t.lexeme.toList ≠ [] ∧ t.lexeme.toList.length ≤ size := by
  obtain ⟨l, hv, hlen, hshape⟩ := h
  obtain ⟨hkind, hlexeme⟩ := Prod.mk.inj hshape
  rw [hk] at hkind
  cases hv with
  | number hne hall =>
    rw [hlexeme]
    refine ⟨isNumeric_text hall, ?_, ?_⟩
    · simpa [text_number hall] using hne
    · rw [text_number hall, List.length_map]
      exact hlen
  | _ => cases hkind

/-- A number is the decimal that its text spells, and is none if that is no numeral. -/
theorem number_eq_ok_iff (h : t.Written size) (hk : t.kind = .number) {e : Expr} :
    t.number = .ok e ↔ ∃ d, e = .number d ∧ Decimal.Spells t.lexeme.toList d := by
  have hread (d : Decimal) : Decimal.read t.lexeme = .ok d ↔ Decimal.Spells t.lexeme.toList d :=
    Decimal.read_eq_ok_iff_spells (h.number hk).1
  unfold Token.number
  split
  · rename_i d hd
    have hs := (hread d).1 hd
    constructor
    · intro he
      cases he
      exact ⟨d, rfl, hs⟩
    · intro h
      obtain ⟨d', rfl, hs'⟩ := h
      rw [hs.unique hs']
  · rename_i fault hf
    refine ⟨fun he => (by cases he), ?_⟩
    intro h
    obtain ⟨d, rfl, hs⟩ := h
    rw [(hread d).2 hs] at hf
    cases hf

end Token.Written

/-! ### What expressions consist of -/

/-- The tokens that expressions in a row consist of: those of the one after those of the other. A list
has an opening parenthesis, the tokens of its children and a closing parenthesis; a symbol and a
number have the one token that is their text; a string has the one token that is its text in
quotes. -/
inductive Yields : List Expr → List Token → Prop
  | nil : Yields [] []
  | symbol {t : Token} {es : List Expr} {ts : List Token} (hk : t.kind = .symbol)
    (h : Yields es ts) : Yields (.symbol t.lexeme :: es) (t :: ts)
  | string {t : Token} {value : String} {es : List Expr} {ts : List Token} (hk : t.kind = .string)
    (hl : t.lexeme = "\"" ++ value ++ "\"") (h : Yields es ts) : Yields (.string value :: es) (t :: ts)
  | number {t : Token} {d : Decimal} {es : List Expr} {ts : List Token} (hk : t.kind = .number)
    (hd : Decimal.Spells t.lexeme.toList d) (h : Yields es ts) : Yields (.number d :: es) (t :: ts)
  | list {o c : Token} {items es : List Expr} {us ts : List Token} (ho : o.kind = .leftParen)
    (hc : c.kind = .rightParen) (hi : Yields items us) (h : Yields es ts) :
    Yields (.list items :: es) (o :: (us ++ c :: ts))

namespace Yields

theorem append {es fs : List Expr} {ts us : List Token} (h : Yields es ts) (h' : Yields fs us) :
    Yields (es ++ fs) (ts ++ us) := by
  induction h with
  | nil => exact h'
  | symbol hk _ ih => exact .symbol hk ih
  | string hk hl _ ih => exact .string hk hl ih
  | number hk hd _ ih => exact .number hk hd ih
  | list ho hc hi _ _ ih =>
    rw [List.cons_append, List.cons_append, List.append_assoc]
    exact .list ho hc hi ih

/-- The tokens matter only for what they are, not for where they stand. -/
theorem congr {es : List Expr} {ts us : List Token} (h : Yields es ts)
    (hshape : ts.map Token.shape = us.map Token.shape) : Yields es us := by
  induction h generalizing us with
  | nil =>
    rw [List.map_nil, eq_comm, List.map_eq_nil_iff] at hshape
    exact hshape ▸ .nil
  | symbol hk _ ih =>
    obtain ⟨t, us, rfl, ht, hus⟩ := List.map_eq_cons_iff.1 hshape.symm
    obtain ⟨hkind, hlexeme⟩ := Prod.mk.inj ht
    exact hlexeme ▸ .symbol (hkind.trans hk) (ih hus.symm)
  | string hk hl _ ih =>
    obtain ⟨t, us, rfl, ht, hus⟩ := List.map_eq_cons_iff.1 hshape.symm
    obtain ⟨hkind, hlexeme⟩ := Prod.mk.inj ht
    exact .string (hkind.trans hk) (hlexeme.trans hl) (ih hus.symm)
  | number hk hd _ ih =>
    obtain ⟨t, us, rfl, ht, hus⟩ := List.map_eq_cons_iff.1 hshape.symm
    obtain ⟨hkind, hlexeme⟩ := Prod.mk.inj ht
    exact .number (hkind.trans hk) (hlexeme ▸ hd) (ih hus.symm)
  | list ho hc _ _ ihi ih =>
    obtain ⟨o, vs, rfl, ho', hvs⟩ := List.map_eq_cons_iff.1 hshape.symm
    rw [List.map_append, List.map_cons] at hvs
    obtain ⟨us, ws, rfl, hus, hws⟩ := List.map_eq_append_iff.1 hvs
    obtain ⟨c, ts, rfl, hc', hts⟩ := List.map_eq_cons_iff.1 hws
    exact .list ((Prod.mk.inj ho').1.trans ho) ((Prod.mk.inj hc').1.trans hc) (ihi hus.symm)
      (ih hts.symm)

end Yields

/-! ### Many tokens for a builder -/

namespace Builder

/-- Tokens one after the other, up to the first that does not fit. -/
def pushAll (b : Builder) : List Token → Except Error Builder
  | [] => .ok b
  | t :: ts =>
    match b.push t with
    | .error e => .error e
    | .ok b => b.pushAll ts

/-- Expressions one after the other. -/
def addAll (b : Builder) (es : List Expr) : Builder := es.foldl add b

theorem pushAll_append {b b' : Builder} {ts : List Token} (h : b.pushAll ts = .ok b')
    (us : List Token) : b.pushAll (ts ++ us) = b'.pushAll us := by
  induction ts generalizing b with
  | nil =>
    cases h
    rfl
  | cons t ts ih =>
    rw [pushAll] at h
    rw [List.cons_append, pushAll]
    split at h
    · cases h
    · exact ih h

theorem pushAll_cons {b b' : Builder} {t : Token} (h : b.push t = .ok b') (ts : List Token) :
    b.pushAll (t :: ts) = b'.pushAll ts := by
  rw [pushAll, h]

@[simp] theorem addAll_top (done es : List Expr) :
    addAll ⟨done, []⟩ es = ⟨es.reverse ++ done, []⟩ := by
  induction es generalizing done with
  | nil => rfl
  | cons e es ih =>
    rw [addAll, List.foldl_cons]
    refine (ih (e :: done)).trans ?_
    rw [List.reverse_cons, List.append_assoc]
    rfl

@[simp] theorem addAll_frame (done : List Expr) (f : Frame) (fs : List Frame) (es : List Expr) :
    addAll ⟨done, f :: fs⟩ es = ⟨done, { f with items := es.reverse ++ f.items } :: fs⟩ := by
  induction es generalizing f with
  | nil => rfl
  | cons e es ih =>
    rw [addAll, List.foldl_cons]
    refine (ih { f with items := e :: f.items }).trans ?_
    rw [List.reverse_cons, List.append_assoc]
    rfl

end Builder

/-- A builder that is given the tokens of expressions adds these expressions. -/
theorem Yields.pushAll {size : Nat} {es : List Expr} {ts : List Token} (h : Yields es ts)
    (hw : ∀ t ∈ ts, t.Written size) (b : Builder) : b.pushAll ts = .ok (b.addAll es) := by
  induction h generalizing b with
  | nil => rfl
  | @symbol t es ts hk _ ih =>
    have hpush : b.push t = .ok (b.add (.symbol t.lexeme)) := by simp only [Builder.push, hk]
    rw [Builder.pushAll_cons hpush, ih fun u hu => hw u (List.mem_cons_of_mem t hu)]
    rfl
  | @string t value es ts hk hl _ ih =>
    have hpush : b.push t = .ok (b.add (.string value)) := by
      simp only [Builder.push, hk, hl, unquoted_quoted]
    rw [Builder.pushAll_cons hpush, ih fun u hu => hw u (List.mem_cons_of_mem t hu)]
    rfl
  | @number t d es ts hk hd _ ih =>
    have hnum := ((hw t List.mem_cons_self).number_eq_ok_iff hk).2 ⟨d, rfl, hd⟩
    have hpush : b.push t = .ok (b.add (.number d)) := by
      simp only [Builder.push, hk, hnum]
      rfl
    rw [Builder.pushAll_cons hpush, ih fun u hu => hw u (List.mem_cons_of_mem t hu)]
    rfl
  | @list o c items es us ts ho hc _ _ ihi ih =>
    have hopen : b.push o = .ok (b.openList o.position) := by simp only [Builder.push, ho]
    have hitems := ihi (fun u hu => hw u (by simp [hu])) (b.openList o.position)
    have hclose : ((b.openList o.position).addAll items).push c = .ok (b.add (.list items)) := by
      simp [Builder.push, hc, Builder.openList, Builder.closeList]
    rw [Builder.pushAll_cons hopen, Builder.pushAll_append hitems, Builder.pushAll_cons hclose,
      ih fun u hu => hw u (by simp [hu])]
    rfl

/-! ### What a builder holds -/

namespace Builder

/-- The tokens that a builder holds: those of the finished expressions, and for each open list its
parenthesis and the tokens of its children. -/
inductive Holds : Builder → List Token → Prop
  | top {es : List Expr} {ts : List Token} (h : Yields es ts) : Holds ⟨es.reverse, []⟩ ts
  | frame {done items : List Expr} {fs : List Frame} {o : Token} {us vs : List Token}
    (h : Holds ⟨done, fs⟩ us) (ho : o.kind = .leftParen) (hi : Yields items vs) :
    Holds ⟨done, ⟨o.position, items.reverse⟩ :: fs⟩ (us ++ o :: vs)

theorem holds_empty : Holds empty [] := .top .nil

theorem Holds.add {b : Builder} {e : Expr} {ts us : List Token} (h : b.Holds ts)
    (he : Yields [e] us) : (b.add e).Holds (ts ++ us) := by
  cases h with
  | @top es ts h =>
    have hrev : e :: es.reverse = (es ++ [e]).reverse := by simp
    rw [Builder.add, hrev]
    exact .top (h.append he)
  | @frame done items fs o us vs h ho hi =>
    have hrev : e :: items.reverse = (items ++ [e]).reverse := by simp
    show Holds ⟨done, ⟨o.position, e :: items.reverse⟩ :: fs⟩ (us ++ o :: vs ++ _)
    rw [hrev, List.append_assoc, List.cons_append]
    exact .frame h ho (hi.append he)

/-- What one more token can do to a builder. -/
inductive PushStep (b : Builder) (t : Token) : Builder → Prop
  | opened (hk : t.kind = .leftParen) : PushStep b t (b.openList t.position)
  | closed {f : Frame} {fs : List Frame} (hk : t.kind = .rightParen) (hf : b.frames = f :: fs) :
    PushStep b t (add ⟨b.done, fs⟩ (.list f.items.reverse))
  | added {e : Expr} (ho : t.kind ≠ .leftParen) (hc : t.kind ≠ .rightParen) (he : Yields [e] [t]) :
    PushStep b t (b.add e)

theorem push_step {size : Nat} {b b' : Builder} {t : Token} (hw : t.Written size)
    (h : b.push t = .ok b') : b.PushStep t b' := by
  cases hk : t.kind with
  | leftParen =>
    simp only [push, hk] at h
    cases h
    exact .opened hk
  | rightParen =>
    simp only [push, hk] at h
    obtain ⟨done, frames⟩ := b
    cases frames with
    | nil => cases h
    | cons f fs =>
      cases h
      exact .closed hk rfl
  | symbol =>
    simp only [push, hk] at h
    cases h
    exact .added (by simp [hk]) (by simp [hk]) (.symbol hk .nil)
  | string =>
    simp only [push, hk] at h
    cases h
    exact .added (by simp [hk]) (by simp [hk]) (.string hk (hw.string hk) .nil)
  | number =>
    simp only [push, hk] at h
    cases hnum : t.number with
    | error e =>
      rw [hnum] at h
      cases h
    | ok e =>
      rw [hnum] at h
      cases h
      obtain ⟨d, rfl, hd⟩ := (hw.number_eq_ok_iff hk).1 hnum
      exact .added (by simp [hk]) (by simp [hk]) (.number hk hd .nil)
  | eof =>
    obtain ⟨l, hv, _, hshape⟩ := hw
    exact absurd ((Prod.mk.inj hshape).1.symm.trans hk) hv.kind_ne_eof

theorem Holds.push {size : Nat} {b b' : Builder} {t : Token} {ts : List Token} (h : b.Holds ts)
    (hw : t.Written size) (hpush : b.push t = .ok b') : b'.Holds (ts ++ [t]) := by
  cases push_step hw hpush with
  | opened hk => exact .frame h hk .nil
  | added _ _ he => exact h.add he
  | closed hk hf =>
    cases h with
    | top h => cases hf
    | @frame done items fs o us vs h ho hi =>
      cases hf
      rw [List.reverse_reverse, List.append_assoc, List.cons_append]
      exact h.add (.list ho hk hi .nil)

theorem Holds.pushAll {size : Nat} {b b' : Builder} {ts us : List Token} (h : b.Holds ts)
    (hw : ∀ t ∈ us, t.Written size) (hpush : b.pushAll us = .ok b') : b'.Holds (ts ++ us) := by
  induction us generalizing b ts with
  | nil =>
    cases hpush
    rw [List.append_nil]
    exact h
  | cons t us ih =>
    rw [Builder.pushAll] at hpush
    split at hpush
    · cases hpush
    · rename_i b₁ hb₁
      have h₁ := h.push (hw t List.mem_cons_self) hb₁
      have h₂ := ih h₁ (fun u hu => hw u (List.mem_cons_of_mem t hu)) hpush
      rwa [List.append_assoc] at h₂

theorem Holds.yields {b : Builder} {es : List Expr} {ts : List Token} (h : b.Holds ts)
    (hfin : b.finish = .ok es) : Yields es ts := by
  cases h with
  | top h =>
    simp only [finish, List.reverse_reverse] at hfin
    cases hfin
    exact h
  | frame _ _ _ => cases hfin

end Builder
end Sexp
