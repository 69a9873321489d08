import Sexp.Proofs.Concatenation
import Sexp.Proofs.Resumption

/-!
# A source behind another

A source that is read without a fault can stand before any other, if the two are parted: the second is
then read as it is alone, behind the expressions of the first, and a fault of it is the fault that it
has alone, with the places counted on from where the first one ends (`read_append_gap`,
`read_behind`).
-/

namespace Sexp

/-! ### Expressions that are there before -/

/-- The builder with finished expressions before its own. -/
def Builder.under (es : List Expr) (b : Builder) : Builder := { b with done := b.done ++ es.reverse }

namespace Cursor

theorem readInto_under (es : List Expr) (b : Builder) (c : Cursor) :
    (c.readInto (b.under es)).1 = (c.readInto b).1.map (es ++ ·) := by
  -- The run is the same one, from the same cursor.
  have halike : Alike id id Eq := by
    rintro c _ rfl
    exact ⟨rfl, rfl⟩
  have hb : b.carried id es = (b.under es).carried id [] := by
    rw [Builder.carried_id_nil, Builder.carried_id, Builder.under]
  have hread := (halike.readInto (Eq.refl c) hb).1
  rw [movedAnswer_id, movedAnswer_id_nil] at hread
  exact hread.symm

/-! ### Blanks before what is read -/

theorem skipBlanks_past {c : Cursor} {gap rest : List UInt8} (h : c.rest = gap ++ rest)
    (hg : IsGap gap) : (c.past gap [] rest).skipBlanks = c.skipBlanks := by
  have hblank : IsGap (rest.takeWhile isBlank) := List.all_eq_true.1 List.all_takeWhile
  have hhead := head_dropWhile isBlank rest
  have hsplit : rest = rest.takeWhile isBlank ++ rest.dropWhile isBlank :=
    List.takeWhile_append_dropWhile.symm
  have hall : c.rest = (gap ++ rest.takeWhile isBlank) ++ rest.dropWhile isBlank := by
    rw [List.append_assoc, ← hsplit, h]
  rw [skipBlanks_eq_past hall (List.forall_mem_append.2 ⟨hg, hblank⟩) hhead,
    skipBlanks_eq_past (c := c.past gap [] rest) hsplit hblank hhead]
  simp [past, Position.after_append, Nat.add_assoc]

theorem readInto_past {c : Cursor} {gap rest : List UInt8} (h : c.rest = gap ++ rest)
    (hg : IsGap gap) (b : Builder) : (c.past gap [] rest).readInto b = c.readInto b := by
  have hscan : (c.past gap [] rest).scan = c.scan := by simp only [scan, skipBlanks_past h hg]
  rw [readInto_eq, readInto_eq, hscan]

end Cursor

/-! ### Two sources -/

/-- After the lexemes of expressions the reading goes on with these expressions finished. -/
theorem read_of_lexes {source rest : List UInt8} {es : List Expr} {ls : List Lexeme}
    (h : Lexes source ls rest) (hy : Yields es (ls.map Lexeme.first)) :
    ∃ last, Cursor.IsOn source last ∧ last.rest = rest ∧
      read source = (last.readInto (Builder.empty.under es)).1 := by
  obtain ⟨ms, last, hs, hrest, hshape⟩ := Lexes.scans (c := Cursor.ofSource source) h
  have hyields : Yields es (ms.map Mark.token) := by
    apply hy.congr
    rw [List.map_map, List.map_map]
    exact hshape.symm
  have hpush := hyields.pushAll hs.written .empty
  rw [Builder.empty, Builder.addAll_top, List.append_nil] at hpush
  refine ⟨last, hs.isOn (Cursor.isOn_ofSource source), hrest, ?_⟩
  rw [read, Cursor.read, Builder.empty, hs.readInto hpush]
  rfl

theorem read_append_gap {xs gap ys : List UInt8} {es : List Expr} (h : read xs = .ok es)
    (hg : IsGap gap) (hp : Parted xs (gap ++ ys)) :
    read (xs ++ gap ++ ys) = answerRelativeTo (.past (xs ++ gap)) (es ++ ·) (read ys) := by
  obtain ⟨ls, ⟨blanks, hblanks, hlex⟩, hy⟩ := read_eq_ok_iff_segments.1 h
  have hall := hlex.append hp
  rw [← List.append_assoc, ← List.append_assoc] at hall
  obtain ⟨last, hon, hrest, hread⟩ := read_of_lexes hall hy
  -- The cursor at the beginning of `ys` is the cursor of `ys` alone, moved past `xs` and the blanks.
  let c := last.past (blanks ++ gap) [] ys
  have hc : Cursor.IsOn (xs ++ gap ++ ys) c := hon.gap hrest
  have hoffset : c.offset = (xs ++ gap).length := by
    have hlen := congrArg List.length hc.source_eq
    have hle := hc.offset_le
    have hys : c.rest = ys := rfl
    simp only [List.length_append, List.length_take, hys] at hlen hle ⊢
    omega
  have hplace : c.position = .past (xs ++ gap) := by
    rw [hc.position, hoffset, Position.at, List.take_left]
  have hshift : Cursor.Shifted (.past (xs ++ gap)) (.ofSource ys) c := by
    refine ⟨rfl, hplace, ?_, ?_⟩ <;> exact Nat.le_refl 1
  have hshifted : (c.readInto .empty).1 =
      (read ys).mapError (Error.relativeTo (.past (xs ++ gap))) := (hshift.readInto .empty).1
  calc
    read (xs ++ gap ++ ys) = (c.readInto (Builder.empty.under es)).1 := by
      rw [hread, ← Cursor.readInto_past hrest (List.forall_mem_append.2 ⟨hblanks, hg⟩)]
    _ = (c.readInto .empty).1.map (es ++ ·) := c.readInto_under es .empty
    _ = ((read ys).mapError (Error.relativeTo (.past (xs ++ gap)))).map (es ++ ·) := by rw [hshifted]
    _ = answerRelativeTo (.past (xs ++ gap)) (es ++ ·) (read ys) := by cases read ys <;> rfl

/-- A source behind one that has no fault, with blanks between them or a delimiter where they meet, is
read as it is alone: its expressions come after those of the first one, and its fault is of the same
kind, with the same lexeme and reason, at the place that it has behind the first one and the blanks. -/
theorem read_behind {xs gap : List UInt8} {es : List Expr} (h : read xs = .ok es) (hg : IsGap gap)
    (ys : List UInt8) (hp : gap ≠ [] ∨ Parted xs ys) :
    (∀ fs, read ys = .ok fs → read (xs ++ gap ++ ys) = .ok (es ++ fs)) ∧
      ∀ e, read ys = .error e →
        read (xs ++ gap ++ ys) = .error (e.relativeTo (.past (xs ++ gap))) := by
  have hparted : Parted xs (gap ++ ys) := by
    cases gap with
    | nil => exact hp.resolve_left fun hne => hne rfl
    | cons b gap =>
      refine .inr fun d hd => ?_
      cases hd
      exact isDelimiter_of_isBlank (hg b List.mem_cons_self)
  rw [read_append_gap h hg hparted]
  exact ⟨fun fs hfs => by rw [hfs]; rfl, fun e he => by rw [he]; rfl⟩

/-- Behind the parenthesis of a second line no blank is needed, and the fault moves to that line. -/
theorem glued_source_read_behind :
    read (Utf8.encode "x\n(a)".toList) = .ok [.symbol "x", .list [.symbol "a"]] ∧ IsGap [] ∧
      Parted (Utf8.encode "x\n(a)".toList) (Utf8.encode "\"b\" 1.2.3".toList) ∧
      read (Utf8.encode "x\n(a)".toList ++ [] ++ Utf8.encode "\"b\" 1.2.3".toList) =
        .error (.invalidNumber "1.2.3" (Decimal.numeralFault "1.2.3".toList).message ⟨2, 8⟩) ∧
      read (Utf8.encode "x\n(a)".toList ++ [0x20] ++ Utf8.encode "b".toList) =
        .ok [.symbol "x", .list [.symbol "a"], .symbol "b"] := by
  have hread : read (Utf8.encode "x\n(a)".toList) = .ok [.symbol "x", .list [.symbol "a"]] := by
    with_unfolding_all rfl
  have hparted : Parted (Utf8.encode "x\n(a)".toList) (Utf8.encode "\"b\" 1.2.3".toList) := by
    refine .inl fun b hb => ?_
    cases hb
    rfl
  have hfault : read (Utf8.encode "\"b\" 1.2.3".toList) =
      .error (.invalidNumber "1.2.3" (Decimal.numeralFault "1.2.3".toList).message ⟨1, 5⟩) := by
    with_unfolding_all rfl
  have hsymbol : read (Utf8.encode "b".toList) = .ok [.symbol "b"] := by with_unfolding_all rfl
  refine ⟨hread, List.forall_mem_nil _, hparted, ?_, ?_⟩
  · exact (read_behind hread (List.forall_mem_nil _) _ (.inr hparted)).2 _ hfault
  · exact (read_behind hread (List.forall_mem_singleton.2 rfl) _ (.inl (by simp))).1 _ hsymbol

end Sexp
