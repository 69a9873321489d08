import Sexp.Proofs.Reading

/-!
# How many steps are made

A step takes something of the source, unless it answers the end (`Cursor.rest_scan_lt_or_isEnd`). So steps in
a row are no more than the bytes they took and the times the end was answered (`Cursor.Took.length_le`), and a
loop that stops at the end makes one step more than there are bytes at most.

The expressions of a source are read here by descent, with a loop for each open list that runs inside the loop
for the list around it (`Cursor.descend`). It reads what a builder reads (`Cursor.readInto_eq_resume`), and it
tells what its steps answered and how many loops ran inside one another. These are one more than lists were
open at once (`Cursor.depth_descend`), so one more than there were opening parentheses at most; and where all
is read, one more than lists stand in one another in what is read (`Cursor.depth_descend_of_ok`).
-/

namespace Sexp

/-- The expression that a token is, if it is no parenthesis. -/
def Token.atom (t : Token) : Except Error Expr :=
  match t.kind with
  | .symbol => .ok (.symbol t.lexeme)
  | .string => .ok (.string (unquoted t.lexeme))
  | _ => t.number

theorem Token.isAtom_atom {t : Token} {e : Expr} (h : t.atom = .ok e) : e.isAtom = true := by
  unfold atom at h
  split at h
  · cases h
    rfl
  · cases h
    rfl
  · unfold number at h
    split at h <;> cases h
    rfl

namespace Expr

mutual

/-- How many lists stand in one another in an expression, at most. -/
def nesting : Expr → Nat
  | list items => 1 + nestingAll items
  | _ => 0

/-- How many lists stand in one another in any of the expressions, at most. -/
def nestingAll : List Expr → Nat
  | [] => 0
  | e :: es => max (nesting e) (nestingAll es)

end

theorem length_nodes_of_isAtom {e : Expr} (h : e.isAtom = true) (n : Nat) : (e.nodes n).length = 1 := by
  cases e with
  | list items => cases h
  | symbol | string | number => rfl

theorem nesting_of_isAtom {e : Expr} (h : e.isAtom = true) : e.nesting = 0 := by
  cases e with
  | list items => cases h
  | symbol | string | number => rfl

end Expr

theorem exists_of_map_eq_ok {ε α β : Type} {f : α → β} {r : Except ε α} {y : β} (h : r.map f = .ok y) :
    ∃ x, r = .ok x ∧ f x = y := by
  cases r with
  | error e => cases h
  | ok x => exact ⟨x, rfl, Except.ok.inj h⟩

namespace Cursor

/-! ### Steps in a row -/

/-- Whether a step has answered the end of the source. -/
def isEnd : Except Error Token → Bool
  | .ok t => t.isEof
  | .error _ => false

theorem rest_scan_le {c next : Cursor} {a : Except Error Token} (h : c.scan = (a, next)) :
    next.rest.length ≤ c.rest.length := by
  cases ScanStep.of_scan h with
  | atEnd _ => exact Nat.zero_le _
  | unclosed _ _ _ => exact Nat.zero_le _
  | lexeme _ _ hv _ => exact Nat.le_of_lt (rest_scan_lt h (hv.isEof_token _))

theorem rest_scan_lt_or_isEnd {c next : Cursor} {a : Except Error Token} (h : c.scan = (a, next)) :
    next.rest.length < c.rest.length ∨ isEnd a = true := by
  cases ScanStep.of_scan h with
  | atEnd _ => exact .inr rfl
  | unclosed hr _ _ =>
    have hne : c.rest ≠ [] := by
      rw [hr]
      exact List.append_ne_nil_of_right_ne_nil _ (List.cons_ne_nil _ _)
    exact .inl (List.length_pos_iff.2 hne)
  | lexeme _ _ hv _ => exact .inl (rest_scan_lt h (hv.isEof_token _))

/-- Steps from the one cursor to the other answer these, the end of the source and faults included. -/
inductive Took : Cursor → List (Except Error Token) → Cursor → Prop
  | nil (c : Cursor) : Took c [] c
  | cons {c next last : Cursor} {a : Except Error Token} {as : List (Except Error Token)}
    (h : c.scan = (a, next)) (hs : Took next as last) : Took c (a :: as) last

namespace Took

variable {c mid last : Cursor} {as bs : List (Except Error Token)}

theorem append (h : Took c as mid) (h' : Took mid bs last) : Took c (as ++ bs) last := by
  induction h with
  | nil c => exact h'
  | cons hscan _ ih => exact .cons hscan (ih h')

theorem rest_le (h : Took c as last) : last.rest.length ≤ c.rest.length := by
  induction h with
  | nil c => exact Nat.le_refl _
  | cons hscan _ ih => exact Nat.le_trans ih (rest_scan_le hscan)

theorem length_le (h : Took c as last) :
    as.length + last.rest.length ≤ c.rest.length + as.countP isEnd := by
  -- A step is paid for by a byte, or else it is one of those that answer the end.
  induction h with
  | nil c => simp
  | cons hscan _ ih =>
    rw [List.length_cons, List.countP_cons]
    rcases rest_scan_lt_or_isEnd hscan with hlt | hend
    · omega
    · have hle := rest_scan_le hscan
      rw [if_pos hend]
      omega

end Took

/-! ### Loops over steps -/

/-- What a loop over steps has come to. -/
structure Run (α : Type) (c : Cursor) where
  result : Except Error α
  /-- The cursor behind the last step. -/
  next : Cursor
  /-- What the steps answered, one answer for each step. -/
  answers : List (Except Error Token)
  /-- How many loops ran inside one another at most, this one included. -/
  depth : Nat
  took : c.Took answers next

namespace Run

variable {α β : Type} {c next : Cursor} {a : Except Error Token}

/-- A loop that ends with its first step. -/
def one (h : c.scan = (a, next)) (result : Except Error α) : Run α c :=
  ⟨result, next, [a], 1, .cons h (.nil next)⟩

/-- A loop that goes on behind its first step. -/
def after (h : c.scan = (a, next)) (f : α → β) (more : Run α next) : Run β c :=
  ⟨more.result.map f, more.next, a :: more.answers, more.depth, .cons h more.took⟩

/-- A loop that ends with the fault of a loop that ran inside it. -/
def failed (h : c.scan = (a, next)) (inner : Run α next) (e : Error) : Run β c :=
  ⟨.error e, inner.next, a :: inner.answers, inner.depth + 1, .cons h inner.took⟩

/-- A loop that goes on behind a loop that ran inside it. -/
def behind (h : c.scan = (a, next)) (f : β → β) (inner : Run α next) (more : Run β inner.next) :
    Run β c :=
  ⟨more.result.map f, more.next, a :: (inner.answers ++ more.answers),
    max (inner.depth + 1) more.depth, .cons h (inner.took.append more.took)⟩

end Run

/-- All tokens from the cursor on, or the first fault. -/
def gather (c : Cursor) : Run (List Token) c :=
  match h : c.scan with
  | (.error e, _) => .one h (.error e)
  | (.ok t, next) =>
    if ht : t.isEof then .one h (.ok [t])
    else
      have _hlt : next.rest.length < c.rest.length := rest_scan_lt h (by simpa using ht)
      .after h (t :: ·) next.gather
termination_by c.rest.length

/-- What a loop ends with at a token that no expression begins with. At the end of the source no list may be
open, and at a closing parenthesis one must be. -/
def ending? (opened : Option Position) (t : Token) : Option (Except Error (List Expr)) :=
  match t.kind, opened with
  | .eof, none => some (.ok [])
  | .eof, some p => some (.error (.unterminatedList p))
  | .rightParen, none => some (.error (.unexpectedRightParen t.position))
  | .rightParen, some _ => some (.ok [])
  | _, _ => none

theorem isEof_of_ending? {opened : Option Position} {t : Token} (h : ending? opened t = none) :
    t.isEof = false := by
  refine decide_eq_false fun hk => ?_
  cases opened <;> simp [ending?, hk] at h

theorem kind_of_ending? {opened : Option Position} {t : Token} (h : ending? opened t = none)
    (hk : t.kind ≠ .leftParen) : t.kind = .symbol ∨ t.kind = .string ∨ t.kind = .number := by
  cases htk : t.kind with
  | leftParen => exact absurd htk hk
  | symbol | string | number => simp
  | rightParen | eof => cases opened <;> simp [ending?, htk] at h

theorem nil_of_ending? {opened : Option Position} {t : Token} {es : List Expr}
    (h : ending? opened t = some (.ok es)) : es = [] := by
  unfold ending? at h
  split at h <;> cases h <;> rfl

/-- The expressions up to the parenthesis that closes the list opened at a place, or up to the end of the
source if no list is open. A list among them is read by a loop of its own. -/
def descend (c : Cursor) (opened : Option Position) : Run (List Expr) c :=
  match h : c.scan with
  | (.error e, _) => .one h (.error e)
  | (.ok t, next) =>
    match hend : ending? opened t with
    | some result => .one h result
    | none =>
      have hlt : next.rest.length < c.rest.length := rest_scan_lt h (isEof_of_ending? hend)
      if t.kind = .leftParen then
        let inner := next.descend (some t.position)
        match inner.result with
        | .error e => .failed h inner e
        | .ok items =>
          have _hinner : inner.next.rest.length < c.rest.length :=
            Nat.lt_of_le_of_lt inner.took.rest_le hlt
          .behind h (.list items :: ·) inner (inner.next.descend opened)
      else
        match t.atom with
        | .error e => .one h (.error e)
        | .ok e => .after h (e :: ·) (next.descend opened)
termination_by c.rest.length

/-! ### What the loops read -/

theorem scanAll_eq_gather (c : Cursor) : c.scanAll = (c.gather.result, c.gather.next) := by
  fun_induction gather c with
  | case1 c e next hscan => exact scanAll_of_error hscan
  | case2 c t next hscan ht => exact scanAll_of_isEof hscan ht
  | case3 c t next hscan ht _ ih =>
    rw [scanAll_of_token hscan (by simpa using ht), ih]
    rfl

end Cursor

namespace Builder

/-- The place of the innermost open list. -/
def opened? (b : Builder) : Option Position := b.frames.head?.map Frame.opened

theorem opened?_add (b : Builder) (e : Expr) : (b.add e).opened? = b.opened? := by
  rw [opened?, ← List.head?_map, opened_frames_add, List.head?_map, opened?]

/-- What a reading goes on to answer when a loop for the innermost open list, or for the whole source, has come
to `result` and the cursor stands at `next`. -/
def resume (b : Builder) (result : Except Error (List Expr)) (next : Cursor) :
    Except Error (List Expr) × Cursor :=
  match result, b.frames with
  | .error e, _ => (.error e, next)
  | .ok es, [] => (.ok (b.done.reverse ++ es), next)
  | .ok es, f :: fs => next.readInto ({ b with frames := fs }.add (.list (f.items.reverse ++ es)))

theorem resume_map_cons (b : Builder) (e : Expr) (result : Except Error (List Expr)) (next : Cursor) :
    b.resume (result.map (e :: ·)) next = (b.add e).resume result next := by
  obtain ⟨done, frames⟩ := b
  cases result with
  | error e => rfl
  | ok es => cases frames <;> simp [Except.map, resume, add]

/-- A token that no loop ends with and that opens no list is an expression. -/
theorem push_of_atom {b : Builder} {t : Token} (hend : Cursor.ending? b.opened? t = none)
    (hk : t.kind ≠ .leftParen) : b.push t = t.atom.map b.add := by
  rcases Cursor.kind_of_ending? hend hk with htk | htk | htk
  · simp only [push, Token.atom, htk, Except.map]
  · simp only [push, Token.atom, htk, Except.map]
  · simp only [push, Token.atom, htk]

end Builder

namespace Cursor

theorem readInto_of_ending? {c next : Cursor} {b : Builder} {t : Token}
    {result : Except Error (List Expr)} (hscan : c.scan = (.ok t, next))
    (hend : ending? b.opened? t = some result) : c.readInto b = b.resume result next := by
  obtain ⟨done, frames⟩ := b
  cases hk : t.kind with
  | eof =>
    rw [readInto_of_isEof hscan (decide_eq_true hk)]
    cases frames <;> simp [ending?, Builder.opened?, hk] at hend <;> subst hend <;>
      simp [Builder.finish, Builder.resume]
  | rightParen =>
    have ht : t.isEof = false := decide_eq_false (by simp [hk])
    cases frames with
    | nil =>
      have hpush : Builder.push ⟨done, []⟩ t = .error (.unexpectedRightParen t.position) := by
        simp only [Builder.push, hk, Builder.closeList]
      rw [readInto_of_push_error hscan ht hpush]
      simp [ending?, Builder.opened?, hk] at hend
      subst hend
      rfl
    | cons f fs =>
      have hpush : Builder.push ⟨done, f :: fs⟩ t = .ok (Builder.add ⟨done, fs⟩ (.list f.items.reverse)) := by
        simp only [Builder.push, hk, Builder.closeList]
      rw [readInto_of_push hscan ht hpush]
      simp [ending?, Builder.opened?, hk] at hend
      subst hend
      simp [Builder.resume]
  | leftParen | symbol | string | number => simp [ending?, hk] at hend

/-- A reading with a builder is a descent from its innermost open list, and then goes on. -/
theorem readInto_eq_resume (c : Cursor) (opened : Option Position) :
    ∀ b : Builder, b.opened? = opened →
      c.readInto b = b.resume (c.descend opened).result (c.descend opened).next := by
  fun_induction descend c opened with
  | case1 c opened e next hscan => exact fun b _ => readInto_of_error hscan b
  | case2 c opened t next hscan result hend =>
    rintro b rfl
    exact readInto_of_ending? hscan hend
  | case3 c opened t next hscan hend _ hk inner e he ih =>
    intro b _
    have hpush : b.push t = .ok (b.openList t.position) := by simp only [Builder.push, hk]
    rw [readInto_of_push hscan (isEof_of_ending? hend) hpush, ih (b.openList t.position) rfl]
    exact congrArg (Builder.resume _ · inner.next) he
  | case4 c opened t next hscan hend _ hk inner items hitems _ ihi ih =>
    intro b hb
    have hpush : b.push t = .ok (b.openList t.position) := by simp only [Builder.push, hk]
    have hclosed : (b.openList t.position).resume (.ok items) inner.next =
        inner.next.readInto (b.add (.list items)) := rfl
    have hinner : (next.descend (some t.position)).result = .ok items := hitems
    -- The builder reads the list first, and what follows it with the list added where it stands.
    rw [readInto_of_push hscan (isEof_of_ending? hend) hpush, ihi (b.openList t.position) rfl, hinner]
    refine hclosed.trans ?_
    rw [ih (b.add (.list items)) ((b.opened?_add _).trans hb)]
    exact (b.resume_map_cons _ _ _).symm
  | case5 c opened t next hscan hend _ hk e he =>
    rintro b rfl
    have hpush : b.push t = .error e := by rw [Builder.push_of_atom hend hk, he]; rfl
    exact readInto_of_push_error hscan (isEof_of_ending? hend) hpush
  | case6 c opened t next hscan hend _ hk e he ih =>
    rintro b rfl
    have hpush : b.push t = .ok (b.add e) := by rw [Builder.push_of_atom hend hk, he]; rfl
    rw [readInto_of_push hscan (isEof_of_ending? hend) hpush, ih (b.add e) (b.opened?_add e)]
    exact (b.resume_map_cons _ _ _).symm

theorem read_eq_descend (c : Cursor) : c.read = ((c.descend none).result, (c.descend none).next) := by
  rw [read, readInto_eq_resume c none .empty rfl]
  cases (c.descend none).result with
  | error e => rfl
  | ok es => rfl

/-! ### How often and how deep -/

section Step

variable {t : Token} {answers : List (Except Error Token)}

theorem countP_isEnd_cons (h : t.isEof = false) :
    (.ok t :: answers : List (Except Error Token)).countP isEnd = answers.countP isEnd :=
  List.countP_cons_of_neg (by simp [isEnd, h])

/-- How many of the answers are opening parentheses. -/
def openings (answers : List (Except Error Token)) : Nat := opens (answers.filterMap Except.toOption)

/-- How many more lists are open than at first, where they are most. -/
def mostOpen : List (Except Error Token) → Nat
  | [] => 0
  | .error _ :: answers => mostOpen answers
  | .ok t :: answers =>
    match t.kind with
    | .leftParen => mostOpen answers + 1
    | .rightParen => mostOpen answers - 1
    | _ => mostOpen answers

theorem mostOpen_cons_of_leftParen (hk : t.kind = .leftParen) :
    mostOpen (.ok t :: answers) = mostOpen answers + 1 := by
  simp only [mostOpen, hk]

theorem mostOpen_cons_of_rightParen (hk : t.kind = .rightParen) :
    mostOpen (.ok t :: answers) = mostOpen answers - 1 := by
  simp only [mostOpen, hk]

theorem mostOpen_cons_of_atom {opened : Option Position} (hend : ending? opened t = none)
    (hk : t.kind ≠ .leftParen) : mostOpen (.ok t :: answers) = mostOpen answers := by
  rcases kind_of_ending? hend hk with htk | htk | htk <;> simp only [mostOpen, htk]

theorem mostOpen_singleton_of_ending? {opened : Option Position} {result : Except Error (List Expr)}
    (hend : ending? opened t = some result) : mostOpen [.ok t] = 0 := by
  cases hk : t.kind with
  | rightParen | eof => simp only [mostOpen, hk]
  | leftParen | symbol | string | number => simp [ending?, hk] at hend

theorem mostOpen_le_openings (answers : List (Except Error Token)) :
    mostOpen answers ≤ openings answers := by
  induction answers with
  | nil => exact Nat.le_refl 0
  | cons a answers ih =>
    cases a with
    | error e => exact ih
    | ok t =>
      have hcons : openings (.ok t :: answers) = opens [t] + openings answers := opens_cons t _
      rw [hcons]
      cases hk : t.kind with
      | leftParen =>
        have hone : opens [t] = 1 := by simp [opens, hk]
        rw [mostOpen_cons_of_leftParen hk, hone]
        omega
      | rightParen =>
        rw [mostOpen_cons_of_rightParen hk]
        omega
      | symbol | string | number | eof =>
        simp only [mostOpen, hk]
        omega

end Step

theorem countP_isEnd_gather_le (c : Cursor) : c.gather.answers.countP isEnd ≤ 1 := by
  fun_induction gather c with
  | case1 c e next hscan => exact Nat.zero_le 1
  | case2 c t next hscan ht => exact List.countP_le_length
  | case3 c t next hscan ht _ ih =>
    rw [Run.after, countP_isEnd_cons (by simpa using ht)]
    exact ih

/-- A loop meets the end of the source once at most, and not at all if it has closed its list. -/
theorem countP_isEnd_descend_le (c : Cursor) (opened : Option Position) :
    (c.descend opened).answers.countP isEnd ≤ 1 ∧
      ∀ p es, opened = some p → (c.descend opened).result = .ok es →
        (c.descend opened).answers.countP isEnd = 0 := by
  fun_induction descend c opened with
  | case1 c opened e next hscan => exact ⟨Nat.zero_le 1, fun _ _ _ _ => rfl⟩
  | case2 c opened t next hscan result hend =>
    refine ⟨List.countP_le_length, ?_⟩
    rintro p es rfl rfl
    cases hk : t.kind <;> simp [ending?, hk] at hend
    simp [Run.one, isEnd, Token.isEof, hk]
  | case3 c opened t next hscan hend _ hk inner e he ih =>
    rw [Run.failed, countP_isEnd_cons (isEof_of_ending? hend)]
    exact ⟨ih.1, fun _ _ _ h => by cases h⟩
  | case4 c opened t next hscan hend _ hk inner items hitems _ ihi ih =>
    -- The list was closed, so the end of the source can only be met behind it.
    have hinner : inner.answers.countP isEnd = 0 := ihi.2 _ _ rfl hitems
    rw [Run.behind, countP_isEnd_cons (isEof_of_ending? hend), List.countP_append, hinner, Nat.zero_add]
    refine ⟨ih.1, fun p es ho h => ?_⟩
    obtain ⟨_, hmore, _⟩ := exists_of_map_eq_ok h
    exact ih.2 p _ ho hmore
  | case5 c opened t next hscan hend _ hk e he =>
    exact ⟨List.countP_le_length, fun _ _ _ h => by cases h⟩
  | case6 c opened t next hscan hend _ hk e he ih =>
    rw [Run.after, countP_isEnd_cons (isEof_of_ending? hend)]
    refine ⟨ih.1, fun p es ho h => ?_⟩
    obtain ⟨_, hmore, _⟩ := exists_of_map_eq_ok h
    exact ih.2 p _ ho hmore

/-- A loop that has closed its list leaves one list less open than it found. -/
theorem mostOpen_append_of_closed (c : Cursor) (opened : Option Position) :
    ∀ p es, opened = some p → (c.descend opened).result = .ok es → ∀ answers,
      mostOpen ((c.descend opened).answers ++ answers) =
        max (mostOpen (c.descend opened).answers) (mostOpen answers - 1) := by
  fun_induction descend c opened with
  | case1 c opened e next hscan => exact fun _ _ _ h => by cases h
  | case2 c opened t next hscan result hend =>
    intro p es ho h answers
    subst ho h
    have hk : t.kind = .rightParen := by
      cases hk : t.kind <;> simp [ending?, hk] at hend
      rfl
    show mostOpen (.ok t :: answers) = max (mostOpen [.ok t]) (mostOpen answers - 1)
    rw [mostOpen_singleton_of_ending? hend, mostOpen_cons_of_rightParen hk, Nat.zero_max]
  | case3 c opened t next hscan hend _ hk inner e he ih => exact fun _ _ _ h => by cases h
  | case4 c opened t next hscan hend _ hk inner items hitems _ ihi ih =>
    intro p es ho h answers
    obtain ⟨_, hmore, _⟩ := exists_of_map_eq_ok h
    have hlast := ih p _ ho hmore answers
    have hinner (as : List (Except Error Token)) :
        mostOpen (inner.answers ++ as) = max (mostOpen inner.answers) (mostOpen as - 1) :=
      ihi _ _ rfl hitems as
    -- The inner list is closed, so what comes behind it counts one lower than behind its parenthesis.
    rw [Run.behind, List.cons_append, List.append_assoc, mostOpen_cons_of_leftParen hk,
      mostOpen_cons_of_leftParen hk, hinner, hinner, hlast]
    omega
  | case5 c opened t next hscan hend _ hk e he => exact fun _ _ _ h => by cases h
  | case6 c opened t next hscan hend _ hk e he ih =>
    intro p es ho h answers
    obtain ⟨_, hmore, _⟩ := exists_of_map_eq_ok h
    rw [Run.after, List.cons_append, mostOpen_cons_of_atom hend hk, mostOpen_cons_of_atom hend hk]
    exact ih p _ ho hmore answers

/-- There is a loop for each list that is open, and one around them. -/
theorem depth_descend (c : Cursor) (opened : Option Position) :
    (c.descend opened).depth = 1 + mostOpen (c.descend opened).answers := by
  fun_induction descend c opened with
  | case1 c opened e next hscan => rfl
  | case2 c opened t next hscan result hend => rw [Run.one, mostOpen_singleton_of_ending? hend]
  | case3 c opened t next hscan hend _ hk inner e he ih =>
    have hinner : inner.depth = 1 + mostOpen inner.answers := ih
    rw [Run.failed, mostOpen_cons_of_leftParen hk]
    show inner.depth + 1 = _
    omega
  | case4 c opened t next hscan hend _ hk inner items hitems _ ihi ih =>
    have hinner : inner.depth = 1 + mostOpen inner.answers := ihi
    have happend : mostOpen (inner.answers ++ (inner.next.descend opened).answers) =
        max (mostOpen inner.answers) (mostOpen (inner.next.descend opened).answers - 1) :=
      next.mostOpen_append_of_closed _ _ _ rfl hitems _
    rw [Run.behind, mostOpen_cons_of_leftParen hk, happend]
    show max (inner.depth + 1) (inner.next.descend opened).depth = _
    omega
  | case5 c opened t next hscan hend _ hk e he => rw [Run.one, mostOpen_cons_of_atom hend hk]; rfl
  | case6 c opened t next hscan hend _ hk e he ih =>
    rw [Run.after, mostOpen_cons_of_atom hend hk]
    exact ih

theorem depth_descend_of_ok (c : Cursor) (opened : Option Position) :
    ∀ es, (c.descend opened).result = .ok es →
      (c.descend opened).depth = 1 + Expr.nestingAll es := by
  fun_induction descend c opened with
  | case1 c opened e next hscan => exact fun _ h => by cases h
  | case2 c opened t next hscan result hend =>
    intro es h
    subst h
    rw [nil_of_ending? hend]
    rfl
  | case3 c opened t next hscan hend _ hk inner e he ih => exact fun _ h => by cases h
  | case4 c opened t next hscan hend _ hk inner items hitems _ ihi ih =>
    intro es h
    obtain ⟨more, hmore, rfl⟩ := exists_of_map_eq_ok h
    have hinner : inner.depth = 1 + Expr.nestingAll items := ihi items hitems
    have hlater := ih more hmore
    rw [Run.behind, Expr.nestingAll, Expr.nesting]
    show max (inner.depth + 1) (inner.next.descend opened).depth = _
    omega
  | case5 c opened t next hscan hend _ hk e he => exact fun _ h => by cases h
  | case6 c opened t next hscan hend _ hk e he ih =>
    intro es h
    obtain ⟨more, hmore, rfl⟩ := exists_of_map_eq_ok h
    rw [Run.after, ih more hmore, Expr.nestingAll, Expr.nesting_of_isAtom (Token.isAtom_atom he),
      Nat.zero_max]

/-- Each node of what is read took a step, and so did what stands at the end of it. -/
theorem length_nodesAll_descend_lt (c : Cursor) (opened : Option Position) :
    ∀ es n, (c.descend opened).result = .ok es →
      (Expr.nodesAll n es).length < (c.descend opened).answers.length := by
  fun_induction descend c opened with
  | case1 c opened e next hscan => exact fun _ _ h => by cases h
  | case2 c opened t next hscan result hend =>
    rintro es n rfl
    rw [nil_of_ending? hend]
    exact Nat.one_pos
  | case3 c opened t next hscan hend _ hk inner e he ih => exact fun _ _ h => by cases h
  | case4 c opened t next hscan hend _ hk inner items hitems _ ihi ih =>
    intro es n h
    obtain ⟨more, hmore, rfl⟩ := exists_of_map_eq_ok h
    have hi : (Expr.nodesAll (n + 1) items).length < inner.answers.length := ihi items (n + 1) hitems
    have hm := ih more n hmore
    simp only [Run.behind, Expr.nodesAll, Expr.nodes, List.length_append, List.length_cons]
    omega
  | case5 c opened t next hscan hend _ hk e he => exact fun _ _ h => by cases h
  | case6 c opened t next hscan hend _ hk e he ih =>
    intro es n h
    obtain ⟨more, hmore, rfl⟩ := exists_of_map_eq_ok h
    have hm := ih more n hmore
    have he := Expr.length_nodes_of_isAtom (Token.isAtom_atom he) n
    simp only [Run.after, Expr.nodesAll, List.length_append, List.length_cons]
    omega

/-! ### Whatever was asked before -/

theorem Run.length_answers_le {α : Type} {c : Cursor} (run : Run α c)
    (h : run.answers.countP isEnd ≤ 1) : run.answers.length ≤ c.rest.length + 1 := by
  have hle := run.took.length_le
  omega

theorem length_nodesAll_read_le {c : Cursor} {es : List Expr} (h : c.read.1 = .ok es) (n : Nat) :
    (Expr.nodesAll n es).length ≤ c.rest.length := by
  rw [read_eq_descend] at h
  have hnodes := c.length_nodesAll_descend_lt none es n h
  have hsteps := (c.descend none).length_answers_le (c.countP_isEnd_descend_le none).1
  omega

namespace IsOn

variable {source : List UInt8} {c next : Cursor} {a : Except Error Token}

theorem length_rest (h : IsOn source c) : c.rest.length = source.length - c.offset := by
  rw [← h.rest, List.length_drop]

theorem offset_of_isEnd (h : IsOn source c) (hscan : c.scan = (a, next)) (ha : isEnd a = true) :
    next.offset = source.length := by
  have hrest : next.rest.length = 0 := by
    cases ScanStep.of_scan hscan with
    | atEnd _ => rfl
    | unclosed _ _ _ => cases ha
    | lexeme _ _ hv _ => exact absurd ha (by simp [isEnd, hv.isEof_token])
  have hnext := h.next hscan
  have hlen := hnext.length_rest
  have hle := hnext.offset_le
  omega

theorem offset_lt (h : IsOn source c) (hscan : c.scan = (a, next)) (ha : isEnd a = false) :
    c.offset < next.offset := by
  have hlt := (rest_scan_lt_or_isEnd hscan).resolve_right (by simp [ha])
  rw [h.length_rest, (h.next hscan).length_rest] at hlt
  omega

end IsOn

end Cursor

/-- Whatever is asked of a cursor on a source: a step goes on and stays in the source, unless it answers the
end, which it does at the end only. All tokens, or all expressions, from here on take no more steps than bytes
are left and one more, whether there is a fault or not. The loops of a descent that run inside one another are
one more than lists are open at once, which are no more than it meets opening parentheses. What is read has no
more nodes than bytes are left, and its lists stand in one another as the loops did. -/
theorem requests_make_progress (source : List UInt8) (rs : List Request) :
    let c := (Cursor.ofSource source).afterRequests rs
    (∀ a next, c.scan = (a, next) → next.offset ≤ source.length ∧
      (Cursor.isEnd a = true → next.offset = source.length) ∧
      (Cursor.isEnd a = false → c.offset < next.offset)) ∧
    (c.scanAll = (c.gather.result, c.gather.next) ∧
      c.Took c.gather.answers c.gather.next ∧
      c.gather.answers.length ≤ source.length - c.offset + 1) ∧
    (c.read = ((c.descend none).result, (c.descend none).next) ∧
      c.Took (c.descend none).answers (c.descend none).next ∧
      (c.descend none).answers.length ≤ source.length - c.offset + 1 ∧
      (c.descend none).depth = 1 + Cursor.mostOpen (c.descend none).answers ∧
      (c.descend none).depth ≤ 1 + Cursor.openings (c.descend none).answers) ∧
    ∀ es, c.read.1 = .ok es → (Expr.nodesAll 0 es).length ≤ source.length - c.offset ∧
      (c.descend none).depth = 1 + Expr.nestingAll es := by
  intro c
  have hon : c.IsOn source := (Cursor.isOn_ofSource source).afterRequests rs
  rw [← hon.length_rest]
  refine ⟨fun a next hscan => ?_, ⟨c.scanAll_eq_gather, c.gather.took, ?_⟩,
    ⟨c.read_eq_descend, (c.descend none).took, ?_, c.depth_descend none, ?_⟩, fun es h => ⟨?_, ?_⟩⟩
  · exact ⟨(hon.next hscan).offset_le, hon.offset_of_isEnd hscan, hon.offset_lt hscan⟩
  · exact c.gather.length_answers_le c.countP_isEnd_gather_le
  · exact (c.descend none).length_answers_le (c.countP_isEnd_descend_le none).1
  · rw [c.depth_descend none]
    exact Nat.add_le_add_left (Cursor.mostOpen_le_openings _) 1
  · exact Cursor.length_nodesAll_read_le h 0
  · rw [c.read_eq_descend] at h
    exact c.depth_descend_of_ok none es h

/-- Where two lists are left open, four steps are made for three bytes, and three loops run inside one
another; and so where one list stands in another. -/
theorem open_lists_make_progress :
    ((Cursor.ofSource (Utf8.encode "((a".toList)).descend none).answers.length = 3 + 1 ∧
      ((Cursor.ofSource (Utf8.encode "((a".toList)).descend none).depth = 1 + 2 ∧
      (Cursor.ofSource (Utf8.encode "((a".toList)).scan =
        (.ok ⟨.leftParen, "(", ⟨1, 1⟩⟩, ⟨Utf8.encode "(a".toList, ⟨1, 2⟩, 1, 0⟩) ∧
      0 < 1 ∧
      read (Utf8.encode "(a(b))".toList) = .ok [.list [.symbol "a", .list [.symbol "b"]]] ∧
      (Expr.nodesAll 0 [.list [.symbol "a", .list [.symbol "b"]]]).length ≤ 6 ∧
      ((Cursor.ofSource (Utf8.encode "(a(b))".toList)).descend none).depth = 1 + 2 := by
  have hscan : (Cursor.ofSource (Utf8.encode "((a".toList)).scan =
      (.ok ⟨.leftParen, "(", ⟨1, 1⟩⟩, ⟨Utf8.encode "(a".toList, ⟨1, 2⟩, 1, 0⟩) := by
    with_unfolding_all rfl
  have hread : read (Utf8.encode "(a(b))".toList) =
      .ok [.list [.symbol "a", .list [.symbol "b"]]] := by
    with_unfolding_all rfl
  obtain ⟨hstep, _, _, _⟩ := requests_make_progress (Utf8.encode "((a".toList) []
  obtain ⟨_, _, _, hresult⟩ := requests_make_progress (Utf8.encode "(a(b))".toList) []
  obtain ⟨hnodes, hdepth⟩ := hresult _ hread
  exact ⟨by with_unfolding_all rfl, by with_unfolding_all rfl, hscan, (hstep _ _ hscan).2.2 rfl, hread,
    hnodes, hdepth⟩

end Sexp
