import Sexp.Proofs.JsonPart

/-!
# JSON values are read back from their texts

The parts of a value lead the assembly from where a value may come to just behind this value, whatever is
open around it (`parts_foldlM`), and no two numbers among them stand side by side (`parts_apart`). So what
a value is written as is read as this value (`read?_write`).
-/

namespace Sexp.Json

/-- What holds of a value if it holds of its items and its members holds of every value. -/
@[elab_as_elim]
theorem induct {P : Json → Prop} (null : P .null) (bool : ∀ b, P (.bool b))
    (number : ∀ n, P (.number n)) (string : ∀ s, P (.string s))
    (array : ∀ items, (∀ v ∈ items, P v) → P (.array items))
    (object : ∀ members, (∀ m ∈ members, P m.2) → P (.object members)) (v : Json) : P v :=
  Json.rec (motive_1 := P) (motive_2 := fun items => ∀ v ∈ items, P v)
    (motive_3 := fun members => ∀ m ∈ members, P m.2) (motive_4 := fun m => P m.2)
    null bool number string array object (List.forall_mem_nil _)
    (fun _ _ hv hvs => List.forall_mem_cons.2 ⟨hv, hvs⟩) (List.forall_mem_nil _)
    (fun _ _ hm hms => List.forall_mem_cons.2 ⟨hm, hms⟩) (fun _ _ hv => hv) v

/-! ### No two numbers side by side -/

section Apart

variable {p : Part} {ps qs : List Part}

theorem apart_cons (hp : p.isNumber = false) (h : ps.IsChain Part.Apart) :
    (p :: ps).IsChain Part.Apart :=
  List.isChain_cons.2 ⟨fun _ _ => .inl hp, h⟩

theorem apart_append (h : ps.IsChain Part.Apart) (hp : p.isNumber = false)
    (hqs : qs.IsChain Part.Apart) : (ps ++ p :: qs).IsChain Part.Apart :=
  h.append (apart_cons hp hqs) fun _ _ q hq => by
    cases hq
    exact .inr hp

end Apart

theorem itemParts_apart {items : List Json} (h : ∀ v ∈ items, v.parts.IsChain Part.Apart) :
    (itemParts items).IsChain Part.Apart := by
  induction items with
  | nil => exact .nil
  | cons v items ih =>
    obtain ⟨hv, hitems⟩ := List.forall_mem_cons.1 h
    cases items with
    | nil => exact hv
    | cons w items => exact apart_append hv rfl (ih hitems)

theorem memberParts_apart {members : List (RawString × Json)}
    (h : ∀ m ∈ members, m.2.parts.IsChain Part.Apart) :
    (memberParts members).IsChain Part.Apart := by
  induction members with
  | nil => exact .nil
  | cons m members ih =>
    obtain ⟨hm, hmembers⟩ := List.forall_mem_cons.1 h
    cases members with
    | nil => exact apart_cons rfl (apart_cons rfl hm)
    | cons n members =>
      exact apart_cons rfl (apart_cons rfl (apart_append hm rfl (ih hmembers)))

theorem parts_apart (v : Json) : v.parts.IsChain Part.Apart := by
  induction v using induct with
  | null => exact .singleton _
  | bool b => exact .singleton _
  | number n => exact .singleton _
  | string s => exact .singleton _
  | array items ih => exact apart_cons rfl (apart_append (itemParts_apart ih) rfl .nil)
  | object members ih => exact apart_cons rfl (apart_append (memberParts_apart ih) rfl .nil)

/-! ### Assembly -/

/-- What may come after these parts. -/
def Expected.run (e : Expected) (ps : List Part) : Option Expected := ps.foldlM Expected.step e

theorem Expected.run_append (e : Expected) (ps qs : List Part) :
    e.run (ps ++ qs) = (e.run ps).bind (·.run qs) :=
  List.foldlM_append

/-- The parts of the value lead to just behind it, whatever is open around it. -/
def Assembles (v : Json) : Prop :=
  ∀ around, (Expected.value around).run v.parts = some (.after v around)

theorem itemParts_cons (v : Json) (items : List Json) :
    ∃ ps, itemParts (v :: items) = v.parts ++ ps := by
  cases items with
  | nil => exact ⟨[], (List.append_nil _).symm⟩
  | cons w items => exact ⟨_, rfl⟩

/-- A first item is taken as any item is. -/
theorem itemOrEnd_run (v : Json) (items : List Json) (ps : List Part) (around : List Context) :
    (Expected.itemOrEnd around).run (itemParts (v :: items) ++ ps) =
      (Expected.value (.item [] :: around)).run (itemParts (v :: items) ++ ps) := by
  have hfirst : (Expected.itemOrEnd around).run v.parts =
      (Expected.value (.item [] :: around)).run v.parts := by
    cases v <;> rfl
  obtain ⟨qs, hqs⟩ := itemParts_cons v items
  rw [hqs, List.append_assoc, Expected.run_append, Expected.run_append, hfirst]

/-- From where an item is to come, items and the closing bracket lead to behind the array. -/
theorem items_run {v : Json} {items : List Json} (h : ∀ w ∈ v :: items, w.Assembles)
    (before : List Json) (around : List Context) :
    (Expected.value (.item before :: around)).run (itemParts (v :: items) ++ [.closeArray]) =
      some (.after (.array (before.reverse ++ v :: items)) around) := by
  induction items generalizing v before with
  | nil =>
    have hv := h v List.mem_cons_self (.item before :: around)
    rw [itemParts, Expected.run_append, hv]
    show some (Expected.after (.array (v :: before).reverse) around) = _
    rw [List.reverse_cons]
  | cons w items ih =>
    obtain ⟨hv, hitems⟩ := List.forall_mem_cons.1 h
    have hrest := ih hitems (v :: before)
    rw [List.reverse_cons, List.append_assoc] at hrest
    show (Expected.value _).run ((v.parts ++ .comma :: itemParts (w :: items)) ++ [.closeArray]) = _
    rw [List.append_assoc, Expected.run_append, hv]
    exact hrest

/-- From where a name is to come, members and the closing brace lead to behind the object. -/
theorem members_run {m : RawString × Json} {members : List (RawString × Json)}
    (h : ∀ n ∈ m :: members, n.2.Assembles) (before : List (RawString × Json))
    (around : List Context) :
    (Expected.name before around).run (memberParts (m :: members) ++ [.closeObject]) =
      some (.after (.object (before.reverse ++ m :: members)) around) := by
  induction members generalizing m before with
  | nil =>
    have hv := h m List.mem_cons_self (.member before m.1 :: around)
    show (Expected.value (.member before m.1 :: around)).run (m.2.parts ++ [.closeObject]) = _
    rw [Expected.run_append, hv]
    show some (Expected.after (.object (m :: before).reverse) around) = _
    rw [List.reverse_cons]
  | cons n members ih =>
    obtain ⟨hv, hmembers⟩ := List.forall_mem_cons.1 h
    have hrest := ih hmembers (m :: before)
    rw [List.reverse_cons, List.append_assoc] at hrest
    show (Expected.value (.member before m.1 :: around)).run
      ((m.2.parts ++ .comma :: memberParts (n :: members)) ++ [.closeObject]) = _
    rw [List.append_assoc, Expected.run_append, hv]
    exact hrest

theorem assembles (v : Json) : v.Assembles := by
  induction v using induct with
  | null => exact fun _ => rfl
  | bool b => exact fun _ => rfl
  | number n => exact fun _ => rfl
  | string s => exact fun _ => rfl
  | array items ih =>
    intro around
    show (Expected.itemOrEnd around).run (itemParts items ++ [.closeArray]) = _
    cases items with
    | nil => rfl
    | cons v items =>
      rw [itemOrEnd_run]
      exact items_run ih [] around
  | object members ih =>
    intro around
    show (Expected.nameOrEnd around).run (memberParts members ++ [.closeObject]) = _
    cases members with
    | nil => rfl
    | cons m members =>
      have hname : (Expected.nameOrEnd around).run (memberParts (m :: members) ++ [.closeObject]) =
          (Expected.name [] around).run (memberParts (m :: members) ++ [.closeObject]) := by
        cases members <;> rfl
      rw [hname]
      exact members_run ih [] around

theorem assemble?_parts (v : Json) : assemble? v.parts = some v := by
  have hrun : v.parts.foldlM Expected.step (.value []) = some (.after v []) := v.assembles []
  rw [assemble?, hrun]
  rfl

/-! ### Texts of values -/

/-- The strings of the value are made of signs that may stand in a string. -/
def Written (v : Json) : Prop := ∀ p ∈ v.parts, p.Written

/-- A value is read from its text, with any white space between the parts. -/
theorem read?_of_spaced {v : Json} (h : v.Written) {text : List Char} (hs : Spaced v.parts text) :
    read? (String.ofList text) = some v := by
  rw [read?, String.toList_ofList, hs.parts?_eq h v.parts_apart]
  exact v.assemble?_parts

theorem read?_write {v : Json} (h : v.Written) : read? v.write = some v :=
  read?_of_spaced h (.chars v.parts)

theorem Sign.written_ofChar (c : Char) : (Sign.ofChar c).Written := by
  unfold ofChar
  cases hletter : escapeLetter? c with
  | some letter =>
    show (unescape? letter).isSome = true
    rw [unescape?_of_escapeLetter? hletter]
    rfl
  | none =>
    show Sign.Written (if c.toNat < 0x20 then _ else _)
    split
    · trivial
    · refine ⟨?_, ?_, by omega⟩
      · rintro rfl
        cases hletter
      · rintro rfl
        cases hletter

theorem RawString.written_ofString (text : String) :
    ∀ sign ∈ (RawString.ofString text).signs, sign.Written := by
  intro sign hsign
  obtain ⟨c, _, rfl⟩ := List.mem_map.1 hsign
  exact Sign.written_ofChar c

theorem written_ofString (text : String) : (Json.ofString text).Written :=
  List.forall_mem_singleton.2 (RawString.written_ofString text)

theorem written_itemParts {items : List Json} (h : ∀ v ∈ items, v.Written) :
    ∀ p ∈ itemParts items, p.Written := by
  induction items with
  | nil => exact List.forall_mem_nil _
  | cons v items ih =>
    obtain ⟨hv, hitems⟩ := List.forall_mem_cons.1 h
    cases items with
    | nil => exact hv
    | cons w items =>
      exact List.forall_mem_append.2 ⟨hv, List.forall_mem_cons.2 ⟨trivial, ih hitems⟩⟩

theorem written_array {items : List Json} (h : ∀ v ∈ items, v.Written) :
    (Json.array items).Written :=
  List.forall_mem_cons.2 ⟨trivial, List.forall_mem_append.2
    ⟨written_itemParts h, List.forall_mem_singleton.2 trivial⟩⟩

theorem written_memberParts {members : List (RawString × Json)}
    (h : ∀ m ∈ members, (Part.string m.1).Written ∧ m.2.Written) :
    ∀ p ∈ memberParts members, p.Written := by
  induction members with
  | nil => exact List.forall_mem_nil _
  | cons m members ih =>
    obtain ⟨⟨hname, hvalue⟩, hmembers⟩ := List.forall_mem_cons.1 h
    cases members with
    | nil => exact List.forall_mem_cons.2 ⟨hname, List.forall_mem_cons.2 ⟨trivial, hvalue⟩⟩
    | cons n members =>
      have hrest : ∀ p ∈ Part.comma :: memberParts (n :: members), p.Written :=
        List.forall_mem_cons.2 ⟨trivial, ih hmembers⟩
      exact List.forall_mem_cons.2 ⟨hname, List.forall_mem_cons.2 ⟨trivial,
        List.forall_mem_append.2 ⟨hvalue, hrest⟩⟩⟩

theorem written_object {members : List (RawString × Json)}
    (h : ∀ m ∈ members, (Part.string m.1).Written ∧ m.2.Written) : (Json.object members).Written :=
  List.forall_mem_cons.2 ⟨trivial, List.forall_mem_append.2
    ⟨written_memberParts h, List.forall_mem_singleton.2 trivial⟩⟩

theorem written_ofMembers {members : List (String × Json)} (h : ∀ m ∈ members, m.2.Written) :
    (Json.ofMembers members).Written := by
  apply written_object
  rw [List.forall_mem_map]
  exact fun m hm => ⟨RawString.written_ofString m.1, h m hm⟩

end Sexp.Json
