import Sexp.Proofs.JsonRoundTrip
import Sexp.Token.Json

/-!
# Tokens are read from JSON

Which JSON values are tokens, said without the reader: an object in which each of four names goes with one
value (`ofJson?_object_iff`), or an array of four values (`ofJson?_array_iff`), and the values are those of
the token (`Values`). So a token is read back from its text, and from any other object with these members,
in whatever order and among whatever others they stand (`token_json_round_trip`).
-/

namespace Sexp.Token

/-! ### Members of objects -/

section Members

variable {members : List (Json.RawString × Json)} {named : List (String × Json)} {key : String}
  {v : Json}

/-- The values that go by a name, in order. -/
def valuesOf (members : List (Json.RawString × Json)) (key : String) : List Json :=
  (members.filter fun m => m.1.decode? = some key).map Prod.snd

theorem member?_eq_some_iff :
    member? named key = some v ↔ (named.filter fun m => m.1 = key).map Prod.snd = [v] := by
  unfold member?
  split
  · rename_i heq
    simp [heq]
  · rename_i hne
    constructor
    · exact nofun
    · intro h
      obtain ⟨m, hm, _⟩ := List.map_eq_singleton_iff.1 h
      exact absurd hm (hne m)

theorem namedMembers?_cons (m : Json.RawString × Json) (members : List (Json.RawString × Json)) :
    namedMembers? (m :: members) =
      m.1.decode?.bind fun name => (namedMembers? members).map ((name, m.2) :: ·) := by
  rw [namedMembers?, List.mapM_cons]
  cases m.1.decode? with
  | none => rfl
  | some name =>
    show (namedMembers? members).bind (fun rest => some ((name, m.2) :: rest)) = _
    cases namedMembers? members <;> rfl

/-- Reading the names of members neither drops nor moves what goes by a name. -/
theorem valuesOf_of_named (h : namedMembers? members = some named) (key : String) :
    (named.filter fun m => m.1 = key).map Prod.snd = valuesOf members key := by
  induction members generalizing named with
  | nil =>
    cases h
    rfl
  | cons m members ih =>
    rw [namedMembers?_cons] at h
    obtain ⟨name, hname, h⟩ := Option.bind_eq_some_iff.1 h
    obtain ⟨rest, hrest, rfl⟩ := Option.map_eq_some_iff.1 h
    have hvalues := ih hrest
    unfold valuesOf at hvalues ⊢
    by_cases hkey : name = key
    · simp [hname, hkey, hvalues]
    · simp [hname, hkey, hvalues]

theorem exists_named_iff :
    (∃ named, namedMembers? members = some named) ↔ ∀ m ∈ members, m.1.decode?.isSome = true := by
  induction members with
  | nil => exact ⟨fun _ => List.forall_mem_nil _, fun _ => ⟨[], rfl⟩⟩
  | cons m members ih =>
    rw [List.forall_mem_cons, ← ih, namedMembers?_cons]
    cases m.1.decode? <;> simp

end Members

/-! ### Values of members -/

/-- The kind's name, or an object of that name and null. -/
def KindValue (kind : TokenKind) (v : Json) : Prop :=
  ∃ name : Json.RawString, name.decode? = some kind.name ∧
    (v = .string name ∨ v = .object [(name, .null)])

/-- The values are those of the token: its kind and its text, however they are escaped, and its place in
plain digits. -/
structure Values (t : Token) (kind lexeme line column : Json) : Prop where
  kind : KindValue t.kind kind
  lexeme : ∃ text : Json.RawString, text.decode? = some t.lexeme ∧ lexeme = .string text
  line : line = .ofNat t.position.line
  column : column = .ofNat t.position.column

/-- The line and the column are counts that 64 bits hold. -/
def Fits (t : Token) : Prop := t.position.line < UInt64.size ∧ t.position.column < UInt64.size

theorem ofName?_eq_some_iff {name : String} {kind : TokenKind} :
    TokenKind.ofName? name = some kind ↔ name = kind.name := by
  constructor
  · intro h
    have hname := List.find?_some h
    exact (by simpa using hname : kind.name = name).symm
  · rintro rfl
    exact kind.ofName?_name

theorem kindOfJson?_eq_some_iff {kind : TokenKind} {v : Json} :
    kindOfJson? v = some kind ↔ KindValue kind v := by
  have hname (name : Json.RawString) :
      name.decode?.bind TokenKind.ofName? = some kind ↔ name.decode? = some kind.name := by
    cases name.decode? with
    | none => simp
    | some text => simp [ofName?_eq_some_iff]
  unfold kindOfJson?
  split
  · rename_i name
    rw [hname]
    constructor
    · intro h
      exact ⟨name, h, .inl rfl⟩
    · rintro ⟨name', h, heq | heq⟩ <;> cases heq
      exact h
  · rename_i name
    rw [hname]
    constructor
    · intro h
      exact ⟨name, h, .inr rfl⟩
    · rintro ⟨name', h, heq | heq⟩ <;> cases heq
      exact h
  · rename_i hstring hobject
    constructor
    · exact nofun
    · rintro ⟨name, _, rfl | rfl⟩
      · exact absurd rfl (hstring name)
      · exact absurd rfl (hobject name)

theorem textOfJson?_eq_some_iff {text : String} {v : Json} :
    textOfJson? v = some text ↔ ∃ raw : Json.RawString, raw.decode? = some text ∧ v = .string raw := by
  cases v with
  | string raw => simp [textOfJson?]
  | _ => simp [textOfJson?]

theorem countOfJson?_eq_some_iff {n : Nat} {v : Json} :
    countOfJson? v = some n ↔ v = .ofNat n ∧ n < UInt64.size := by
  unfold countOfJson? Json.ofNat
  split
  · rename_i m
    constructor
    · intro h
      split at h
      · cases h
        exact ⟨rfl, ‹_›⟩
      · cases h
    · rintro ⟨heq, h⟩
      cases heq
      exact if_pos h
  · rename_i hne
    constructor
    · exact nofun
    · rintro ⟨rfl, _⟩
      exact absurd rfl (hne n)

theorem ofValues?_eq_some_iff {kind lexeme line column : Json} {t : Token} :
    ofValues? kind lexeme line column = some t ↔ t.Values kind lexeme line column ∧ t.Fits := by
  obtain ⟨k, text, l, c⟩ := t
  have hparts : ofValues? kind lexeme line column = some ⟨k, text, l, c⟩ ↔
      kindOfJson? kind = some k ∧ textOfJson? lexeme = some text ∧ countOfJson? line = some l ∧
        countOfJson? column = some c := by
    unfold ofValues?
    cases kindOfJson? kind <;> cases textOfJson? lexeme <;> cases countOfJson? line <;>
      cases countOfJson? column <;> simp
  rw [hparts, kindOfJson?_eq_some_iff, textOfJson?_eq_some_iff, countOfJson?_eq_some_iff,
    countOfJson?_eq_some_iff]
  constructor
  · rintro ⟨hk, ht, ⟨hl, hlfits⟩, hc, hcfits⟩
    exact ⟨⟨hk, ht, hl, hc⟩, hlfits, hcfits⟩
  · rintro ⟨⟨hk, ht, hl, hc⟩, hlfits, hcfits⟩
    exact ⟨hk, ht, ⟨hl, hlfits⟩, hc, hcfits⟩

/-! ### Tokens -/

def known : List String := ["kind", "lexeme", "line", "column"]

/-- Each of the four names goes with one value, wherever it stands; and all names can be read. -/
structure Has (members : List (Json.RawString × Json)) (kind lexeme line column : Json) : Prop where
  named : ∀ m ∈ members, m.1.decode?.isSome = true
  kind : valuesOf members "kind" = [kind]
  lexeme : valuesOf members "lexeme" = [lexeme]
  line : valuesOf members "line" = [line]
  column : valuesOf members "column" = [column]

section Object

variable {members members' : List (Json.RawString × Json)} {t : Token}

/-- An object is read as a token exactly when it has the values of the token, once each. -/
theorem ofJson?_object_iff : ofJson? (.object members) = some t ↔
    ∃ kind lexeme line column, Has members kind lexeme line column ∧
      t.Values kind lexeme line column ∧ t.Fits := by
  unfold ofJson?
  simp only [Option.bind_eq_bind, Option.bind_eq_some_iff, ofValues?_eq_some_iff,
    member?_eq_some_iff]
  constructor
  · rintro ⟨named, hnamed, kind, hkind, lexeme, hlexeme, line, hline, column, hcolumn, hvalues⟩
    rw [valuesOf_of_named hnamed] at hkind hlexeme hline hcolumn
    exact ⟨kind, lexeme, line, column,
      ⟨exists_named_iff.1 ⟨named, hnamed⟩, hkind, hlexeme, hline, hcolumn⟩, hvalues⟩
  · rintro ⟨kind, lexeme, line, column, ⟨hall, hkind, hlexeme, hline, hcolumn⟩, hvalues⟩
    obtain ⟨named, hnamed⟩ := exists_named_iff.2 hall
    rw [← valuesOf_of_named hnamed] at hkind hlexeme hline hcolumn
    exact ⟨named, hnamed, kind, hkind, lexeme, hlexeme, line, hline, column, hcolumn, hvalues⟩

theorem ofJson?_congr (h : ∀ kind lexeme line column,
    Has members kind lexeme line column ↔ Has members' kind lexeme line column) :
    ofJson? (.object members) = ofJson? (.object members') := by
  apply Option.ext
  intro t
  simp only [ofJson?_object_iff, h]

theorem Has.perm (h : members.Perm members') {kind lexeme line column : Json}
    (hm : Has members kind lexeme line column) : Has members' kind lexeme line column := by
  have hone {key : String} {v : Json} (hv : valuesOf members key = [v]) :
      valuesOf members' key = [v] := by
    have hperm : (valuesOf members' key).Perm (valuesOf members key) := (h.symm.filter _).map _
    rw [hv] at hperm
    exact List.perm_singleton.1 hperm
  exact ⟨fun m hmem => hm.named m (h.mem_iff.2 hmem), hone hm.kind, hone hm.lexeme, hone hm.line,
    hone hm.column⟩

theorem ofJson?_perm (h : members.Perm members') :
    ofJson? (.object members) = ofJson? (.object members') :=
  ofJson?_congr fun _ _ _ _ => ⟨Has.perm h, Has.perm h.symm⟩

section Extra

variable {name : Json.RawString} {text : String} (hname : name.decode? = some text)
  (h : text ∉ known) (v : Json)

include hname h

/-- The values that the four names go with are not those of a member of another name. -/
theorem has_cons_iff (kind lexeme line column : Json) :
    Has ((name, v) :: members) kind lexeme line column ↔ Has members kind lexeme line column := by
  have hvalues {key : String} (hkey : key ∈ known) :
      valuesOf ((name, v) :: members) key = valuesOf members key := by
    have hne : text ≠ key := fun heq => h (heq ▸ hkey)
    simp [valuesOf, hname, hne]
  have hsome : name.decode?.isSome = true := by
    rw [hname]
    rfl
  constructor
  · rintro ⟨hall, hkind, hlexeme, hline, hcolumn⟩
    rw [hvalues (by decide)] at hkind hlexeme hline hcolumn
    exact ⟨(List.forall_mem_cons.1 hall).2, hkind, hlexeme, hline, hcolumn⟩
  · rintro ⟨hall, hkind, hlexeme, hline, hcolumn⟩
    rw [← hvalues (by decide)] at hkind hlexeme hline hcolumn
    exact ⟨List.forall_mem_cons.2 ⟨hsome, hall⟩, hkind, hlexeme, hline, hcolumn⟩

theorem ofJson?_extra (before after : List (Json.RawString × Json)) :
    ofJson? (.object (before ++ (name, v) :: after)) = ofJson? (.object (before ++ after)) := by
  -- Wherever the member stands, it may as well be the first.
  rw [ofJson?_perm List.perm_middle]
  exact ofJson?_congr (has_cons_iff hname h v)

end Extra

theorem Has.length_valuesOf {kind lexeme line column : Json}
    (h : Has members kind lexeme line column) : ∀ key ∈ known, (valuesOf members key).length = 1 := by
  simp [known, h.kind, h.lexeme, h.line, h.column]

/-- A name of the four that goes with no value, or with more than one, is a fault. -/
theorem ofJson?_eq_none_of_length {key : String} (hkey : key ∈ known)
    (h : (valuesOf members key).length ≠ 1) : ofJson? (.object members) = none := by
  rw [Option.eq_none_iff_forall_ne_some]
  intro t ht
  obtain ⟨_, _, _, _, hm, _⟩ := ofJson?_object_iff.1 ht
  exact h (hm.length_valuesOf key hkey)

end Object

theorem has_toJson (t : Token) :
    ∃ members kind lexeme line column, t.toJson = .object members ∧
      Has members kind lexeme line column ∧ t.Values kind lexeme line column := by
  refine ⟨_, .ofString t.kind.name, .ofString t.lexeme, .ofNat t.position.line,
    .ofNat t.position.column, rfl, ?_, ⟨?_, ?_, rfl, rfl⟩⟩
  · constructor <;> simp [valuesOf, Json.decode?_ofString]
  · exact ⟨_, Json.decode?_ofString _, .inl rfl⟩
  · exact ⟨_, Json.decode?_ofString _, rfl⟩

theorem written_toJson (t : Token) : t.toJson.Written := by
  have hnumber (n : Nat) : (Json.ofNat n).Written := List.forall_mem_singleton.2 trivial
  apply Json.written_ofMembers
  simp [Json.written_ofString, hnumber]

/-- A token is read back from its text, and from every text of an object in which each of the four names
goes with its value and no other, or of an array of the four values. The order of members, members of
other names and white space do not matter; a text of an object in which one of the four names goes with no
value, or with more than one, is not that of a token. -/
theorem token_json_round_trip {t : Token} (h : t.Fits) :
    readJson? t.writeJson = some t ∧
    (∀ text members kind lexeme line column, Json.read? text = some (.object members) →
      Has members kind lexeme line column → t.Values kind lexeme line column →
      readJson? text = some t) ∧
    (∀ text kind lexeme line column,
      Json.read? text = some (.array [kind, lexeme, line, column]) →
      t.Values kind lexeme line column → readJson? text = some t) ∧
    (∀ text members key, Json.read? text = some (.object members) → key ∈ known →
      (valuesOf members key).length ≠ 1 → readJson? text = none) ∧
    (∀ members members' : List (Json.RawString × Json), members.Perm members' →
      ofJson? (.object members) = ofJson? (.object members')) ∧
    (∀ (name : Json.RawString) (text : String) (v : Json) before after, name.decode? = some text →
      text ∉ known →
      ofJson? (.object (before ++ (name, v) :: after)) = ofJson? (.object (before ++ after))) ∧
    ∀ v text, v.Written → Json.Spaced v.parts text → Json.read? (String.ofList text) = some v := by
  have hobject {text members kind lexeme line column} (hread : Json.read? text = some (.object members))
      (hm : Has members kind lexeme line column) (hvalues : t.Values kind lexeme line column) :
      readJson? text = some t := by
    rw [readJson?, hread]
    exact ofJson?_object_iff.2 ⟨_, _, _, _, hm, hvalues, h⟩
  refine ⟨?_, fun _ _ _ _ _ _ => hobject, ?_, ?_, fun _ _ => ofJson?_perm, ?_, ?_⟩
  · obtain ⟨members, _, _, _, _, htext, hm, hvalues⟩ := t.has_toJson
    have hread : Json.read? t.writeJson = some (.object members) := by
      rw [writeJson, Json.read?_write t.written_toJson, htext]
    exact hobject hread hm hvalues
  · intro text kind lexeme line column hread hvalues
    rw [readJson?, hread]
    exact ofValues?_eq_some_iff.2 ⟨hvalues, h⟩
  · intro text members key hread hkey hlength
    rw [readJson?, hread]
    exact ofJson?_eq_none_of_length hkey hlength
  · intro name text v before after hname htext
    exact ofJson?_extra hname htext v before after
  · intro v text hw hs
    exact Json.read?_of_spaced hw hs

/-- The four members in another order, others of one name among them, one of which has a member that goes by
one of the four names, and the kind as an object. -/
theorem shuffled_token_json :
    Fits ⟨.symbol, "λ", ⟨3, 4⟩⟩ ∧
      readJson? ("\x7b\"column\": 4, \"x\": [1e5, \x7b\"kind\": 7\x7d], \"lexeme\": \"λ\", " ++
          "\"x\": null, \"kind\": \x7b\"Symbol\": null\x7d, \"line\": 3\x7d") =
        some ⟨.symbol, "λ", ⟨3, 4⟩⟩ := by
  have hfits : Fits ⟨.symbol, "λ", ⟨3, 4⟩⟩ := ⟨by decide, by decide⟩
  obtain ⟨_, hobject, _⟩ := token_json_round_trip hfits
  refine ⟨hfits, hobject _ [(.ofString "column", .ofNat 4),
    (.ofString "x", .array [.number ⟨false, 1, [], some 5⟩, .object [(.ofString "kind", .ofNat 7)]]),
    (.ofString "lexeme", .ofString "λ"), (.ofString "x", .null),
    (.ofString "kind", .object [(.ofString "Symbol", .null)]), (.ofString "line", .ofNat 3)]
    (.object [(.ofString "Symbol", .null)]) (.ofString "λ") (.ofNat 3) (.ofNat 4) ?_ ?_ ?_⟩
  · with_unfolding_all rfl
  · constructor <;> simp [valuesOf, Json.decode?_ofString]
  · exact ⟨⟨_, Json.decode?_ofString _, .inr rfl⟩, ⟨_, Json.decode?_ofString _, rfl⟩, rfl, rfl⟩

end Sexp.Token
