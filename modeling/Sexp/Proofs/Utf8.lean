import Sexp.Text.Utf8

/-!
# Texts as bytes and back

What is encoded is decoded to itself (`decode_encode`). Of bytes that are no encoding this much is
sure: the characters below 128 that decoding gives are bytes of the source (`exists_mem_of_mem_decode`),
the first of them only if it is the first byte (`decode_cons`), and a text may be cut before and after
any byte below 128 (`decodeFrom_append_ascii`).
-/

namespace Sexp.Utf8

/-! ### The first byte of a character -/

theorem lead?_two {b : UInt8} (h : 0xC2 ≤ b.toNat ∧ b.toNat ≤ 0xDF) :
    lead? b = some ⟨b.toNat - 0xC0, 0, 0x80, 0xBF⟩ := by
  simp [lead?, UInt8.le_iff_toNat_le, h]

theorem lead?_three {b : UInt8} (h : 0xE0 ≤ b.toNat ∧ b.toNat ≤ 0xEF) :
    lead? b = some ⟨b.toNat - 0xE0, 1, if b = 0xE0 then 0xA0 else 0x80,
      if b = 0xED then 0x9F else 0xBF⟩ := by
  simp only [lead?, UInt8.le_iff_toNat_le, ← UInt8.toNat_inj, UInt8.reduceToNat]
  grind

theorem lead?_four {b : UInt8} (h : 0xF0 ≤ b.toNat ∧ b.toNat ≤ 0xF4) :
    lead? b = some ⟨b.toNat - 0xF0, 2, if b = 0xF0 then 0x90 else 0x80,
      if b = 0xF4 then 0x8F else 0xBF⟩ := by
  simp only [lead?, UInt8.le_iff_toNat_le, ← UInt8.toNat_inj, UInt8.reduceToNat]
  grind

theorem lead?_range {b : UInt8} {p : Pending} (h : lead? b = some p) :
    (0xC2 ≤ b.toNat ∧ b.toNat ≤ 0xDF) ∨ (0xE0 ≤ b.toNat ∧ b.toNat ≤ 0xEF) ∨
      (0xF0 ≤ b.toNat ∧ b.toNat ≤ 0xF4) := by
  simp only [lead?, UInt8.le_iff_toNat_le, ← UInt8.toNat_inj, UInt8.reduceToNat] at h
  grind

theorem step_of_lead? {b : UInt8} {p : Pending} (h : lead? b = some p) :
    step none b = ([], some p) := by
  have hb : ¬ b < 0x80 := by
    have hr := lead?_range h
    simp only [UInt8.lt_iff_toNat_lt, UInt8.reduceToNat]
    omega
  simp [step, first, hb, h]

theorem step_of_accepts {p : Pending} {b : UInt8} (h : p.accepts b = true) :
    step (some p) b = p.extend b := by
  simp [step, h]

theorem accepts_iff {p : Pending} {b : UInt8} :
    p.accepts b = true ↔
      (0x80 ≤ b.toNat ∧ b.toNat ≤ 0xBF) ∧ p.low.toNat ≤ b.toNat ∧ b.toNat ≤ p.high.toNat := by
  simp [Pending.accepts, isTail, UInt8.le_iff_toNat_le, and_assoc]

/-! ### Decoding what was encoded -/

theorem decodeFrom_two {a b : UInt8} (rest : List UInt8) (ha : 0xC2 ≤ a.toNat ∧ a.toNat ≤ 0xDF)
    (hb : 0x80 ≤ b.toNat ∧ b.toNat ≤ 0xBF) :
    decodeFrom none (a :: b :: rest) =
      Char.ofNat ((a.toNat - 0xC0) * 64 + (b.toNat - 0x80)) :: decodeFrom none rest := by
  have hacc : Pending.accepts ⟨a.toNat - 0xC0, 0, 0x80, 0xBF⟩ b = true :=
    accepts_iff.2 ⟨hb, hb⟩
  rw [decodeFrom, step_of_lead? (lead?_two ha), decodeFrom, step_of_accepts hacc]
  rfl

theorem decodeFrom_three {a b c : UInt8} (rest : List UInt8)
    (ha : 0xE0 ≤ a.toNat ∧ a.toNat ≤ 0xEF) (hb : 0x80 ≤ b.toNat ∧ b.toNat ≤ 0xBF)
    (hc : 0x80 ≤ c.toNat ∧ c.toNat ≤ 0xBF) (hlow : a.toNat = 0xE0 → 0xA0 ≤ b.toNat)
    (hhigh : a.toNat = 0xED → b.toNat ≤ 0x9F) :
    decodeFrom none (a :: b :: c :: rest) =
      Char.ofNat (((a.toNat - 0xE0) * 64 + (b.toNat - 0x80)) * 64 + (c.toNat - 0x80)) ::
        decodeFrom none rest := by
  have hacc : Pending.accepts ⟨a.toNat - 0xE0, 1, if a = 0xE0 then 0xA0 else 0x80,
      if a = 0xED then 0x9F else 0xBF⟩ b = true := by
    refine accepts_iff.2 ⟨hb, ?_, ?_⟩
    · by_cases h : a = 0xE0
      · simpa [h] using hlow (congrArg UInt8.toNat h)
      · simpa [h] using hb.1
    · by_cases h : a = 0xED
      · simpa [h] using hhigh (congrArg UInt8.toNat h)
      · simpa [h] using hb.2
  have hacc' : Pending.accepts ⟨(a.toNat - 0xE0) * 64 + (b.toNat - 0x80), 0, 0x80, 0xBF⟩ c = true :=
    accepts_iff.2 ⟨hc, hc⟩
  rw [decodeFrom, step_of_lead? (lead?_three ha), decodeFrom, step_of_accepts hacc]
  simp only [Pending.extend]
  rw [decodeFrom, step_of_accepts hacc']
  rfl

theorem decodeFrom_four {a b c d : UInt8} (rest : List UInt8)
    (ha : 0xF0 ≤ a.toNat ∧ a.toNat ≤ 0xF4) (hb : 0x80 ≤ b.toNat ∧ b.toNat ≤ 0xBF)
    (hc : 0x80 ≤ c.toNat ∧ c.toNat ≤ 0xBF) (hd : 0x80 ≤ d.toNat ∧ d.toNat ≤ 0xBF)
    (hlow : a.toNat = 0xF0 → 0x90 ≤ b.toNat) (hhigh : a.toNat = 0xF4 → b.toNat ≤ 0x8F) :
    decodeFrom none (a :: b :: c :: d :: rest) =
      Char.ofNat ((((a.toNat - 0xF0) * 64 + (b.toNat - 0x80)) * 64 + (c.toNat - 0x80)) * 64 +
        (d.toNat - 0x80)) :: decodeFrom none rest := by
  have hacc : Pending.accepts ⟨a.toNat - 0xF0, 2, if a = 0xF0 then 0x90 else 0x80,
      if a = 0xF4 then 0x8F else 0xBF⟩ b = true := by
    refine accepts_iff.2 ⟨hb, ?_, ?_⟩
    · by_cases h : a = 0xF0
      · simpa [h] using hlow (congrArg UInt8.toNat h)
      · simpa [h] using hb.1
    · by_cases h : a = 0xF4
      · simpa [h] using hhigh (congrArg UInt8.toNat h)
      · simpa [h] using hb.2
  have hacc' : Pending.accepts ⟨(a.toNat - 0xF0) * 64 + (b.toNat - 0x80), 1, 0x80, 0xBF⟩ c = true :=
    accepts_iff.2 ⟨hc, hc⟩
  have hacc'' : Pending.accepts
      ⟨((a.toNat - 0xF0) * 64 + (b.toNat - 0x80)) * 64 + (c.toNat - 0x80), 0, 0x80, 0xBF⟩ d = true :=
    accepts_iff.2 ⟨hd, hd⟩
  rw [decodeFrom, step_of_lead? (lead?_four ha), decodeFrom, step_of_accepts hacc]
  simp only [Pending.extend]
  rw [decodeFrom, step_of_accepts hacc']
  simp only [Pending.extend]
  rw [decodeFrom, step_of_accepts hacc'']
  rfl

/-- A character is what its bytes are decoded to, whatever follows them. -/
theorem decodeFrom_encodeChar (c : Char) (rest : List UInt8) :
    decodeFrom none (encodeChar c ++ rest) = c :: decodeFrom none rest := by
  have hvalid : c.toNat < 0xD800 ∨ 0xDFFF < c.toNat ∧ c.toNat < 0x110000 := c.valid
  have hbyte (k : Nat) (hk : k < 256) : (UInt8.ofNat k).toNat = k := by
    rw [UInt8.toNat_ofNat']
    exact Nat.mod_eq_of_lt hk
  have hchar (k : Nat) (hk : k = c.toNat) : Char.ofNat k = c := by rw [hk, Char.ofNat_toNat]
  simp only [encodeChar]
  split
  · rename_i h
    have hb : UInt8.ofNat c.toNat < 0x80 := by
      rw [UInt8.lt_iff_toNat_lt, hbyte _ (by omega)]
      exact h
    rw [List.singleton_append, decodeFrom, step_ascii none hb, hchar _ (hbyte _ (by omega))]
    rfl
  split
  · refine (decodeFrom_two rest ?_ ?_).trans ?_
    · rw [hbyte _ (by omega)]; omega
    · rw [hbyte _ (by omega)]; omega
    · rw [hbyte _ (by omega), hbyte _ (by omega), hchar _ (by omega)]
  split
  · refine (decodeFrom_three rest ?_ ?_ ?_ ?_ ?_).trans ?_
    · rw [hbyte _ (by omega)]; omega
    · rw [hbyte _ (by omega)]; omega
    · rw [hbyte _ (by omega)]; omega
    · rw [hbyte _ (by omega), hbyte _ (by omega)]; omega
    · rw [hbyte _ (by omega), hbyte _ (by omega)]; omega
    · rw [hbyte _ (by omega), hbyte _ (by omega), hbyte _ (by omega), hchar _ (by omega)]
  · refine (decodeFrom_four rest ?_ ?_ ?_ ?_ ?_ ?_).trans ?_
    · rw [hbyte _ (by omega)]; omega
    · rw [hbyte _ (by omega)]; omega
    · rw [hbyte _ (by omega)]; omega
    · rw [hbyte _ (by omega)]; omega
    · rw [hbyte _ (by omega), hbyte _ (by omega)]; omega
    · rw [hbyte _ (by omega), hbyte _ (by omega)]; omega
    · rw [hbyte _ (by omega), hbyte _ (by omega), hbyte _ (by omega), hbyte _ (by omega),
        hchar _ (by omega)]

@[simp] theorem decode_encode (text : List Char) : decode (encode text) = text := by
  induction text with
  | nil => rfl
  | cons c text ih =>
    rw [encode_cons, decode, decodeFrom_encodeChar]
    exact congrArg (c :: ·) ih

/-! ### ASCII in what was encoded -/

theorem toNat_ofNat_of_valid {n : Nat} (h : n.isValidChar) : (Char.ofNat n).toNat = n := by
  rw [Char.ofNat, dif_pos h]
  rfl

theorem encodeChar_ne_nil (c : Char) : encodeChar c ≠ [] := by
  simp only [encodeChar]
  repeat' split
  all_goals simp

theorem encodeChar_ascii {c : Char} (h : c.toNat < 0x80) : encodeChar c = [UInt8.ofNat c.toNat] :=
  if_pos h

theorem encodeChar_ofNat {b : UInt8} (hb : b < 0x80) : encodeChar (Char.ofNat b.toNat) = [b] := by
  have hlt : b.toNat < 0x80 := UInt8.lt_iff_toNat_lt.1 hb
  have hc : (Char.ofNat b.toNat).toNat = b.toNat := toNat_ofNat_of_valid (.inl (by omega))
  rw [encodeChar_ascii (by rw [hc]; exact hlt), hc, UInt8.ofNat_toNat]

theorem encode_ascii {text : List Char} (h : ∀ c ∈ text, c.toNat < 0x80) :
    encode text = text.map fun c => UInt8.ofNat c.toNat := by
  induction text with
  | nil => rfl
  | cons c text ih =>
    rw [encode_cons, encodeChar_ascii (h c List.mem_cons_self),
      ih fun d hd => h d (List.mem_cons_of_mem c hd)]
    rfl

theorem toNat_of_mem_encodeChar {c : Char} {b : UInt8} (hb : b ∈ encodeChar c) (hlt : b < 0x80) :
    c.toNat = b.toNat := by
  have hvalid : c.toNat < 0xD800 ∨ 0xDFFF < c.toNat ∧ c.toNat < 0x110000 := c.valid
  have hlt' : b.toNat < 0x80 := UInt8.lt_iff_toNat_lt.1 hlt
  simp only [encodeChar] at hb
  split at hb
  · rw [List.mem_singleton.1 hb, UInt8.toNat_ofNat']
    omega
  -- All bytes of a longer character are 128 at least.
  · exfalso
    repeat' split at hb
    all_goals
      simp only [List.mem_cons, List.not_mem_nil, or_false, ← UInt8.toNat_inj,
        UInt8.toNat_ofNat'] at hb
      omega

theorem exists_mem_of_mem_encode {text : List Char} {b : UInt8} (hb : b ∈ encode text)
    (hlt : b < 0x80) : ∃ c ∈ text, c.toNat = b.toNat := by
  obtain ⟨c, hc, hb⟩ := List.mem_flatMap.1 hb
  exact ⟨c, hc, toNat_of_mem_encodeChar hb hlt⟩

theorem exists_mem_head_of_mem_head_encode {text : List Char} {b : UInt8}
    (hb : b ∈ (encode text).head?) (hlt : b < 0x80) : ∃ c ∈ text.head?, c.toNat = b.toNat := by
  cases text with
  | nil => cases hb
  | cons c text =>
    obtain ⟨x, xs, hx⟩ := List.exists_cons_of_ne_nil (encodeChar_ne_nil c)
    rw [encode_cons, hx] at hb
    cases hb
    refine ⟨c, rfl, toNat_of_mem_encodeChar ?_ hlt⟩
    rw [hx]
    exact List.mem_cons_self

theorem encode_ne_nil {text : List Char} (h : text ≠ []) : encode text ≠ [] := by
  obtain ⟨c, cs, rfl⟩ := List.exists_cons_of_ne_nil h
  rw [encode_cons]
  exact List.append_ne_nil_of_left_ne_nil (encodeChar_ne_nil c) _

/-! ### Cutting what was encoded -/

/-- The bytes are those of characters. -/
def WellFormed (bytes : List UInt8) : Prop := ∃ text, encode text = bytes

theorem wellFormed_ascii {bytes : List UInt8} (h : ∀ b ∈ bytes, b < 0x80) : WellFormed bytes := by
  refine ⟨bytes.map fun b => Char.ofNat b.toNat, ?_⟩
  induction bytes with
  | nil => rfl
  | cons b bytes ih =>
    rw [List.map_cons, encode_cons, encodeChar_ofNat (h b List.mem_cons_self),
      ih fun d hd => h d (List.mem_cons_of_mem b hd)]
    rfl

namespace WellFormed

variable {xs ys : List UInt8}

theorem append (hx : WellFormed xs) (hy : WellFormed ys) : WellFormed (xs ++ ys) := by
  obtain ⟨us, rfl⟩ := hx
  obtain ⟨vs, rfl⟩ := hy
  exact ⟨us ++ vs, encode_append us vs⟩

theorem encode_decode (h : WellFormed xs) : encode (decode xs) = xs := by
  obtain ⟨text, rfl⟩ := h
  rw [decode_encode]

/-- Before and after a byte below 128 stand whole characters. -/
theorem split {b : UInt8} (h : WellFormed (xs ++ b :: ys)) (hb : b < 0x80) :
    WellFormed xs ∧ WellFormed ys := by
  obtain ⟨text, h⟩ := h
  induction text generalizing xs with
  | nil => simp at h
  | cons c text ih =>
    rw [encode_cons] at h
    rcases List.append_eq_append_iff.1 h with ⟨zs, rfl, htext⟩ | ⟨zs, hc, htext⟩
    · obtain ⟨⟨us, hus⟩, hys⟩ := ih htext
      exact ⟨⟨c :: us, by rw [encode_cons, hus]⟩, hys⟩
    · cases zs with
      | nil =>
        rw [List.append_nil] at hc
        have hnil : encode text = [] ++ b :: ys := htext.symm
        exact ⟨⟨[c], by rw [encode_cons, hc, encode_nil, List.append_nil]⟩, (ih hnil).2⟩
      | cons z zs =>
        -- The byte is in the character, so it is the whole of it.
        obtain ⟨rfl, hys⟩ := List.cons.inj htext
        have hmem : b ∈ encodeChar c := by simp [hc]
        have hascii : c.toNat < 0x80 := by
          rw [toNat_of_mem_encodeChar hmem hb]
          exact UInt8.lt_iff_toNat_lt.1 hb
        rw [encodeChar_ascii hascii, List.singleton_eq_append_iff] at hc
        rcases hc with ⟨rfl, hz⟩ | ⟨_, hz⟩
        · obtain ⟨-, rfl⟩ := List.cons.inj hz
          exact ⟨⟨[], rfl⟩, ⟨text, hys.symm⟩⟩
        · cases hz

theorem of_ascii_append (hx : ∀ b ∈ xs, b < 0x80) (h : WellFormed (xs ++ ys)) : WellFormed ys := by
  induction xs with
  | nil => exact h
  | cons b xs ih =>
    have hnil : WellFormed ([] ++ b :: (xs ++ ys)) := h
    exact ih (fun d hd => hx d (List.mem_cons_of_mem b hd)) (hnil.split (hx b List.mem_cons_self)).2

end WellFormed

/-! ### The values an unfinished character can still get -/

namespace Pending

/-- How many values so many bytes can spell. -/
def room : Nat → Nat
  | 0 => 1
  | missing + 1 => room missing * 64

theorem room_pos (missing : Nat) : 0 < room missing := by
  induction missing with
  | zero => exact Nat.one_pos
  | succ missing ih => exact Nat.mul_pos ih (by decide)

/-- The least value that the character gets when its missing bytes are there. -/
def least (p : Pending) : Nat := (p.value * 64 + (p.low.toNat - 0x80)) * room p.missing

/-- The greatest value that the character gets when its missing bytes are there. -/
def greatest (p : Pending) : Nat :=
  (p.value * 64 + (p.high.toNat - 0x80)) * room p.missing + (room p.missing - 1)

/-- Whatever its missing bytes are, the character is one from 128 on. -/
structure Sound (p : Pending) : Prop where
  ascii : 0x80 ≤ p.least
  valid : p.greatest < 0xD800 ∨ 0xDFFF < p.least ∧ p.greatest < 0x110000

end Pending

theorem sound_of_lead? {b : UInt8} {p : Pending} (h : lead? b = some p) : p.Sound := by
  have he {k : UInt8} : b = k ↔ b.toNat = k.toNat := UInt8.toNat_inj.symm
  rcases lead?_range h with hb | hb | hb
  · obtain rfl := Option.some.inj ((lead?_two hb).symm.trans h)
    constructor <;> simp [Pending.least, Pending.greatest, Pending.room] <;> omega
  · obtain rfl := Option.some.inj ((lead?_three hb).symm.trans h)
    constructor <;>
      simp only [Pending.least, Pending.greatest, Pending.room, he, UInt8.reduceToNat]
    · split <;> simp <;> omega
    · split <;> split <;> simp <;> omega
  · obtain rfl := Option.some.inj ((lead?_four hb).symm.trans h)
    constructor <;>
      simp only [Pending.least, Pending.greatest, Pending.room, he, UInt8.reduceToNat]
    · split <;> simp <;> omega
    · split <;> split <;> simp <;> omega

theorem extend_last {p : Pending} {b : UInt8} (hp : p.Sound) (hb : p.accepts b = true)
    (hm : p.missing = 0) : ∃ c : Char, p.extend b = ([c], none) ∧ 0x80 ≤ c.toNat := by
  obtain ⟨value, missing, low, high⟩ := p
  obtain rfl : missing = 0 := hm
  obtain ⟨hascii, hvalid⟩ := hp
  have hb' := accepts_iff.1 hb
  simp only [Pending.least, Pending.greatest, Pending.room, Nat.mul_one] at hascii hvalid hb'
  refine ⟨Char.ofNat (value * 64 + (b.toNat - 0x80)), rfl, ?_⟩
  have hv : (value * 64 + (b.toNat - 0x80)).isValidChar := by
    simp only [Nat.isValidChar]
    omega
  rw [toNat_ofNat_of_valid hv]
  omega

theorem extend_next {p : Pending} {b : UInt8} (hp : p.Sound) (hb : p.accepts b = true)
    (hm : p.missing ≠ 0) : ∃ q : Pending, p.extend b = ([], some q) ∧ q.Sound := by
  obtain ⟨value, missing, low, high⟩ := p
  obtain ⟨m, rfl⟩ := Nat.exists_eq_succ_of_ne_zero hm
  have hb' := accepts_iff.1 hb
  refine ⟨⟨value * 64 + (b.toNat - 0x80), m, 0x80, 0xBF⟩, rfl, ?_⟩
  obtain ⟨hascii, hvalid⟩ := hp
  have hpos := Pending.room_pos m
  simp only [Pending.least, Pending.greatest, Pending.room] at hascii hvalid hb'
  have hlow := Nat.mul_le_mul_right (Pending.room m * 64)
    (show value * 64 + (low.toNat - 0x80) ≤ value * 64 + (b.toNat - 0x80) by omega)
  have hhigh := Nat.mul_le_mul_right (Pending.room m * 64)
    (show value * 64 + (b.toNat - 0x80) ≤ value * 64 + (high.toNat - 0x80) by omega)
  -- With `b` read, the values still open are those of `room (m + 1)` from `v * room (m + 1)` on.
  have hleast : Pending.least ⟨value * 64 + (b.toNat - 0x80), m, 0x80, 0xBF⟩ =
      (value * 64 + (b.toNat - 0x80)) * (Pending.room m * 64) := by
    simp only [Pending.least, UInt8.reduceToNat, Nat.sub_self, Nat.add_zero]
    rw [Nat.mul_assoc, Nat.mul_comm 64]
  have hgreatest : Pending.greatest ⟨value * 64 + (b.toNat - 0x80), m, 0x80, 0xBF⟩ =
      (value * 64 + (b.toNat - 0x80)) * (Pending.room m * 64) + (Pending.room m * 64 - 1) := by
    simp only [Pending.greatest, UInt8.reduceToNat]
    rw [Nat.add_mul _ (0xBF - 0x80), Nat.mul_assoc _ 64, Nat.mul_comm 64 (Pending.room m)]
    omega
  constructor
  · omega
  · omega

/-! ### ASCII in what was decoded -/

theorem none_sound : ∀ p ∈ (none : Option Pending), p.Sound := by simp

theorem first_ne_nil (b : UInt8) : first b ≠ ([], none) := by
  unfold first
  split
  · simp
  · split <;> simp

theorem first_sound (b : UInt8) :
    (∀ c ∈ (first b).1, c.toNat < 0x80 → c.toNat = b.toNat) ∧ ∀ q ∈ (first b).2, q.Sound := by
  unfold first
  split
  · rename_i hb
    refine ⟨fun c hc _ => ?_, none_sound⟩
    rw [List.mem_singleton.1 hc, toNat_ofNat_of_valid]
    have : b.toNat < 0x80 := UInt8.lt_iff_toNat_lt.1 hb
    simp only [Nat.isValidChar]
    omega
  · split
    · rename_i p hp
      refine ⟨by simp, fun q hq => ?_⟩
      cases hq
      exact sound_of_lead? hp
    · refine ⟨fun c hc hlt => ?_, none_sound⟩
      rw [List.mem_singleton.1 hc] at hlt
      exact absurd hlt (by decide)

/-- Of the characters that a byte completes only itself can be below 128, and what it leaves
unfinished is sound. -/
theorem step_sound {s : Option Pending} (hs : ∀ p ∈ s, p.Sound) (b : UInt8) :
    (∀ c ∈ (step s b).1, c.toNat < 0x80 → c.toNat = b.toNat) ∧ ∀ q ∈ (step s b).2, q.Sound := by
  cases s with
  | none => exact first_sound b
  | some p =>
    by_cases hb : p.accepts b = true
    · rw [step_of_accepts hb]
      by_cases hm : p.missing = 0
      · obtain ⟨c, he, hc⟩ := extend_last (hs p rfl) hb hm
        rw [he]
        refine ⟨fun d hd hlt => ?_, none_sound⟩
        rw [List.mem_singleton.1 hd] at hlt
        omega
      · obtain ⟨q, he, hq⟩ := extend_next (hs p rfl) hb hm
        rw [he]
        refine ⟨by simp, fun r hr => ?_⟩
        cases hr
        exact hq
    · rw [step, if_neg hb]
      refine ⟨fun c hc hlt => ?_, (first_sound b).2⟩
      rcases List.mem_cons.1 hc with rfl | hc
      · exact absurd hlt (by decide)
      · exact (first_sound b).1 c hc hlt

theorem exists_mem_of_mem_decodeFrom {s : Option Pending} (hs : ∀ p ∈ s, p.Sound)
    {bytes : List UInt8} {c : Char} (hc : c ∈ decodeFrom s bytes) (hlt : c.toNat < 0x80) :
    ∃ b ∈ bytes, b.toNat = c.toNat := by
  induction bytes generalizing s with
  | nil =>
    cases s with
    | none => cases hc
    | some p =>
      rw [List.mem_singleton.1 hc] at hlt
      exact absurd hlt (by decide)
  | cons b bytes ih =>
    have hstep := step_sound hs b
    rcases List.mem_append.1 hc with hc | hc
    · exact ⟨b, List.mem_cons_self, (hstep.1 c hc hlt).symm⟩
    · obtain ⟨d, hd, he⟩ := ih hstep.2 hc
      exact ⟨d, List.mem_cons_of_mem b hd, he⟩

/-- A character below 128 that decoding gives is a byte of the source. -/
theorem exists_mem_of_mem_decode {bytes : List UInt8} {c : Char} (hc : c ∈ decode bytes)
    (hlt : c.toNat < 0x80) : ∃ b ∈ bytes, b.toNat = c.toNat :=
  exists_mem_of_mem_decodeFrom none_sound hc hlt

theorem decodeFrom_some {p : Pending} (hp : p.Sound) (bytes : List UInt8) :
    ∃ c cs, decodeFrom (some p) bytes = c :: cs ∧ 0x80 ≤ c.toNat := by
  induction bytes generalizing p with
  | nil => exact ⟨replacement, [], rfl, by decide⟩
  | cons b bytes ih =>
    rw [decodeFrom]
    by_cases hb : p.accepts b = true
    · rw [step_of_accepts hb]
      by_cases hm : p.missing = 0
      · obtain ⟨c, he, hc⟩ := extend_last hp hb hm
        exact ⟨c, decodeFrom none bytes, by rw [he]; rfl, hc⟩
      · obtain ⟨q, he, hq⟩ := extend_next hp hb hm
        rw [he]
        exact ih hq
    · rw [step, if_neg hb]
      exact ⟨replacement, _, rfl, by decide⟩

/-- The first character, when it is below 128, is the first byte. -/
theorem decode_cons (b : UInt8) (bytes : List UInt8) :
    ∃ c cs, decode (b :: bytes) = c :: cs ∧ (c.toNat < 0x80 → c.toNat = b.toNat) := by
  rw [decode, decodeFrom]
  have hfirst := first_sound b
  cases hf : first b with
  | mk out s =>
    rw [hf] at hfirst
    simp only [step, hf]
    cases out with
    | cons c cs => exact ⟨c, _, rfl, hfirst.1 c List.mem_cons_self⟩
    | nil =>
      cases s with
      | none => exact absurd hf (first_ne_nil b)
      | some p =>
        obtain ⟨c, cs, he, hc⟩ := decodeFrom_some (hfirst.2 p rfl) bytes
        exact ⟨c, cs, he, fun hlt => absurd hlt (by omega)⟩

/-- A text may be cut before and after any byte below 128. -/
theorem decodeFrom_append_ascii (s : Option Pending) (xs : List UInt8) {b : UInt8}
    (hb : b < 0x80) (ys : List UInt8) :
    decodeFrom s (xs ++ b :: ys) = decodeFrom s xs ++ Char.ofNat b.toNat :: decode ys := by
  induction xs generalizing s with
  | nil =>
    rw [List.nil_append, decodeFrom.eq_2, step_ascii s hb, List.append_assoc]
    rfl
  | cons x xs ih => rw [List.cons_append, decodeFrom, ih, decodeFrom, List.append_assoc]

theorem decode_append_ascii (xs : List UInt8) {b : UInt8} (hb : b < 0x80) (ys : List UInt8) :
    decode (xs ++ b :: ys) = decode xs ++ Char.ofNat b.toNat :: decode ys :=
  decodeFrom_append_ascii none xs hb ys

theorem decode_ascii {bytes : List UInt8} (h : ∀ b ∈ bytes, b < 0x80) :
    decode bytes = bytes.map fun b => Char.ofNat b.toNat := by
  induction bytes with
  | nil => rfl
  | cons b bytes ih =>
    have hcut := decode_append_ascii [] (h b List.mem_cons_self) bytes
    rw [List.nil_append] at hcut
    rw [hcut, ih fun c hc => h c (List.mem_cons_of_mem b hc)]
    rfl

end Sexp.Utf8
