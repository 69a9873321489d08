import Sexp.Expr.Builder
import Sexp.Proofs.DecimalReading

/-!
# The grammar of decimals

Which texts are decimals, and which decimals they are, said without the reader: a mantissa with a point
in it or not, and then perhaps a mark and an exponent (`Literal`). A text is read as a decimal exactly
when it is a literal whose scale 64 bits hold (`readNumber_iff_literal`), so that whatever is read is
`Orderly`: no second point, no second sign, no underscore before the digits, nothing left out.
-/

namespace Sexp.Decimal

/-! ### Literals -/

/-- One sign or none, and whether what follows it counts below zero. -/
inductive SignChars : Bool → List Char → Prop
  | none : SignChars false []
  | plus : SignChars false ['+']
  | minus : SignChars true ['-']

/-- One sign or none and then digits, which spell a number that 128 bits hold. -/
inductive SpellsExponent : List Char → Int → Prop
  | intro {negative : Bool} {sign ds : List Char} (hs : SignChars negative sign) (hne : ds ≠ [])
    (hds : ∀ c ∈ ds, c.isDigit = true)
    (hfits : FitsExponent (signed negative (Nat.ofDigitChars 10 ds 0))) :
    SpellsExponent (sign ++ ds) (signed negative (Nat.ofDigitChars 10 ds 0))

/-- One sign or none, a digit, and then digits and underscores, which mean nothing. -/
inductive SpellsInteger : List Char → Int → Prop
  | intro {negative : Bool} {sign more : List Char} {d : Char} (hs : SignChars negative sign)
    (hd : d.isDigit = true) (hmore : ∀ c ∈ more, c.isDigit = true ∨ c = '_') :
    SpellsInteger (sign ++ d :: more)
      (signed negative (Nat.ofDigitChars 10 ((d :: more).filter Char.isDigit) 0))

/-- A mantissa, what it is without its first point, and how many characters other than underscores
stand behind that point. -/
inductive Pointed : List Char → List Char → Nat → Prop
  | whole {m : List Char} (h : '.' ∉ m) : Pointed m m 0
  | point {before after : List Char} (h : '.' ∉ before) :
    Pointed (before ++ '.' :: after) (before ++ after) (after.countP (· != '_'))

/-- The text spells these digits and this scale: a mantissa alone, or with a mark and an exponent. -/
inductive Literal : List Char → Int → Int → Prop
  | mantissa {b m : List Char} {f : Nat} {n : Int} (hb : 'e' ∉ b ∧ 'E' ∉ b) (hp : Pointed b m f)
    (hm : SpellsInteger m n) : Literal b n f
  | exponent {b m cs : List Char} {mark : Char} {f : Nat} {n x : Int} (hb : 'e' ∉ b ∧ 'E' ∉ b)
    (hp : Pointed b m f) (hm : SpellsInteger m n) (hmark : mark = 'e' ∨ mark = 'E')
    (hx : SpellsExponent cs x) : Literal (b ++ mark :: cs) n (f - x)

/-! ### Signs -/

theorem SignChars.ne_of_isDigit {negative : Bool} {sign : List Char} (h : SignChars negative sign)
    {c : Char} (hc : c ∈ sign) : c.isDigit = false := by
  cases h with
  | none => cases hc
  | plus | minus =>
    obtain rfl := List.mem_singleton.1 hc
    rfl

theorem exponentOf_sign {negative : Bool} {sign ds : List Char} (hs : SignChars negative sign)
    (hne : ds ≠ []) (hds : ∀ c ∈ ds, c.isDigit = true) :
    exponentOf (sign ++ ds) = exponentFrom negative 0 ds := by
  obtain ⟨d, more, rfl⟩ := List.exists_cons_of_ne_nil hne
  have hd := hds d List.mem_cons_self
  have hplus : d ≠ '+' := Decimal.ne_of_isDigit hd rfl
  have hminus : d ≠ '-' := Decimal.ne_of_isDigit hd rfl
  cases hs with
  | none =>
    show exponentOf (d :: more) = _
    unfold exponentOf
    split <;> simp_all
  | plus => rfl
  | minus => rfl

theorem exists_sign_of_exponentOf {cs : List Char} {x : Int} (h : exponentOf cs = .ok x) :
    ∃ negative sign ds, SignChars negative sign ∧ ds ≠ [] ∧ cs = sign ++ ds ∧
      exponentFrom negative 0 ds = .ok x := by
  unfold exponentOf at h
  split at h
  · cases h
  · cases h
  · cases h
  · rename_i cs hne
    exact ⟨false, ['+'], cs, .plus, fun hnil => hne (by rw [hnil]), rfl, h⟩
  · rename_i cs hne
    exact ⟨true, ['-'], cs, .minus, fun hnil => hne (by rw [hnil]), rfl, h⟩
  · rename_i hne _ _ _ _
    exact ⟨false, [], _, .none, hne, rfl, h⟩

/-- A text is read as the exponent that it spells. -/
theorem exponentOf_eq_ok_iff {cs : List Char} {x : Int} :
    exponentOf cs = .ok x ↔ SpellsExponent cs x := by
  constructor
  · intro h
    obtain ⟨negative, sign, ds, hs, hne, rfl, hread⟩ := exists_sign_of_exponentOf h
    obtain ⟨hds, rfl, hfits⟩ := exponentFrom_zero_eq_ok_iff.1 hread
    exact .intro hs hne hds hfits
  · intro h
    cases h with
    | intro hs hne hds hfits =>
      rw [exponentOf_sign hs hne hds]
      exact exponentFrom_zero_eq_ok_iff.2 ⟨hds, rfl, hfits⟩

theorem unsignedOf_eq_ok_iff {ds : List Char} {n : Nat} :
    unsignedOf ds = .ok n ↔ ∃ d more, ds = d :: more ∧ d.isDigit = true ∧
      (∀ c ∈ more, c.isDigit = true ∨ c = '_') ∧
        n = Nat.ofDigitChars 10 ((d :: more).filter Char.isDigit) 0 := by
  cases ds with
  | nil =>
    constructor
    · intro h
      cases h
    · rintro ⟨d, more, hnil, _⟩
      cases hnil
  | cons d more =>
    have hfilter (hd : d.isDigit = true) (hmore : ∀ c ∈ more, c.isDigit = true ∨ c = '_') :
        (d :: more).filter (· != '_') = (d :: more).filter Char.isDigit := by
      refine List.filter_congr fun c hc => ?_
      rcases List.mem_cons.1 hc with rfl | hc
      · rw [hd]
        simpa using Decimal.ne_of_isDigit hd rfl
      · rcases hmore c hc with hdigit | rfl
        · rw [hdigit]
          simpa using Decimal.ne_of_isDigit hdigit rfl
        · rfl
    have hall : (d.isDigit && more.all fun c => c.isDigit || c == '_') = true ↔
        d.isDigit = true ∧ ∀ c ∈ more, c.isDigit = true ∨ c = '_' := by simp
    rw [unsignedOf]
    constructor
    · intro h
      split at h
      · rename_i hb
        obtain ⟨hd, hmore⟩ := hall.1 hb
        exact ⟨d, more, rfl, hd, hmore, by rw [← hfilter hd hmore, Except.ok.inj h]⟩
      · cases h
    · rintro ⟨d', more', heq, hd, hmore, rfl⟩
      obtain ⟨rfl, rfl⟩ := List.cons.inj heq
      rw [if_pos (hall.2 ⟨hd, hmore⟩), hfilter hd hmore]

theorem integerOf_minus (cs : List Char) :
    integerOf ('-' :: cs) = (unsignedOf cs).map (signed true) := by
  rw [integerOf]
  cases unsignedOf cs <;> rfl

theorem integerOf_plus (cs : List Char) :
    integerOf ('+' :: cs) = (unsignedOf cs).map (signed false) := by
  rw [integerOf]
  cases unsignedOf cs <;> rfl

theorem integerOf_unsigned {cs : List Char} (hminus : ∀ ds, cs = '-' :: ds → False)
    (hplus : ∀ ds, cs = '+' :: ds → False) : integerOf cs = (unsignedOf cs).map (signed false) := by
  rw [integerOf]
  · cases unsignedOf cs <;> rfl
  · exact hminus
  · exact hplus

theorem integerOf_sign {negative : Bool} {sign more : List Char} {d : Char}
    (hs : SignChars negative sign) (hd : d.isDigit = true) :
    integerOf (sign ++ d :: more) = (unsignedOf (d :: more)).map (signed negative) := by
  have hplus : d ≠ '+' := Decimal.ne_of_isDigit hd rfl
  have hminus : d ≠ '-' := Decimal.ne_of_isDigit hd rfl
  cases hs with
  | none =>
    exact integerOf_unsigned (fun _ h => hminus (List.cons.inj h).1)
      fun _ h => hplus (List.cons.inj h).1
  | plus => exact integerOf_plus _
  | minus => exact integerOf_minus _

theorem exists_sign_of_integerOf (cs : List Char) :
    ∃ negative sign ds, SignChars negative sign ∧ cs = sign ++ ds ∧
      integerOf cs = (unsignedOf ds).map (signed negative) := by
  by_cases hminus : ∃ ds, cs = '-' :: ds
  · obtain ⟨ds, rfl⟩ := hminus
    exact ⟨true, ['-'], ds, .minus, rfl, integerOf_minus ds⟩
  by_cases hplus : ∃ ds, cs = '+' :: ds
  · obtain ⟨ds, rfl⟩ := hplus
    exact ⟨false, ['+'], ds, .plus, rfl, integerOf_plus ds⟩
  · exact ⟨false, [], cs, .none, rfl,
      integerOf_unsigned (fun ds h => hminus ⟨ds, h⟩) fun ds h => hplus ⟨ds, h⟩⟩

/-- A text is read as the whole number that it spells. -/
theorem integerOf_eq_ok_iff {cs : List Char} {n : Int} :
    integerOf cs = .ok n ↔ SpellsInteger cs n := by
  constructor
  · intro h
    obtain ⟨negative, sign, ds, hs, rfl, hmap⟩ := exists_sign_of_integerOf cs
    rw [hmap] at h
    cases hm : unsignedOf ds with
    | error fault =>
      rw [hm] at h
      cases h
    | ok m =>
      rw [hm] at h
      cases h
      obtain ⟨d, more, rfl, hd, hmore, rfl⟩ := unsignedOf_eq_ok_iff.1 hm
      exact .intro hs hd hmore
  · intro h
    cases h with
    | intro hs hd hmore =>
      rw [integerOf_sign hs hd, unsignedOf_eq_ok_iff.2 ⟨_, _, rfl, hd, hmore, rfl⟩]
      rfl

/-! ### The point -/

theorem fractionLength_of_point {before after : List Char} (h : '.' ∉ before) :
    fractionLength (before ++ '.' :: after) = after.countP (· != '_') := by
  have hdrop : (before ++ '.' :: after).dropWhile (· != '.') = '.' :: after := by
    rw [List.dropWhile_append_of_pos (bne_of_notMem h), List.dropWhile_cons_of_neg (by simp)]
  rw [fractionLength, hdrop, List.countP_eq_length_filter]

theorem fractionLength_of_notMem {m : List Char} (h : '.' ∉ m) : fractionLength m = 0 := by
  have hdrop : m.dropWhile (· != '.') = [] := List.dropWhile_eq_nil_iff.2 (bne_of_notMem h)
  rw [fractionLength, hdrop]

theorem pointed_iff {b m : List Char} {f : Nat} :
    Pointed b m f ↔ m = b.erase '.' ∧ f = fractionLength b := by
  constructor
  · intro h
    cases h with
    | whole h => exact ⟨(List.erase_of_not_mem h).symm, (fractionLength_of_notMem h).symm⟩
    | point h =>
      rw [List.erase_append_right _ h, List.erase_cons_head]
      exact ⟨rfl, (fractionLength_of_point h).symm⟩
  · rintro ⟨rfl, rfl⟩
    by_cases hp : '.' ∈ b
    · obtain ⟨before, after, rfl, h⟩ := List.eq_append_cons_of_mem hp
      rw [List.erase_append_right _ h, List.erase_cons_head, fractionLength_of_point h]
      exact .point h
    · rw [List.erase_of_not_mem hp, fractionLength_of_notMem hp]
      exact .whole hp

/-! ### The whole -/

theorem unmarked_iff {b : List Char} :
    ('e' ∉ b ∧ 'E' ∉ b) ↔ ∀ c ∈ b, (!isExponentMark c) = true := by
  constructor
  · rintro ⟨he, hE⟩ c hc
    have hne : c ≠ 'e' := fun h => he (h ▸ hc)
    have hnE : c ≠ 'E' := fun h => hE (h ▸ hc)
    simp [isExponentMark, hne, hnE]
  · intro h
    exact ⟨fun he => absurd (h 'e' he) (by decide), fun hE => absurd (h 'E' hE) (by decide)⟩

theorem isExponentMark_iff {c : Char} : isExponentMark c = true ↔ c = 'e' ∨ c = 'E' := by
  simp [isExponentMark]

/-- A text is a mantissa without a mark, and what comes from the first mark on, if there is one. -/
theorem exists_mark_or_not (text : List Char) :
    (∀ c ∈ text, (!isExponentMark c) = true) ∨
      ∃ b mark cs, text = b ++ mark :: cs ∧ (∀ c ∈ b, (!isExponentMark c) = true) ∧
        isExponentMark mark = true := by
  induction text with
  | nil => exact .inl (List.forall_mem_nil _)
  | cons c text ih =>
    by_cases hc : isExponentMark c = true
    · exact .inr ⟨[], c, text, rfl, List.forall_mem_nil _, hc⟩
    · have hno : (!isExponentMark c) = true := by simpa using hc
      rcases ih with hall | ⟨b, mark, cs, rfl, hb, hmark⟩
      · exact .inl (List.forall_mem_cons.2 ⟨hno, hall⟩)
      · exact .inr ⟨c :: b, mark, cs, rfl, List.forall_mem_cons.2 ⟨hno, hb⟩, hmark⟩

/-- A text is read as the decimal that it is a literal of. -/
theorem read_eq_ok_iff_literal {text : String} {d : Decimal} :
    read text = .ok d ↔ Literal text.toList d.digits d.scale := by
  rw [read_eq_ok_iff]
  constructor
  · intro h
    obtain ⟨x, hx, hn, hscale⟩ := h
    rw [integerOf_eq_ok_iff] at hn
    rw [hscale]
    rcases exists_mark_or_not text.toList with hall | ⟨b, mark, cs, htext, hb, hmark⟩
    · rw [exponent_eq_zero hall] at hx
      cases hx
      rw [mantissa_eq_self hall] at hn ⊢
      rw [Int.sub_zero]
      exact .mantissa (unmarked_iff.2 hall) (pointed_iff.2 ⟨rfl, rfl⟩) hn
    · rw [htext, exponent_append_mark hb hmark, exponentOf_eq_ok_iff] at hx
      rw [htext, mantissa_append_mark hb hmark] at hn ⊢
      exact .exponent (unmarked_iff.2 hb) (pointed_iff.2 ⟨rfl, rfl⟩) hn (isExponentMark_iff.1 hmark) hx
  · intro h
    generalize hs : d.scale = s at h
    generalize hd : d.digits = n at h ⊢
    generalize text.toList = t at h ⊢
    cases h with
    | mantissa hb hp hm =>
      have hall := unmarked_iff.1 hb
      obtain ⟨rfl, rfl⟩ := pointed_iff.1 hp
      rw [mantissa_eq_self hall]
      exact ⟨0, exponent_eq_zero hall, integerOf_eq_ok_iff.2 hm, (Int.sub_zero _).symm⟩
    | @exponent b m cs mark f n x hb hp hm hmark hx =>
      have hall := unmarked_iff.1 hb
      have hmark' := isExponentMark_iff.2 hmark
      obtain ⟨rfl, rfl⟩ := pointed_iff.1 hp
      rw [mantissa_append_mark hall hmark', exponent_append_mark hall hmark']
      exact ⟨x, exponentOf_eq_ok_iff.2 hx, integerOf_eq_ok_iff.2 hm, rfl⟩

/-! ### What a literal does not have -/

def isSign (c : Char) : Bool := c == '+' || c == '-'

/-- What stands behind the first exponent mark. -/
def exponentPart (text : List Char) : List Char := (text.dropWhile (!isExponentMark ·)).tail

/-- There is no second point and no second sign, no underscore comes before the digits, and neither the
mantissa nor an exponent is without digits. -/
structure Orderly (text : List Char) : Prop where
  points : text.count '.' ≤ 1
  signs : (mantissa text).countP isSign ≤ 1 ∧ (exponentPart text).countP isSign ≤ 1
  underscores : '_' ∉ text.takeWhile (!·.isDigit)
  mantissa : ∃ c ∈ mantissa text, c.isDigit = true
  exponent : (∃ c ∈ text, isExponentMark c = true) → ∃ c ∈ exponentPart text, c.isDigit = true

theorem SignChars.notMem {negative : Bool} {sign : List Char} (h : SignChars negative sign) {c : Char}
    (hc : isSign c = false) : c ∉ sign := by
  cases h with
  | none => exact List.not_mem_nil
  | plus | minus =>
    intro hmem
    obtain rfl := List.mem_singleton.1 hmem
    cases hc

theorem SignChars.countP_append {negative : Bool} {sign : List Char} (h : SignChars negative sign)
    {cs : List Char} (hcs : ∀ c ∈ cs, isSign c = false) : (sign ++ cs).countP isSign ≤ 1 := by
  have hzero : cs.countP isSign = 0 := by
    rw [List.countP_eq_zero]
    intro c hc
    simp [hcs c hc]
  rw [List.countP_append, hzero]
  cases h <;> decide

theorem isSign_of_isDigit {c : Char} (h : c.isDigit = true) : isSign c = false := by
  have hplus : c ≠ '+' := Decimal.ne_of_isDigit h rfl
  have hminus : c ≠ '-' := Decimal.ne_of_isDigit h rfl
  simp [isSign, hplus, hminus]

theorem SpellsExponent.orderly {cs : List Char} {x : Int} (h : SpellsExponent cs x) :
    '.' ∉ cs ∧ cs.countP isSign ≤ 1 ∧ ∃ c ∈ cs, c.isDigit = true := by
  cases h with
  | @intro negative sign ds hs hne hds hfits =>
    obtain ⟨d, hd⟩ := List.exists_mem_of_ne_nil ds hne
    refine ⟨?_, hs.countP_append fun c hc => isSign_of_isDigit (hds c hc), d,
      List.mem_append_right sign hd, hds d hd⟩
    rw [List.mem_append, not_or]
    exact ⟨hs.notMem rfl, not_mem_of_isDigit hds rfl⟩

theorem SpellsInteger.orderly {m : List Char} {n : Int} (h : SpellsInteger m n) :
    '.' ∉ m ∧ m.countP isSign ≤ 1 ∧ '_' ∉ m.takeWhile (!·.isDigit) ∧
      ∃ c ∈ m, c.isDigit = true := by
  cases h with
  | @intro negative sign more d hs hd hmore =>
    have hcs : ∀ c ∈ d :: more, c.isDigit = true ∨ c = '_' :=
      List.forall_mem_cons.2 ⟨.inl hd, hmore⟩
    have hpoint : '.' ∉ d :: more := by
      intro hmem
      rcases hcs _ hmem with hdigit | heq
      · cases hdigit
      · cases heq
    have hsigns : ∀ c ∈ d :: more, isSign c = false := by
      intro c hc
      rcases hcs c hc with hdigit | rfl
      · exact isSign_of_isDigit hdigit
      · rfl
    have htake : (sign ++ d :: more).takeWhile (!·.isDigit) = sign := by
      rw [List.takeWhile_append_of_pos fun c hc => by simp [hs.ne_of_isDigit hc]]
      simp [hd]
    refine ⟨?_, hs.countP_append hsigns, ?_, d, by simp, hd⟩
    · rw [List.mem_append, not_or]
      exact ⟨hs.notMem rfl, hpoint⟩
    · rw [htake]
      exact hs.notMem rfl

theorem takeWhile_erase {p : Char → Bool} {c : Char} (hc : p c = true) (cs : List Char) :
    (cs.erase c).takeWhile p = (cs.takeWhile p).erase c := by
  induction cs with
  | nil => rfl
  | cons d cs ih =>
    by_cases hd : d = c
    · subst hd
      rw [List.erase_cons_head, List.takeWhile_cons_of_pos hc, List.erase_cons_head]
    · have hne : ¬ (d == c) = true := by simpa using hd
      rw [List.erase_cons_tail hne]
      by_cases hp : p d = true
      · rw [List.takeWhile_cons_of_pos hp, List.takeWhile_cons_of_pos hp, List.erase_cons_tail hne, ih]
      · rw [List.takeWhile_cons_of_neg hp, List.takeWhile_cons_of_neg hp, List.erase_nil]

theorem Pointed.countP_isSign {b m : List Char} {f : Nat} (h : Pointed b m f) :
    b.countP isSign = m.countP isSign := by
  cases h with
  | whole => rfl
  | point => rw [List.countP_append, List.countP_append, List.countP_cons_of_neg (by decide)]

/-- A point changes nothing about signs, underscores and digits. -/
theorem Pointed.orderly {b m : List Char} {f : Nat} {n : Int} (h : Pointed b m f)
    (hm : SpellsInteger m n) :
    b.count '.' ≤ 1 ∧ b.countP isSign ≤ 1 ∧ '_' ∉ b.takeWhile (!·.isDigit) ∧
      ∃ c ∈ b, c.isDigit = true := by
  obtain ⟨hpoint, hsigns, hunderscore, d, hd, hdigit⟩ := hm.orderly
  obtain ⟨rfl, _⟩ := pointed_iff.1 h
  refine ⟨?_, ?_, ?_, d, List.mem_of_mem_erase hd, hdigit⟩
  · have hcount := List.count_eq_zero.2 hpoint
    rw [List.count_erase_self] at hcount
    omega
  · rw [h.countP_isSign]
    exact hsigns
  · intro hmem
    rw [takeWhile_erase rfl] at hunderscore
    exact hunderscore ((List.mem_erase_of_ne (by decide)).2 hmem)

theorem Literal.orderly {text : List Char} {n s : Int} (h : Literal text n s) : Orderly text := by
  cases h with
  | mantissa hb hp hm =>
    have hall := unmarked_iff.1 hb
    obtain ⟨hpoints, hsigns, hunderscores, hdigit⟩ := hp.orderly hm
    have hpart : exponentPart text = [] := by
      have hdrop : text.dropWhile (!isExponentMark ·) = [] := List.dropWhile_eq_nil_iff.2 hall
      rw [exponentPart, hdrop, List.tail_nil]
    refine ⟨hpoints, ⟨?_, ?_⟩, hunderscores, ?_, fun hmark => ?_⟩
    · rw [mantissa_eq_self hall]
      exact hsigns
    · rw [hpart]
      exact Nat.zero_le 1
    · rw [mantissa_eq_self hall]
      exact hdigit
    · obtain ⟨c, hc, hmark⟩ := hmark
      have hno := hall c hc
      rw [hmark] at hno
      cases hno
  | @exponent b m cs mark f n x hb hp hm hmark hx =>
    have hall := unmarked_iff.1 hb
    have hmark' := isExponentMark_iff.2 hmark
    obtain ⟨hpoints, hsigns, hunderscores, hdigit⟩ := hp.orderly hm
    obtain ⟨hpoint, hsigns', hdigit'⟩ := hx.orderly
    have hpart : exponentPart (b ++ mark :: cs) = cs := by
      rw [exponentPart, List.dropWhile_append_of_pos hall]
      simp [hmark']
    have hne : mark ≠ '.' := by
      rcases hmark with rfl | rfl <;> decide
    refine ⟨?_, ⟨?_, ?_⟩, ?_, ?_, fun _ => ?_⟩
    · rw [List.count_append, List.count_cons_of_ne hne, List.count_eq_zero.2 hpoint]
      exact hpoints
    · rw [mantissa_append_mark hall hmark']
      exact hsigns
    · rw [hpart]
      exact hsigns'
    · obtain ⟨d, hd, hdigit⟩ := hdigit
      rw [List.takeWhile_append, if_neg]
      · exact hunderscores
      · intro hlen
        have hsame := (List.takeWhile_prefix (!·.isDigit) (l := b)).eq_of_length hlen
        have hno := List.all_eq_true.1 List.all_takeWhile d (hsame.symm ▸ hd)
        simp [hdigit] at hno
    · rw [mantissa_append_mark hall hmark']
      exact hdigit
    · rw [hpart]
      exact hdigit'

end Sexp.Decimal

namespace Sexp.Expr

theorem readNumber_eq_ok_iff {text : String} {e : Expr} :
    readNumber text = .ok e ↔ ∃ d, e = .number d ∧ Decimal.read text = .ok d := by
  rw [readNumber]
  cases Decimal.read text with
  | error fault =>
    constructor
    · intro h
      cases h
    · rintro ⟨d, _, h⟩
      cases h
  | ok d =>
    constructor
    · intro h
      cases h
      exact ⟨d, rfl, rfl⟩
    · rintro ⟨d', rfl, h⟩
      cases h
      rfl

/-- A text is read as the number that it is a literal of, if 64 bits hold its scale, and as nothing
otherwise; a text that is read is orderly. -/
theorem readNumber_iff_literal (text : String) :
    (∀ d, readNumber text = .ok (.number d) ↔ Decimal.Literal text.toList d.digits d.scale) ∧
    ((∃ e, readNumber text = .ok e) ↔ ∃ n s, Decimal.Literal text.toList n s ∧
      -9223372036854775808 ≤ s ∧ s < 9223372036854775808) ∧
    ((∃ e, readNumber text = .ok e) → Decimal.Orderly text.toList) := by
  have hiff (d : Decimal) :
      readNumber text = .ok (.number d) ↔ Decimal.Literal text.toList d.digits d.scale := by
    rw [readNumber_eq_ok_iff, ← Decimal.read_eq_ok_iff_literal]
    constructor
    · rintro ⟨d', hd, hread⟩
      cases hd
      exact hread
    · exact fun hread => ⟨d, rfl, hread⟩
  have hread {e : Expr} (h : readNumber text = .ok e) :
      ∃ d : Decimal, Decimal.Literal text.toList d.digits d.scale := by
    obtain ⟨d, rfl, _⟩ := readNumber_eq_ok_iff.1 h
    exact ⟨d, (hiff d).1 h⟩
  refine ⟨hiff, ⟨?_, ?_⟩, ?_⟩
  · rintro ⟨e, h⟩
    obtain ⟨d, hd⟩ := hread h
    exact ⟨d.digits, d.scale, hd, d.le_scale, d.scale_lt⟩
  · rintro ⟨n, s, h, hlow, hhigh⟩
    exact ⟨.number ⟨n, s, hlow, hhigh⟩, (hiff ⟨n, s, hlow, hhigh⟩).2 h⟩
  · rintro ⟨e, h⟩
    obtain ⟨d, hd⟩ := hread h
    exact hd.orderly

/-- The sign may stand behind the point, and then counts as a character of the fraction. -/
theorem sign_behind_point_literal :
    Decimal.Literal ".-1_0E+2".toList (-10) 1 ∧ Decimal.Orderly ".-1_0E+2".toList := by
  have hread : readNumber ".-1_0E+2" = .ok (.number ⟨-10, 1, by decide, by decide⟩) := by
    with_unfolding_all rfl
  exact ⟨((readNumber_iff_literal _).1 _).1 hread, (readNumber_iff_literal _).2.2 ⟨_, hread⟩⟩

end Sexp.Expr
