import Sexp.Expr.Json
import Sexp.Proofs.DecimalReading
import Sexp.Proofs.JsonText
import Sexp.Proofs.Spelling

/-!
# Expressions are read back from their JSON text

A text is read back from the string that it is written as (`decode?_ofString`), a decimal from its own
text (`Decimal.read_display`), and so expressions from theirs: with the same shape and texts, and with
decimals that are worth the same and are written the same (`json_round_trip`).
-/

namespace Sexp

/-! ### Strings -/

namespace Json

/-- A unit that is no half of a character is read alone, whatever follows it. -/
theorem decodeSigns?_code {u : UInt16} (hhigh : isHigh u = false) (hlow : isLow u = false)
    (signs : List Sign) :
    decodeSigns? (.code u :: signs) = (decodeSigns? signs).map (Char.ofNat u.toNat :: ·) := by
  have hhalf : ¬ (isHigh u || isLow u) = true := by simp [hhigh, hlow]
  cases signs with
  | nil => exact if_neg hhalf
  | cons s signs =>
    cases s with
    | code v => rw [decodeSigns?, if_neg (by simp [hhigh]), if_neg (by simp [hlow])]
    | plain c => exact if_neg hhalf
    | escape letter => exact if_neg hhalf

theorem decodeSigns?_ofChar (c : Char) (signs : List Sign) :
    decodeSigns? (Sign.ofChar c :: signs) = (decodeSigns? signs).map (c :: ·) := by
  unfold Sign.ofChar
  cases hletter : escapeLetter? c with
  | some letter =>
    show decodeSigns? (.escape letter :: signs) = _
    rw [decodeSigns?, unescape?_of_escapeLetter? hletter]
    cases decodeSigns? signs <;> rfl
  | none =>
    show decodeSigns? ((if c.toNat < 0x20 then _ else _) :: signs) = _
    split
    · rename_i hlt
      have hunit : (UInt16.ofNat c.toNat).toNat = c.toNat := by
        rw [UInt16.toNat_ofNat']
        omega
      have hhigh : isHigh (UInt16.ofNat c.toNat) = false := by
        simp only [isHigh, UInt16.le_iff_toNat_le, hunit]
        simp
        omega
      have hlow : isLow (UInt16.ofNat c.toNat) = false := by
        simp only [isLow, UInt16.le_iff_toNat_le, hunit]
        simp
        omega
      rw [decodeSigns?_code hhigh hlow, hunit, Char.ofNat_toNat]
    · rw [decodeSigns?]

theorem decode?_ofString (text : String) : (RawString.ofString text).decode? = some text := by
  have hsigns : ∀ cs : List Char, decodeSigns? (cs.map Sign.ofChar) = some cs := by
    intro cs
    induction cs with
    | nil => rfl
    | cons c cs ih =>
      rw [List.map_cons, decodeSigns?_ofChar, ih]
      rfl
  rw [RawString.decode?, RawString.ofString, hsigns]
  exact congrArg some String.ofList_toList

end Json

/-! ### Expressions -/

namespace Expr

mutual

/-- The expression that is read for `e`: a decimal as its text is read. -/
def settled : Expr → Expr
  | list items => list (settledAll items)
  | number value => number value.settled
  | e => e

def settledAll : List Expr → List Expr
  | [] => []
  | e :: es => settled e :: settledAll es

end

theorem settledAll_same (es : List Expr) : sameAll (settledAll es) es = true := by
  induction es using forest_induction with
  | nil => rfl
  | symbol name es ih => simp [settledAll, settled, sameAll, same, ih]
  | string value es ih => simp [settledAll, settled, sameAll, same, ih]
  | number value es ih => simp [settledAll, settled, sameAll, same, ih, value.settled_same]
  | list items es ihi ih => simp [settledAll, settled, sameAll, same, ih, ihi]

theorem toJsonAll_settledAll (es : List Expr) : toJsonAll (settledAll es) = toJsonAll es := by
  induction es using forest_induction with
  | nil => rfl
  | symbol name es ih => simp [settledAll, settled, toJsonAll, ih]
  | string value es ih => simp [settledAll, settled, toJsonAll, ih]
  | number value es ih => simp [settledAll, settled, toJsonAll, toJson, ih, value.display_settled]
  | list items es ihi ih => simp [settledAll, settled, toJsonAll, toJson, ih, ihi]

theorem written_toJsonAll (es : List Expr) : ∀ v ∈ toJsonAll es, v.Written := by
  induction es using forest_induction with
  | nil => exact List.forall_mem_nil _
  | symbol name es ih =>
    refine List.forall_mem_cons.2 ⟨Json.written_ofMembers ?_, ih⟩
    exact List.forall_mem_singleton.2 (Json.written_ofString name)
  | string value es ih =>
    refine List.forall_mem_cons.2 ⟨Json.written_ofMembers ?_, ih⟩
    exact List.forall_mem_singleton.2 (Json.written_ofString value)
  | number value es ih =>
    refine List.forall_mem_cons.2 ⟨Json.written_ofMembers ?_, ih⟩
    exact List.forall_mem_singleton.2 (Json.written_ofString value.display)
  | list items es ihi ih =>
    refine List.forall_mem_cons.2 ⟨Json.written_ofMembers ?_, ih⟩
    exact List.forall_mem_singleton.2 (Json.written_array ihi)

/-- An object whose one member is a text is an atom of the kind that the member is named for. -/
theorem ofJson?_text (kind text : String) :
    ofJson? (.ofMembers [(kind, .ofString text)]) = atomOfMember? kind (.ofString text) := by
  show ((Json.RawString.ofString kind).decode?.bind fun k => atomOfMember? k (.ofString text)) = _
  rw [Json.decode?_ofString, Option.bind_some]

theorem ofJson?_symbol (name : String) : ofJson? (toJson (.symbol name)) = some (.symbol name) := by
  rw [toJson, ofJson?_text]
  show (Json.RawString.ofString name).decode?.map symbol = _
  rw [Json.decode?_ofString, Option.map_some]

theorem ofJson?_string (value : String) :
    ofJson? (toJson (.string value)) = some (.string value) := by
  rw [toJson, ofJson?_text]
  show (Json.RawString.ofString value).decode?.map string = _
  rw [Json.decode?_ofString, Option.map_some]

theorem ofJson?_number (value : Decimal) :
    ofJson? (toJson (.number value)) = some (.number value.settled) := by
  rw [toJson, ofJson?_text]
  show ((Json.RawString.ofString value.display).decode?.bind
    fun t => (Decimal.read t).toOption).map number = _
  rw [Json.decode?_ofString, Option.bind_some, value.read_display]
  rfl

theorem ofJson?_list (items : List Expr) :
    ofJson? (toJson (.list items)) = (ofJsonAll? (toJsonAll items)).map list := by
  show (if (Json.RawString.ofString "List").decode? = some "List" then
    (ofJsonAll? (toJsonAll items)).map list else none) = _
  rw [Json.decode?_ofString, if_pos rfl]

theorem ofJsonAll?_toJsonAll (es : List Expr) : ofJsonAll? (toJsonAll es) = some (settledAll es) := by
  induction es using forest_induction with
  | nil => rfl
  | symbol name es ih =>
    rw [toJsonAll, ofJsonAll?, ih, ofJson?_symbol]
    rfl
  | string value es ih =>
    rw [toJsonAll, ofJsonAll?, ih, ofJson?_string]
    rfl
  | number value es ih =>
    rw [toJsonAll, ofJsonAll?, ih, ofJson?_number]
    rfl
  | list items es ihi ih =>
    rw [toJsonAll, ofJsonAll?, ih, ofJson?_list, ihi]
    rfl

theorem read?_writeJson (es : List Expr) :
    Json.read? (writeJson es) = some (.array (toJsonAll es)) :=
  Json.read?_write (Json.written_array (written_toJsonAll es))

/-- Expressions are read back from their text, however deep they are nested: with the same shape and
texts, with decimals that are worth the same, and so that they are written as the same text again. A
reader with a limit reads them if they are not nested deeper than that. -/
theorem json_round_trip (es : List Expr) :
    ∃ fs, (Json.read? (writeJson es)).bind listOfJson? = some fs ∧ sameAll fs es = true ∧
      writeJson fs = writeJson es ∧
      readJson? (writeJson es) =
        if (Json.array (toJsonAll es)).depth ≤ maxDepth then some fs else none := by
  refine ⟨settledAll es, ?_, settledAll_same es, ?_, ?_⟩
  · rw [read?_writeJson, Option.bind_some]
    exact ofJsonAll?_toJsonAll es
  · rw [writeJson, toJsonAll_settledAll, writeJson]
  · rw [readJson?, read?_writeJson, Option.bind_some]
    show (if _ then ofJsonAll? (toJsonAll es) else none) = _
    rw [ofJsonAll?_toJsonAll]

end Expr
end Sexp
