/-
  Util/UtilTime.lean --- `parseDayTime` of `util/util_time.cpp`.

  A time of day is three fields of digits between colons.  The fields go through the integer
  cast of `util/util_string.h`, which takes a field with a zero in front as an octal number.
  The result is far below 2^32 whenever the check lets it through.
-/
import StormNet.Util.UtilText

set_option autoImplicit false

namespace StormNet.Util

open StormNet.Foundation

namespace UtilTime

open UtilString

/-! ## The source -/

/-- `splitString<uint32_t>(str, sep, bStrip)`. -/
def splitStringUInt32 (str sep : Str) (bStrip : Bool) : List Nat :=
  (splitString str sep bStrip).map strtoUInt32

/-- `parseDayTime(sTime)`, with the text of the exception. -/
def parseDayTime (sTime : Str) : Except Str Nat :=
  if sTime.isEmpty then .ok 0
  else
    let vItem := splitStringUInt32 sTime [':'] true
    if vItem.length ≠ 3 || vItem.getD 0 0 > 23 || vItem.getD 1 0 > 59 || vItem.getD 2 0 > 59 then
      .error ("invald day time format: ".toList ++ sTime)
    else .ok (vItem.getD 2 0 + vItem.getD 1 0 * 100 + vItem.getD 0 0 * 10000)

/-! ## Fields -/

/-- A field of a time. -/
structure Field where
  text : Str
  ne_nil : text ≠ []
  isDigit : ∀ c ∈ text, c.isDigit = true

namespace Field

variable (f : Field)

/-- The number that the digits denote. -/
def value : Nat := Nat.ofDigitChars 10 f.text 0

/-- The number that they denote as a C literal: behind a zero the digits are octal, and end at
the first that is not. -/
def literal : Nat :=
  if f.text.head? = some '0' then readPrefix 8 f.text else f.value

/-- The literal fits 64 bits and is no more than the bound in 32. -/
def Within (bound : Nat) : Prop := f.literal < 2 ^ 64 ∧ f.literal % 2 ^ 32 ≤ bound

theorem magnitude_text : magnitude f.text = f.literal := magnitude_of_isDigit f.isDigit

theorem literal_le : f.literal ≤ f.value := by
  unfold literal
  split
  · exact readPrefix_le (by decide) (by decide) f.text
  · exact Nat.le_refl _

/-- The literal is the decimal number unless it has a zero in front of more than one digit. -/
theorem literal_eq_iff : f.literal = f.value ↔ (f.text.head? = some '0' → f.value < 8) := by
  unfold literal
  split
  · rename_i hzero
    rw [value, readPrefix_eq_iff (by decide) (by decide), imp_iff_right hzero]
  · rename_i hzero
    exact iff_of_true rfl fun h => absurd h hzero

theorem strtoUInt32_text :
    strtoUInt32 f.text = (if 2 ^ 64 ≤ f.literal then 2 ^ 64 - 1 else f.literal) % 2 ^ 32 := by
  rw [strtoUInt32, strtoull_of_isDigit f.isDigit, f.magnitude_text]

theorem strtoUInt32_le_iff {bound : Nat} (h : bound < 2 ^ 32 - 1) :
    strtoUInt32 f.text ≤ bound ↔ f.Within bound := by
  rw [strtoUInt32_text, Within]
  split <;> omega

theorem strtoUInt32_of_value_lt (h : f.value < 2 ^ 32) : strtoUInt32 f.text = f.literal := by
  have hle := f.literal_le
  rw [strtoUInt32_text, if_neg (by omega), Nat.mod_eq_of_lt (by omega)]

theorem word : Word [':'] f.text := by
  refine ⟨f.ne_nil, ?_⟩
  intro c hc hcolon
  exact ne_of_isDigit f.isDigit hc (by decide : ':'.isDigit = false) (List.mem_singleton.mp hcolon)

end Field

/-! ## Times -/

section Times

variable (h m s : Field)

/-- The text of a time. -/
def dayTime : Str := h.text ++ ':' :: m.text ++ ':' :: s.text

theorem splitStringUInt32_dayTime : splitStringUInt32 (dayTime h m s) [':'] true =
    [strtoUInt32 h.text, strtoUInt32 m.text, strtoUInt32 s.text] := by
  have hsplit : splitString (dayTime h m s) [':'] true = [h.text, m.text, s.text] := by
    have hwords : ∀ w ∈ [h.text, m.text, s.text], Word [':'] w := by
      simp [h.word, m.word, s.word]
    have hjoin : dayTime h m s = [':'].intercalate [h.text, m.text, s.text] := by
      simp [dayTime, List.intercalate]
    rw [hjoin, splitString_intercalate hwords]
  rw [splitStringUInt32, hsplit]
  rfl

theorem parseDayTime_dayTime : parseDayTime (dayTime h m s) =
    if strtoUInt32 h.text ≤ 23 ∧ strtoUInt32 m.text ≤ 59 ∧ strtoUInt32 s.text ≤ 59 then
      .ok (strtoUInt32 s.text + strtoUInt32 m.text * 100 + strtoUInt32 h.text * 10000)
    else .error ("invald day time format: ".toList ++ dayTime h m s) := by
  have hne : (dayTime h m s).isEmpty = false := by
    rw [List.isEmpty_eq_false_iff, dayTime, List.append_assoc]
    exact List.append_ne_nil_of_left_ne_nil h.ne_nil _
  rw [parseDayTime, hne, splitStringUInt32_dayTime]
  generalize "invald day time format: ".toList ++ dayTime h m s = text
  generalize strtoUInt32 h.text = hour
  generalize strtoUInt32 m.text = minute
  generalize strtoUInt32 s.text = second
  have hcheck : (decide ([hour, minute, second].length ≠ 3) ||
      decide ([hour, minute, second].getD 0 0 > 23) ||
      decide ([hour, minute, second].getD 1 0 > 59) ||
      decide ([hour, minute, second].getD 2 0 > 59)) =
      !decide (hour ≤ 23 ∧ minute ≤ 59 ∧ second ≤ 59) := by
    rw [Bool.eq_iff_iff]
    simp
    omega
  simp only [Bool.false_eq_true, if_false, hcheck]
  by_cases hrange : hour ≤ 23 ∧ minute ≤ 59 ∧ second ≤ 59
  · rw [decide_eq_true hrange, if_pos hrange]
    rfl
  · rw [decide_eq_false hrange, if_neg hrange]
    rfl

/-- The values of the fields are those of a time. -/
def InRange : Prop := h.value ≤ 23 ∧ m.value ≤ 59 ∧ s.value ≤ 59

instance : Decidable (InRange h m s) := inferInstanceAs (Decidable (_ ∧ _ ∧ _))

/-- `parseDayTime` reads the fields as decimal. -/
def ReadsDecimal : Prop :=
  if InRange h m s then
    parseDayTime (dayTime h m s) = .ok (h.value * 10000 + m.value * 100 + s.value)
  else ∃ e, parseDayTime (dayTime h m s) = .error e

/-- In a right time no field has a zero in front of eight or more; in a wrong one some literal
is out of range as well. -/
def NoOctal : Prop :=
  if InRange h m s then ∀ f ∈ [h, m, s], f.text.head? = some '0' → f.value < 8
  else ¬ (h.Within 23 ∧ m.Within 59 ∧ s.Within 59)

/-- The fields are read one by one. -/
theorem time_eq_iff {a a' b b' c c' : Nat} (ha : a ≤ a') (hb : b ≤ b') (hc : c ≤ c') :
    c + b * 100 + a * 10000 = a' * 10000 + b' * 100 + c' ↔ a = a' ∧ b = b' ∧ c = c' := by
  omega

/-- **Times of day are read as decimal** just when no field goes wrong as an octal literal. -/
theorem parseDayTime_iff : ReadsDecimal h m s ↔ NoOctal h m s := by
  unfold ReadsDecimal NoOctal
  rw [parseDayTime_dayTime]
  have hword : 59 < 2 ^ 32 - 1 := by decide
  split
  · rename_i hrange
    obtain ⟨hhour, hminute, hsecond⟩ := hrange
    have hh := h.literal_le
    have hm := m.literal_le
    have hs := s.literal_le
    rw [h.strtoUInt32_of_value_lt (by omega), m.strtoUInt32_of_value_lt (by omega),
      s.strtoUInt32_of_value_lt (by omega), if_pos ⟨by omega, by omega, by omega⟩,
      Except.ok.injEq, time_eq_iff hh hm hs, h.literal_eq_iff, m.literal_eq_iff, s.literal_eq_iff]
    simp
  · rw [← h.strtoUInt32_le_iff (by decide), ← m.strtoUInt32_le_iff hword,
      ← s.strtoUInt32_le_iff hword]
    split
    · rename_i hread
      refine iff_of_false ?_ (not_not.mpr hread)
      rintro ⟨e, he⟩
      cases he
    · rename_i hread
      exact iff_of_true ⟨_, rfl⟩ hread

end Times

/-- The time of the header's example, and an hour that is not one. -/
theorem parseDayTime_reads_octal :
    parseDayTime "23:09:12".toList = .ok 230012 ∧
    parseDayTime "024:00:00".toList = .ok 200000 ∧
    ¬ ReadsDecimal ⟨['2', '3'], by decide, List.all_eq_true.mp rfl⟩
      ⟨['0', '9'], by decide, List.all_eq_true.mp rfl⟩
      ⟨['1', '2'], by decide, List.all_eq_true.mp rfl⟩ := by
  refine ⟨by decide +kernel, by decide +kernel, ?_⟩
  rw [ReadsDecimal, if_pos (by decide +kernel)]
  decide +kernel

end UtilTime

end StormNet.Util
