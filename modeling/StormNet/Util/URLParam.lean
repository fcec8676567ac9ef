/-
  Util/URLParam.lean --- `joinURLParam` and `splitURLParam` of `util/util_string.cpp`.

  A `std::map` is an ordered map over the bytes of its keys.  Both functions are `none` when a
  loop of the encoder they call never ends.
-/
import StormNet.Util.SplitString
import StormNet.Util.UtilEncode

set_option autoImplicit false

namespace StormNet.Util

open StormNet.Foundation UtilEncode

/-- `map<string, string>`. -/
abbrev Params := Std.ExtTreeMap Bytes Bytes

namespace UtilString

/-! ## The source -/

/-- `splitString2(str, sep1, sep2, vResult)`. -/
def splitString2 {α : Type} [DecidableEq α] (str sep1 sep2 : List α) : List (List α × List α) :=
  (splitStringInto str sep1 true []).map fun sData =>
    match findFirstOf sData sep2 0 with
    | none => (sData, [])
    | some pos => (sData.take pos, sData.drop (pos + 1))

/-- A turn of the loop of `joinURLParam`. -/
def appendParam (sep1 sep2 sParam : Bytes) (kv : Bytes × Bytes) : Option Bytes := do
  let key ← rawurlencode kv.1
  let val ← rawurlencode kv.2
  return (if !sParam.isEmpty then sParam ++ sep1 else sParam) ++ (key ++ sep2 ++ val)

/-- `joinURLParam(mParam, sep1, sep2)`. -/
def joinURLParam (mParam : Params) (sep1 sep2 : Bytes) : Option Bytes :=
  mParam.toList.foldlM (appendParam sep1 sep2) []

/-- `splitURLParam(sParam, mParam, sep1, sep2)`. -/
def splitURLParam (sParam : Bytes) (mParam : Params) (sep1 sep2 : Bytes) : Option Params :=
  (splitString2 sParam sep1 sep2).foldlM (fun m kv => do
    let key ← rawurldecode kv.1
    let val ← rawurldecode kv.2
    return m.insert key val) mParam

/-- The default separators. -/
def ampersand : UInt8 := code '&'

def equals : UInt8 := code '='

/-! ## Percent encoding -/

/-- What is not escaped is neither a separator nor the mark of an escape. -/
theorem ne_of_not_isEscaped (c : UInt8) :
    isEscaped c = false → c ≠ ampersand ∧ c ≠ equals ∧ c ≠ code '%' := by
  revert c
  exact forall_byte (by decide +kernel)

theorem ne_of_isxdigit (c : UInt8) : isxdigit c = true → c ≠ ampersand ∧ c ≠ equals := by
  revert c
  exact forall_byte (by decide +kernel)

/-- What a character is encoded to holds no separator. -/
theorem clean_rawurlencodeChar {c x : UInt8} (h : x ∈ rawurlencodeChar c) :
    x ≠ ampersand ∧ x ≠ equals := by
  unfold rawurlencodeChar at h
  split at h
  · obtain ⟨hhi, hlo, -, -⟩ := hexcode_spec c
    rcases List.mem_cons.mp h with rfl | h
    · decide
    · rcases List.mem_cons.mp h with rfl | h
      · exact ne_of_isxdigit _ hhi
      · rw [List.mem_singleton.mp h]
        exact ne_of_isxdigit _ hlo
  · rename_i hnot
    obtain ⟨hamp, heq, -⟩ := ne_of_not_isEscaped c (Bool.not_eq_true _ ▸ hnot)
    rw [List.mem_singleton.mp h]
    exact ⟨hamp, heq⟩

theorem clean_encoded {s : Bytes} {x : UInt8} (h : x ∈ s.flatMap rawurlencodeChar) :
    x ≠ ampersand ∧ x ≠ equals := by
  obtain ⟨c, -, hc⟩ := List.mem_flatMap.mp h
  exact clean_rawurlencodeChar hc

theorem rawurlencodeChar_ne_nil (c : UInt8) : rawurlencodeChar c ≠ [] := by
  unfold rawurlencodeChar
  split <;> exact List.cons_ne_nil _ _

/-- What a character is encoded to is read back, whatever comes behind it. -/
theorem rawurldecodeTurn_encoded (c : UInt8) (t : Bytes) :
    rawurldecodeTurn (rawurlencodeChar c ++ t) = ([c], (rawurlencodeChar c).length - 1) := by
  unfold rawurlencodeChar
  split
  · obtain ⟨hhi, hlo, hval, -⟩ := hexcode_spec c
    rw [List.cons_append, List.cons_append, List.cons_append, List.nil_append, rawurldecodeTurn]
    simp only [hhi, hlo, hval, decide_true, Bool.and_self, if_true]
    rfl
  · rename_i hnot
    obtain ⟨-, -, hpercent⟩ := ne_of_not_isEscaped c (Bool.not_eq_true _ ▸ hnot)
    match t with
    | [] => rfl
    | [d] => rfl
    | d :: e :: t =>
      rw [List.cons_append, List.nil_append, rawurldecodeTurn]
      simp [hpercent]

theorem inside_rawurldecodeTurn : Inside rawurldecodeTurn := by
  intro l hl
  match l with
  | [c] => exact Nat.zero_lt_one
  | [c, d] => exact Nat.zero_lt_two
  | c :: d :: e :: l =>
    rw [rawurldecodeTurn]
    split
    · simp only [List.length_cons]
      omega
    · exact Nat.zero_lt_succ _

theorem rawurlencode_eq {s : Bytes} (h : s.length < UInt32.size) :
    rawurlencode s = some (s.flatMap rawurlencodeChar) := loop_eq_flatMap (fun _ _ => rfl) h

theorem rawurldecode_encoded {s : Bytes}
    (h : (s.flatMap rawurlencodeChar).length < UInt32.size) :
    rawurldecode (s.flatMap rawurlencodeChar) = some s := by
  rw [rawurldecode, loop_eq_scan inside_rawurldecodeTurn h,
    scan_flatMap rawurldecodeTurn_encoded rawurlencodeChar_ne_nil]

theorem length_le_encoded (s : Bytes) : s.length ≤ (s.flatMap rawurlencodeChar).length := by
  induction s with
  | nil => exact Nat.le_refl _
  | cons c s ih =>
    have hpos := List.length_pos_iff.mpr (rawurlencodeChar_ne_nil c)
    rw [List.flatMap_cons, List.length_append, List.length_cons]
    omega

/-! ## The text of a map -/

/-- The text of a pair. -/
def paramText (kv : Bytes × Bytes) : Bytes :=
  kv.1.flatMap rawurlencodeChar ++ [equals] ++ kv.2.flatMap rawurlencodeChar

/-- The text of a list of pairs. -/
def paramsText (l : List (Bytes × Bytes)) : Bytes := [ampersand].intercalate (l.map paramText)

section Text

variable {l : List (Bytes × Bytes)} {kv : Bytes × Bytes}

theorem paramText_ne_nil (kv : Bytes × Bytes) : paramText kv ≠ [] := by
  rw [paramText, List.append_assoc]
  exact List.append_ne_nil_of_right_ne_nil _ (List.cons_ne_nil _ _)

theorem ampersand_not_mem_paramText (kv : Bytes × Bytes) : ampersand ∉ paramText kv := by
  have hclean : ∀ s : Bytes, ampersand ∉ s.flatMap rawurlencodeChar :=
    fun s hmem => (clean_encoded hmem).1 rfl
  have hequals : ampersand ∉ [equals] := by decide
  rw [paramText, List.mem_append, List.mem_append]
  rintro ((hkey | heq) | hval)
  · exact hclean _ hkey
  · exact hequals heq
  · exact hclean _ hval

/-- A pair is no longer than the text. -/
theorem length_paramText_le (h : kv ∈ l) : (paramText kv).length ≤ (paramsText l).length := by
  unfold paramsText
  cases l with
  | nil => cases h
  | cons first l =>
    rw [List.map_cons, intercalate_cons, List.length_append]
    rcases List.mem_cons.mp h with rfl | hmem
    · exact Nat.le_add_right _ _
    · have hpart : (ampersand :: paramText kv).length ≤
          ((l.map paramText).flatMap (ampersand :: ·)).length := by
        rw [List.length_flatMap]
        exact List.single_le_sum (fun _ _ => Nat.zero_le _) _
          (List.mem_map.mpr ⟨_, List.mem_map_of_mem hmem, rfl⟩)
      rw [List.length_cons] at hpart
      omega

theorem length_parts_le (h : kv ∈ l) :
    (kv.1.flatMap rawurlencodeChar).length < (paramsText l).length ∧
      (kv.2.flatMap rawurlencodeChar).length < (paramsText l).length := by
  have hle := length_paramText_le h
  rw [paramText, List.length_append, List.length_append, List.length_singleton] at hle
  omega

/-- The loop of `joinURLParam` joins the texts of the pairs. -/
theorem foldlM_appendParam (h : ∀ kv ∈ l, kv.1.length < UInt32.size ∧ kv.2.length < UInt32.size)
    (sParam : Bytes) :
    l.foldlM (appendParam [ampersand] [equals]) sParam = some ((l.map paramText).foldl
      (fun sResult x => (if !sResult.isEmpty then sResult ++ [ampersand] else sResult) ++ x)
        sParam) := by
  induction l generalizing sParam with
  | nil => rfl
  | cons kv l ih =>
    obtain ⟨hkey, hval⟩ := h kv List.mem_cons_self
    have hturn : appendParam [ampersand] [equals] sParam kv =
        some ((if !sParam.isEmpty then sParam ++ [ampersand] else sParam) ++ paramText kv) := by
      rw [appendParam, rawurlencode_eq hkey, rawurlencode_eq hval]
      rfl
    rw [List.foldlM_cons, hturn, List.map_cons, List.foldl_cons]
    exact ih (fun kv' hkv' => h kv' (List.mem_cons_of_mem kv hkv')) _

/-- No pair is lost by stripping. -/
theorem splitStringInto_paramsText (l : List (Bytes × Bytes)) :
    splitStringInto (paramsText l) [ampersand] true [] = l.map paramText := by
  have hsame : (fun x => decide (x ∈ [ampersand])) = (· == ampersand) :=
    funext fun x => decide_eq_decide.mpr List.mem_singleton
  have hsplit : splitStringInto (paramsText l) [ampersand] true [] =
      ((paramsText l).splitOn ampersand).filter (· ≠ []) := by
    rw [splitStringInto, splitFrom_eq, List.drop_zero, List.nil_append, hsame]
    rfl
  rw [hsplit, paramsText]
  by_cases hnil : l = []
  · subst hnil
    rfl
  · have hclean : ∀ t ∈ l.map paramText, ampersand ∉ t := by
      intro t ht
      obtain ⟨kv, -, rfl⟩ := List.mem_map.mp ht
      exact ampersand_not_mem_paramText kv
    rw [List.splitOn_intercalate ampersand hclean (by simpa using hnil), List.filter_eq_self]
    intro t ht
    obtain ⟨kv, -, rfl⟩ := List.mem_map.mp ht
    exact decide_eq_true (paramText_ne_nil kv)

/-- What was joined is split into the pairs, still encoded. -/
theorem splitString2_paramsText (l : List (Bytes × Bytes)) :
    splitString2 (paramsText l) [ampersand] [equals] =
      l.map fun kv => (kv.1.flatMap rawurlencodeChar, kv.2.flatMap rawurlencodeChar) := by
  rw [splitString2, splitStringInto_paramsText, List.map_map]
  apply List.map_congr_left
  intro kv _
  have hclean : ∀ y ∈ kv.1.flatMap rawurlencodeChar, y ∉ [equals] := by
    intro y hy hmem
    exact (clean_encoded hy).2 (List.mem_singleton.mp hmem)
  have hcut : (paramText kv).drop 0 =
      kv.1.flatMap rawurlencodeChar ++ equals :: kv.2.flatMap rawurlencodeChar := by
    rw [List.drop_zero, paramText, List.append_assoc, List.singleton_append]
  have hpos := findFirstOf_of_cut hcut hclean List.mem_cons_self
  rw [Nat.zero_add] at hpos
  rw [List.drop_zero] at hcut
  simp only [Function.comp_apply, hpos]
  rw [hcut, List.take_left, ← List.drop_drop, List.drop_left]
  rfl

end Text

/-! ## The round trip -/

/-- The pairs of a map, inserted one after the other, are the map. -/
theorem foldl_insert_toList (m : Params) :
    m.toList.foldl (fun m kv => m.insert kv.1 kv.2) ∅ = m := by
  rw [← Std.ExtTreeMap.ofList_eq_foldl]
  apply Std.ExtTreeMap.ext_getElem?
  intro k
  cases hk : m[k]? with
  | some v =>
    exact Std.ExtTreeMap.getElem?_ofList_of_mem Std.ReflCmp.compare_self m.distinct_keys_toList
      (Std.ExtTreeMap.mem_toList_iff_getElem?_eq_some.mpr hk)
  | none =>
    apply Std.ExtTreeMap.getElem?_ofList_of_contains_eq_false
    rw [List.contains_eq_mem, decide_eq_false_iff_not, List.mem_map]
    rintro ⟨⟨k', v⟩, hmem, rfl⟩
    rw [Std.ExtTreeMap.mem_toList_iff_getElem?_eq_some, hk] at hmem
    cases hmem

/-- Pairs that are still encoded are decoded into the map. -/
theorem foldlM_insert_encoded {l : List (Bytes × Bytes)}
    (h : ∀ kv ∈ l, (kv.1.flatMap rawurlencodeChar).length < UInt32.size ∧
      (kv.2.flatMap rawurlencodeChar).length < UInt32.size) (m : Params) :
    (l.map fun kv => (kv.1.flatMap rawurlencodeChar, kv.2.flatMap rawurlencodeChar)).foldlM
      (fun (m : Params) kv => do
        let key ← rawurldecode kv.1
        let val ← rawurldecode kv.2
        return m.insert key val) m = some (l.foldl (fun m kv => m.insert kv.1 kv.2) m) := by
  induction l generalizing m with
  | nil => rfl
  | cons kv l ih =>
    obtain ⟨hkey, hval⟩ := h kv List.mem_cons_self
    rw [List.map_cons, List.foldlM_cons, rawurldecode_encoded hkey, rawurldecode_encoded hval]
    exact ih (fun kv' hkv' => h kv' (List.mem_cons_of_mem kv hkv')) _

/-- **The round trip of URL parameters.**  The text of a map is split into the map. -/
theorem splitURLParam_joinURLParam (m : Params) (h : (paramsText m.toList).length < 2 ^ 31) :
    joinURLParam m [ampersand] [equals] = some (paramsText m.toList) ∧
      splitURLParam (paramsText m.toList) ∅ [ampersand] [equals] = some m := by
  have hword : UInt32.size = 2 ^ 32 := rfl
  have hencoded : ∀ kv ∈ m.toList, (kv.1.flatMap rawurlencodeChar).length < UInt32.size ∧
      (kv.2.flatMap rawurlencodeChar).length < UInt32.size := by
    intro kv hkv
    have hle := length_parts_le hkv
    omega
  have hplain : ∀ kv ∈ m.toList, kv.1.length < UInt32.size ∧ kv.2.length < UInt32.size := by
    intro kv hkv
    have hle := hencoded kv hkv
    have hkey := length_le_encoded kv.1
    have hval := length_le_encoded kv.2
    omega
  constructor
  · have hhead : (m.toList.map paramText).head? ≠ some [] := by
      rw [List.head?_map]
      intro hnil
      obtain ⟨kv, -, hkv⟩ := Option.map_eq_some_iff.mp hnil
      exact paramText_ne_nil kv hkv
    rw [joinURLParam, foldlM_appendParam hplain, paramsText, ← joinString_of_head hhead]
    rfl
  · rw [splitURLParam, splitString2_paramsText, foldlM_insert_encoded hencoded,
      foldl_insert_toList]

/-- Separators, escapes, a plus sign and what is not ASCII, in keys and in values. -/
theorem splitURLParam_joinURLParam_of_three :
    let m : Params := ((Std.ExtTreeMap.empty.insert [] []).insert [0x25, 0x34, 0x31]
      [0x26, 0x3d, 0x00]).insert [0x3d] [0x2b, 0xff]
    joinURLParam m [ampersand] [equals] = some (paramsText m.toList) ∧
      splitURLParam (paramsText m.toList) ∅ [ampersand] [equals] = some m :=
  splitURLParam_joinURLParam _ (by decide +kernel)

end UtilString

end StormNet.Util
