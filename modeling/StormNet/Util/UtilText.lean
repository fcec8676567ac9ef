/-
  Util/UtilText.lean --- what `UtilString` reads of a text that was written for it: decimal
  numbers, and words between separators.
-/
import StormNet.Foundation.Numeral
import StormNet.Util.UtilString

set_option autoImplicit false

namespace StormNet.Util

open StormNet.Foundation

namespace UtilString

variable {sep s : Str} {c : Char} {n : Nat}

/-! ## Strings of digits -/

theorem ne_of_isDigit {x : Char} (h : ∀ y ∈ s, y.isDigit = true) (hc : c ∈ s)
    (hx : x.isDigit = false) : c ≠ x := by
  rintro rfl
  rw [h c hc] at hx
  cases hx

theorem digit_of_isDigit (h : c.isDigit = true) : digit c = some (digitOf c) := by
  have hrange : '0' ≤ c ∧ c ≤ '9' := by
    simpa [Char.isDigit, Char.le_def] using h
  rw [digit, if_pos hrange, digitOf]

/-- What is read of a string of digits. -/
theorem digits_of_isDigit {base : Nat} (h : ∀ y ∈ s, y.isDigit = true) (acc : Nat) :
    digits base acc s = Nat.ofDigitChars base (s.takeWhile (digitOf · < base)) acc := by
  induction s generalizing acc with
  | nil => rfl
  | cons c s ih =>
    rw [digits, digit_of_isDigit (h c List.mem_cons_self), Option.filter_some]
    by_cases hc : digitOf c < base
    · rw [List.takeWhile_cons_of_pos (by simpa using hc), ofDigitChars_cons, Nat.mul_comm base]
      simp only [decide_eq_true hc, if_true]
      exact ih (fun y hy => h y (List.mem_cons_of_mem c hy)) _
    · rw [List.takeWhile_cons_of_neg (by simpa using hc)]
      simp [hc]

theorem digitOf_lt (h : c.isDigit = true) : digitOf c < 10 := by
  have hrange : '0'.toNat ≤ c.toNat ∧ c.toNat ≤ '9'.toNat := by
    simpa [Char.isDigit, UInt32.le_iff_toNat_le] using h
  have hends : '0'.toNat = 48 ∧ '9'.toNat = 57 := by decide
  rw [digitOf]
  omega

/-- In base ten all digits are read. -/
theorem digits_ten (h : ∀ y ∈ s, y.isDigit = true) :
    digits 10 0 s = Nat.ofDigitChars 10 s 0 := by
  rw [digits_of_isDigit h, List.takeWhile_eq_self_iff.mpr]
  intro c hc
  exact decide_eq_true (digitOf_lt (h c hc))

/-- A zero in front makes the digits octal. -/
theorem magnitude_of_isDigit (h : ∀ y ∈ s, y.isDigit = true) : magnitude s =
    if s.head? = some '0' then readPrefix 8 s else Nat.ofDigitChars 10 s 0 := by
  unfold magnitude
  split
  · rename_i x d rest
    have hx : ¬ (x = 'x' ∨ x = 'X') := by
      have hmem : x ∈ '0' :: x :: d :: rest := List.mem_cons_of_mem _ List.mem_cons_self
      rintro (rfl | rfl)
      · exact ne_of_isDigit h hmem (by decide : 'x'.isDigit = false) rfl
      · exact ne_of_isDigit h hmem (by decide : 'X'.isDigit = false) rfl
    rw [if_neg (fun hboth => hx hboth.1), digits_of_isDigit
      (fun y hy => h y (List.mem_cons_of_mem _ hy))]
    rfl
  · rename_i rest _
    rw [digits_of_isDigit (fun y hy => h y (List.mem_cons_of_mem _ hy))]
    rfl
  · rename_i hnot
    have hhead : s.head? ≠ some '0' := by
      intro hhead
      obtain ⟨t, rfl⟩ := List.head?_eq_some_iff.mp hhead
      exact hnot t rfl
    rw [if_neg hhead, digits_ten h]

theorem dropWhile_isspace_of_isDigit (hc : c.isDigit = true) (s : Str) :
    (c :: s).dropWhile isspace = c :: s := by
  have hne : ∀ x : Char, x.isDigit = false → c ≠ x := by
    rintro x hx rfl
    rw [hc] at hx
    cases hx
  have hspace : isspace c = false := by
    simp [isspace, hne ' ' (by decide), hne '\t' (by decide), hne '\n' (by decide),
      hne '\x0b' (by decide), hne '\x0c' (by decide), hne '\r' (by decide)]
  rw [List.dropWhile_cons_of_neg (by simp [hspace])]

/-- There is no sign and no blank in front of digits. -/
theorem strtoull_of_isDigit (h : ∀ y ∈ s, y.isDigit = true) :
    strtoull s = if 2 ^ 64 ≤ magnitude s then 2 ^ 64 - 1 else magnitude s := by
  have hzero : s.takeWhile (· ≠ '\x00') = s := by
    rw [List.takeWhile_eq_self_iff]
    intro c hc
    exact decide_eq_true (ne_of_isDigit h hc (by decide))
  have hblank : s.dropWhile isspace = s := by
    cases s with
    | nil => rfl
    | cons c s => exact dropWhile_isspace_of_isDigit (h c List.mem_cons_self) s
  unfold strtoull
  simp only [hzero, hblank]
  split
  · exact absurd rfl (ne_of_isDigit h List.mem_cons_self (by decide : '-'.isDigit = false))
  · exact absurd rfl (ne_of_isDigit h List.mem_cons_self (by decide : '+'.isDigit = false))
  · simp only [Bool.false_eq_true, if_false]

/-! ## Decimal numbers -/

/-- A decimal number without leading zeros. -/
def decimal (n : Nat) : Str := Nat.toDigits 10 n

theorem decimal_of_lt (h : n < 10) : decimal n = [n.digitChar] := Nat.toDigits_of_lt_base h

theorem decimal_of_le (h : 10 ≤ n) : decimal n = decimal (n / 10) ++ [(n % 10).digitChar] :=
  Nat.toDigits_of_base_le (by decide) h

theorem decimal_ne_nil (n : Nat) : decimal n ≠ [] := Nat.toDigits_ne_nil

theorem isDigit_of_mem_decimal (h : c ∈ decimal n) : c.isDigit = true :=
  Nat.isDigit_of_mem_toDigits (by decide) (by decide) h

theorem ne_of_mem_decimal {x : Char} (h : c ∈ decimal n) (hx : x.isDigit = false) : c ≠ x :=
  ne_of_isDigit (fun _ hy => isDigit_of_mem_decimal hy) h hx

/-- Different numbers are written differently. -/
theorem decimal_injective : Function.Injective decimal := by
  intro n m h
  have hvalue := congrArg (Nat.ofDigitChars 10 · 0) h
  simpa only [decimal, Nat.ofDigitChars_ten_toDigits] using hvalue

theorem head_decimal (h : 0 < n) : (decimal n).head? ≠ some '0' := by
  induction n using Nat.strongRecOn with
  | _ n ih =>
    rcases Nat.lt_or_ge n 10 with hless | hmore
    · rw [decimal_of_lt hless, List.head?_cons, ne_eq, Option.some.injEq, Nat.digitChar_eq_zero]
      omega
    · rw [decimal_of_le hmore, List.head?_append_of_ne_nil _ (decimal_ne_nil _)]
      exact ih (n / 10) (by omega) (by omega)

theorem strtoull_decimal (hpos : 0 < n) (hlt : n < 2 ^ 64) : strtoull (decimal n) = n := by
  have hdigits : ∀ c ∈ decimal n, c.isDigit = true := fun _ hc => isDigit_of_mem_decimal hc
  have hvalue : magnitude (decimal n) = n := by
    rw [magnitude_of_isDigit hdigits, if_neg (head_decimal hpos)]
    exact Nat.ofDigitChars_ten_toDigits
  rw [strtoull_of_isDigit hdigits, hvalue, if_neg (Nat.not_le.mpr hlt)]

/-- A number is read as it was written. -/
theorem strtoUInt32_decimal (hpos : 0 < n) (hlt : n < 2 ^ 32) : strtoUInt32 (decimal n) = n := by
  rw [strtoUInt32, strtoull_decimal hpos (by omega), Nat.mod_eq_of_lt hlt]

/-! ## Words -/

/-- What splitting does not cut. -/
structure Word (sep s : Str) : Prop where
  ne_nil : s ≠ []
  noSep : ∀ c ∈ s, c ∉ sep

/-- What splitting drops between two words. -/
structure Gap (sep s : Str) : Prop where
  ne_nil : s ≠ []
  onlySep : ∀ c ∈ s, c ∈ sep

theorem splitLoop_gap (h : ∀ c ∈ s, c ∈ sep) (rest : Str) :
    splitLoop sep true [] (s ++ rest) = splitLoop sep true [] rest := by
  induction s with
  | nil => rfl
  | cons c s ih =>
    rw [List.cons_append, splitLoop, if_pos (h c List.mem_cons_self)]
    exact ih (fun x hx => h x (List.mem_cons_of_mem c hx))

/-- A text of words and gaps is split into the words. -/
theorem splitString_words {first : Str} (hfirst : Word sep first) {parts : List (Str × Str)}
    (h : ∀ p ∈ parts, Gap sep p.1 ∧ Word sep p.2) :
    splitString (first ++ parts.flatMap (fun p => p.1 ++ p.2)) sep true =
      first :: parts.map Prod.snd := by
  induction parts generalizing first with
  | nil =>
    have hfull : first.isEmpty = false := List.isEmpty_eq_false_iff.mpr hfirst.ne_nil
    unfold splitString
    rw [splitLoop_append hfirst.noSep, List.nil_append, List.flatMap_nil, splitLoop, hfull]
    rfl
  | cons p parts ih =>
    obtain ⟨gap, word⟩ := p
    obtain ⟨hgap, hword⟩ := h (gap, word) List.mem_cons_self
    have hrest := ih hword (fun p hp => h p (List.mem_cons_of_mem _ hp))
    have hfull : first.isEmpty = false := List.isEmpty_eq_false_iff.mpr hfirst.ne_nil
    cases gap with
    | nil => exact absurd rfl hgap.ne_nil
    | cons c gap =>
      unfold splitString at hrest ⊢
      rw [splitLoop_append hfirst.noSep, List.nil_append, List.flatMap_cons, List.append_assoc,
        List.cons_append, splitLoop, if_pos (hgap.onlySep c List.mem_cons_self), hfull,
        splitLoop_gap (fun x hx => hgap.onlySep x (List.mem_cons_of_mem c hx)), hrest]
      rfl

/-- Words joined by one separator. -/
theorem splitString_intercalate {words : List Str} (h : ∀ w ∈ words, Word [c] w) :
    splitString (List.intercalate [c] words) [c] true = words := by
  cases words with
  | nil => rfl
  | cons first words =>
    have hjoin : List.intercalate [c] (first :: words) =
        first ++ (words.map (fun w => ([c], w))).flatMap (fun p => p.1 ++ p.2) := by
      induction words generalizing first with
      | nil => simp [List.intercalate]
      | cons w words ih =>
        have hrest := ih w (fun x hx => h x (List.mem_cons_of_mem first hx))
        rw [List.intercalate_cons_cons, hrest]
        simp
    have hparts : ∀ p ∈ words.map (fun w => ([c], w)), Gap [c] p.1 ∧ Word [c] p.2 := by
      intro p hp
      obtain ⟨w, hw, rfl⟩ := List.mem_map.mp hp
      exact ⟨⟨List.cons_ne_nil _ _, fun x hx => hx⟩, h w (List.mem_cons_of_mem first hw)⟩
    rw [hjoin, splitString_words (h first List.mem_cons_self) hparts, List.map_map]
    exact congrArg (first :: ·) (List.map_id words)

end UtilString

end StormNet.Util
