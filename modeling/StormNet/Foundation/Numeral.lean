/-
  Foundation/Numeral.lean --- strings of digits, read in one base and meant in another.

  `Nat.ofDigitChars b l 0` is the number that `l` denotes in base `b`.  `readPrefix b l` is what
  a reader gives that stops at the first digit the base does not have.  Read in a smaller base a
  numeral gives less, unless it is a single digit behind zeros (`readPrefix_eq_iff`); read in
  base ten instead of eight it gives another number even modulo 2^32 (`octalAsDecimal_mod_iff`).

  Nothing in this file names the repository.
-/
import Mathlib

set_option autoImplicit false

namespace StormNet.Foundation

variable {b b' a a' : Nat} {c : Char} {l : List Char}

/-- The value of a digit. -/
def digitOf (c : Char) : Nat := c.toNat - '0'.toNat

theorem ofDigitChars_cons (b : Nat) (c : Char) (l : List Char) (a : Nat) :
    Nat.ofDigitChars b (c :: l) a = Nat.ofDigitChars b l (b * a + digitOf c) :=
  Nat.ofDigitChars_cons

/-- The digits up to the first that is not one of base `b`. -/
def readPrefix (b : Nat) (l : List Char) : Nat :=
  Nat.ofDigitChars b (l.takeWhile (digitOf · < b)) 0

/-! ## A smaller base -/

theorem le_ofDigitChars (hb : 0 < b) (l : List Char) (a : Nat) : a ≤ Nat.ofDigitChars b l a := by
  induction l generalizing a with
  | nil => exact Nat.le_refl a
  | cons c l ih =>
    rw [ofDigitChars_cons]
    have hmul : a ≤ b * a := Nat.le_mul_of_pos_left a hb
    have hrest := ih (b * a + digitOf c)
    omega

/-- In a smaller base, and from a smaller number on, less is read. -/
theorem ofDigitChars_takeWhile_add_le (hb : b ≤ b') (hpos : 0 < b') (p : Char → Bool)
    (a k : Nat) (l : List Char) :
    Nat.ofDigitChars b (l.takeWhile p) a + k ≤ Nat.ofDigitChars b' l (a + k) := by
  induction l generalizing a k with
  | nil => exact Nat.le_refl _
  | cons c l ih =>
    cases hc : p c with
    | false =>
      rw [List.takeWhile_cons_of_neg (by simp [hc])]
      exact le_ofDigitChars hpos (c :: l) (a + k)
    | true =>
      have hmul : b * a + k ≤ b' * (a + k) :=
        calc b * a + k ≤ b' * a + b' * k :=
              Nat.add_le_add (Nat.mul_le_mul_right a hb) (Nat.le_mul_of_pos_left k hpos)
          _ = b' * (a + k) := (Nat.mul_add b' a k).symm
      obtain ⟨more, hmore⟩ := Nat.exists_eq_add_of_le hmul
      have hrest := ih (b * a + digitOf c) (k + more)
      rw [List.takeWhile_cons_of_pos hc, ofDigitChars_cons, ofDigitChars_cons, hmore,
        show b * a + k + more + digitOf c = b * a + digitOf c + (k + more) by omega]
      omega

theorem readPrefix_le (hb : b ≤ b') (hpos : 0 < b') (l : List Char) :
    readPrefix b l ≤ Nat.ofDigitChars b' l 0 :=
  ofDigitChars_takeWhile_add_le hb hpos _ 0 0 l

/-- Behind a digit that is not zero, another one makes the difference. -/
theorem ofDigitChars_takeWhile_cons_lt (h : 0 < b) (hb : b < b') (p : Char → Bool) (ha : 0 < a)
    (c : Char) (l : List Char) :
    Nat.ofDigitChars b ((c :: l).takeWhile p) a < Nat.ofDigitChars b' (c :: l) a := by
  have hpos : 0 < b' := Nat.lt_trans h hb
  have hmul : b * a < b' * a := Nat.mul_lt_mul_of_pos_right hb ha
  rw [ofDigitChars_cons]
  cases hc : p c with
  | false =>
    have hle : a ≤ b * a := Nat.le_mul_of_pos_left a h
    rw [List.takeWhile_cons_of_neg (by simp [hc])]
    exact Nat.lt_of_lt_of_le (by omega : a < b' * a + digitOf c) (le_ofDigitChars hpos l _)
  | true =>
    obtain ⟨more, hmore⟩ := Nat.exists_eq_add_of_lt hmul
    have hrest := ofDigitChars_takeWhile_add_le (Nat.le_of_lt hb) hpos p (b * a + digitOf c)
      (more + 1) l
    rw [List.takeWhile_cons_of_pos hc, ofDigitChars_cons, hmore,
      show b * a + more + 1 + digitOf c = b * a + digitOf c + (more + 1) by omega]
    omega

/-- **A numeral read in a smaller base** is read right just when it denotes a single digit of
that base. -/
theorem readPrefix_eq_iff (h : 0 < b) (hb : b < b') (l : List Char) :
    readPrefix b l = Nat.ofDigitChars b' l 0 ↔ Nat.ofDigitChars b' l 0 < b := by
  have hpos : 0 < b' := Nat.lt_trans h hb
  unfold readPrefix
  induction l with
  | nil => exact iff_of_true rfl h
  | cons c l ih =>
    rw [ofDigitChars_cons, Nat.mul_zero, Nat.zero_add]
    by_cases hc : digitOf c < b
    · rw [List.takeWhile_cons_of_pos (by simpa using hc), ofDigitChars_cons, Nat.mul_zero,
        Nat.zero_add]
      rcases Nat.eq_zero_or_pos (digitOf c) with hzero | hdigit
      · rw [hzero]
        exact ih
      · cases l with
        | nil => exact iff_of_true rfl hc
        | cons e l =>
          have hmore : b' ≤ Nat.ofDigitChars b' (e :: l) (digitOf c) := by
            have hmul : b' ≤ b' * digitOf c := Nat.le_mul_of_pos_right b' hdigit
            rw [ofDigitChars_cons]
            exact Nat.le_trans (by omega) (le_ofDigitChars hpos l (b' * digitOf c + digitOf e))
          refine iff_of_false ?_ (by omega)
          exact Nat.ne_of_lt (ofDigitChars_takeWhile_cons_lt h hb _ hdigit e l)
    · have hmore := le_ofDigitChars hpos l (digitOf c)
      rw [List.takeWhile_cons_of_neg (by simpa using hc), Nat.ofDigitChars_nil]
      exact iff_of_false (by omega) (by omega)

/-! ## Octal digits read as decimal -/

/-- The number that the octal digits of `n` denote in base ten. -/
def octalAsDecimal (n : Nat) : Nat := Nat.ofDigits 10 (Nat.digits 8 n)

theorem octalAsDecimal_eq (n : Nat) :
    octalAsDecimal n = 10 * octalAsDecimal (n / 8) + n % 8 := by
  rcases Nat.eq_zero_or_pos n with rfl | hpos
  · rfl
  · unfold octalAsDecimal
    rw [Nat.digits_def' (by decide) hpos, Nat.ofDigits_cons]
    exact Nat.add_comm _ _

/-- The digits of `Nat.digits` and those of a numeral. -/
theorem ofDigitChars_octal (h : ∀ c ∈ l, digitOf c < 8) (n : Nat) :
    Nat.ofDigitChars 10 l (octalAsDecimal n) = octalAsDecimal (Nat.ofDigitChars 8 l n) := by
  induction l generalizing n with
  | nil => rfl
  | cons c l ih =>
    have hc := h c List.mem_cons_self
    have hnext : 10 * octalAsDecimal n + digitOf c = octalAsDecimal (8 * n + digitOf c) := by
      have hdiv : (8 * n + digitOf c) / 8 = n := by omega
      have hmod : (8 * n + digitOf c) % 8 = digitOf c := by omega
      rw [octalAsDecimal_eq (8 * n + digitOf c), hdiv, hmod]
    rw [ofDigitChars_cons, ofDigitChars_cons, hnext]
    exact ih (fun e he => h e (List.mem_cons_of_mem c he)) _

/-- The leading digits of a number up to 2^31, in front of seven others: what is read exceeds
the number by no multiple of 2^32, and by none less what seven digits can add. -/
theorem leading_octal : ∀ n ≤ 1024, octalAsDecimal n ≤ 2000 ∧
    (n ≠ 0 → n * 8 ^ 7 ≤ octalAsDecimal n * 10 ^ 7 ∧
      0 < (octalAsDecimal n * 10 ^ 7 - n * 8 ^ 7) % 2 ^ 32 ∧
      (octalAsDecimal n * 10 ^ 7 - n * 8 ^ 7) % 2 ^ 32 + 7 * 811518 < 2 ^ 32) := by
  decide +kernel

/-- The seven digits behind the leading ones add less than that, and nothing just when there
is one of them. -/
theorem octalAsDecimal_split (n : Nat) : ∃ k, k ≤ 7 * 811518 ∧ (k = 0 ↔ n % 8 ^ 7 < 8) ∧
    octalAsDecimal n = octalAsDecimal (n / 8 ^ 7) * 10 ^ 7 + n % 8 ^ 7 + k := by
  have hshift : ∀ i, ∃ d < 8, n / 8 ^ i = 8 * (n / 8 ^ (i + 1)) + d ∧
      octalAsDecimal (n / 8 ^ i) = 10 * octalAsDecimal (n / 8 ^ (i + 1)) + d := by
    intro i
    have hdiv : n / 8 ^ i / 8 = n / 8 ^ (i + 1) := by
      rw [Nat.div_div_eq_div_mul, ← Nat.pow_succ]
    refine ⟨n / 8 ^ i % 8, Nat.mod_lt _ (by decide), ?_, ?_⟩
    · rw [← hdiv, Nat.div_add_mod]
    · rw [octalAsDecimal_eq, hdiv]
  obtain ⟨d0, hd0, hn0, hv0⟩ := hshift 0
  obtain ⟨d1, hd1, hn1, hv1⟩ := hshift 1
  obtain ⟨d2, hd2, hn2, hv2⟩ := hshift 2
  obtain ⟨d3, hd3, hn3, hv3⟩ := hshift 3
  obtain ⟨d4, hd4, hn4, hv4⟩ := hshift 4
  obtain ⟨d5, hd5, hn5, hv5⟩ := hshift 5
  obtain ⟨d6, hd6, hn6, hv6⟩ := hshift 6
  rw [Nat.pow_zero, Nat.div_one] at hn0 hv0
  have hfront : octalAsDecimal n = octalAsDecimal (n / 8 ^ 7) * 10 ^ 7 +
      (d0 + 10 * (d1 + 10 * (d2 + 10 * (d3 + 10 * (d4 + 10 * (d5 + 10 * d6)))))) := by
    rw [hv0, hv1, hv2, hv3, hv4, hv5, hv6]
    ring
  have hnumber : n = 8 ^ 7 * (n / 8 ^ 7) +
      (d0 + 8 * (d1 + 8 * (d2 + 8 * (d3 + 8 * (d4 + 8 * (d5 + 8 * d6)))))) := by
    conv_lhs => rw [hn0, hn1, hn2, hn3, hn4, hn5, hn6]
    ring
  have hrest : n % 8 ^ 7 =
      d0 + 8 * (d1 + 8 * (d2 + 8 * (d3 + 8 * (d4 + 8 * (d5 + 8 * d6))))) := by
    have hparts := Nat.div_add_mod n (8 ^ 7)
    exact Nat.add_left_cancel (hparts.trans hnumber)
  rw [hfront, hrest]
  clear hfront hnumber hrest hv0 hv1 hv2 hv3 hv4 hv5 hv6 hn0 hn1 hn2 hn3 hn4 hn5 hn6 hshift
  refine ⟨2 * d1 + 36 * d2 + 488 * d3 + 5904 * d4 + 67232 * d5 + 737856 * d6, ?_, ?_, ?_⟩
  · omega
  · omega
  · omega

theorem octalAsDecimal_lt {n : Nat} (h : n ≤ 2 ^ 31) : octalAsDecimal n < 2 ^ 63 := by
  obtain ⟨k, hk, -, hsplit⟩ := octalAsDecimal_split n
  have hlead := (leading_octal (n / 8 ^ 7) (by omega)).1
  omega

/-- **An octal number up to 2^31 that is read as decimal** is read as another one, even modulo
2^32, unless it is a single digit. -/
theorem octalAsDecimal_mod_iff {n : Nat} (h : n ≤ 2 ^ 31) :
    octalAsDecimal n % 2 ^ 32 = n ↔ n < 8 := by
  obtain ⟨k, hk, hdigit, hsplit⟩ := octalAsDecimal_split n
  by_cases hlead : n / 8 ^ 7 = 0
  · have hzero : octalAsDecimal 0 = 0 := rfl
    rw [hlead, hzero] at hsplit
    omega
  · obtain ⟨hle, hmore, hless⟩ := (leading_octal (n / 8 ^ 7) (by omega)).2 hlead
    generalize hexcess : octalAsDecimal (n / 8 ^ 7) * 10 ^ 7 - n / 8 ^ 7 * 8 ^ 7 = excess
      at hmore hless
    have hsum : octalAsDecimal n = n + (excess + k) := by omega
    have hmod : (excess + k) % 2 ^ 32 = excess % 2 ^ 32 + k := by omega
    omega

end StormNet.Foundation
