/-
  RpcGenerator/Lexical.lean --- the number tokens of `rpc_generator/lexical.l`.

  The pattern `integer_literal` admits the numbers of C in three bases, with a sign; the rule of
  the token takes its value from `atoi`, which knows base ten only.  `atoi` is the one of glibc:
  the number of `strtol`, cut to 32 bits.
-/
import StormNet.Util.UtilText

set_option autoImplicit false

namespace StormNet.RpcGenerator

open StormNet.Foundation StormNet.Util UtilString

/-! ## The source -/

/-- `[+-]?` in front of a text. -/
def unsigned : Str → Str
  | '+' :: u => u
  | '-' :: u => u
  | u => u

def isOctalDigit (c : Char) : Bool := '0' ≤ c && c ≤ '7'

/-- `0[0-7]+` -/
def octalLiteral : Str → Bool
  | '0' :: ds => !ds.isEmpty && ds.all isOctalDigit
  | _ => false

/-- `0[xX][[:xdigit:]]+` -/
def hexLiteral : Str → Bool
  | '0' :: x :: ds => (x = 'x' || x = 'X') && !ds.isEmpty && ds.all fun c => (digit c).isSome
  | _ => false

/-- `[[:digit:]]+` -/
def digitLiteral (u : Str) : Bool := !u.isEmpty && u.all Char.isDigit

/-- The pattern `integer_literal`. -/
def integerLiteral (t : Str) : Bool :=
  octalLiteral (unsigned t) || hexLiteral (unsigned t) || digitLiteral (unsigned t)

/-- `strtol(s, NULL, 10)`; out of range it gives `LONG_MIN` or `LONG_MAX`. -/
def strtol (s : Str) : Int :=
  match s.dropWhile isspace with
  | '-' :: t => max (-(digits 10 0 t)) (-2 ^ 63)
  | '+' :: t => min (digits 10 0 t) (2 ^ 63 - 1)
  | t => min (digits 10 0 t) (2 ^ 63 - 1)

/-- `atoi(s)`. -/
def atoi (s : Str) : Int := (strtol s).bmod (2 ^ 32)

/-- `yylval.ival` of a number token. -/
def ival (yytext : Str) : Int := atoi yytext

/-! ## What a literal denotes -/

/-- The number that an unsigned constant denotes in C; a constant with a zero in front is
octal, and `089` is none. -/
def constant (u : Str) : Option Nat :=
  if hexLiteral u then some ((u.drop 2).foldl (fun n c => 16 * n + (digit c).getD 0) 0)
  else if u.head? = some '0' then
    if u.all isOctalDigit then some (Nat.ofDigitChars 8 u 0) else none
  else if digitLiteral u then some (Nat.ofDigitChars 10 u 0) else none

/-- The number that a literal denotes. -/
def denotes (t : Str) : Option Int :=
  (constant (unsigned t)).map fun n : Nat => if t.head? = some '-' then -(n : Int) else n

/-- A 32-bit `int`. -/
def Fits (v : Int) : Prop := -2 ^ 31 ≤ v ∧ v < 2 ^ 31

instance (v : Int) : Decidable (Fits v) := inferInstanceAs (Decidable (_ ∧ _))

/-- The constant of the number `n` is the same in base ten. -/
def SameInTen (u : Str) (n : Nat) : Prop :=
  u.head? ≠ some '0' ∨ n = 0 ∨ hexLiteral u = false ∧ n < 8

instance (u : Str) (n : Nat) : Decidable (SameInTen u n) :=
  inferInstanceAs (Decidable (_ ∨ _ ∨ _ ∧ _))

/-- A literal of a method: what the pattern matches, and its number if it is an `int`. -/
structure Literal (t : Str) (v : Int) : Prop where
  matched : integerLiteral t = true
  denotes_eq : denotes t = some v
  fits : Fits v

/-! ## What the scanner reads -/

section Value

variable {u t : Str} {n : Nat} {v : Int}

theorem isDigit_of_isOctalDigit {c : Char} (h : isOctalDigit c = true) :
    c.isDigit = true ∧ digitOf c < 8 := by
  have hrange : '0'.toNat ≤ c.toNat ∧ c.toNat ≤ '7'.toNat := by
    simpa [isOctalDigit, Char.le_def, UInt32.le_iff_toNat_le] using h
  have hends : '0'.toNat = 48 ∧ '7'.toNat = 55 ∧ '9'.toNat = 57 := by decide
  constructor
  · simp only [Char.isDigit, Bool.and_eq_true, decide_eq_true_eq, ge_iff_le,
      UInt32.le_iff_toNat_le]
    constructor
    · exact hrange.1
    · exact Nat.le_trans hrange.2 (by decide)
  · rw [digitOf]
    omega

/-- The letter of a hexadecimal constant ends the digits. -/
theorem digits_of_hexLiteral (h : hexLiteral u = true) :
    u.head? = some '0' ∧ digits 10 0 u = 0 := by
  unfold hexLiteral at h
  split at h
  · rename_i x ds
    rw [Bool.and_assoc, Bool.and_eq_true, Bool.or_eq_true, decide_eq_true_eq,
      decide_eq_true_eq] at h
    refine ⟨rfl, ?_⟩
    rcases h.1 with rfl | rfl
    · rfl
    · rfl
  · cases h

/-- What base ten makes of a constant. -/
theorem digits_of_constant (hu : constant u = some n) (hn : n ≤ 2 ^ 31) :
    digits 10 0 u < 2 ^ 63 ∧ (digits 10 0 u % 2 ^ 32 = n ↔ SameInTen u n) := by
  unfold constant at hu
  unfold SameInTen
  split at hu
  · rename_i hhex
    obtain ⟨hhead, hzero⟩ := digits_of_hexLiteral hhex
    rw [hzero]
    refine ⟨by decide, ?_⟩
    simp [hhead, hhex, eq_comm]
  · rename_i hhex
    split at hu
    · rename_i hhead
      split at hu
      · rename_i hoctal
        rw [List.all_eq_true] at hoctal
        have hread := ofDigitChars_octal (fun c hc => (isDigit_of_isOctalDigit (hoctal c hc)).2) 0
        have hzero : octalAsDecimal 0 = 0 := rfl
        rw [Option.some.injEq] at hu
        rw [hzero, hu] at hread
        rw [digits_ten (fun c hc => (isDigit_of_isOctalDigit (hoctal c hc)).1), hread,
          octalAsDecimal_mod_iff hn]
        refine ⟨octalAsDecimal_lt hn, ?_⟩
        simp only [hhead, Bool.not_eq_true _ ▸ hhex, ne_eq, not_true_eq_false, true_and, false_or]
        omega
      · cases hu
    · rename_i hhead
      split at hu
      · rename_i hdigits
        rw [digitLiteral, Bool.and_eq_true, List.all_eq_true] at hdigits
        rw [Option.some.injEq] at hu
        rw [digits_ten hdigits.2, hu]
        exact ⟨by omega, iff_of_true (by omega) (.inl hhead)⟩
      · cases hu

/-- A constant begins with a digit. -/
theorem head_of_constant (hu : constant u = some n) :
    ∃ c rest, u = c :: rest ∧ c.isDigit = true := by
  unfold constant at hu
  split at hu
  · rename_i hhex
    obtain ⟨rest, rfl⟩ := List.head?_eq_some_iff.mp (digits_of_hexLiteral hhex).1
    exact ⟨'0', rest, rfl, by decide⟩
  · split at hu
    · rename_i hhead
      obtain ⟨rest, rfl⟩ := List.head?_eq_some_iff.mp hhead
      exact ⟨'0', rest, rfl, by decide⟩
    · split at hu
      · rename_i hdigits
        rw [digitLiteral, Bool.and_eq_true, List.all_eq_true] at hdigits
        cases u with
        | nil => cases hdigits.1
        | cons c rest => exact ⟨c, rest, rfl, hdigits.2 c List.mem_cons_self⟩
      · cases hu

theorem unsigned_of_ne {c : Char} (hplus : c ≠ '+') (hminus : c ≠ '-') (t : Str) :
    unsigned (c :: t) = c :: t := by
  unfold unsigned
  split
  · rename_i heq
    exact absurd (List.cons.inj heq).1 hplus
  · rename_i heq
    exact absurd (List.cons.inj heq).1 hminus
  · rfl

/-- There is no blank in front, and the sign is read once. -/
theorem strtol_eq (hu : constant (unsigned t) = some n)
    (hlt : digits 10 0 (unsigned t) < 2 ^ 63) :
    strtol t = if t.head? = some '-' then -(digits 10 0 (unsigned t) : Int)
      else digits 10 0 (unsigned t) := by
  have hmin : min (digits 10 0 (unsigned t) : Int) (2 ^ 63 - 1) = digits 10 0 (unsigned t) :=
    Int.min_eq_left (by omega)
  have hmax : max (-(digits 10 0 (unsigned t) : Int)) (-2 ^ 63) = -digits 10 0 (unsigned t) :=
    Int.max_eq_left (by omega)
  obtain ⟨d, rest, hcut, hd⟩ := head_of_constant hu
  cases t with
  | nil => cases hcut
  | cons c t =>
    by_cases hplus : c = '+'
    · subst hplus
      exact hmin
    · by_cases hminus : c = '-'
      · subst hminus
        exact hmax
      · rw [unsigned_of_ne hplus hminus] at hcut hmin ⊢
        have hc : c.isDigit = true := by
          rw [(List.cons.inj hcut).1]
          exact hd
        have hblank : (c :: t).dropWhile isspace = c :: t := dropWhile_isspace_of_isDigit hc t
        rw [strtol, hblank]
        split
        · rename_i heq
          exact absurd (List.cons.inj heq).1 hminus
        · rename_i heq
          exact absurd (List.cons.inj heq).1 hplus
        · rw [hmin, List.head?_cons, if_neg (by simpa using hminus)]

theorem fits_ival (t : Str) : Fits (ival t) := by
  unfold Fits ival atoi
  have hle := Int.le_bmod (x := strtol t) (m := 2 ^ 32) (by decide)
  have hlt := Int.bmod_lt (x := strtol t) (m := 2 ^ 32) (by decide)
  omega

/-- **The value of a token** is the number that its literal denotes just when the literal is the
same in base ten. -/
theorem ival_eq_iff (h : Literal t v) : ival t = v ↔ SameInTen (unsigned t) v.natAbs := by
  obtain ⟨n, hu, hv⟩ := Option.map_eq_some_iff.mp h.denotes_eq
  have hfit := h.fits
  unfold Fits at hfit
  have habs : v.natAbs = n := by
    rw [← hv]
    split <;> omega
  obtain ⟨hlt, hsame⟩ := digits_of_constant hu (by omega)
  rw [habs, ← hsame, ival, atoi, strtol_eq hu hlt, Int.bmod_def]
  by_cases hminus : t.head? = some '-'
  · rw [if_pos hminus] at hv ⊢
    omega
  · rw [if_neg hminus] at hv ⊢
    omega

end Value

end StormNet.RpcGenerator
