/-
  Foundation/Word.lean --- 32-bit unsigned arithmetic on naturals, and
  big-endian 32-bit words as bytes.

  Nothing in this file names the repository.
-/
import Mathlib.Data.List.Basic
import Mathlib.Algebra.Group.Nat.Defs

set_option autoImplicit false

namespace StormNet.Foundation

/-! ## Arithmetic modulo `2 ^ 32` -/

/-- The value of a natural stored in a 32-bit unsigned word. -/
def u32 (n : Nat) : Nat := n % 2 ^ 32

/-- Subtraction of 32-bit unsigned words. -/
def sub32 (a b : Nat) : Nat := (a + (2 ^ 32 - b)) % 2 ^ 32

theorem u32_of_lt {n : Nat} (h : n < 2 ^ 32) : u32 n = n := Nat.mod_eq_of_lt h

theorem u32_lt (n : Nat) : u32 n < 2 ^ 32 := Nat.mod_lt _ (by decide)

theorem sub32_of_le {a b : Nat} (h : b ≤ a) (ha : a < 2 ^ 32) : sub32 a b = a - b := by
  unfold sub32
  omega

/-! ## Big-endian words -/

/-- The four bytes of a 32-bit word, most significant first. -/
def bigEndian (n : Nat) : List UInt8 :=
  [UInt8.ofNat (n / 2 ^ 24), UInt8.ofNat (n / 2 ^ 16), UInt8.ofNat (n / 2 ^ 8), UInt8.ofNat n]

/-- The word the first four bytes denote, most significant first (zero when there
are fewer). -/
def readBigEndian : List UInt8 → Nat
  | a :: b :: c :: d :: _ =>
      a.toNat * 2 ^ 24 + b.toNat * 2 ^ 16 + c.toNat * 2 ^ 8 + d.toNat
  | _ => 0

@[simp] theorem length_bigEndian (n : Nat) : (bigEndian n).length = 4 := rfl

theorem readBigEndian_bigEndian_append {n : Nat} (h : n < 2 ^ 32) (bs : List UInt8) :
    readBigEndian (bigEndian n ++ bs) = n := by
  simp only [bigEndian, readBigEndian, List.cons_append, UInt8.toNat_ofNat']
  omega

/-- Only the first four bytes matter. -/
theorem readBigEndian_append {xs : List UInt8} (h : 4 ≤ xs.length) (ys : List UInt8) :
    readBigEndian (xs ++ ys) = readBigEndian xs := by
  match xs, h with
  | a :: b :: c :: d :: rest, _ => rfl

theorem readBigEndian_lt (xs : List UInt8) : readBigEndian xs < 2 ^ 32 := by
  match xs with
  | a :: b :: c :: d :: _ =>
    have ha := a.toNat_lt
    have hb := b.toNat_lt
    have hc := c.toNat_lt
    have hd := d.toNat_lt
    simp only [readBigEndian]
    omega
  | [] | [_] | [_, _] | [_, _, _] => simp [readBigEndian]

/-! ## Sign extension under a mask

A byte read as a signed character is sign extended before it is shifted; the mask
`0xFF << s` then cuts the copies of the sign bit off again. -/

/-- Sign extend the byte, shift it into place and mask it. -/
def maskedShift (b : UInt8) (s : Nat) : BitVec 32 :=
  (b.toBitVec.signExtend 32 <<< s) &&& (0xFF#32 <<< s)

theorem getElem_byteMask : ∀ i : Fin 32, (0xFF#32)[i.val] = decide (i.val < 8) := by
  decide

/-- The mask undoes the sign extension. -/
theorem maskedShift_eq (b : UInt8) (s : Nat) :
    maskedShift b s = b.toBitVec.setWidth 32 <<< s := by
  have hmask : b.toBitVec.signExtend 32 &&& 0xFF#32 = b.toBitVec.setWidth 32 := by
    generalize b.toBitVec = v
    ext i hi
    have hbit : (0xFF#32)[i] = decide (i < 8) := getElem_byteMask ⟨i, hi⟩
    rw [BitVec.getElem_and, BitVec.getElem_signExtend, BitVec.getElem_setWidth, hbit]
    by_cases h8 : i < 8
    · simp [h8, BitVec.getLsbD_eq_getElem]
    · simp [h8, BitVec.getLsbD_of_ge _ _ (Nat.le_of_not_lt h8)]
  rw [maskedShift, ← BitVec.shiftLeft_and_distrib, hmask]

theorem toNat_maskedShift (b : UInt8) {s : Nat} (hs : s ≤ 24) :
    (maskedShift b s).toNat = b.toNat * 2 ^ s := by
  have hb := b.toNat_lt
  have hpow : 2 ^ s ≤ 2 ^ 24 := Nat.pow_le_pow_right (by decide) hs
  have hlt : b.toNat * 2 ^ s < 2 ^ 32 := by
    calc b.toNat * 2 ^ s ≤ 255 * 2 ^ 24 := Nat.mul_le_mul (by omega) hpow
      _ < 2 ^ 32 := by decide
  rw [maskedShift_eq, BitVec.toNat_shiftLeft, BitVec.toNat_setWidth, Nat.shiftLeft_eq]
  have hsmall : b.toBitVec.toNat % 2 ^ 32 = b.toNat := by
    have : b.toBitVec.toNat = b.toNat := rfl
    omega
  rw [hsmall, Nat.mod_eq_of_lt hlt]

end StormNet.Foundation
