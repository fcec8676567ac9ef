/-
  Foundation/Scan.lean --- loops that read a list from the front under a 32-bit counter.

  The loop is `for (unsigned i = 0; i < size; ++i)`: a turn looks at the list from `i` on,
  appends to the result, and may move `i` on by itself.  Where the size fits the counter, the
  loop is `scan`, a recursion over the list (`loop_eq_scan`).  Where it does not, the counter
  wraps and the loop never ends (`loopFuel_eq_none`).

  Nothing in this file names the repository.
-/
import Mathlib.Data.List.Basic
import Mathlib.Data.Nat.Basic

set_option autoImplicit false

namespace StormNet.Foundation

variable {α β : Type} {turn : List α → List β × Nat} {s : List α}

/-- At most `fuel` turns of the loop: each appends the list that `turn` gives and moves the
counter by the number.  `none` when the loop is still running. -/
def loopFuel (turn : List α → List β × Nat) (s : List α) : Nat → UInt32 → List β → Option (List β)
  | 0, _, _ => none
  | fuel + 1, i, r =>
      if i.toNat < s.length then
        let (piece, moved) := turn (s.drop i.toNat)
        loopFuel turn s fuel (i + UInt32.ofNat moved + 1) (r ++ piece)
      else some r

/-- The loop.  One turn more than the list is long is enough for a loop that ends. -/
def loop (turn : List α → List β × Nat) (s : List α) : Option (List β) :=
  loopFuel turn s (s.length + 1) 0 []

/-- A counter that is always below the size. -/
theorem loopFuel_eq_none (h : UInt32.size ≤ s.length) (fuel : Nat) (i : UInt32) (r : List β) :
    loopFuel turn s fuel i r = none := by
  induction fuel generalizing i r with
  | zero => rfl
  | succ fuel ih =>
    have hless : i.toNat < s.length := Nat.lt_of_lt_of_le i.toNat_lt h
    rw [loopFuel, if_pos hless]
    exact ih _ _

/-- The turns, one after the other. -/
def scan (turn : List α → List β × Nat) : List α → List β
  | [] => []
  | x :: xs => (turn (x :: xs)).1 ++ scan turn (xs.drop (turn (x :: xs)).2)
  termination_by xs => xs.length
  decreasing_by
    rw [List.length_drop, List.length_cons]
    omega

@[simp] theorem scan_nil : scan turn [] = [] := by rw [scan]

theorem scan_of_ne_nil (hs : s ≠ []) :
    scan turn s = (turn s).1 ++ scan turn (s.drop ((turn s).2 + 1)) := by
  cases s with
  | nil => exact absurd rfl hs
  | cons x xs => rw [scan, List.drop_succ_cons]

/-- No turn moves the counter behind the end. -/
def Inside (turn : List α → List β × Nat) : Prop := ∀ l, l ≠ [] → (turn l).2 < l.length

theorem loopFuel_eq_scan (hinside : Inside turn) (h : s.length < UInt32.size) {fuel : Nat}
    {i : UInt32} (hi : i.toNat ≤ s.length) (hfuel : s.length - i.toNat < fuel) (r : List β) :
    loopFuel turn s fuel i r = some (r ++ scan turn (s.drop i.toNat)) := by
  induction fuel generalizing i r with
  | zero => exact absurd hfuel (Nat.not_lt_zero _)
  | succ fuel ih =>
    rw [loopFuel]
    split
    · rename_i hless
      have hne : s.drop i.toNat ≠ [] := List.ne_nil_of_length_pos (by
        rw [List.length_drop]
        omega)
      have hmoved := hinside _ hne
      rw [List.length_drop] at hmoved
      rw [scan_of_ne_nil hne]
      generalize turn (s.drop i.toNat) = t at hmoved ⊢
      obtain ⟨piece, moved⟩ := t
      simp only at hmoved ⊢
      have hnext : (i + UInt32.ofNat moved + 1).toNat = i.toNat + (moved + 1) := by
        have hword : UInt32.size = 2 ^ 32 := rfl
        have hofNat : (UInt32.ofNat moved).toNat = moved := UInt32.toNat_ofNat_of_lt' (by omega)
        have hone : (1 : UInt32).toNat = 1 := rfl
        rw [UInt32.toNat_add, UInt32.toNat_add, hofNat, hone]
        omega
      rw [ih (by omega) (by omega), hnext, List.drop_drop, List.append_assoc]
    · rename_i hend
      have hnil : s.drop i.toNat = [] := List.drop_eq_nil_iff.mpr (Nat.le_of_not_lt hend)
      rw [hnil, scan_nil, List.append_nil]

/-- **The loop is a recursion over the list** when its size fits the counter. -/
theorem loop_eq_scan (hinside : Inside turn) (h : s.length < UInt32.size) :
    loop turn s = some (scan turn s) :=
  loopFuel_eq_scan hinside h (Nat.zero_le _) (Nat.lt_succ_self _) []

theorem loop_eq_none (h : UInt32.size ≤ s.length) : loop turn s = none :=
  loopFuel_eq_none h _ _ _

/-- A loop that takes the elements one by one. -/
theorem scan_eq_flatMap {f : α → List β} (h : ∀ x xs, turn (x :: xs) = (f x, 0)) (s : List α) :
    scan turn s = s.flatMap f := by
  induction s with
  | nil => rw [scan_nil, List.flatMap_nil]
  | cons x xs ih => rw [scan, h, List.drop_zero, ih, List.flatMap_cons]

theorem loop_eq_flatMap {f : α → List β} (hturn : ∀ x xs, turn (x :: xs) = (f x, 0))
    (h : s.length < UInt32.size) : loop turn s = some (s.flatMap f) := by
  have hinside : Inside turn := by
    intro l hl
    cases l with
    | nil => exact absurd rfl hl
    | cons x xs =>
      rw [hturn]
      exact Nat.zero_lt_succ _
  rw [loop_eq_scan hinside h, scan_eq_flatMap hturn]

/-- **The round trip of a code.**  A turn that reads one code word, whatever comes behind it,
reads what was written word by word. -/
theorem scan_flatMap {turn : List β → List α × Nat} {f : α → List β}
    (h : ∀ x t, turn (f x ++ t) = ([x], (f x).length - 1)) (hne : ∀ x, f x ≠ []) (s : List α) :
    scan turn (s.flatMap f) = s := by
  induction s with
  | nil => rw [List.flatMap_nil, scan_nil]
  | cons x xs ih =>
    have hpos := List.length_pos_iff.mpr (hne x)
    have hdrop : (f x ++ xs.flatMap f).drop ((f x).length - 1 + 1) = xs.flatMap f := by
      rw [show (f x).length - 1 + 1 = (f x).length by omega, List.drop_left]
    rw [List.flatMap_cons, scan_of_ne_nil (List.append_ne_nil_of_left_ne_nil (hne x) _), h, hdrop,
      ih, List.singleton_append]

end StormNet.Foundation
