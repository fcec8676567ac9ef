/-
  Foundation/Munch.lean --- the longest match of a scanner.

  A pattern is a test of whole texts.  Of the rules of a scanner the one with the longest
  match is taken, and of several with the same length the first.

  Nothing in this file names the repository.
-/
import Mathlib.Data.List.Basic
import Mathlib.Data.Nat.Find

set_option autoImplicit false

namespace StormNet.Foundation

variable {α ρ : Type}

/-- The length of the longest prefix that matches; 0 when none does. -/
def longest (p : List α → Bool) (s : List α) : Nat :=
  Nat.findGreatest (fun n => p (s.take n) = true) s.length

/-- The rule that is taken, and the length of its match. -/
def munch (pattern : ρ → List α → Bool) (s : List α) : List ρ → Option (ρ × Nat)
  | [] => none
  | r :: rules =>
      let n := longest (pattern r) s
      match munch pattern s rules with
      | none => if n = 0 then none else some (r, n)
      | some (r', m) => if n < m then some (r', m) else some (r, n)

section Longest

variable {p : List α → Bool} {s t rest : List α} {n : Nat}

/-- Nothing longer matches. -/
theorem longest_append (ht : p t = true)
    (hmax : ∀ more, more ≠ [] → more <+: rest → p (t ++ more) = false) :
    longest p (t ++ rest) = t.length := by
  rw [longest, Nat.findGreatest_eq_iff]
  refine ⟨?_, fun _ => ?_, fun n hlt hle => ?_⟩
  · rw [List.length_append]
    exact Nat.le_add_right _ _
  · rwa [List.take_left']
    rfl
  · have hsplit : (t ++ rest).take n = t ++ rest.take (n - t.length) := by
      rw [List.take_append, List.take_of_length_le (Nat.le_of_lt hlt)]
    rw [List.length_append] at hle
    rw [hsplit, hmax _ ?_ (List.take_prefix _ _)]
    · exact Bool.false_ne_true
    · rw [Ne, List.take_eq_nil_iff, not_or]
      refine ⟨by omega, ?_⟩
      rintro rfl
      rw [List.length_nil] at hle
      omega

theorem longest_le (h : ∀ t, t <+: s → p t = true → t.length ≤ n) : longest p s ≤ n := by
  by_contra hlt
  have hpos : longest p s ≠ 0 := by omega
  have hmatch : p (s.take (longest p s)) = true :=
    Nat.findGreatest_of_ne_zero (P := fun n => p (s.take n) = true) rfl hpos
  have hlength := h _ (List.take_prefix _ _) hmatch
  have hle : longest p s ≤ s.length := Nat.findGreatest_le _
  rw [List.length_take, Nat.min_eq_left hle] at hlength
  omega

theorem longest_eq_zero (h : ∀ t, t <+: s → p t = false) : longest p s = 0 := by
  refine Nat.le_zero.mp (longest_le fun t ht hmatch => ?_)
  rw [h t ht] at hmatch
  cases hmatch

end Longest

section Munch

variable {pattern : ρ → List α → Bool} {s : List α} {rules : List ρ} {r : ρ} {n : Nat}

/-- No rule has a match that is longer than `n`. -/
theorem munch_le (h : ∀ r ∈ rules, longest (pattern r) s ≤ n) :
    ∀ found ∈ munch pattern s rules, found.2 ≤ n := by
  induction rules with
  | nil => exact fun _ hfound => by cases hfound
  | cons r rules ih =>
    rw [List.forall_mem_cons] at h
    have hrest := ih h.2
    rintro ⟨r', m⟩ hfound
    rw [Option.mem_def, munch] at hfound
    cases hmunch : munch pattern s rules with
    | none =>
      simp only [hmunch] at hfound
      split at hfound
      · cases hfound
      · cases hfound
        exact h.1
    | some best =>
      simp only [hmunch] at hfound
      split at hfound
      · cases hfound
        exact hrest _ hmunch
      · cases hfound
        exact h.1

/-- **The rule that is taken** beats the rules in front of it, and nothing behind it beats
it. -/
theorem munch_eq (before after : List ρ) (hr : longest (pattern r) s = n) (hn : 0 < n)
    (hbefore : ∀ r' ∈ before, longest (pattern r') s < n)
    (hafter : ∀ r' ∈ after, longest (pattern r') s ≤ n) :
    munch pattern s (before ++ r :: after) = some (r, n) := by
  induction before with
  | nil =>
    rw [List.nil_append, munch, hr]
    cases hmunch : munch pattern s after with
    | none => simp only [Nat.ne_of_gt hn, if_false]
    | some best =>
      have hle := munch_le hafter best hmunch
      simp only [Nat.not_lt.mpr hle, if_false]
  | cons r' before ih =>
    rw [List.forall_mem_cons] at hbefore
    rw [List.cons_append, munch, ih hbefore.2]
    simp only [hbefore.1, if_true]

end Munch

end StormNet.Foundation
