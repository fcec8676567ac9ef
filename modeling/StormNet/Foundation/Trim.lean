/-
  Foundation/Trim.lean --- cutting what meets a predicate off both ends of a list.

  Nothing in this file names the repository.
-/
import Mathlib.Data.List.DropRight

set_option autoImplicit false

namespace StormNet.Foundation

variable {α : Type} {p : α → Bool} {l a b : List α} {c : α}

/-- Cut off the elements that meet `p`, in front and behind. -/
def trimBy (p : α → Bool) (l : List α) : List α := (l.dropWhile p).rdropWhile p

theorem rdropWhile_append_of_pos (h : ∀ c ∈ b, p c) : (l ++ b).rdropWhile p = l.rdropWhile p := by
  rw [List.rdropWhile, List.reverse_append, List.dropWhile_append_of_pos (by simpa using h)]
  rfl

/-- Nothing is cut off in front of an element that stays. -/
theorem rdropWhile_append_cons (h : ¬ p c) :
    (a ++ c :: b).rdropWhile p = a ++ c :: b.rdropWhile p := by
  induction b using List.reverseRecOn with
  | nil => rw [List.rdropWhile_concat_neg p _ _ h, List.rdropWhile_nil]
  | append_singleton b x ih =>
    rw [← List.cons_append, ← List.append_assoc]
    by_cases hx : p x
    · rw [List.rdropWhile_concat_pos p _ _ hx, List.rdropWhile_concat_pos p _ _ hx, ih]
    · rw [List.rdropWhile_concat_neg p _ _ hx, List.rdropWhile_concat_neg p _ _ hx,
        List.append_assoc, List.cons_append]

theorem dropWhile_append_cons (h : ¬ p c) :
    (a ++ c :: b).dropWhile p = a.dropWhile p ++ c :: b := by
  rw [List.dropWhile_append]
  split
  · rename_i hempty
    rw [List.dropWhile_cons_of_neg h, List.isEmpty_iff.mp hempty, List.nil_append]
  · rfl

theorem trimBy_append_left (h : ∀ c ∈ a, p c) : trimBy p (a ++ l) = trimBy p l := by
  rw [trimBy, List.dropWhile_append_of_pos h, trimBy]

theorem trimBy_append_right (h : ∀ c ∈ b, p c) : trimBy p (l ++ b) = trimBy p l := by
  rw [trimBy, List.dropWhile_append]
  split
  · rename_i hempty
    have hnil : b.dropWhile p = [] := List.dropWhile_eq_nil_iff.mpr h
    rw [trimBy, hnil, List.isEmpty_iff.mp hempty]
  · rw [rdropWhile_append_of_pos h, trimBy]

theorem trimBy_append_cons (h : ¬ p c) :
    trimBy p (a ++ c :: b) = a.dropWhile p ++ c :: b.rdropWhile p := by
  rw [trimBy, dropWhile_append_cons h, rdropWhile_append_cons h]

theorem trimBy_dropWhile : trimBy p (l.dropWhile p) = trimBy p l := by
  rw [trimBy, List.dropWhile_idempotent, trimBy]

theorem trimBy_rdropWhile : trimBy p (l.rdropWhile p) = trimBy p l := by
  have hrest : l.rdropWhile p ++ l.rtakeWhile p = l := List.rdropWhile_append_rtakeWhile ..
  have hgone : ∀ c ∈ l.rtakeWhile p, p c := fun c hc => List.mem_rtakeWhile_imp hc
  calc trimBy p (l.rdropWhile p)
      = trimBy p (l.rdropWhile p ++ l.rtakeWhile p) := (trimBy_append_right hgone).symm
    _ = trimBy p l := by rw [hrest]

/-- Trimming twice is trimming once. -/
theorem trimBy_trimBy : trimBy p (trimBy p l) = trimBy p l := by
  calc trimBy p (trimBy p l)
      = trimBy p (l.dropWhile p) := trimBy_rdropWhile
    _ = trimBy p l := trimBy_dropWhile

/-- Trimming only takes elements away. -/
theorem trimBy_sublist : (trimBy p l).Sublist l :=
  (List.rdropWhile_prefix ..).sublist.trans (List.dropWhile_suffix ..).sublist

/-- The first element of a list that is trimmed stays outside `p`. -/
theorem not_of_mem_head?_trimBy (h : c ∈ (trimBy p l).head?) : ¬ p c := by
  have hfirst := List.head?_dropWhile_not p l
  unfold trimBy at h
  cases hdrop : l.dropWhile p with
  | nil =>
    rw [hdrop] at h
    cases h
  | cons x rest =>
    rw [hdrop] at h hfirst
    have hx : ¬ p x := by simpa using hfirst
    rw [← List.nil_append (x :: rest), rdropWhile_append_cons hx] at h
    obtain rfl : x = c := Option.some.inj h
    exact hx

end StormNet.Foundation
