/-
  Foundation/Sweep.lean --- lists sorted by a rank: the sweep that stops at the first element
  that does not meet a predicate, and insertion behind the elements of the same rank.

  Nothing in this file names the repository.
-/
import Mathlib.Data.List.Basic

set_option autoImplicit false

namespace StormNet.Foundation

/-! ## Sweeps -/

section Sweep

variable {α : Type} {p : α → Bool} {l : List α}

/-- Where the predicate holds in front of wherever it holds, a sweep passes all that meet it. -/
theorem takeWhile_eq_filter (h : l.Pairwise (fun a b => p b = true → p a = true)) :
    l.takeWhile p = l.filter p := by
  induction l with
  | nil => rfl
  | cons a l ih =>
    obtain ⟨hhead, htail⟩ := List.pairwise_cons.mp h
    cases ha : p a with
    | true => rw [List.takeWhile_cons_of_pos ha, List.filter_cons_of_pos ha, ih htail]
    | false =>
      have hnone : l.filter p = [] := by
        rw [List.filter_eq_nil_iff]
        intro b hb hp
        rw [hhead b hb hp] at ha
        cases ha
      rw [List.takeWhile_cons_of_neg (by simp [ha]), List.filter_cons_of_neg (by simp [ha]), hnone]

/-- And leaves those that do not. -/
theorem dropWhile_eq_filter (h : l.Pairwise (fun a b => p b = true → p a = true)) :
    l.dropWhile p = l.filter (fun a => !p a) := by
  induction l with
  | nil => rfl
  | cons a l ih =>
    obtain ⟨hhead, htail⟩ := List.pairwise_cons.mp h
    cases ha : p a with
    | true =>
      rw [List.dropWhile_cons_of_pos ha, List.filter_cons_of_neg (by simp [ha]), ih htail]
    | false =>
      have hall : l.filter (fun b => !p b) = l := by
        rw [List.filter_eq_self]
        intro b hb
        cases hp : p b with
        | true =>
          rw [hhead b hb hp] at ha
          cases ha
        | false => rfl
      rw [List.dropWhile_cons_of_neg (by simp [ha]), List.filter_cons_of_pos (by simp [ha]), hall]

end Sweep

/-! ## Insertion -/

section Insertion

variable {α : Type} {rank : α → Nat} {l : List α}

/-- Insert behind the elements of at most the same rank. -/
def insertBehind (rank : α → Nat) : List α → α → List α
  | [], a => [a]
  | b :: l, a => if rank a < rank b then a :: b :: l else b :: insertBehind rank l a

theorem insertBehind_perm (l : List α) (a : α) : (insertBehind rank l a).Perm (a :: l) := by
  induction l with
  | nil => exact .refl _
  | cons b l ih =>
    rw [insertBehind]
    split
    · exact .refl _
    · exact (ih.cons b).trans (.swap a b l)

theorem pairwise_insertBehind (h : l.Pairwise (fun a b => rank a ≤ rank b)) (a : α) :
    (insertBehind rank l a).Pairwise (fun a b => rank a ≤ rank b) := by
  induction l with
  | nil => exact List.pairwise_singleton _ _
  | cons b l ih =>
    obtain ⟨hhead, htail⟩ := List.pairwise_cons.mp h
    rw [insertBehind]
    split
    · rename_i hlt
      refine List.pairwise_cons.mpr ⟨?_, h⟩
      intro c hc
      rcases List.mem_cons.mp hc with rfl | hc
      · exact Nat.le_of_lt hlt
      · exact Nat.le_trans (Nat.le_of_lt hlt) (hhead c hc)
    · rename_i hnot
      refine List.pairwise_cons.mpr ⟨?_, ih htail⟩
      intro c hc
      rcases List.mem_cons.mp ((insertBehind_perm l a).mem_iff.mp hc) with rfl | hc
      · exact Nat.le_of_not_lt hnot
      · exact hhead c hc

theorem foldl_insertBehind_perm (as l : List α) :
    (as.foldl (insertBehind rank) l).Perm (l ++ as) := by
  induction as generalizing l with
  | nil => rw [List.append_nil]; exact .refl _
  | cons a as ih =>
    exact (ih _).trans (((insertBehind_perm l a).append_right as).trans List.perm_middle.symm)

theorem pairwise_foldl_insertBehind (h : l.Pairwise (fun a b => rank a ≤ rank b))
    (as : List α) : (as.foldl (insertBehind rank) l).Pairwise (fun a b => rank a ≤ rank b) := by
  induction as generalizing l with
  | nil => exact h
  | cons a as ih => exact ih (pairwise_insertBehind h a)

end Insertion

end StormNet.Foundation
