/-
  Foundation/Grouping.lean --- a list taken apart into one list for each key.

  The groups are a function of the key; a key that nothing has gets the empty list.

  Nothing in this file names the repository.
-/
import Mathlib.Data.List.Nodup
import Mathlib.Logic.Function.Basic

set_option autoImplicit false

namespace StormNet.Foundation.Grouping

variable {α κ β : Type} [DecidableEq κ]

/-- Append a value to the group of its key. -/
def push (key : α → κ) (groups : κ → List α) (a : α) : κ → List α :=
  Function.update groups (key a) (groups (key a) ++ [a])

/-- The values of a list with the given key, in order. -/
def group (key : α → κ) (as : List α) (k : κ) : List α := as.filter (fun a => key a = k)

variable {key : α → κ} {as : List α} {a : α} {k : κ}

theorem push_apply (groups : κ → List α) (a : α) (k : κ) :
    push key groups a k = groups k ++ if k = key a then [a] else [] := by
  rw [push, Function.update_apply]
  split
  · rename_i heq
    rw [heq]
  · rw [List.append_nil]

/-- Pushing the values of a list one by one groups them. -/
theorem foldl_push (as : List α) (groups : κ → List α) (k : κ) :
    as.foldl (push key) groups k = groups k ++ group key as k := by
  induction as generalizing groups with
  | nil => simp [group]
  | cons a as ih =>
    rw [List.foldl_cons, ih, push_apply, group, group]
    by_cases hk : k = key a
    · simp [hk]
    · rw [if_neg hk, List.filter_cons_of_neg (by simpa using Ne.symm hk), List.append_nil]

@[simp] theorem mem_group : a ∈ group key as k ↔ a ∈ as ∧ key a = k := by
  simp [group]

/-- Grouping goes through a map that keeps the keys. -/
theorem map_group {key' : β → κ} (f : α → β) (hkey : ∀ a, key' (f a) = key a) (as : List α)
    (k : κ) : (group key as k).map f = group key' (as.map f) k := by
  simp only [group, List.filter_map]
  congr 1
  apply List.filter_congr
  intro a _
  simp [hkey]

/-- Lists with the same keys in the same order are told apart by their groups. -/
theorem eq_of_groups_eq {bs : List α} (hkeys : as.map key = bs.map key)
    (hgroups : ∀ k, group key as k = group key bs k) : as = bs := by
  induction as generalizing bs with
  | nil => exact (List.map_eq_nil_iff.mp hkeys.symm).symm
  | cons a as ih =>
    cases bs with
    | nil => cases hkeys
    | cons b bs =>
      obtain ⟨hkey, htail⟩ := List.cons_eq_cons.mp hkeys
      have hown := hgroups (key b)
      simp only [group, hkey, decide_true, List.filter_cons_of_pos, List.cons.injEq] at hown
      obtain ⟨rfl, hrest⟩ := hown
      rw [ih htail]
      intro k
      by_cases hk : key a = k
      · rw [← hk]
        exact hrest
      · have hother := hgroups k
        simp only [group] at hother
        rwa [List.filter_cons_of_neg (by simpa using hk),
          List.filter_cons_of_neg (by simpa using hk)] at hother

/-- No group repeats a label if and only if no label and key come together twice. -/
theorem nodup_groups_iff (label : α → β) (as : List α) :
    (∀ k, ((group key as k).map label).Nodup) ↔ (as.map (fun a => (key a, label a))).Nodup := by
  induction as with
  | nil => simp [group]
  | cons a as ih =>
    have hother : ∀ k, k ≠ key a → group key (a :: as) k = group key as k := by
      intro k hk
      exact List.filter_cons_of_neg (by simpa using Ne.symm hk)
    have hown : group key (a :: as) (key a) = a :: group key as (key a) :=
      List.filter_cons_of_pos (by simp)
    rw [List.map_cons, List.nodup_cons, ← ih]
    have hfresh : label a ∉ (group key as (key a)).map label ↔
        (key a, label a) ∉ as.map (fun a => (key a, label a)) := by
      simp only [List.mem_map, mem_group, Prod.mk.injEq, not_exists, not_and]
      constructor
      · intro h b hb hkey hlabel
        exact h b ⟨hb, hkey⟩ hlabel
      · intro h b hb hlabel
        exact h b hb.1 hb.2 hlabel
    constructor
    · intro h
      have hhead := h (key a)
      rw [hown, List.map_cons, List.nodup_cons] at hhead
      refine ⟨hfresh.mp hhead.1, fun k => ?_⟩
      by_cases hk : k = key a
      · rw [hk]
        exact hhead.2
      · rw [← hother k hk]
        exact h k
    · intro h k
      by_cases hk : k = key a
      · rw [hk, hown, List.map_cons, List.nodup_cons]
        exact ⟨hfresh.mpr h.1, h.2 (key a)⟩
      · rw [hother k hk]
        exact h.2 k

end StormNet.Foundation.Grouping
