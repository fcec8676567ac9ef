/-
  Foundation/Table.lean --- what a sorted map holds after each operation, as
  statements about single entries.

  Nothing in this file names the repository.
-/
import Mathlib.Data.List.Basic

set_option autoImplicit false

namespace StormNet.Foundation.Table

open Std

variable {K V : Type} [Ord K] [TransOrd K] [LawfulEqOrd K]
variable {t : TreeMap K V} {k a : K} {v w : V}

theorem getElem?_insert_eq_some :
    (t.insert k v)[a]? = some w ↔ (a = k ∧ v = w) ∨ (a ≠ k ∧ t[a]? = some w) := by
  rw [TreeMap.getElem?_insert]
  by_cases hka : compare k a = .eq
  · rw [if_pos hka]
    simp [compare_eq_iff_eq.mp hka]
  · rw [if_neg hka]
    have hne : a ≠ k := fun h => hka (compare_eq_iff_eq.mpr h.symm)
    simp [hne]

theorem getElem?_insert_of_ne (h : a ≠ k) : (t.insert k v)[a]? = t[a]? := by
  have hka : ¬ compare k a = .eq := fun heq => h (compare_eq_iff_eq.mp heq).symm
  rw [TreeMap.getElem?_insert, if_neg hka]

theorem getElem?_erase_eq_some :
    (t.erase k)[a]? = some w ↔ a ≠ k ∧ t[a]? = some w := by
  rw [TreeMap.getElem?_erase]
  by_cases hka : compare k a = .eq
  · rw [if_pos hka]
    simp [compare_eq_iff_eq.mp hka]
  · rw [if_neg hka]
    have hne : a ≠ k := fun h => hka (compare_eq_iff_eq.mpr h.symm)
    simp [hne]

theorem getElem?_filter_eq_some {f : K → V → Bool} :
    (t.filter f)[a]? = some w ↔ t[a]? = some w ∧ f a w = true := by
  rw [TreeMap.getElem?_filter', Option.filter_eq_some_iff]

/-- The values of a map, in key order, are the values of its entries. -/
theorem mem_values : v ∈ t.toList.map (·.2) ↔ ∃ k : K, t[k]? = some v := by
  simp only [List.mem_map, Prod.exists, TreeMap.mem_toList_iff_getElem?_eq_some]
  constructor
  · rintro ⟨k, v', h, rfl⟩
    exact ⟨k, h⟩
  · rintro ⟨k, h⟩
    exact ⟨k, v, h, rfl⟩

/-- If no value stands under two keys, the values are listed without repetition. -/
theorem nodup_values (hinj : ∀ (k k' : K) (v : V), t[k]? = some v → t[k']? = some v → k = k') :
    (t.toList.map (·.2)).Nodup := by
  refine List.Pairwise.map _ ?_ (List.Pairwise.and_mem.mp TreeMap.distinct_keys_toList)
  rintro ⟨k, v⟩ ⟨k', v'⟩ ⟨hmem, hmem', hne⟩ (rfl : v = v')
  rw [TreeMap.mem_toList_iff_getElem?_eq_some] at hmem hmem'
  exact hne (compare_eq_iff_eq.mpr (hinj k k' v hmem hmem'))

end StormNet.Foundation.Table
