/-
  Foundation/Assoc.lean --- maps as lists of pairs, in the order in which their keys came.

  `pick m keys` is the part of `m` at the keys of a list, in the order of the list.  A map
  whose keys all came by way of the list is picked out by it.

  Nothing in this file names the repository.
-/
import Mathlib.Data.List.Basic

set_option autoImplicit false

namespace StormNet.Foundation.Assoc

variable {K V : Type} [DecidableEq K] {m : List (K × V)} {k a : K} {v : V} {keys : List K}

/-- Look a key up. -/
def find (m : List (K × V)) (k : K) : Option V := m.lookup k

theorem isSome_find_iff : (find m k).isSome ↔ k ∈ m.map (·.1) := by
  rw [find, List.lookup_isSome_iff]
  simp

/-- Assign a key: in its place, or at the end. -/
def assign (m : List (K × V)) (k : K) (v : V) : List (K × V) :=
  if (find m k).isSome then m.map (fun p => if p.1 = k then (k, v) else p) else m ++ [(k, v)]

theorem assign_of_none (h : find m k = none) : assign m k v = m ++ [(k, v)] := by
  rw [assign, h]
  rfl

@[simp] theorem find_nil : find ([] : List (K × V)) k = none := rfl

theorem find_append (m m' : List (K × V)) (a : K) :
    find (m ++ m') a = (find m a).or (find m' a) := List.lookup_append

theorem find_cons (a b : K) (w : V) (m : List (K × V)) :
    find ((b, w) :: m) a = if a = b then some w else find m a := by
  rw [find, List.lookup_cons]
  split
  · rename_i heq
    rw [if_pos (eq_of_beq heq)]
  · rename_i hne
    rw [if_neg (ne_of_beq_false hne), find]

theorem find_replace (m : List (K × V)) (k a : K) (v : V) :
    find (m.map (fun p => if p.1 = k then (k, v) else p)) a =
      if a = k then (find m k).map (fun _ => v) else find m a := by
  induction m with
  | nil => simp
  | cons p m ih =>
    obtain ⟨b, w⟩ := p
    rw [List.map_cons, find_cons, find_cons]
    by_cases hbk : b = k
    · rw [if_pos hbk, find_cons, ih, if_pos hbk.symm]
      by_cases hak : a = k
      · simp [hak]
      · simp [hak, hbk]
    · rw [if_neg hbk, find_cons, ih, if_neg (Ne.symm hbk)]
      by_cases hak : a = k
      · simp [hak, Ne.symm hbk]
      · simp [hak]

/-- An assigned key has its new value, the others keep theirs. -/
theorem find_assign (m : List (K × V)) (k a : K) (v : V) :
    find (assign m k v) a = if a = k then some v else find m a := by
  unfold assign
  split
  · rename_i hk
    rw [find_replace]
    obtain ⟨w, hw⟩ := Option.isSome_iff_exists.mp hk
    rw [hw, Option.map_some]
  · rename_i hk
    rw [find_append, find_cons, find_nil]
    by_cases hak : a = k
    · simp [hak, Option.not_isSome_iff_eq_none.mp hk]
    · simp [hak]

@[simp] theorem find_assign_self : find (assign m k v) k = some v := by
  rw [find_assign, if_pos rfl]

theorem find_assign_of_ne (h : a ≠ k) : find (assign m k v) a = find m a := by
  rw [find_assign, if_neg h]

/-- An assignment to a key that is there leaves the keys as they are. -/
theorem isSome_find_assign (h : (find m k).isSome) (v : V) (a : K) :
    (find (assign m k v) a).isSome = (find m a).isSome := by
  rw [find_assign]
  split
  · rename_i heq
    rw [heq, h]
    rfl
  · rfl

theorem replace_of_none (h : find m k = none) :
    m.map (fun p => if p.1 = k then (k, v) else p) = m := by
  have hne : ∀ p ∈ m, p.1 ≠ k := by
    intro p hp heq
    have hbne := List.lookup_eq_none_iff.mp h p hp
    simp [heq] at hbne
  calc m.map (fun p => if p.1 = k then (k, v) else p)
      = m.map id := List.map_congr_left fun p hp => if_neg (hne p hp)
    _ = m := List.map_id m

/-- Only the last assignment of a key counts. -/
theorem assign_assign (m : List (K × V)) (k : K) (v w : V) :
    assign (assign m k v) k w = assign m k w := by
  have hagain : (find (assign m k v) k).isSome := by
    rw [find_assign_self]
    rfl
  rw [assign, if_pos hagain]
  cases hfind : find m k with
  | none => rw [assign_of_none hfind, assign_of_none hfind, List.map_append,
      replace_of_none hfind, List.map_singleton, if_pos rfl]
  | some old =>
    have hold : (find m k).isSome := by
      rw [hfind]
      rfl
    rw [assign, if_pos hold, assign, if_pos hold, List.map_map]
    apply List.map_congr_left
    intro p _
    by_cases hp : p.1 = k <;> simp [hp]

/-- The part of a map at the keys of a list. -/
def pick (m : List (K × V)) (keys : List K) : List (K × V) :=
  keys.filterMap (fun k => (find m k).map (k, ·))

theorem pick_append (m : List (K × V)) (keys keys' : List K) :
    pick m (keys ++ keys') = pick m keys ++ pick m keys' := List.filterMap_append

theorem pick_singleton_of_some (h : find m k = some v) : pick m [k] = [(k, v)] := by
  simp [pick, h]

theorem pick_singleton_of_none (h : find m k = none) : pick m [k] = [] := by
  simp [pick, h]

theorem find_pick : find (pick m keys) k = if k ∈ keys then find m k else none := by
  induction keys with
  | nil => rfl
  | cons b keys ih =>
    rw [← List.singleton_append, pick_append, find_append, ih]
    cases hb : find m b with
    | none =>
      rw [pick_singleton_of_none hb]
      by_cases hkb : k = b
      · simp [hkb, hb]
      · simp [hkb]
    | some w =>
      rw [pick_singleton_of_some hb, find_cons]
      by_cases hkb : k = b
      · simp [hkb, hb]
      · simp [hkb]

/-- Only the keys of the list count. -/
theorem pick_congr {m' : List (K × V)} (h : ∀ k ∈ keys, find m' k = find m k) :
    pick m' keys = pick m keys := by
  apply List.filterMap_congr
  intro k hk
  rw [h k hk]

/-- The map has its keys from the list, in the order of the list. -/
def Ordered (keys : List K) (m : List (K × V)) : Prop := pick m keys = m

/-- A key of an ordered map is in the list. -/
theorem Ordered.mem (h : Ordered keys m) (hk : find m k ≠ none) : k ∈ keys := by
  rw [← h, find_pick] at hk
  apply Decidable.of_not_not
  intro hnot
  exact hk (if_neg hnot)

/-- The keys of an ordered map are some of those of the list. -/
theorem Ordered.sublist (h : Ordered keys m) : (m.map (·.1)).Sublist keys := by
  have hpick : ∀ keys : List K, ((pick m keys).map (·.1)).Sublist keys := by
    intro keys
    induction keys with
    | nil => exact .slnil
    | cons b keys ih =>
      rw [← List.singleton_append, pick_append, List.map_append]
      refine List.Sublist.append ?_ ih
      cases hb : find m b with
      | none =>
        rw [pick_singleton_of_none hb]
        exact List.nil_sublist _
      | some w =>
        rw [pick_singleton_of_some hb]
        exact List.Sublist.refl _
  have hsub := hpick keys
  rw [h] at hsub
  exact hsub

/-- The key goes to another map. -/
theorem Ordered.skip (h : Ordered keys m) (hk : find m k = none) : Ordered (keys ++ [k]) m := by
  rw [Ordered, pick_append, h, pick_singleton_of_none hk, List.append_nil]

/-- A new key goes to the end of both. -/
theorem Ordered.append (h : Ordered keys m) (hk : k ∉ keys) :
    Ordered (keys ++ [k]) (assign m k v) := by
  have hnone : find m k = none := by
    cases hlookup : find m k with
    | none => rfl
    | some w => exact absurd (h.mem (by simp [hlookup])) hk
  have hold : pick (assign m k v) keys = pick m keys := by
    apply pick_congr
    intro a ha
    exact find_assign_of_ne fun heq => hk (heq ▸ ha)
  rw [Ordered, pick_append, hold, h, pick_singleton_of_some find_assign_self,
    assign_of_none hnone]

/-- A key that is there keeps its place. -/
theorem Ordered.replace (h : Ordered keys m) (hk : (find m k).isSome) :
    Ordered keys (assign m k v) := by
  have hassign : assign m k v = m.map (fun p => if p.1 = k then (k, v) else p) := if_pos hk
  have hpick : pick (assign m k v) keys =
      (pick m keys).map (fun p => if p.1 = k then (k, v) else p) := by
    rw [pick, pick, List.map_filterMap]
    apply List.filterMap_congr
    intro a _
    rw [find_assign]
    by_cases hak : a = k
    · obtain ⟨w, hw⟩ := Option.isSome_iff_exists.mp hk
      simp [hak, hw]
    · cases find m a <;> simp [hak]
  rw [Ordered, hpick, h, hassign]

end StormNet.Foundation.Assoc
