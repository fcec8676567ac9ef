/-
  Framework/EndPointUpdate.lean --- what `ServiceProxy::updateEndPoints` does with one answer
  of the registry.

  The loop searches `all`, the endpoints known before, for each address of the answer and
  takes out what it finds, so an address that is named again finds the endpoint behind the
  one taken before.  For each address the endpoints that are left are therefore those known
  at that address, less as many from the front as the answer has named it so far.
-/
import Mathlib.Data.List.Perm.Basic
import Mathlib.Logic.Function.Basic
import StormNet.Framework.EndPointLists

set_option autoImplicit false

namespace StormNet.Framework

namespace EndPointLists

open Function (update)

/-- The endpoints known before an update, in the order in which `all` is filled. -/
def known (s : EndPointLists) : List EndPoint := s.active ++ s.inactive

/-- No endpoint stands in the lists twice, and all of them have been created. -/
structure Unique (s : EndPointLists) : Prop where
  nodup : s.known.Nodup
  created : ∀ ep ∈ s.known, ep < s.created

instance (s : EndPointLists) : Decidable s.Unique :=
  decidable_of_iff (s.known.Nodup ∧ ∀ ep ∈ s.known, ep < s.created)
    ⟨fun h => ⟨h.1, h.2⟩, fun h => ⟨h.nodup, h.created⟩⟩

/-- The endpoint that the address `a` behind the addresses `before` of an answer finds: with
`before` naming `a` `n` times already, the one known at `a` in front of which there are `n`. -/
def foundFor (s : EndPointLists) (before : List Address) (a : Address) : Option EndPoint :=
  (s.known.filter (s.isAt a))[before.count a]?

/-- The endpoint active at the place of the answer behind `before` is the one found there,
and a new one where there is none. -/
def TakenFor (s t : EndPointLists) (before : List Address) (a : Address) : Prop :=
  ∃ ep, t.active[before.length]? = some ep ∧
    (s.foundFor before a = some ep ∨ s.foundFor before a = none ∧ s.created ≤ ep)

/-- `t` is what the answer `ack` of the registry makes of `s`. -/
structure Applied (s : EndPointLists) (ack : List Address) (t : EndPointLists) : Prop where
  /-- the active endpoints are at the addresses of the answer -/
  addresses : t.active.map t.address = ack
  /-- an endpoint known before is in one of the lists, once -/
  once : ∀ ep ∈ s.known, t.active.count ep + t.inactive.count ep = 1
  /-- and still has its address -/
  kept : ∀ ep ∈ s.known, t.address ep = s.address ep
  /-- each place of the answer takes the next endpoint known at its address -/
  taken : ∀ before a after, ack = before ++ a :: after → s.TakenFor t before a
  /-- the first of an address takes the first one known there -/
  first : ∀ before a after ep, ack = before ++ a :: after → a ∉ before →
    s.known.find? (s.isAt a) = some ep → t.active[before.length]? = some ep

theorem foundFor_first (s : EndPointLists) {before : List Address} {a : Address}
    (h : a ∉ before) : s.foundFor before a = s.known.find? (s.isAt a) := by
  rw [foundFor, List.count_eq_zero_of_not_mem h, ← List.head?_filter, List.head?_eq_getElem?]

/-! ## Taking out of the endpoints left -/

section Take

variable {α : Type} [DecidableEq α] {p q : α → Bool} {l : List α} {x : α}

theorem filter_erase_found (h : l.find? p = some x) :
    (l.erase x).filter p = (l.filter p).tail := by
  have hhead : (l.filter p).head? = some x := by rw [List.head?_filter, h]
  obtain ⟨rest, hrest⟩ := List.head?_eq_some_iff.mp hhead
  rw [← List.erase_filter, hrest, List.erase_cons_head, List.tail_cons]

theorem filter_erase_other (h : q x = false) : (l.erase x).filter q = l.filter q := by
  have hnot : x ∉ l.filter q := by
    intro hmem
    rw [(List.mem_filter.mp hmem).2] at h
    cases h
  rw [← List.erase_filter, List.erase_of_not_mem hnot]

end Take

/-! ## The loop over the answer -/

variable {s : EndPointLists} {u : EndPointLists × List EndPoint} {done : List Address}

/-- The loop over an answer behind the addresses `done`. -/
structure Updating (s : EndPointLists) (done : List Address)
    (u : EndPointLists × List EndPoint) : Prop where
  addresses : u.1.active.map u.1.address = done
  nodup : (u.1.active ++ u.2).Nodup
  created : ∀ ep ∈ u.1.active ++ u.2, ep < u.1.created
  grown : s.created ≤ u.1.created
  there : ∀ ep ∈ s.known, ep ∈ u.1.active ++ u.2
  left : ∀ ep ∈ u.2, ep ∈ s.known
  kept : ∀ ep, ep < s.created → u.1.address ep = s.address ep
  remaining : ∀ a, u.2.filter (s.isAt a) = (s.known.filter (s.isAt a)).drop (done.count a)
  taken : ∀ before a after, done = before ++ a :: after → s.TakenFor u.1 before a

theorem Updating.find? (h : Updating s done u) (a : Address) :
    u.2.find? (s.isAt a) = s.foundFor done a := by
  rw [← List.head?_filter, h.remaining, List.head?_drop, foundFor]

/-- The search of a turn looks at addresses no turn changes. -/
theorem Updating.find?_isAt (h : Updating s done u) (hs : s.Unique) (a : Address) :
    u.2.find? (u.1.isAt a) = u.2.find? (s.isAt a) := by
  have hsame : u.2.filter (u.1.isAt a) = u.2.filter (s.isAt a) := by
    apply List.filter_congr
    intro ep hep
    rw [isAt, isAt, h.kept ep (hs.created ep (h.left ep hep))]
  rw [← List.head?_filter, hsame, List.head?_filter]

theorem Updating.length (h : Updating s done u) : u.1.active.length = done.length := by
  rw [← h.addresses, List.length_map]

/-- The places in front of the last one are as they were. -/
theorem Updating.taken_concat (h : Updating s done u) {t : EndPointLists} {ep : EndPoint}
    {a : Address} (hactive : t.active = u.1.active ++ [ep])
    (hnew : s.foundFor done a = some ep ∨ s.foundFor done a = none ∧ s.created ≤ ep)
    {before after : List Address} {b : Address} (hdone : done ++ [a] = before ++ b :: after) :
    s.TakenFor t before b := by
  rcases List.eq_nil_or_concat after with hnil | ⟨middle, c, hconcat⟩
  · subst hnil
    obtain ⟨hbefore, hb⟩ := List.append_inj' hdone rfl
    cases hb
    subst hbefore
    refine ⟨ep, ?_, hnew⟩
    rw [hactive, ← h.length, List.getElem?_concat_length]
  · subst hconcat
    have hsplit : done ++ [a] = (before ++ b :: middle) ++ [c] := by
      rw [hdone, List.concat_eq_append, List.append_assoc, List.cons_append]
    obtain ⟨hbefore, -⟩ := List.append_inj' hsplit rfl
    obtain ⟨old, hold, htaken⟩ := h.taken before b middle hbefore
    refine ⟨old, ?_, htaken⟩
    obtain ⟨hlt, -⟩ := List.getElem?_eq_some_iff.mp hold
    rw [hactive, List.getElem?_append_left hlt, hold]

/-- A turn that finds an endpoint. -/
theorem Updating.found (h : Updating s done u) {a : Address} {ep : EndPoint}
    (hfind : u.2.find? (s.isAt a) = some ep) (hfor : s.foundFor done a = some ep)
    (hs : s.Unique) :
    Updating s (done ++ [a]) ({ u.1 with active := u.1.active ++ [ep] }, u.2.erase ep) := by
  have hmem : ep ∈ u.2 := List.mem_of_find?_eq_some hfind
  have hat : s.address ep = a := by simpa [isAt] using List.find?_some hfind
  have hold : ep < s.created := hs.created ep (h.left ep hmem)
  have hperm : (u.1.active ++ [ep] ++ u.2.erase ep).Perm (u.1.active ++ u.2) := by
    rw [List.append_assoc]
    exact (List.perm_cons_erase hmem).symm.append_left u.1.active
  constructor
  case addresses =>
    show (u.1.active ++ [ep]).map u.1.address = done ++ [a]
    rw [List.map_append, h.addresses, List.map_singleton, h.kept ep hold, hat]
  case nodup => exact hperm.nodup_iff.mpr h.nodup
  case created => exact fun e he => h.created e (hperm.mem_iff.mp he)
  case grown => exact h.grown
  case there => exact fun e he => hperm.mem_iff.mpr (h.there e he)
  case left => exact fun e he => h.left e (List.mem_of_mem_erase he)
  case kept => exact h.kept
  case remaining =>
    intro b
    show (u.2.erase ep).filter (s.isAt b) = _
    by_cases hb : b = a
    · subst hb
      rw [filter_erase_found hfind, h.remaining, List.tail_drop, List.count_append,
        List.count_singleton_self]
    · have hother : s.isAt b ep = false := by simpa [isAt, hat] using Ne.symm hb
      rw [filter_erase_other hother, h.remaining, List.count_append,
        List.count_singleton, beq_eq_false_iff_ne.mpr (Ne.symm hb)]
      rfl
  case taken =>
    intro before b after hdone
    exact h.taken_concat rfl (Or.inl hfor) hdone

/-- A turn that finds none. -/
theorem Updating.create (h : Updating s done u) {a : Address}
    (hfor : s.foundFor done a = none) :
    Updating s (done ++ [a]) (u.1.create a, u.2) := by
  have hfresh : ∀ ep ∈ u.1.active ++ u.2, ep ≠ u.1.created :=
    fun ep hep => Nat.ne_of_lt (h.created ep hep)
  have hperm : (u.1.active ++ [u.1.created] ++ u.2).Perm
      (u.1.created :: (u.1.active ++ u.2)) := by
    rw [List.append_assoc]
    exact List.perm_middle
  constructor
  case addresses =>
    have hsame : u.1.active.map (update u.1.address u.1.created a) = done := by
      rw [← h.addresses]
      apply List.map_congr_left
      intro ep hep
      exact Function.update_of_ne (hfresh ep (List.mem_append_left _ hep)) _ _
    show (u.1.active ++ [u.1.created]).map (update u.1.address u.1.created a) = done ++ [a]
    rw [List.map_append, hsame, List.map_singleton, Function.update_self]
  case nodup =>
    refine hperm.nodup_iff.mpr (List.nodup_cons.mpr ⟨?_, h.nodup⟩)
    exact fun hmem => hfresh _ hmem rfl
  case created =>
    intro ep hep
    show ep < u.1.created + 1
    rcases List.mem_cons.mp (hperm.mem_iff.mp hep) with hnew | hmem
    · exact hnew ▸ Nat.lt_succ_self _
    · exact Nat.lt_succ_of_lt (h.created ep hmem)
  case grown => exact Nat.le_succ_of_le h.grown
  case there =>
    exact fun ep hep => hperm.mem_iff.mpr (List.mem_cons_of_mem _ (h.there ep hep))
  case left => exact h.left
  case kept =>
    intro ep hep
    have hne : ep ≠ u.1.created := Nat.ne_of_lt (Nat.lt_of_lt_of_le hep h.grown)
    exact (Function.update_of_ne hne _ _).trans (h.kept ep hep)
  case remaining =>
    intro b
    show u.2.filter (s.isAt b) = _
    by_cases hb : b = a
    · subst hb
      have hnone : (s.known.filter (s.isAt b)).length ≤ done.count b :=
        List.getElem?_eq_none_iff.mp hfor
      rw [h.remaining, List.drop_of_length_le hnone, List.count_append,
        List.drop_of_length_le (Nat.le_add_right_of_le hnone)]
    · rw [h.remaining, List.count_append, List.count_singleton,
        beq_eq_false_iff_ne.mpr (Ne.symm hb)]
      rfl
  case taken =>
    intro before b after hdone
    exact h.taken_concat rfl (Or.inr ⟨hfor, h.grown⟩) hdone

theorem Updating.locate (h : Updating s done u) (hs : s.Unique) (a : Address) :
    Updating s (done ++ [a]) (EndPointLists.locate u a) := by
  have hfor := h.find? a
  unfold EndPointLists.locate
  rw [h.find?_isAt hs a]
  cases hfound : u.2.find? (s.isAt a) with
  | some ep =>
    rw [hfound] at hfor
    exact h.found hfound hfor.symm hs
  | none =>
    rw [hfound] at hfor
    exact h.create hfor.symm

/-- The loop in front of the first address. -/
theorem Updating.start (hs : s.Unique) :
    Updating s [] ({ s with active := [], inactive := [] }, s.known) where
  addresses := rfl
  nodup := hs.nodup
  created := hs.created
  grown := Nat.le_refl _
  there ep hep := hep
  left ep hep := hep
  kept ep _ := rfl
  remaining a := by rw [List.count_nil, List.drop_zero]
  taken before a after h := by
    cases before with
    | nil => cases h
    | cons b before => cases h

theorem Updating.foldl (h : Updating s done u) (hs : s.Unique) (ack : List Address) :
    Updating s (done ++ ack) (ack.foldl EndPointLists.locate u) := by
  induction ack generalizing done u with
  | nil => rwa [List.append_nil]
  | cons a ack ih =>
    have hnext := ih (h.locate hs a)
    rwa [List.append_assoc] at hnext

theorem inactive_foldl (ack : List Address) (u : EndPointLists × List EndPoint) :
    (ack.foldl locate u).1.inactive = u.1.inactive := by
  induction ack generalizing u with
  | nil => rfl
  | cons a ack ih =>
    rw [List.foldl_cons, ih]
    unfold locate
    split <;> rfl

/-- The endpoints no address has taken are the inactive ones. -/
theorem inactive_updateEndPoints (s : EndPointLists) (ack : List Address) :
    (s.updateEndPoints ack).inactive = (s.located ack).2 := by
  show (s.located ack).1.inactive ++ (s.located ack).2 = (s.located ack).2
  rw [located, inactive_foldl]
  rfl

/-- **An answer of the registry is applied faithfully**, whatever addresses it names and
however often. -/
theorem applied_updateEndPoints (hs : s.Unique) (ack : List Address) :
    s.Applied ack (s.updateEndPoints ack) := by
  have hend : Updating s ack (s.located ack) := (Updating.start hs).foldl hs ack
  refine ⟨hend.addresses, ?_, ?_, hend.taken, ?_⟩
  · intro ep hep
    rw [inactive_updateEndPoints, ← List.count_append]
    exact List.count_eq_one_of_mem hend.nodup (hend.there ep hep)
  · intro ep hep
    exact hend.kept ep (hs.created ep hep)
  · intro before a after ep hack hfirst hfind
    obtain ⟨e, he, htaken⟩ := hend.taken before a after hack
    rw [foundFor_first s hfirst, hfind] at htaken
    rcases htaken with hsome | ⟨hnone, -⟩
    · rw [hsome]
      exact he
    · cases hnone

/-- Four endpoints, three of them at one address, which the answer names four times. -/
def crowded : EndPointLists where
  needLocator := true
  active := [3, 1]
  inactive := [0, 2]
  address ep := if ep = 1 then ⟨"b".toList, 1⟩ else ⟨"a".toList, 1⟩
  created := 4
  foreign := false

/-- The answer names an unknown address as well. -/
def crowdedAck : List Address :=
  [⟨"a".toList, 1⟩, ⟨"a".toList, 1⟩, ⟨"c".toList, 1⟩, ⟨"a".toList, 1⟩, ⟨"a".toList, 1⟩]

theorem applied_updateEndPoints_crowded :
    (crowded.updateEndPoints crowdedAck).active = [3, 0, 4, 2, 5] ∧
      (crowded.updateEndPoints crowdedAck).inactive = [1] ∧
      crowded.Applied crowdedAck (crowded.updateEndPoints crowdedAck) :=
  ⟨by decide, by decide, applied_updateEndPoints (by decide) crowdedAck⟩

end EndPointLists

end StormNet.Framework
