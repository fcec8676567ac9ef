/-
  Net/SlotSearch.lean --- A whole call of `getNewSocket` of `net/socket_loop.cpp`.

  The ids count up, so that `m_maxSocket` of them in a row fall on all slots; but behind
  2^31 - 1 they go on with 0, and what the residues miss there is not searched.
-/
import StormNet.Net.AcceptLoop

set_option autoImplicit false

namespace StormNet.Net

open Function (update update_self update_of_ne)

namespace SocketLoop

/-! ## The source -/

/-- The loop of `getNewSocket` with `n` turns left. -/
def searchSlots (l : SocketLoop) : Nat → SocketLoop × Option Nat
  | 0 => (l, none)
  | n + 1 =>
      match l.tryNewSocket with
      | (l', some i) => (l', some i)
      | (l', none) => l'.searchSlots n

/-- `getNewSocket`; `(int32_t)m_maxSocket` is negative from 2^31 on. -/
def getNewSocket (l : SocketLoop) : SocketLoop × Option Nat :=
  l.searchSlots (if l.maxSocket < 2 ^ 31 then l.maxSocket else 0)

/-- What a call is for. -/
structure Allocates (l : SocketLoop) (r : SocketLoop × Option Nat) : Prop where
  /-- NULL is returned only if no slot is idle -/
  full : r.2 = none → ∀ i < l.maxSocket, (l.slot i).status ≠ .idle
  /-- the slot that is returned was idle, is reserved, and knows its index -/
  taken : ∀ i, r.2 = some i → i < l.maxSocket ∧ (l.slot i).status = .idle ∧
    (r.1.slot i).status = .reserse ∧ (r.1.slot i).id = i
  others : ∀ i, r.2 ≠ some i → r.1.slot i = l.slot i

/-- The id of the first turn. -/
def firstId (l : SocketLoop) : Nat := (l.allocId + 1) % 2 ^ 31

/-- How far it is from the first id to the next one that falls on the slot. -/
def distance (l : SocketLoop) (i : Nat) : Nat :=
  (i + l.maxSocket - l.firstId % l.maxSocket) % l.maxSocket

/-- One of `m_maxSocket` ids from the first one on falls on the slot: one in front of 2^31, or
one of those that come again from 0 on. -/
def Reached (l : SocketLoop) (i : Nat) : Prop :=
  l.firstId + l.distance i < 2 ^ 31 ∨ i + 2 ^ 31 < l.firstId + l.maxSocket

instance (l : SocketLoop) (i : Nat) : Decidable (l.Reached i) := instDecidableOr

/-! ## The ids of a call -/

variable {l : SocketLoop} {i t : Nat}

/-- Counting up and masking the sign away are one remainder. -/
theorem nextId_eq (allocId : Nat) : nextId allocId = (allocId + 1) % 2 ^ 31 := by
  simp only [nextId]
  split <;> omega

/-- The slot of the turn `t`. -/
def probe (l : SocketLoop) (t : Nat) : Nat := (l.firstId + t) % 2 ^ 31 % l.maxSocket

theorem hash_nextId (l : SocketLoop) : l.hash (nextId l.allocId) = l.probe 0 := by
  have hid : ((l.allocId + 1) % 2 ^ 31 + 0) % 2 ^ 31 = (l.allocId + 1) % 2 ^ 31 := by omega
  rw [hash, nextId_eq, probe, firstId, hid]

theorem probe_lt (h : 0 < l.maxSocket) (t : Nat) : l.probe t < l.maxSocket := Nat.mod_lt _ h

/-- Behind a turn the next ones come one earlier. -/
theorem probe_next (l : SocketLoop) (t : Nat) :
    probe { l with allocId := nextId l.allocId } t = l.probe (t + 1) := by
  have hid : ((nextId l.allocId + 1) % 2 ^ 31 + t) % 2 ^ 31 =
      ((l.allocId + 1) % 2 ^ 31 + (t + 1)) % 2 ^ 31 := by
    rw [nextId_eq]
    omega
  rw [probe, probe, firstId, firstId, hid]

theorem distance_lt (hi : i < l.maxSocket) : l.distance i < l.maxSocket :=
  Nat.mod_lt _ (Nat.lt_of_le_of_lt (Nat.zero_le i) hi)

theorem firstId_add_distance (hi : i < l.maxSocket) :
    (l.firstId + l.distance i) % l.maxSocket = i := by
  have hr : l.firstId % l.maxSocket < l.maxSocket := Nat.mod_lt _ (by omega)
  have hsum : l.firstId % l.maxSocket + (i + l.maxSocket - l.firstId % l.maxSocket) =
      i + l.maxSocket := by omega
  rw [distance, Nat.add_mod_mod, ← Nat.mod_add_mod, hsum, Nat.add_mod_right, Nat.mod_eq_of_lt hi]

/-- No other id so near falls on the slot. -/
theorem distance_eq (ht : t < l.maxSocket) (h : (l.firstId + t) % l.maxSocket = i) :
    l.distance i = t := by
  have hr : l.firstId % l.maxSocket < l.maxSocket := Nat.mod_lt _ (by omega)
  rw [← Nat.mod_add_mod] at h
  rw [distance]
  rcases Nat.lt_or_ge (l.firstId % l.maxSocket + t) l.maxSocket with hless | hmore
  · rw [Nat.mod_eq_of_lt hless] at h
    have hdist : i + l.maxSocket - l.firstId % l.maxSocket = t + l.maxSocket := by omega
    rw [hdist, Nat.add_mod_right, Nat.mod_eq_of_lt ht]
  · rw [Nat.mod_eq_sub_mod hmore, Nat.mod_eq_of_lt (by omega)] at h
    have hdist : i + l.maxSocket - l.firstId % l.maxSocket = t := by omega
    rw [hdist, Nat.mod_eq_of_lt ht]

/-- The slots of a whole call. -/
theorem reached_iff (hmax : l.maxSocket < 2 ^ 31) (hi : i < l.maxSocket) :
    l.Reached i ↔ ∃ t < l.maxSocket, l.probe t = i := by
  have hfirst : l.firstId < 2 ^ 31 := Nat.mod_lt _ (by omega)
  constructor
  · intro h
    rcases h with hfront | hwrap
    · refine ⟨l.distance i, distance_lt hi, ?_⟩
      rw [probe, Nat.mod_eq_of_lt hfront]
      exact firstId_add_distance hi
    · have hid : (l.firstId + (i + 2 ^ 31 - l.firstId)) % 2 ^ 31 = i := by omega
      refine ⟨i + 2 ^ 31 - l.firstId, by omega, ?_⟩
      rw [probe, hid, Nat.mod_eq_of_lt hi]
  · intro h
    obtain ⟨t, ht, hprobe⟩ := h
    rw [probe] at hprobe
    rcases Nat.lt_or_ge (l.firstId + t) (2 ^ 31) with hfront | hwrap
    · rw [Nat.mod_eq_of_lt hfront] at hprobe
      refine .inl ?_
      rw [distance_eq ht hprobe]
      exact hfront
    · have hid : (l.firstId + t) % 2 ^ 31 = l.firstId + t - 2 ^ 31 := by omega
      rw [hid, Nat.mod_eq_of_lt (by omega)] at hprobe
      exact .inr (by omega)

/-- Far from 2^31 no slot is missed. -/
theorem reached_of_le (h : l.firstId + l.maxSocket ≤ 2 ^ 31) (hi : i < l.maxSocket) :
    l.Reached i := by
  have hdistance := distance_lt hi
  exact .inl (by omega)

/-- Nor is one missed if the number of slots divides 2^31. -/
theorem reached_of_dvd (h : l.maxSocket ∣ 2 ^ 31) (hmax : l.maxSocket < 2 ^ 31)
    (hi : i < l.maxSocket) : l.Reached i := by
  refine (reached_iff hmax hi).mpr ⟨l.distance i, distance_lt hi, ?_⟩
  rw [probe, Nat.mod_mod_of_dvd _ h]
  exact firstId_add_distance hi

/-! ## The search -/

/-- The turns of a search: all of them meet slots that are taken, or one gets its slot. -/
theorem searchSlots_cases (l : SocketLoop) (n : Nat) :
    ((l.searchSlots n).2 = none ∧ (l.searchSlots n).1.slot = l.slot ∧
      ∀ t < n, (l.slot (l.probe t)).status ≠ .idle) ∨
    ∃ t < n, (l.searchSlots n).2 = some (l.probe t) ∧ (l.slot (l.probe t)).status = .idle ∧
      (l.searchSlots n).1.slot = update l.slot (l.probe t)
        { l.slot (l.probe t) with id := l.probe t, fd := none, status := .reserse } := by
  induction n generalizing l with
  | zero =>
    refine .inl ⟨rfl, rfl, ?_⟩
    intro t ht
    omega
  | succ n ih =>
    have hhash : nextId l.allocId % l.maxSocket = l.probe 0 := hash_nextId l
    by_cases hidle : (l.slot (l.probe 0)).status = .idle
    · have hturn := (tryNewSocket_free (hhash ▸ hidle)).1
      rw [searchSlots, hturn, hhash]
      exact .inr ⟨0, Nat.succ_pos n, rfl, hidle, rfl⟩
    · have hturn := (tryNewSocket_busy (hhash ▸ hidle)).1
      rw [searchSlots, hturn]
      rcases ih { l with allocId := nextId l.allocId } with ⟨hnone, hslot, hbusy⟩ |
        ⟨t, ht, hsome, hfree, hslot⟩
      · refine .inl ⟨hnone, hslot, ?_⟩
        intro t ht
        cases t with
        | zero => exact hidle
        | succ t =>
          have hlater := hbusy t (Nat.lt_of_succ_lt_succ ht)
          rw [probe_next] at hlater
          exact hlater
      · rw [probe_next] at hsome hfree hslot
        exact .inr ⟨t + 1, Nat.succ_lt_succ ht, hsome, hfree, hslot⟩

/-- The statuses alone say which slot is found. -/
theorem searchSlots_table (l : SocketLoop) (n : Nat) :
    SlotTable.search (fun _ => 0) n l.table = ((l.searchSlots n).1.table, (l.searchSlots n).2) := by
  induction n generalizing l with
  | zero => rfl
  | succ n ih =>
    by_cases hidle : (l.slot (nextId l.allocId % l.maxSocket)).status = .idle
    · obtain ⟨hloop, htable⟩ := tryNewSocket_free hidle
      rw [searchSlots, SlotTable.search, hloop, SlotTable.others, htable, ← busy_update]
      · rfl
      · exact SocketStatus.noConfusion
    · obtain ⟨hloop, htable⟩ := tryNewSocket_busy hidle
      rw [searchSlots, SlotTable.search, hloop, SlotTable.others, htable]
      exact ih { l with allocId := nextId l.allocId }

/-- So it does for a whole call. -/
theorem getNewSocket_table (l : SocketLoop) : SlotTable.getNewSocket (fun _ => 0) l.table =
    (l.getNewSocket.1.table, l.getNewSocket.2) :=
  searchSlots_table l _

theorem allocates_of_reached (hpos : 0 < l.maxSocket) (hmax : l.maxSocket < 2 ^ 31)
    (h : (∃ i < l.maxSocket, (l.slot i).status = .idle) →
      ∃ i < l.maxSocket, (l.slot i).status = .idle ∧ l.Reached i) :
    l.Allocates l.getNewSocket := by
  rw [getNewSocket, if_pos hmax]
  rcases l.searchSlots_cases l.maxSocket with ⟨hnone, hslot, hbusy⟩ |
    ⟨t, ht, hsome, hidle, hslot⟩
  · have hfull : ∀ i < l.maxSocket, (l.slot i).status ≠ .idle := by
      intro i hi hidle
      obtain ⟨j, hj, hidle', hreached⟩ := h ⟨i, hi, hidle⟩
      obtain ⟨t, ht, hprobe⟩ := (reached_iff hmax hj).mp hreached
      exact hbusy t ht (hprobe ▸ hidle')
    refine ⟨fun _ => hfull, ?_, ?_⟩
    · intro i hi
      rw [hnone] at hi
      cases hi
    · intro i _
      rw [hslot]
  · refine ⟨?_, ?_, ?_⟩
    · intro hnone
      rw [hsome] at hnone
      cases hnone
    · intro i hi
      rw [hsome] at hi
      cases hi
      rw [hslot, update_self]
      exact ⟨probe_lt hpos t, hidle, rfl, rfl⟩
    · intro i hi
      have hne : i ≠ l.probe t := by
        intro heq
        exact hi (heq ▸ hsome)
      rw [hslot, update_of_ne hne]

/-- A free slot is found as long as the ids of the call stay below 2^31, and always if the
number of slots is a power of two. -/
theorem allocates_of_le_or_dvd (hpos : 0 < l.maxSocket) (hmax : l.maxSocket < 2 ^ 31)
    (h : l.firstId + l.maxSocket ≤ 2 ^ 31 ∨ l.maxSocket ∣ 2 ^ 31) :
    l.Allocates l.getNewSocket := by
  apply allocates_of_reached hpos hmax
  intro hfree
  obtain ⟨i, hi, hidle⟩ := hfree
  refine ⟨i, hi, hidle, ?_⟩
  cases h with
  | inl hle => exact reached_of_le hle hi
  | inr hdvd => exact reached_of_dvd hdvd hmax hi

/-- **When a call finds a free slot.**  A call of `getNewSocket` without interference does what
it is for if and only if, where slots are idle, the ids of the call fall on one of them. -/
theorem allocates_iff (l : SocketLoop) (hpos : 0 < l.maxSocket) (hmax : l.maxSocket < 2 ^ 31) :
    l.Allocates l.getNewSocket ↔
      ((∃ i < l.maxSocket, (l.slot i).status = .idle) →
        ∃ i < l.maxSocket, (l.slot i).status = .idle ∧ l.Reached i) := by
  constructor
  · intro h hfree
    obtain ⟨i, hi, hidle⟩ := hfree
    rw [getNewSocket, if_pos hmax] at h
    rcases l.searchSlots_cases l.maxSocket with ⟨hnone, -, -⟩ | ⟨t, ht, -, hidle', -⟩
    · exact absurd hidle (h.full hnone i hi)
    · have hlt := probe_lt hpos t
      exact ⟨l.probe t, hlt, hidle', (reached_iff hmax hlt).mpr ⟨t, ht, rfl⟩⟩
  · exact allocates_of_reached hpos hmax

/-- Five slots behind the wrap: the third one is idle, and a call gets it. -/
theorem allocates_iff_of_wrap : Allocates
    { new 5 7 with
      allocId := 2 ^ 31 - 1
      slot := fun i => { status := if i = 2 then .idle else .connected } }
    (getNewSocket { new 5 7 with
      allocId := 2 ^ 31 - 1
      slot := fun i => { status := if i = 2 then .idle else .connected } }) := by
  refine (allocates_iff _ (by decide) (by decide)).mpr ?_
  intro _
  exact ⟨2, by decide, rfl, by decide⟩

/-- Three slots, and a call whose ids are 2^31 - 2, 2^31 - 1 and 0: the last slot is idle, and
the call returns NULL. -/
theorem getNewSocket_misses : ¬ Allocates
    { new 3 7 with
      allocId := 2 ^ 31 - 3
      slot := fun i => { status := if i = 2 then .idle else .connected } }
    (getNewSocket { new 3 7 with
      allocId := 2 ^ 31 - 3
      slot := fun i => { status := if i = 2 then .idle else .connected } }) := by
  intro h
  exact h.full (by decide) 2 (by decide) rfl

end SocketLoop

end StormNet.Net
