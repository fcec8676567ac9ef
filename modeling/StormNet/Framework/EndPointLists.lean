/-
  Framework/EndPointLists.lean --- `m_activeEndPoints` and `m_inactiveEndPoints` of
  `framework/storm_service_proxy.cpp`: `updateEndPoints`, `moveToInactive` and the part of
  `onClose` that calls it.

  Both functions hold `m_epMutex` throughout, so each is one step.  `moveToInactive` looks
  the endpoint up in the inactive list and erases what it finds from the active one.
-/
import Mathlib.Data.List.Perm.Basic
import Mathlib.Logic.Function.Basic
import StormNet.Foundation.Transition
import StormNet.Framework.ProxyString
import StormNet.Framework.ServiceProxy

set_option autoImplicit false

namespace StormNet.Framework

open StormNet.Foundation
open StormNet.Net (CloseType)
open Function (update)

/-- The endpoints of a `ServiceProxy`. -/
structure EndPointLists where
  /-- `m_needLocator` -/
  needLocator : Bool
  /-- `m_activeEndPoints` -/
  active : List EndPoint
  /-- `m_inactiveEndPoints` -/
  inactive : List EndPoint
  /-- `m_ip` and `m_port` -/
  address : EndPoint → Address
  /-- the references below are the endpoints ever created -/
  created : Nat
  /-- a vector was given an iterator of another vector to erase; the behaviour of the
  program is undefined from here on -/
  foreign : Bool

namespace EndPointLists

/-! ## The operations of the source -/

/-- The endpoints of a proxy behind `parseFromString`. -/
def ofString (p : ProxyString) : EndPointLists where
  needLocator := p.needLocator
  active := List.range p.endPoints.length
  inactive := []
  address ep := p.endPoints.getD ep ⟨[], 0⟩
  created := p.endPoints.length
  foreign := false

/-- `ep->m_ip == ip && ep->m_port == port`. -/
def isAt (s : EndPointLists) (a : Address) (ep : EndPoint) : Bool := s.address ep = a

/-- `new ProxyEndPoint`, pushed into the active list. -/
def create (s : EndPointLists) (a : Address) : EndPointLists :=
  { s with
    active := s.active ++ [s.created]
    address := update s.address s.created a
    created := s.created + 1 }

/-- One turn of the loop over the answer of the registry; `u.2` is `all`, the endpoints that
no turn has taken yet. -/
def locate (u : EndPointLists × List EndPoint) (a : Address) : EndPointLists × List EndPoint :=
  match u.2.find? (u.1.isAt a) with
  | some ep => ({ u.1 with active := u.1.active ++ [ep] }, u.2.erase ep)
  | none => (u.1.create a, u.2)

/-- The lists are cleared and the answer of the registry is gone through. -/
def located (s : EndPointLists) (ack : List Address) : EndPointLists × List EndPoint :=
  ack.foldl locate ({ s with active := [], inactive := [] }, s.active ++ s.inactive)

/-- `updateEndPoints`, with the active endpoints of the `QueryServiceAck`. -/
def updateEndPoints (s : EndPointLists) (ack : List Address) : EndPointLists :=
  { (s.located ack).1 with inactive := (s.located ack).1.inactive ++ (s.located ack).2 }

/-- `moveToInactive`. -/
def moveToInactive (s : EndPointLists) (ep : EndPoint) : EndPointLists :=
  if ep ∈ s.inactive then { s with active := s.active.erase ep, foreign := true }
  else { s with active := s.active.erase ep, inactive := s.inactive ++ [ep] }

/-- The close types that send an endpoint to the inactive list. -/
def Failed (closeType : CloseType) : Prop :=
  closeType = .connectFail ∨ closeType = .connTimeOut

instance (closeType : CloseType) : Decidable (Failed closeType) :=
  inferInstanceAs (Decidable (_ ∨ _))

/-- `onClose`, as far as it touches the lists. -/
def onClose (s : EndPointLists) (ep : EndPoint) (closeType : CloseType) : EndPointLists :=
  if Failed closeType ∧ s.needLocator then s.moveToInactive ep else s

inductive Action where
  | updateEndPoints (ack : List Address)
  | onClose (ep : EndPoint) (closeType : CloseType)
  deriving DecidableEq, Repr

def step (s : EndPointLists) : Action → Option EndPointLists
  | .updateEndPoints ack => if s.foreign then none else some (s.updateEndPoints ack)
  | .onClose ep closeType =>
      if s.foreign ∨ s.created ≤ ep then none else some (s.onClose ep closeType)

/-! ## The partition -/

/-- Every endpoint ever created is in exactly one of the lists, once, and no vector was
given an iterator of the other. -/
structure Partition (s : EndPointLists) : Prop where
  active : s.active.Nodup
  inactive : s.inactive.Nodup
  apart : ∀ ep ∈ s.active, ep ∉ s.inactive
  placed : ∀ ep, ep < s.created ↔ ep ∈ s.active ∨ ep ∈ s.inactive
  own : s.foreign = false

/-- The endpoint that fails is not an inactive one already. -/
def FailsActive (s : EndPointLists) : Action → Prop
  | .onClose ep closeType => Failed closeType ∧ s.needLocator → ep ∉ s.inactive
  | .updateEndPoints _ => True

instance (s : EndPointLists) : (a : Action) → Decidable (FailsActive s a)
  | .onClose _ _ => inferInstanceAs (Decidable (_ → _ ∉ _))
  | .updateEndPoints _ => instDecidableTrue

variable {s t : EndPointLists} {all : List EndPoint}

/-- The two lists hold the created endpoints in some order. -/
theorem partition_iff :
    s.Partition ↔ (s.active ++ s.inactive).Perm (List.range s.created) ∧ s.foreign = false := by
  constructor
  · intro h
    refine ⟨?_, h.own⟩
    have hnodup : (s.active ++ s.inactive).Nodup := by
      refine List.nodup_append.mpr ⟨h.active, h.inactive, ?_⟩
      rintro ep hactive _ hinactive rfl
      exact h.apart ep hactive hinactive
    rw [List.perm_ext_iff_of_nodup hnodup List.nodup_range]
    intro ep
    rw [List.mem_append, List.mem_range, h.placed ep]
  · intro h
    obtain ⟨hperm, hown⟩ := h
    have hnodup : (s.active ++ s.inactive).Nodup := hperm.nodup_iff.mpr List.nodup_range
    obtain ⟨hactive, hinactive, hapart⟩ := List.nodup_append.mp hnodup
    refine ⟨hactive, hinactive, fun ep h₁ h₂ => hapart ep h₁ ep h₂ rfl, ?_, hown⟩
    intro ep
    rw [← List.mem_range, ← hperm.mem_iff, List.mem_append]

theorem partition_ofString (p : ProxyString) : (ofString p).Partition := by
  rw [partition_iff]
  refine ⟨?_, rfl⟩
  show (List.range p.endPoints.length ++ []).Perm (List.range p.endPoints.length)
  rw [List.append_nil]

/-! ## An update -/

/-- During an update: every endpoint is active or still to be taken. -/
structure Locating (u : EndPointLists × List EndPoint) : Prop where
  perm : (u.1.active ++ u.2).Perm (List.range u.1.created)
  inactive : u.1.inactive = []
  own : u.1.foreign = false

/-- A turn takes an endpoint from those left or creates one. -/
theorem Locating.locate {u : EndPointLists × List EndPoint} (h : Locating u) (a : Address) :
    Locating (EndPointLists.locate u a) := by
  unfold EndPointLists.locate
  cases hfind : u.2.find? (u.1.isAt a) with
  | some ep =>
    refine ⟨?_, h.inactive, h.own⟩
    have hmem : ep ∈ u.2 := List.mem_of_find?_eq_some hfind
    show (u.1.active ++ [ep] ++ u.2.erase ep).Perm (List.range u.1.created)
    rw [List.append_assoc]
    exact ((List.perm_cons_erase hmem).symm.append_left u.1.active).trans h.perm
  | none =>
    refine ⟨?_, h.inactive, h.own⟩
    show (u.1.active ++ [u.1.created] ++ u.2).Perm (List.range (u.1.created + 1))
    rw [List.range_succ]
    have hswap : (u.1.active ++ [u.1.created] ++ u.2).Perm
        (u.1.active ++ u.2 ++ [u.1.created]) := by
      rw [List.append_assoc, List.append_assoc]
      exact List.perm_append_comm.append_left u.1.active
    exact hswap.trans (h.perm.append_right [u.1.created])

theorem Locating.foldl {u : EndPointLists × List EndPoint} (h : Locating u) (ack : List Address) :
    Locating (ack.foldl EndPointLists.locate u) := by
  induction ack generalizing u with
  | nil => exact h
  | cons a ack ih => exact ih (h.locate a)

theorem Partition.updateEndPoints (h : s.Partition) (ack : List Address) :
    (s.updateEndPoints ack).Partition := by
  obtain ⟨hperm, hown⟩ := partition_iff.mp h
  have hstart : Locating ({ s with active := [], inactive := [] }, s.active ++ s.inactive) :=
    ⟨hperm, rfl, hown⟩
  have hend : Locating (s.located ack) := hstart.foldl ack
  rw [partition_iff]
  refine ⟨?_, hend.own⟩
  show ((s.located ack).1.active ++ ((s.located ack).1.inactive ++ (s.located ack).2)).Perm _
  rw [hend.inactive, List.nil_append]
  exact hend.perm

/-! ## A failed connection -/

/-- An endpoint that is not inactive goes from the one list to the other. -/
theorem Partition.moveToInactive (h : s.Partition) {ep : EndPoint} (hep : ep < s.created)
    (hnot : ep ∉ s.inactive) : (s.moveToInactive ep).Partition := by
  have hactive : ep ∈ s.active := ((h.placed ep).mp hep).resolve_right hnot
  obtain ⟨hperm, hown⟩ := partition_iff.mp h
  rw [EndPointLists.moveToInactive, if_neg hnot, partition_iff]
  refine ⟨?_, hown⟩
  show (s.active.erase ep ++ (s.inactive ++ [ep])).Perm (List.range s.created)
  calc (s.active.erase ep ++ (s.inactive ++ [ep])).Perm
        ([ep] ++ (s.active.erase ep ++ s.inactive)) := by
        rw [← List.append_assoc]
        exact List.perm_append_comm
    List.Perm _ (s.active ++ s.inactive) :=
        (List.perm_cons_erase hactive).symm.append_right s.inactive
    List.Perm _ (List.range s.created) := hperm

/-- An endpoint that is inactive already is erased through a foreign iterator. -/
theorem foreign_moveToInactive {ep : EndPoint} (h : ep ∈ s.inactive) :
    (s.moveToInactive ep).foreign = true := by
  rw [EndPointLists.moveToInactive, if_pos h]

theorem partition_step_iff {a : Action} (h : s.Partition) (hstep : s.step a = some t) :
    t.Partition ↔ s.FailsActive a := by
  cases a with
  | updateEndPoints ack =>
    simp only [step, h.own, Bool.false_eq_true, if_false, Option.some.injEq] at hstep
    subst hstep
    exact iff_of_true (h.updateEndPoints ack) trivial
  | onClose ep closeType =>
    simp only [step, Option.ite_none_left_eq_some, not_or, Option.some.injEq] at hstep
    obtain ⟨⟨-, hep⟩, rfl⟩ := hstep
    unfold onClose FailsActive
    split
    · rename_i hmoves
      constructor
      · intro hpart _ hin
        have hforeign := foreign_moveToInactive hin
        rw [hpart.own] at hforeign
        cases hforeign
      · intro hfails
        exact h.moveToInactive (Nat.lt_of_not_le hep) (hfails hmoves)
    · rename_i hstays
      exact iff_of_true h (fun hmoves => absurd hmoves hstays)

/-- **The endpoint lists stay a partition as long as no endpoint fails that is inactive
already, and no longer.** -/
theorem lists_stay_partition {p : ProxyString} (h : Runs step FailsActive (ofString p) s) :
    s.Partition ∧ ∀ a t, s.step a = some t → (t.Partition ↔ s.FailsActive a) := by
  have hpart : s.Partition := by
    apply h.invariant (I := Partition) _ (partition_ofString p)
    intro s a t hs hfails hstep
    exact (partition_step_iff hs hstep).mpr hfails
  exact ⟨hpart, fun a t hstep => partition_step_iff hpart hstep⟩

/-- A proxy that asks the registry, before its first answer. -/
def unanswered : EndPointLists :=
  ofString { setName := [], needLocator := true, name := "a.b.cProxy".toList }

/-- Two endpoints are found, one fails, the next answer names it again. -/
theorem lists_stay_partition_of_two :
    ∃ s, Runs step FailsActive unanswered s ∧ s.active = [1] ∧ s.inactive = [0] ∧
      s.Partition ∧ ∀ a t, s.step a = some t → (t.Partition ↔ s.FailsActive a) := by
  have hexec : ∃ s, Runs step FailsActive unanswered s ∧
      decide (s.active = [1] ∧ s.inactive = [0]) = true :=
    exists_runs_of_schedule unanswered
      [.updateEndPoints [⟨"a".toList, 1⟩, ⟨"b".toList, 2⟩], .onClose 0 .connectFail,
        .updateEndPoints [⟨"a".toList, 1⟩, ⟨"b".toList, 2⟩], .onClose 1 .peer,
        .onClose 0 .connTimeOut] _ (by decide)
  obtain ⟨s, hs, hlists⟩ := hexec
  obtain ⟨hactive, hinactive⟩ := of_decide_eq_true hlists
  exact ⟨s, hs, hactive, hinactive, lists_stay_partition hs⟩

/-- An answer of the registry drops an endpoint whose connection is still in progress; the
connection fails. -/
theorem failed_while_inactive :
    ∃ s, Runs step (fun _ _ => True) unanswered s ∧ s.foreign = true ∧ ¬ s.Partition := by
  have hexec : ∃ s, Runs step (fun _ _ => True) unanswered s ∧ s.foreign = true :=
    exists_runs_of_schedule unanswered
      [.updateEndPoints [⟨"a".toList, 1⟩], .updateEndPoints [], .onClose 0 .connectFail]
      _ (by decide)
  obtain ⟨s, hs, hforeign⟩ := hexec
  refine ⟨s, hs, hforeign, fun hpart => ?_⟩
  rw [hpart.own] at hforeign
  cases hforeign

end EndPointLists

end StormNet.Framework
