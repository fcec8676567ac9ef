/-
  Registry/Availability.lean --- a service that runs and the registry that answers for it.

  `StormListener::updateNet` sends a heartbeat when its last one is more than 60 seconds old;
  the registry has a heartbeat when its `heartBeat` has come to the endpoint.  All readings are
  those of one clock.  What is asked for: `updateNet` runs every `interval` seconds, a heartbeat
  arrives within `delay` seconds, and the main loop of the registry comes round in `period`.
-/
import StormNet.Registry.Detector

set_option autoImplicit false

namespace StormNet.Registry

open StormNet.Foundation

/-! ## The source -/

/-- A service beside the registry; `called` is the last reading in `updateNet`, `sent` that of a
heartbeat which is under way, the oldest one, and `time` the last reading of all. -/
structure Service where
  watch : Watch
  /-- `m_lastHeartBeatSec` -/
  lastHeartBeatSec : UInt32
  called : Nat
  sent : Option Nat
  time : Nat

namespace Service

/-- What happens next. -/
inductive Action where
  | registry (a : Registry.Action)
  /-- `updateNet`, with its reading of the clock -/
  | updateNet (now : UInt32)

/-- The registry has the heartbeat. -/
def arrives (e : Id) (v : Watch) : Registry.Action → Bool
  | .net _ => Watch.turns e v.threads
  | _ => false

/-- The end of `StormListener::updateNet`. -/
def updateNet (s : Service) (now : UInt32) : Service :=
  if now > s.lastHeartBeatSec + 60 then
    { s with
      lastHeartBeatSec := now
      called := now.toNat
      sent := some (s.sent.getD now.toNat)
      time := now.toNat }
  else { s with called := now.toNat, time := now.toNat }

def step (e : Id) (columnDefault : Option UInt32) (s : Service) : Action → Option Service
  | .registry a => (s.watch.step e columnDefault a).map fun v =>
      { s with
        watch := v
        sent := if arrives e s.watch a then none else s.sent
        time := a.last }
  | .updateNet now => some (s.updateNet now)

/-- A service whose first heartbeat has arrived. -/
def started (v : Watch) (lastHeartBeatSec : UInt32) : Service where
  watch := v
  lastHeartBeatSec := lastHeartBeatSec
  called := lastHeartBeatSec.toNat
  sent := none
  time := v.time

/-- Nothing comes later than it has to. -/
def InTime (interval delay : Nat) (s : Service) (now : Nat) : Prop :=
  now ≤ s.called + interval ∧ ∀ t ∈ s.sent, now ≤ t + delay

/-- What the runs are asked for. -/
def Serves (interval delay period : Nat) (s : Service) : Action → Prop
  | .registry a => s.time ≤ a.first ∧ Watch.Prompt period s.watch a ∧ s.InTime interval delay a.last
  | .updateNet now => s.time ≤ now.toNat ∧ now.toNat + 122 < 2 ^ 32 ∧
      s.InTime interval delay now.toNat

/-! ## The age of the last heartbeat -/

variable {e : Id} {columnDefault : Option UInt32} {interval delay period : Nat} {s t : Service}
  {a : Registry.Action} {now : UInt32}

/-- The last heartbeat that has arrived is not much older than the last one that was sent. -/
structure Kept (interval : Nat) (s : Service) : Prop where
  watch_le : s.watch.time ≤ s.time
  called_le : s.called ≤ s.time
  last_le : s.lastHeartBeatSec.toNat ≤ s.called
  recent : s.called ≤ s.lastHeartBeatSec.toNat + 60
  horizon : s.lastHeartBeatSec.toNat + 122 < 2 ^ 32
  arrived : s.sent = none → s.lastHeartBeatSec.toNat ≤ s.watch.beat
  underWay : ∀ t ∈ s.sent, t ≤ s.watch.beat + 60 + interval

/-- So a heartbeat is never older than this. -/
theorem Kept.beat_le (h : Kept interval s) {now : Nat} (hintime : s.InTime interval delay now) :
    now ≤ s.watch.beat + (60 + interval + delay) := by
  obtain ⟨hcalled, hsent⟩ := hintime
  have hrecent := h.recent
  cases hs : s.sent with
  | none =>
    have harrived := h.arrived hs
    omega
  | some t =>
    have hunder := h.underWay t hs
    have hdelay := hsent t hs
    omega

theorem Kept.updateNet (h : Kept interval s) (hnow : s.time ≤ now.toNat)
    (hhorizon : now.toNat + 122 < 2 ^ 32) (hintime : s.InTime interval delay now.toNat) :
    Kept interval (s.updateNet now) := by
  have hcalled := h.called_le
  have hlast := h.last_le
  have hrecent := h.recent
  have hafter := hintime.1
  -- the sum does not wrap around
  have hdue : s.lastHeartBeatSec + 60 < now ↔ s.lastHeartBeatSec.toNat + 60 < now.toNat := by
    refine (lt_add_iff _ _ _).mpr (.inl ?_)
    have hsize : UInt32.size = 2 ^ 32 := rfl
    have hsixty : (60 : UInt32).toNat = 60 := rfl
    have hhorizon' := h.horizon
    omega
  unfold Service.updateNet
  split
  · refine ⟨h.watch_le.trans hnow, Nat.le_refl _, Nat.le_refl _, Nat.le_add_right _ _, hhorizon,
      (fun hsent => by cases hsent), ?_⟩
    rintro t ⟨⟩
    cases hs : s.sent with
    | none =>
      have harrived := h.arrived hs
      show now.toNat ≤ s.watch.beat + 60 + interval
      omega
    | some t => exact h.underWay t hs
  · rename_i hnot
    rw [gt_iff_lt, hdue, Nat.not_lt] at hnot
    exact ⟨h.watch_le.trans hnow, Nat.le_refl _, hlast.trans (hcalled.trans hnow), hnot, h.horizon,
      h.arrived, h.underWay⟩

theorem beat_of_step {w v : Watch} (hv : w.step e columnDefault a = some v) :
    v.time = a.last ∧ v.beat = if arrives e w a then a.last else w.beat := by
  obtain ⟨threads, -, rfl⟩ := Option.map_eq_some_iff.mp hv
  cases a with
  | net now => exact ⟨rfl, rfl⟩
  | heartBeat _ _ | update _ | loadFromDB _ | main _ => exact ⟨rfl, rfl⟩

theorem Kept.registry (h : Kept interval s) (hfirst : s.time ≤ a.first) (hlast : a.first ≤ a.last)
    {v : Watch} (hv : s.watch.step e columnDefault a = some v) :
    Kept interval
      { s with
        watch := v
        sent := if arrives e s.watch a then none else s.sent
        time := a.last } := by
  obtain ⟨htime, hbeat⟩ := beat_of_step hv
  have hcalled := (h.called_le.trans hfirst).trans hlast
  refine ⟨Nat.le_of_eq htime, hcalled, h.last_le, h.recent, h.horizon, ?_, ?_⟩
  · show ite _ _ _ = none → s.lastHeartBeatSec.toNat ≤ v.beat
    rw [hbeat]
    split
    · exact fun _ => h.last_le.trans hcalled
    · exact h.arrived
  · show ∀ t ∈ ite _ _ _, t ≤ v.beat + 60 + interval
    rw [hbeat]
    split
    · rintro t ⟨⟩
    · exact h.underWay

/-- What holds of a service and its registry. -/
structure Inv (e : Id) (interval delay period : Nat) (s : Service) : Prop where
  kept : Kept interval s
  clocked : Watch.Clocked period s.watch
  fresh : Watch.Fresh e (60 + interval + delay) s.watch

theorem Inv.step {default : UInt32} (h : Inv e interval delay period s)
    (hfit : 60 + interval + delay + period ≤ 122) {a : Action}
    (ha : Serves interval delay period s a) (hstep : s.step e (some default) a = some t) :
    Inv e interval delay period t := by
  cases a with
  | registry a =>
    obtain ⟨hfirst, hprompt, hintime⟩ := ha
    obtain ⟨v, hv, rfl⟩ := Option.map_eq_some_iff.mp hstep
    have hbeats : Watch.Beats (60 + interval + delay) period s.watch a :=
      ⟨hprompt, h.kept.beat_le hintime⟩
    exact ⟨h.kept.registry hfirst hprompt.2.1 hv, h.clocked.step hprompt hv,
      h.fresh.step h.clocked hfit hbeats hv⟩
  | updateNet now =>
    cases hstep
    obtain ⟨hnow, hhorizon, hintime⟩ := ha
    have hwatch : (s.updateNet now).watch = s.watch := by
      unfold Service.updateNet
      split <;> rfl
    refine ⟨h.kept.updateNet hnow hhorizon hintime, ?_, ?_⟩
    · rw [hwatch]
      exact h.clocked
    · rw [hwatch]
      exact h.fresh

instance (interval delay : Nat) (s : Service) (now : Nat) :
    Decidable (InTime interval delay s now) :=
  inferInstanceAs (Decidable (_ ∧ _))

instance (interval delay period : Nat) (s : Service) :
    (a : Action) → Decidable (Serves interval delay period s a)
  | .registry _ | .updateNet _ => inferInstanceAs (Decidable (_ ∧ _ ∧ _))

end Service

end StormNet.Registry
