/-
  Framework/ServiceThread.lean --- the thread of a `StormService` and its shutdown:
  `loop`, `update(-1)` and `terminateThread` of `framework/storm_service.cpp` over the
  `LockQueue` of `util/util_thread.h`.

  The parts of `LockQueue` that hold the notifier's mutex are one step each; the wait
  gives the mutex up, so the test before it and the test behind it are steps of their
  own.  `m_running` is a plain flag: the worker sets it when its thread starts, the
  master clears it, and nothing ties it to the wait.
-/
import Mathlib.Tactic.Common
import StormNet.Foundation.Transition

set_option autoImplicit false

namespace StormNet.Framework

open StormNet.Foundation

variable {α : Type}

/-- The locked end of `LockQueue::pop_front`: the front packet, if there is one. -/
def popFront : List α → Option (α × List α)
  | [] => none
  | packet :: queue => some (packet, queue)

/-- Where the worker thread is. -/
inductive Worker (α : Type) where
  /-- the thread exists, `m_running = true` comes next -/
  | start
  /-- in `init()` -/
  | init
  /-- `while (m_running)` comes next -/
  | check
  /-- `pop_front` comes next -/
  | popping
  /-- in `m_notifier.wait()` -/
  | waiting
  /-- the wait is over, the second test of `pop_front` comes next -/
  | woken
  /-- in `onAccept`, `onClose` or `onRequest` -/
  | handling (packet : α)
  /-- `loop` has returned -/
  | finished
  deriving DecidableEq, Repr

/-- A signal or a broadcast of the notifier. -/
def Worker.notify : Worker α → Worker α
  | .waiting => .woken
  | worker => worker

/-- Where the thread that calls `terminateThread` is. -/
inductive Master where
  /-- `terminateThread` is not called yet -/
  | serving
  /-- `m_running = false` is done, `wakeup()` comes next -/
  | stored
  /-- in `m_thread.join()` -/
  | joining
  | joined
  deriving DecidableEq, Repr

/-- A service with its thread and the queue of its listener. -/
structure ServiceThread (α : Type) where
  /-- `m_running` -/
  running : Bool
  /-- `m_queue` of the listener -/
  queue : List α
  worker : Worker α
  master : Master
  deriving DecidableEq, Repr

namespace ServiceThread

/-- What happens next. -/
inductive Action (α : Type) where
  /-- the listener queues a packet -/
  | push (packet : α)
  /-- the next step of the worker -/
  | work
  /-- the wait ends for no reason -/
  | spurious
  /-- the next step of `terminateThread` -/
  | terminate
  deriving DecidableEq, Repr

/-- A service behind `startThread`. -/
def new : ServiceThread α where
  running := false
  queue := []
  worker := .start
  master := .serving

/-- The next step of `loop`, of `update` in it and of `pop_front` in that. -/
def work (s : ServiceThread α) : Option (ServiceThread α) :=
  match s.worker with
  | .start => some { s with running := true, worker := .init }
  | .init => some { s with worker := .check }
  | .check => some { s with worker := if s.running then .popping else .finished }
  | .popping =>
      match popFront s.queue with
      | none => some { s with worker := .waiting }
      | some (packet, queue) => some { s with queue := queue, worker := .handling packet }
  | .waiting => none
  | .woken =>
      match popFront s.queue with
      | none => some { s with worker := .check }
      | some (packet, queue) => some { s with queue := queue, worker := .handling packet }
  | .handling _ => some { s with worker := .popping }
  | .finished => none

/-- The next step of `terminateThread`. -/
def terminateThread (s : ServiceThread α) : Option (ServiceThread α) :=
  match s.master, s.worker with
  | .serving, _ => some { s with running := false, master := .stored }
  | .stored, worker => some { s with worker := worker.notify, master := .joining }
  | .joining, .finished => some { s with master := .joined }
  | _, _ => none

/-- One step.  The listener pushes only before `terminateThread`. -/
def step (s : ServiceThread α) : Action α → Option (ServiceThread α)
  | .push packet =>
      match s.master with
      | .serving => some { s with queue := s.queue ++ [packet], worker := s.worker.notify }
      | _ => none
  | .work => s.work
  | .spurious =>
      match s.worker with
      | .waiting => some { s with worker := .woken }
      | _ => none
  | .terminate => s.terminateThread

/-- `terminateThread` is in `join`, and the worker is blocked in the wait on an empty
queue or loops with `m_running` set. -/
def Hung (s : ServiceThread α) : Prop :=
  s.master = .joining ∧
    ((s.worker = .waiting ∧ s.queue = []) ∨ (s.running = true ∧ s.worker ≠ .finished))

/-- The next test of the worker is that of `m_running`, or it has made its last. -/
def Leaving (s : ServiceThread α) : Prop :=
  match s.worker with
  | .init => True
  | .check => True
  | .woken => s.queue = []
  | .finished => True
  | _ => False

/-- `terminateThread` comes at a moment at which the worker heeds it: its store comes
behind the worker's own, its broadcast when the worker waits or is about to test
`m_running`. -/
def Heeded (s : ServiceThread α) : Action α → Prop
  | .terminate => (s.master = .serving → s.worker ≠ .start) ∧
      (s.master = .stored → s.worker = .waiting ∨ s.Leaving)
  | _ => True

instance (s : ServiceThread α) [DecidableEq α] : Decidable s.Leaving := by
  unfold Leaving
  split <;> infer_instance

instance (s : ServiceThread α) [DecidableEq α] : ∀ a : Action α, Decidable (s.Heeded a)
  | .terminate => inferInstanceAs (Decidable ((s.master = .serving → s.worker ≠ .start) ∧
      (s.master = .stored → s.worker = .waiting ∨ s.Leaving)))
  | .push _ => isTrue trivial
  | .work => isTrue trivial
  | .spurious => isTrue trivial

/-! ## The invariant -/

variable {s t : ServiceThread α}

/-- The worker waits on an empty queue only; once the flag is cleared it stays so, and
once the broadcast is made the worker is on its way out. -/
structure Ending (s : ServiceThread α) : Prop where
  empty : s.worker = .waiting → s.queue = []
  stored : s.master = .stored → s.running = false ∧ s.worker ≠ .start
  joining : s.master = .joining → s.running = false ∧ s.Leaving

theorem ending_new : (new : ServiceThread α).Ending := by
  constructor <;> simp [new]

theorem Ending.not_hung (h : s.Ending) : ¬ s.Hung := by
  intro hhung
  obtain ⟨hjoining, hwaiting | hrunning⟩ := hhung
  · have hleaving := (h.joining hjoining).2
    rw [Leaving, hwaiting.1] at hleaving
    exact hleaving
  · rw [(h.joining hjoining).1] at hrunning
    exact absurd hrunning.1 (by decide)

/-- The worker moves on behind its start, off the loop if it is leaving. -/
theorem Ending.move (h : s.Ending) {queue : List α} {worker : Worker α}
    (hstart : worker ≠ .start) (hwaiting : worker = .waiting → queue = [])
    (hleaving : s.Leaving → Leaving { s with queue := queue, worker := worker }) :
    Ending { s with queue := queue, worker := worker } where
  empty := hwaiting
  stored hm := ⟨(h.stored hm).1, hstart⟩
  joining hm := ⟨(h.joining hm).1, hleaving (h.joining hm).2⟩

theorem leaving_start (h : s.worker = .start) : ¬ s.Leaving := by simp [Leaving, h]

theorem leaving_popping (h : s.worker = .popping) : ¬ s.Leaving := by simp [Leaving, h]

theorem leaving_handling {packet : α} (h : s.worker = .handling packet) : ¬ s.Leaving := by
  simp [Leaving, h]

theorem leaving_woken (h : s.worker = .woken) : s.Leaving ↔ s.queue = [] := by
  simp [Leaving, h]

/-- Once the broadcast is made, each step of the worker leads it out. -/
theorem Ending.work (h : s.Ending) (hstep : s.work = some t) : t.Ending := by
  unfold ServiceThread.work at hstep
  cases hworker : s.worker with
  | start =>
    simp only [hworker, Option.some.injEq] at hstep
    subst hstep
    have hleaving := leaving_start hworker
    exact {
      empty := by simp
      stored := fun hm => absurd hworker (h.stored hm).2
      joining := fun hm => absurd (h.joining hm).2 hleaving }
  | init =>
    simp only [hworker, Option.some.injEq] at hstep
    subst hstep
    exact h.move (by simp) (by simp) (fun _ => trivial)
  | check =>
    simp only [hworker, Option.some.injEq] at hstep
    subst hstep
    by_cases hrunning : s.running = true
    · rw [if_pos hrunning]
      exact {
        empty := by simp
        stored := fun hm => absurd hrunning (by simp [(h.stored hm).1])
        joining := fun hm => absurd hrunning (by simp [(h.joining hm).1]) }
    · rw [if_neg hrunning]
      exact h.move (by simp) (by simp) (fun _ => trivial)
  | popping =>
    have hleaving := leaving_popping hworker
    cases hqueue : s.queue with
    | nil =>
      simp only [hworker, hqueue, popFront, Option.some.injEq] at hstep
      subst hstep
      exact h.move (by simp) (fun _ => rfl) (fun hl => absurd hl hleaving)
    | cons packet queue =>
      simp only [hworker, hqueue, popFront, Option.some.injEq] at hstep
      subst hstep
      exact h.move (by simp) (by simp) (fun hl => absurd hl hleaving)
  | waiting => simp [hworker] at hstep
  | woken =>
    cases hqueue : s.queue with
    | nil =>
      simp only [hworker, hqueue, popFront, Option.some.injEq] at hstep
      subst hstep
      exact h.move (by simp) (by simp) (fun _ => trivial)
    | cons packet queue =>
      simp only [hworker, hqueue, popFront, Option.some.injEq] at hstep
      subst hstep
      refine h.move (by simp) (by simp) (fun hl => ?_)
      rw [leaving_woken hworker, hqueue] at hl
      cases hl
  | handling packet =>
    simp only [hworker, Option.some.injEq] at hstep
    subst hstep
    exact h.move (by simp) (by simp) (fun hl => absurd hl (leaving_handling hworker))
  | finished => simp [hworker] at hstep

/-- A step of `terminateThread` that is heeded leaves no worker behind in the loop. -/
theorem Ending.terminateThread (h : s.Ending) (hg : s.Heeded .terminate)
    (hstep : s.terminateThread = some t) : t.Ending := by
  obtain ⟨hstart, hheeds⟩ := hg
  unfold ServiceThread.terminateThread at hstep
  split at hstep
  · rename_i hmaster
    cases hstep
    exact {
      empty := h.empty
      stored := fun _ => ⟨rfl, hstart hmaster⟩
      joining := by simp }
  · rename_i hmaster
    cases hstep
    have hrunning := (h.stored hmaster).1
    rcases hheeds hmaster with hwaiting | hleaving
    · refine ⟨?_, by simp, fun _ => ⟨hrunning, ?_⟩⟩
      · simp [hwaiting, Worker.notify]
      · simp only [Leaving, hwaiting, Worker.notify]
        exact h.empty hwaiting
    · have hnotify : s.worker.notify = s.worker := by
        cases hworker : s.worker <;> simp_all [Leaving, Worker.notify]
      rw [hnotify]
      exact ⟨h.empty, by simp, fun _ => ⟨hrunning, hleaving⟩⟩
  · cases hstep
    exact ⟨h.empty, by simp, by simp⟩
  · cases hstep

theorem Ending.step (h : s.Ending) {a : Action α} (hg : s.Heeded a)
    (hstep : s.step a = some t) : t.Ending := by
  cases a with
  | push packet =>
    simp only [ServiceThread.step] at hstep
    split at hstep
    · rename_i hmaster
      cases hstep
      refine ⟨?_, by simp [hmaster], by simp [hmaster]⟩
      cases hworker : s.worker <;> simp [Worker.notify]
    · cases hstep
  | work => exact h.work hstep
  | spurious =>
    simp only [ServiceThread.step] at hstep
    split at hstep
    · rename_i hworker
      cases hstep
      exact h.move (by simp) (by simp) (fun hl => by simp [Leaving, hworker] at hl)
    · cases hstep
  | terminate => exact h.terminateThread hg hstep

theorem ending_of_runs (h : Runs step Heeded (new : ServiceThread α) s) : s.Ending :=
  h.invariant (fun _ _ _ he hg hstep => he.step hg hstep) ending_new

/-! ## Runs into a hang -/

/-- A worker inside `update` drains the queue and waits. -/
theorem runs_drain (hworker : s.worker = .popping) :
    ∃ t, Runs step (fun _ _ => True) s t ∧ t.worker = .waiting ∧ t.queue = [] ∧
      t.master = s.master := by
  induction hqueue : s.queue generalizing s with
  | nil =>
    have hstep : s.step .work = some { s with worker := .waiting } := by
      simp [step, work, hworker, hqueue, popFront]
    exact ⟨_, .single trivial hstep, rfl, hqueue, rfl⟩
  | cons packet queue ih =>
    have hpop : s.step .work = some { s with queue := queue, worker := .handling packet } := by
      simp [step, work, hworker, hqueue, popFront]
    have hback : step { s with queue := queue, worker := .handling packet } .work =
        some { s with queue := queue, worker := .popping } := rfl
    obtain ⟨t, ht, hwaiting, hempty, hmaster⟩ :=
      @ih { s with queue := queue, worker := .popping } rfl rfl
    exact ⟨t, ((Runs.single trivial hpop).tail trivial hback).trans ht, hwaiting, hempty, hmaster⟩

/-- A worker in its loop at the broadcast ends up waiting for ever. -/
theorem hangs_of_joining (hmaster : s.master = .joining) (hwaiting : s.worker ≠ .waiting)
    (hleaving : ¬ s.Leaving) : ∃ t, Runs step (fun _ _ => True) s t ∧ t.Hung := by
  have hdrain : ∀ u : ServiceThread α, Runs step (fun _ _ => True) s u →
      u.worker = .popping → u.master = .joining →
      ∃ t, Runs step (fun _ _ => True) s t ∧ t.Hung := by
    intro u hu hpopping hjoining
    obtain ⟨t, ht, hw, hq, hm⟩ := runs_drain hpopping
    exact ⟨t, hu.trans ht, hm.trans hjoining, .inl ⟨hw, hq⟩⟩
  cases hworker : s.worker with
  | start =>
    have hstep : s.step .work = some { s with running := true, worker := .init } := by
      simp [step, work, hworker]
    exact ⟨_, .single trivial hstep, hmaster, .inr ⟨rfl, by simp⟩⟩
  | popping => exact hdrain s .refl hworker hmaster
  | handling packet =>
    have hstep : s.step .work = some { s with worker := .popping } := by
      simp [step, work, hworker]
    exact hdrain _ (.single trivial hstep) rfl hmaster
  | woken =>
    rw [leaving_woken hworker] at hleaving
    obtain ⟨packet, queue, hqueue⟩ := List.exists_cons_of_ne_nil hleaving
    have hpop : s.step .work = some { s with queue := queue, worker := .handling packet } := by
      simp [step, work, hworker, hqueue, popFront]
    have hback : step { s with queue := queue, worker := .handling packet } .work =
        some { s with queue := queue, worker := .popping } := rfl
    exact hdrain _ ((Runs.single trivial hpop).tail trivial hback) rfl hmaster
  | waiting => exact absurd hworker hwaiting
  | init => exact absurd (by simp [Leaving, hworker]) hleaving
  | check => exact absurd (by simp [Leaving, hworker]) hleaving
  | finished => exact absurd (by simp [Leaving, hworker]) hleaving

/-- A step of `terminateThread` that is not heeded leads to a hang. -/
theorem hangs_of_not_heeded {a : Action α} (hg : ¬ s.Heeded a) (hstep : s.step a = some t) :
    ∃ u, Runs step (fun _ _ => True) t u ∧ u.Hung := by
  cases a with
  | terminate =>
    simp only [step, terminateThread] at hstep
    split at hstep
    · rename_i hmaster
      cases hstep
      have hstart : s.worker = .start := by
        by_contra hne
        exact hg ⟨fun _ => hne, fun hm => (by rw [hmaster] at hm; cases hm)⟩
      have hjoin : step { s with running := false, master := .stored } .terminate =
          some { s with running := false, worker := .start, master := .joining } := by
        simp [step, terminateThread, hstart, Worker.notify]
      obtain ⟨u, hu, hhung⟩ := hangs_of_joining
        (s := { s with running := false, worker := .start, master := .joining }) rfl
        (by simp) (leaving_start rfl)
      exact ⟨u, (Runs.single trivial hjoin).trans hu, hhung⟩
    · rename_i hmaster
      cases hstep
      have hloop : ¬ (s.worker = .waiting ∨ s.Leaving) := by
        intro hheeds
        exact hg ⟨fun hm => (by rw [hmaster] at hm; cases hm), fun _ => hheeds⟩
      rw [not_or] at hloop
      have hnotify : s.worker.notify = s.worker := by
        cases hworker : s.worker with
        | waiting => exact absurd hworker hloop.1
        | _ => rfl
      rw [hnotify]
      exact hangs_of_joining rfl hloop.1 hloop.2
    · rename_i hmaster _
      exact absurd ⟨fun hm => (by rw [hmaster] at hm; cases hm),
        fun hm => (by rw [hmaster] at hm; cases hm)⟩ hg
    · cases hstep
  | _ => exact absurd trivial hg

/-- **A shutdown that is heeded does not hang, any other can.**  In every run in which
the flag is cleared behind the worker's own store and the broadcast finds the worker
waiting or about to test the flag, no state is hung; from every step of
`terminateThread` at another moment a hung state is reachable. -/
theorem shutdown_cannot_hang (s : ServiceThread α) :
    (Runs step Heeded new s → ¬ s.Hung) ∧
    (∀ a t, ¬ s.Heeded a → s.step a = some t →
      ∃ u, Runs step (fun _ _ => True) t u ∧ u.Hung) :=
  ⟨fun h => (ending_of_runs h).not_hung, fun _ _ hg hstep => hangs_of_not_heeded hg hstep⟩

/-- A worker that waits when `terminateThread` is called is joined. -/
theorem shutdown_cannot_hang_of_waiting : ∃ s : ServiceThread Nat,
    Runs step Heeded new s ∧ s.master = .joining ∧ s.worker = .finished ∧ ¬ s.Hung := by
  have hexec : ∃ s, Runs step Heeded (new : ServiceThread Nat) s ∧
      decide (s.master = .joining ∧ s.worker = .finished) = true :=
    exists_runs_of_schedule new
      [.work, .work, .work, .push 5, .work, .work, .work, .terminate, .terminate, .work,
        .work] _ (by decide)
  obtain ⟨s, hrun, hs⟩ := hexec
  obtain ⟨hmaster, hworker⟩ := of_decide_eq_true hs
  exact ⟨s, hrun, hmaster, hworker, (shutdown_cannot_hang s).1 hrun⟩

/-- Two hangs: the store and the broadcast come between the worker's test of the flag
and its wait; they come before the worker's own store. -/
theorem shutdown_hangs :
    (∃ s : ServiceThread Nat, Runs step (fun _ _ => True) new s ∧ s.Hung ∧
      s.worker = .waiting ∧ s.queue = [] ∧ s.running = false) ∧
    (∃ s : ServiceThread Nat, Runs step (fun _ _ => True) new s ∧ s.Hung ∧
      s.running = true) := by
  have hlate : ∃ s, Runs step (fun _ _ => True) (new : ServiceThread Nat) s ∧
      decide (s.master = .joining ∧ s.worker = .waiting ∧ s.queue = [] ∧ s.running = false)
        = true :=
    exists_runs_of_schedule new [.work, .work, .work, .terminate, .terminate, .work] _ (by decide)
  have hearly : ∃ s, Runs step (fun _ _ => True) (new : ServiceThread Nat) s ∧
      decide (s.master = .joining ∧ s.worker = .init ∧ s.running = true) = true :=
    exists_runs_of_schedule new [.terminate, .terminate, .work] _ (by decide)
  refine ⟨?_, ?_⟩
  · obtain ⟨s, hrun, hs⟩ := hlate
    obtain ⟨hmaster, hworker, hqueue, hrunning⟩ := of_decide_eq_true hs
    exact ⟨s, hrun, ⟨hmaster, .inl ⟨hworker, hqueue⟩⟩, hworker, hqueue, hrunning⟩
  · obtain ⟨s, hrun, hs⟩ := hearly
    obtain ⟨hmaster, hworker, hrunning⟩ := of_decide_eq_true hs
    exact ⟨s, hrun, ⟨hmaster, .inr ⟨hrunning, by simp [hworker]⟩⟩, hrunning⟩

end ServiceThread

end StormNet.Framework
