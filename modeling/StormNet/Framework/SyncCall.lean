/-
  Framework/SyncCall.lean --- how a synchronous call returns.

  `doInvoke` waits once: it tests `back` in an `if`, not in a loop around the wait.  A
  wakeup without a signal therefore ends the call, and the stub deletes a message that
  is still in `m_reqMessages`.  Without such a wakeup the call returns answered.
-/
import StormNet.Framework.Request

set_option autoImplicit false

namespace StormNet.Framework

open StormNet.Foundation
open Function (update update_self update_of_ne)

namespace ServiceProxy

variable {s t : ServiceProxy}

/-- `notifier.wait()` returns only behind `finishInvoke`. -/
def NotSpurious (s : ServiceProxy) : Action → Prop
  | .wakeup m => (s.message m).back
  | _ => True

/-- The calls that have returned were finished. -/
def ReturnedFinished (s : ServiceProxy) : Prop :=
  ∀ m, (s.message m).invokeType = .sync → s.stage m = .returned → s.finished m ≠ 0

/-- A finished count never goes down. -/
theorem finishInvoke_finished_ne_zero {tid : Nat} {m m' : Ref} (h : s.finished m' ≠ 0) :
    (s.finishInvoke tid m).finished m' ≠ 0 := by
  rw [Ne, finished_finishInvoke_eq_zero]
  exact fun h' => h h'.2

namespace ReturnedFinished

/-- A call moves on, to its end only if it is finished. -/
theorem goto (h : s.ReturnedFinished) {m : Ref} {stage : Stage}
    (hret : stage = .returned → (s.message m).invokeType = .sync → s.finished m ≠ 0) :
    ReturnedFinished { s with stage := update s.stage m stage } := by
  intro m' hsync hm'
  by_cases hmm : m' = m
  · subst hmm
    simp only [update_self] at hm'
    exact hret hm' hsync
  · simp only [update_of_ne hmm] at hm'
    exact h m' hsync hm'

/-- A message changes and keeps its type. -/
theorem setMessage (h : s.ReturnedFinished) {m : Ref} {message : RequestMessage}
    (htype : message.invokeType = (s.message m).invokeType) :
    ReturnedFinished { s with message := update s.message m message } := by
  intro m' hsync hm'
  refine h m' ?_ hm'
  by_cases hmm : m' = m
  · subst hmm
    simpa only [update_self, htype] using hsync
  · simpa only [update_of_ne hmm] using hsync

theorem finishInvoke (h : s.ReturnedFinished) (tid : Nat) (m : Ref) :
    (s.finishInvoke tid m).ReturnedFinished := by
  intro m' hsync hm'
  simp only [finishInvoke_invokeType, finishInvoke_stage] at hsync hm'
  exact finishInvoke_finished_ne_zero (h m' hsync hm')

theorem finishWith (h : s.ReturnedFinished) (netTid : Nat) {m : Ref} {message : RequestMessage}
    (htype : message.invokeType = (s.message m).invokeType) :
    (s.finishWith netTid m message).ReturnedFinished :=
  (h.setMessage htype).finishInvoke netTid m

theorem step (h : s.ReturnedFinished) (hi : s.Inv) {parse : List UInt8 → Option RpcResponse}
    {netTid : Nat} {a : Action} (hg : s.NotSpurious a)
    (hstep : s.step parse netTid a = some t) : t.ReturnedFinished := by
  cases step_cases hstep with
  | @newRequest m type cb broadcast tid hfresh =>
    intro m' hsync hm'
    have hne : m' ≠ m := by
      rintro rfl
      simp at hm'
    simp only [update_of_ne hne] at hsync hm'
    exact h m' hsync hm'
  | @takeId m =>
    have hset : ReturnedFinished { s with
        stage := update s.stage m .taken
        message := update s.message m { s.message m with requestId := s.sequeue } } :=
      (h.goto (by simp)).setMessage rfl
    exact hset
  | broadcast _ => exact h.goto (by simp)
  | noEndPoint _ _ => exact (h.goto (by simp)).setMessage rfl
  | send _ _ => exact (h.goto (by simp)).setMessage rfl
  | @refuse m _ _ _ =>
    have hgo : ReturnedFinished { s.finishInvoke (s.message m).threadId m with
        stage := update (s.finishInvoke (s.message m).threadId m).stage m .returned } :=
      (h.finishInvoke (s.message m).threadId m).goto (by simp)
    rwa [finishInvoke_stage] at hgo
  | oneWay _ hone => exact h.goto (fun _ hsync => absurd (hone.symm.trans hsync) (by decide))
  | save _ _ => exact h.goto (by simp)
  | add _ _ => exact h.goto (by simp)
  | wait _ => exact h.goto (by simp)
  | @done m _ _ _ hback => exact h.goto (fun _ hsync => (hi.back m hsync).mp (hback hsync))
  | @wakeup m _ => exact h.goto (fun _ hsync => (hi.back m hsync).mp hg)
  | packetFinish _ => exact h.finishWith netTid rfl
  | closeFinish _ => exact h.finishWith netTid rfl
  | sweepFinish _ => exact h.finishWith netTid rfl
  | _ => exact h

end ReturnedFinished

/-- **A synchronous call returns only with a real outcome**, in every run without a
spurious wakeup: a sync call that has returned has its `back` set by `finishInvoke`, and
a message that the stub has deleted is not in `m_reqMessages`. -/
theorem sync_returns_answered (parse : List UInt8 → Option RpcResponse) (netTid : Nat)
    (active : List EndPoint) (s : ServiceProxy)
    (h : Runs (step parse netTid) NotSpurious (new active) s) (m : Ref)
    (hsync : (s.message m).invokeType = .sync) :
    (s.stage m = .returned → (s.message m).back ∧ s.finished m = 1) ∧
    (m ∈ s.released → ∀ k : UInt32, s.reqMessages[k]? ≠ some m) := by
  have hall : s.Inv ∧ s.ReturnedFinished := by
    refine h.invariant (I := fun x => x.Inv ∧ x.ReturnedFinished) ?_ ⟨inv_new active, ?_⟩
    · rintro x a y ⟨hi, hr⟩ hg hstep
      exact ⟨hi.step hstep, hr.step hi hg hstep⟩
    · intro m _ hm
      simp [ServiceProxy.new] at hm
  obtain ⟨hi, hr⟩ := hall
  have hreturned : s.stage m = .returned → s.finished m ≠ 0 := hr m hsync
  refine ⟨fun hm => ⟨(hi.back m hsync).mpr (hreturned hm), ?_⟩, fun hm k hk => ?_⟩
  · have honce := hi.once m
    have hpos := hreturned hm
    omega
  · exact hreturned ((hi.deleted m hm).2 hsync) (hi.entry k m hk).2.2.2.1

instance (s : ServiceProxy) : ∀ a : Action, Decidable (s.NotSpurious a)
  | .wakeup m => inferInstanceAs (Decidable ((s.message m).back = true))
  | .newRequest _ _ _ _ _ => isTrue trivial
  | .doInvoke _ _ _ => isTrue trivial
  | .delRequest _ => isTrue trivial
  | .endpoints _ => isTrue trivial
  | .updateInMainLoop => isTrue trivial
  | .onPacket _ _ => isTrue trivial
  | .onClose _ _ => isTrue trivial
  | .doTimeOut _ => isTrue trivial
  | .net => isTrue trivial

/-- A sync call is closed with its connection while it waits, and deleted. -/
theorem sync_returns_answered_at_close : ∃ s : ServiceProxy,
    Runs (step (fun _ => none) 1) NotSpurious (new [7]) s ∧ s.stage 0 = .returned ∧
    (s.message 0).back ∧ (s.message 0).status = .error ∧ 0 ∈ s.released ∧
    s.reqMessages[(0 : UInt32)]? ≠ some 0 := by
  obtain ⟨s, hrun, hs⟩ := exists_run (G := NotSpurious) (fun _ => none) 1 (new [7])
    [.newRequest 0 .sync false false 2, .doInvoke 0 (-1) 0, .doInvoke 0 (-1) 0,
      .doInvoke 0 (-1) 0, .doInvoke 0 (-1) 0, .doInvoke 0 (-1) 0, .onClose 7 .peer, .net,
      .wakeup 0, .net, .delRequest 0]
    (fun s => (s.message 0).invokeType = .sync ∧ s.stage 0 = .returned ∧
      (s.message 0).status = .error ∧ 0 ∈ s.released) (by decide)
  obtain ⟨hsync, hret, hstatus, hdel⟩ := of_decide_eq_true hs
  obtain ⟨hback, hgone⟩ := sync_returns_answered (fun _ => none) 1 [7] s hrun 0 hsync
  exact ⟨s, hrun, hret, (hback hret).1, hstatus, hdel, hgone hdel 0⟩

/-- With one spurious wakeup the call returns unanswered, with the status of a timeout,
and its deleted message stays in `m_reqMessages`. -/
theorem sync_returns_unanswered : ∃ s : ServiceProxy,
    Runs (step (fun _ => none) 1) (fun _ _ => True) (new [7]) s ∧
    (s.message 0).invokeType = .sync ∧ s.stage 0 = .returned ∧ (s.message 0).back = false ∧
    0 ∈ s.released ∧ s.reqMessages[(0 : UInt32)]? = some 0 := by
  obtain ⟨s, hrun, hs⟩ := exists_run (G := fun _ _ => True) (fun _ => none) 1 (new [7])
    [.newRequest 0 .sync false false 2, .doInvoke 0 (-1) 0, .doInvoke 0 (-1) 0,
      .doInvoke 0 (-1) 0, .doInvoke 0 (-1) 0, .doInvoke 0 (-1) 0, .wakeup 0, .delRequest 0]
    (fun s => (s.message 0).invokeType = .sync ∧ s.stage 0 = .returned ∧
      (s.message 0).back = false ∧ 0 ∈ s.released ∧ s.reqMessages[(0 : UInt32)]? = some 0)
    (by decide)
  exact ⟨s, hrun, of_decide_eq_true hs⟩

end ServiceProxy

end StormNet.Framework
