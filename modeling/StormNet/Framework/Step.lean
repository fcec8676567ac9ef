/-
  Framework/Step.lean --- the steps of a `ServiceProxy`, case by case.

  `Step` lists what a step can do; `step_cases` says that the list is complete.  The
  invariants are proved from it, without unfolding the functions again.
-/
import StormNet.Framework.ServiceProxy

set_option autoImplicit false

namespace StormNet.Framework

open StormNet.Foundation
open StormNet.Net (CloseType)
open Function (update update_self update_of_ne)

namespace ServiceProxy

/-! ## What `finishInvoke` changes -/

/-- What `finishInvoke` changes, in one record. -/
theorem finishInvoke_eq (s : ServiceProxy) (tid : Nat) (m : Ref) :
    s.finishInvoke tid m = { s with
      finished := update s.finished m (s.finished m + 1)
      message := update s.message m { s.message m with
        back := (s.message m).back || decide ((s.message m).invokeType = .sync) }
      messages :=
        if (s.message m).invokeType = .async ∧ tid ≠ (s.message m).threadId then
          s.messages ++ [m] else s.messages
      released :=
        if (s.message m).invokeType = .async ∧ tid = (s.message m).threadId then
          m :: s.released else s.released } := by
  unfold finishInvoke
  cases htype : (s.message m).invokeType with
  | sync => simp [htype]
  | async =>
    by_cases htid : tid = (s.message m).threadId
    · simp [htype, htid]
      rw [← htype]
    · simp [htype, htid]
      rw [← htype]
  | oneWay =>
    simp [htype]
    rw [← htype]

section FinishInvoke

variable (s : ServiceProxy) (tid : Nat) (m m' : Ref)

@[simp] theorem finishInvoke_reqMessages :
    (s.finishInvoke tid m).reqMessages = s.reqMessages := by rw [finishInvoke_eq]

@[simp] theorem finishInvoke_timeout : (s.finishInvoke tid m).timeout = s.timeout := by
  rw [finishInvoke_eq]

@[simp] theorem finishInvoke_stage : (s.finishInvoke tid m).stage = s.stage := by
  rw [finishInvoke_eq]

@[simp] theorem finishInvoke_net : (s.finishInvoke tid m).net = s.net := by
  rw [finishInvoke_eq]

@[simp] theorem finishInvoke_calls : (s.finishInvoke tid m).calls = s.calls := by
  rw [finishInvoke_eq]

@[simp] theorem finishInvoke_finished :
    (s.finishInvoke tid m).finished = update s.finished m (s.finished m + 1) := by
  rw [finishInvoke_eq]

/-- `back` is the only field of a message that `finishInvoke` touches. -/
theorem finishInvoke_message : ∃ back,
    (s.finishInvoke tid m).message m' = { s.message m' with back := back } := by
  rw [finishInvoke_eq]
  by_cases hmm : m' = m
  · subst hmm
    exact ⟨_, update_self _ _ _⟩
  · exact ⟨(s.message m').back, update_of_ne hmm _ _⟩

@[simp] theorem finishInvoke_requestId :
    ((s.finishInvoke tid m).message m').requestId = (s.message m').requestId := by
  obtain ⟨back, h⟩ := finishInvoke_message s tid m m'
  rw [h]

@[simp] theorem finishInvoke_invokeType :
    ((s.finishInvoke tid m).message m').invokeType = (s.message m').invokeType := by
  obtain ⟨back, h⟩ := finishInvoke_message s tid m m'
  rw [h]

@[simp] theorem finishInvoke_status :
    ((s.finishInvoke tid m).message m').status = (s.message m').status := by
  obtain ⟨back, h⟩ := finishInvoke_message s tid m m'
  rw [h]

@[simp] theorem finishInvoke_resp :
    ((s.finishInvoke tid m).message m').resp = (s.message m').resp := by
  obtain ⟨back, h⟩ := finishInvoke_message s tid m m'
  rw [h]

/-- A finished sync request has `back` set; the others keep theirs. -/
theorem finishInvoke_back :
    ((s.finishInvoke tid m).message m').back =
      ((s.message m').back || decide (m' = m ∧ (s.message m).invokeType = .sync)) := by
  rw [finishInvoke_eq]
  by_cases hmm : m' = m
  · subst hmm
    simp
  · simp [hmm]

theorem mem_released_finishInvoke : m' ∈ (s.finishInvoke tid m).released ↔
    m' ∈ s.released ∨
      (m' = m ∧ (s.message m).invokeType = .async ∧ tid = (s.message m).threadId) := by
  rw [finishInvoke_eq]
  by_cases h : (s.message m).invokeType = .async ∧ tid = (s.message m).threadId
  · simp [h, or_comm]
  · simp [h]

theorem mem_messages_finishInvoke : m' ∈ (s.finishInvoke tid m).messages ↔
    m' ∈ s.messages ∨
      (m' = m ∧ (s.message m).invokeType = .async ∧ tid ≠ (s.message m).threadId) := by
  rw [finishInvoke_eq]
  by_cases h : (s.message m).invokeType = .async ∧ tid ≠ (s.message m).threadId
  · simp [h]
  · simp [h]

/-- Only `m` gets a call of `finishInvoke`. -/
theorem finished_finishInvoke_eq_zero :
    (s.finishInvoke tid m).finished m' = 0 ↔ m' ≠ m ∧ s.finished m' = 0 := by
  rw [finishInvoke_finished]
  by_cases hmm : m' = m
  · subst hmm
    simp
  · simp [hmm]

end FinishInvoke

/-! ## The cases -/

/-- What a step can do, case by case. -/
inductive Step (parse : List UInt8 → Option RpcResponse) (netTid : Nat) (s : ServiceProxy) :
    Action → ServiceProxy → Prop
  | newRequest {m : Ref} {type : InvokeType} {cb broadcast : Bool} {tid : Nat} :
      s.stage m = .fresh → Step parse netTid s (.newRequest m type cb broadcast tid) { s with
        message := update s.message m (Framework.newRequest type cb broadcast tid)
        stage := update s.stage m .created
        calls := m :: s.calls }
  | takeId {m : Ref} {code : Int64} {now : UInt64} :
      s.stage m = .created → Step parse netTid s (.doInvoke m code now) { s with
        sequeue := s.sequeue + 1
        message := update s.message m { s.message m with requestId := s.sequeue }
        stage := update s.stage m .taken }
  | broadcast {m : Ref} {code : Int64} {now : UInt64} :
      s.stage m = .taken → Step parse netTid s (.doInvoke m code now)
        { s with stage := update s.stage m .sent }
  | noEndPoint {m : Ref} {code : Int64} {now : UInt64} :
      s.stage m = .taken → s.selectEndPoint code = none →
      Step parse netTid s (.doInvoke m code now) { s with
        message := update s.message m { s.message m with status := .netError }
        stage := update s.stage m .refused }
  | send {m : Ref} {code : Int64} {now : UInt64} {ep : EndPoint} :
      s.stage m = .taken → s.selectEndPoint code = some ep →
      Step parse netTid s (.doInvoke m code now) { s with
        message := update s.message m { s.message m with ep := some ep }
        stage := update s.stage m .sent }
  | refuse {m : Ref} {code : Int64} {now : UInt64} :
      s.stage m = .refused → Step parse netTid s (.doInvoke m code now)
        { s.finishInvoke (s.message m).threadId m with stage := update s.stage m .returned }
  | oneWay {m : Ref} {code : Int64} {now : UInt64} :
      s.stage m = .sent → (s.message m).invokeType = .oneWay →
      Step parse netTid s (.doInvoke m code now) { s with stage := update s.stage m .returned }
  | save {m : Ref} {code : Int64} {now : UInt64} :
      s.stage m = .sent → (s.message m).invokeType ≠ .oneWay →
      Step parse netTid s (.doInvoke m code now)
        { s.saveMessage (s.message m).requestId m with stage := update s.stage m .saved }
  | add {m : Ref} {code : Int64} {now : UInt64} :
      s.stage m = .saved → s.net.sweeping = false →
      Step parse netTid s (.doInvoke m code now) { s with
        timeout := s.timeout.add (s.message m).requestId now
        stage := update s.stage m .added }
  | wait {m : Ref} {code : Int64} {now : UInt64} :
      s.stage m = .added → Step parse netTid s (.doInvoke m code now)
        { s with stage := update s.stage m .waiting }
  | done {m : Ref} {code : Int64} {now : UInt64} :
      s.stage m = .added → ((s.message m).invokeType = .sync → (s.message m).back) →
      Step parse netTid s (.doInvoke m code now) { s with stage := update s.stage m .returned }
  | wakeup {m : Ref} :
      s.stage m = .waiting → Step parse netTid s (.wakeup m)
        { s with stage := update s.stage m .returned }
  | delRequest {m : Ref} :
      s.stage m = .returned → (s.message m).invokeType ≠ .async →
      Step parse netTid s (.delRequest m) { s with released := m :: s.released }
  | endpoints {active : List EndPoint} :
      Step parse netTid s (.endpoints active) { s with activeEndPoints := active }
  | updateInMainLoop :
      Step parse netTid s .updateInMainLoop
        { s with messages := [], released := s.messages ++ s.released }
  | ignored {ep : EndPoint} {data : List UInt8} :
      s.net = .idle →
      (∀ resp, parse data = some resp → s.reqMessages[resp.requestId]? = none) →
      Step parse netTid s (.onPacket ep data) s
  | packet {ep : EndPoint} {data : List UInt8} {resp : RpcResponse} {m : Ref} :
      s.net = .idle → parse data = some resp → s.reqMessages[resp.requestId]? = some m →
      Step parse netTid s (.onPacket ep data) { s with
        reqMessages := s.reqMessages.erase resp.requestId, net := .packetTaken m resp }
  | onClose {ep : EndPoint} {closeType : CloseType} :
      s.net = .idle → Step parse netTid s (.onClose ep closeType) (s.onClose ep closeType)
  | doTimeOut {now : UInt64} :
      s.net = .idle → Step parse netTid s (.doTimeOut now) { s with net := .sweep now }
  | packetDel {m : Ref} {resp : RpcResponse} :
      s.net = .packetTaken m resp → Step parse netTid s .net
        { s with timeout := s.timeout.del resp.requestId, net := .packetDel m resp }
  | packetFinish {m : Ref} {resp : RpcResponse} :
      s.net = .packetDel m resp → Step parse netTid s .net { s.finishWith netTid m
        { s.message m with resp := some resp, status := .ok } with net := .idle }
  | closeEnd {closeType : CloseType} :
      s.net = .closing closeType [] → Step parse netTid s .net { s with net := .idle }
  | closeFinish {closeType : CloseType} {m : Ref} {rest : List Ref} :
      s.net = .closing closeType (m :: rest) → Step parse netTid s .net { s.finishWith netTid m
        { s.message m with status := closeStatus closeType } with
          net := .closeDel closeType m rest }
  | closeDel {closeType : CloseType} {m : Ref} {rest : List Ref} :
      s.net = .closeDel closeType m rest → Step parse netTid s .net { s with
        timeout := s.timeout.del (s.message m).requestId, net := .closing closeType rest }
  | sweepEnd {now : UInt64} :
      s.net = .sweep now → Step parse netTid s .net { s with net := .idle }
  | sweepMiss {now : UInt64} {key : UInt32} :
      s.net = .sweep now → s.timeout.due now = some key → s.reqMessages[key]? = none →
      Step parse netTid s .net { s with net := .sweepErase now key }
  | sweepTake {now : UInt64} {key : UInt32} {m : Ref} :
      s.net = .sweep now → s.timeout.due now = some key → s.reqMessages[key]? = some m →
      Step parse netTid s .net { s with
        reqMessages := s.reqMessages.erase key, net := .sweepTaken now m key }
  | sweepFinish {now : UInt64} {m : Ref} {key : UInt32} :
      s.net = .sweepTaken now m key → Step parse netTid s .net { s.finishWith netTid m
        { s.message m with status := .timeOut } with net := .sweepErase now key }
  | sweepErase {now : UInt64} {key : UInt32} :
      s.net = .sweepErase now key → Step parse netTid s .net
        { s with timeout := s.timeout.eraseFront, net := .sweep now }

section Step

variable {parse : List UInt8 → Option RpcResponse} {netTid : Nat} {s t : ServiceProxy}

theorem step_doInvoke {m : Ref} {code : Int64} {now : UInt64}
    (h : s.doInvoke m code now = some t) : Step parse netTid s (.doInvoke m code now) t := by
  unfold doInvoke at h
  cases hstage : s.stage m with
  | created =>
    simp only [hstage, Option.some.injEq] at h
    exact h ▸ .takeId hstage
  | taken =>
    simp only [hstage] at h
    split at h
    · exact Option.some.inj h ▸ .broadcast hstage
    · split at h
      · exact Option.some.inj h ▸ .noEndPoint hstage ‹_›
      · exact Option.some.inj h ▸ .send hstage ‹_›
  | refused =>
    simp only [hstage, Option.some.injEq] at h
    rw [finishInvoke_stage] at h
    exact h ▸ .refuse hstage
  | sent =>
    simp only [hstage] at h
    split at h
    · exact Option.some.inj h ▸ .oneWay hstage ‹_›
    · exact Option.some.inj h ▸ .save hstage ‹_›
  | saved =>
    simp only [hstage] at h
    split at h
    · cases h
    · exact Option.some.inj h ▸ .add hstage (Bool.eq_false_iff.mpr ‹_›)
  | added =>
    simp only [hstage] at h
    split at h
    · exact Option.some.inj h ▸ .wait hstage
    · rename_i hback
      refine Option.some.inj h ▸ .done hstage (fun hsync => ?_)
      simpa [hsync] using hback
  | _ => simp [hstage] at h

theorem step_net (h : s.netStep netTid = some t) : Step parse netTid s .net t := by
  unfold netStep at h
  cases hnet : s.net with
  | idle => simp [hnet] at h
  | packetTaken m resp =>
    simp only [hnet, Option.some.injEq] at h
    exact h ▸ .packetDel hnet
  | packetDel m resp =>
    simp only [hnet, Option.some.injEq] at h
    exact h ▸ .packetFinish hnet
  | closing closeType rest =>
    cases rest with
    | nil =>
      simp only [hnet, Option.some.injEq] at h
      exact h ▸ .closeEnd hnet
    | cons m rest =>
      simp only [hnet, Option.some.injEq] at h
      exact h ▸ .closeFinish hnet
  | closeDel closeType m rest =>
    simp only [hnet, Option.some.injEq] at h
    exact h ▸ .closeDel hnet
  | sweep now =>
    simp only [hnet, doReqTimeOut, getAndDelReqMessage] at h
    cases hdue : s.timeout.due now with
    | none =>
      simp only [hdue, Option.some.injEq] at h
      exact h ▸ .sweepEnd hnet
    | some key =>
      cases hk : s.reqMessages[key]? with
      | none =>
        simp only [hdue, hk, Option.map_none, Option.some.injEq] at h
        exact h ▸ .sweepMiss hnet hdue hk
      | some m =>
        simp only [hdue, hk, Option.map_some, Option.some.injEq] at h
        exact h ▸ .sweepTake hnet hdue hk
  | sweepTaken now m key =>
    simp only [hnet, Option.some.injEq] at h
    exact h ▸ .sweepFinish hnet
  | sweepErase now key =>
    simp only [hnet, Option.some.injEq] at h
    exact h ▸ .sweepErase hnet

theorem step_onPacket (ep : EndPoint) (data : List UInt8) (hidle : s.net = .idle) :
    Step parse netTid s (.onPacket ep data) (s.onPacket parse data) := by
  unfold onPacket getAndDelReqMessage
  cases hparse : parse data with
  | none => exact .ignored hidle (by simp [hparse])
  | some resp =>
    cases hk : s.reqMessages[resp.requestId]? with
    | none =>
      simp only [hk, Option.map_none]
      refine .ignored hidle (fun resp' h => ?_)
      cases hparse.symm.trans h
      exact hk
    | some m =>
      simp only [hk, Option.map_some]
      exact .packet hidle hparse hk

/-- The cases are all there is. -/
theorem step_cases {a : Action} (h : step parse netTid s a = some t) :
    Step parse netTid s a t := by
  cases a with
  | doInvoke m code now => exact step_doInvoke h
  | net => exact step_net h
  | endpoints active => exact Option.some.inj h ▸ .endpoints
  | updateInMainLoop => exact Option.some.inj h ▸ .updateInMainLoop
  | newRequest m type cb broadcast tid =>
    simp only [step] at h
    split at h
    · exact Option.some.inj h ▸ .newRequest ‹_›
    · cases h
  | wakeup m =>
    simp only [step, wakeup] at h
    split at h
    · exact Option.some.inj h ▸ .wakeup ‹_›
    · cases h
  | delRequest m =>
    simp only [step, delRequest] at h
    split at h
    · rename_i hret
      exact Option.some.inj h ▸ .delRequest hret.1 hret.2.1
    · cases h
  | onPacket ep data =>
    simp only [step] at h
    split at h
    · exact Option.some.inj h ▸ step_onPacket ep data ‹_›
    · cases h
  | onClose ep closeType =>
    simp only [step] at h
    split at h
    · exact Option.some.inj h ▸ .onClose ‹_›
    · cases h
  | doTimeOut now =>
    simp only [step] at h
    split at h
    · exact Option.some.inj h ▸ .doTimeOut ‹_›
    · cases h

end Step

/-- A schedule whose steps meet the guard and end in a state that passes `p`. -/
theorem exists_run {G : ServiceProxy → Action → Prop} [∀ s a, Decidable (G s a)]
    (parse : List UInt8 → Option RpcResponse) (netTid : Nat) (s : ServiceProxy)
    (schedule : List Action) (p : ServiceProxy → Bool)
    (h : (execute (step parse netTid) (fun s a => decide (G s a)) s schedule).any p = true) :
    ∃ t, Runs (step parse netTid) G s t ∧ p t = true :=
  exists_runs_of_execute (fun _ _ hg => of_decide_eq_true hg) schedule p h

end ServiceProxy

end StormNet.Framework
