/-
  Framework/Delivery.lean --- what a response or a close does for a request that is
  already on the wire.

  `doInvoke` sends a request before it saves it, so a response or a close that is
  handled in between finds nothing and the request is left to its timeout.  Outside
  that window every response and every close finishes the requests it is for.
-/
import StormNet.Framework.Completion

set_option autoImplicit false

namespace StormNet.Framework

open StormNet.Foundation
open StormNet.Net (CloseType)
open Function (update update_of_ne)

/-- The bytes of the request are handed to `ProxyEndPoint::send`. -/
def Stage.pastSend : Stage → Bool
  | .sent => true
  | stage => stage.pastSave

/-- The status and the response the net thread is about to finish `m` with. -/
def NetState.outcome (m : Ref) : NetState → Option (ResponseStatus × Option RpcResponse)
  | .packetTaken m' resp => if m' = m then some (.ok, some resp) else none
  | .packetDel m' resp => if m' = m then some (.ok, some resp) else none
  | .closing closeType rest =>
      if m ∈ rest then some (ServiceProxy.closeStatus closeType, none) else none
  | .closeDel closeType _ rest =>
      if m ∈ rest then some (ServiceProxy.closeStatus closeType, none) else none
  | _ => none

theorem NetState.mem_inHand_of_outcome {net : NetState} {m : Ref}
    {o : ResponseStatus × Option RpcResponse} (h : net.outcome m = some o) : m ∈ net.inHand := by
  cases net <;> simp_all [outcome, inHand]

namespace ServiceProxy

variable {s t : ServiceProxy} {parse : List UInt8 → Option RpcResponse} {netTid : Nat}

/-- `m` was finished once, with the outcome `o`. -/
def Settled (s : ServiceProxy) (m : Ref) (o : ResponseStatus × Option RpcResponse) : Prop :=
  s.finished m = 1 ∧ (s.message m).status = o.1 ∧
    ∀ resp, o.2 = some resp → (s.message m).resp = some resp

/-- The condition: no request id is taken while it is pending, and no response and no
close is handled while a request it is for is between `send` and `saveMessage`. -/
def SavedFirst (parse : List UInt8 → Option RpcResponse) (s : ServiceProxy) : Action → Prop
  | .onPacket _ data => ∀ resp, parse data = some resp → ∀ m ∈ s.calls,
      s.TwoWay m → s.stage m = .sent → (s.message m).requestId ≠ resp.requestId
  | .onClose ep _ => ∀ m ∈ s.calls,
      s.TwoWay m → s.stage m = .sent → (s.message m).ep ≠ some ep
  | a => s.FreshId a

theorem SavedFirst.freshId {a : Action} (h : s.SavedFirst parse a) : s.FreshId a := by
  cases a <;> first | exact h | trivial

/-! ## What is in hand gets its outcome -/

section Settled

variable {m m' : Ref} {o : ResponseStatus × Option RpcResponse}

/-- The net thread finishes another request. -/
theorem Settled.finishWith (h : s.Settled m o) (hi : s.Inv) {message : RequestMessage}
    (hin : m' ∈ s.net.inHand) : (s.finishWith netTid m' message).Settled m o := by
  have hne : m ≠ m' := by
    intro hmm
    have hfinished := h.1
    rw [hmm, (hi.hand m' hin).2.2] at hfinished
    cases hfinished
  simpa [Settled, ServiceProxy.finishWith, update_of_ne hne] using h

/-- A finished request stays as it is. -/
theorem Settled.step (h : s.Settled m o) (hi : s.Inv) {a : Action}
    (hstep : s.step parse netTid a = some t) : t.Settled m o := by
  have hsaved : (s.stage m).pastSave := by
    cases hstage : (s.stage m).pastSave with
    | true => rfl
    | false =>
      have hfinished := h.1
      rw [(hi.unsaved m hstage).1] at hfinished
      cases hfinished
  have hcases := step_cases hstep
  by_cases ha : a = .net
  · subst ha
    cases hcases with
    | packetFinish hnet => exact h.finishWith hi (by simp [hnet, NetState.inHand])
    | closeFinish hnet => exact h.finishWith hi (by simp [hnet, NetState.inHand])
    | sweepFinish hnet => exact h.finishWith hi (by simp [hnet, NetState.inHand])
    | _ => exact h
  · obtain ⟨-, hmessage, hfinished⟩ := hcases.stays ha hsaved
    rw [Settled, hmessage, hfinished]
    exact h

/-- The net thread finishes what it has in hand. -/
theorem settled_finishWith (hi : s.Inv) {message : RequestMessage} (hin : m ∈ s.net.inHand)
    (hstatus : message.status = o.1) (hresp : ∀ resp, o.2 = some resp → message.resp = some resp) :
    (s.finishWith netTid m message).Settled m o := by
  refine ⟨?_, ?_, ?_⟩
  · simp [ServiceProxy.finishWith, (hi.hand m hin).2.2]
  · simpa [ServiceProxy.finishWith] using hstatus
  · simpa [ServiceProxy.finishWith] using hresp

/-- The outcome the net thread owes a request in hand, it owes after a step or has
brought about. -/
theorem outcome_step (hi : s.Inv) (ho : s.net.outcome m = some o) {a : Action}
    (hstep : s.step parse netTid a = some t) : t.net.outcome m = some o ∨ t.Settled m o := by
  have hin := NetState.mem_inHand_of_outcome ho
  cases step_cases hstep with
  | refuse _ => exact .inl (by simpa using ho)
  | packet hidle _ _ => simp [hidle, NetState.outcome] at ho
  | onClose hidle => simp [hidle, NetState.outcome] at ho
  | doTimeOut hidle => simp [hidle, NetState.outcome] at ho
  | packetDel hnet => exact .inl (by simpa [hnet, NetState.outcome] using ho)
  | @packetFinish m' resp hnet =>
    simp only [hnet, NetState.outcome, Option.ite_none_right_eq_some, Option.some.injEq] at ho
    obtain ⟨rfl, rfl⟩ := ho
    exact .inr (settled_finishWith hi hin rfl (fun _ => id))
  | closeEnd hnet => simp [hnet, NetState.outcome] at ho
  | @closeFinish closeType m' rest hnet =>
    simp only [hnet, NetState.outcome, Option.ite_none_right_eq_some, Option.some.injEq] at ho
    obtain ⟨hm, rfl⟩ := ho
    by_cases hmm : m = m'
    · subst hmm
      exact .inr (settled_finishWith hi hin rfl (by simp))
    · have hrest : m ∈ rest := (List.mem_cons.mp hm).resolve_left hmm
      exact .inl (by simp [NetState.outcome, hrest])
  | closeDel hnet => exact .inl (by simpa [hnet, NetState.outcome] using ho)
  | sweepEnd hnet => simp [hnet, NetState.outcome] at ho
  | sweepMiss hnet _ _ => simp [hnet, NetState.outcome] at ho
  | sweepTake hnet _ _ => simp [hnet, NetState.outcome] at ho
  | sweepFinish hnet => simp [hnet, NetState.outcome] at ho
  | sweepErase hnet => simp [hnet, NetState.outcome] at ho
  | _ => exact .inl ho

/-- Whatever runs meanwhile, the handler ends with the outcome it owes. -/
theorem settled_of_runs {G : ServiceProxy → Action → Prop} (hi : s.Inv)
    (ho : s.net.outcome m = some o) (h : Runs (step parse netTid) G s t)
    (hidle : t.net = .idle) : t.Settled m o := by
  have hall : t.Inv ∧ (t.net.outcome m = some o ∨ t.Settled m o) := by
    refine h.invariant (I := fun x => x.Inv ∧ (x.net.outcome m = some o ∨ x.Settled m o)) ?_
      ⟨hi, .inl ho⟩
    rintro x a y ⟨hi, hx⟩ _ hstep
    exact ⟨hi.step hstep, hx.elim (fun ho => outcome_step hi ho hstep)
      (fun hs => .inr (hs.step hi hstep))⟩
  refine hall.2.resolve_left (fun ho => ?_)
  simp [hidle, NetState.outcome] at ho

end Settled

/-! ## The handlers return -/

/-- The loop of `onClose` ends, whatever the length of the list. -/
theorem closing_returns {G : ServiceProxy → Action → Prop} (hG : ∀ x, G x .net)
    {closeType : CloseType} {rest : List Ref} (hnet : s.net = .closing closeType rest) :
    ∃ t, Runs (step parse netTid) G s t ∧ t.net = .idle := by
  induction rest generalizing s with
  | nil =>
    exact ⟨{ s with net := .idle }, .single (hG s) (by simp [step, netStep, hnet]), rfl⟩
  | cons m rest ih =>
    let done := { s.finishWith netTid m { s.message m with status := closeStatus closeType } with
      net := .closeDel closeType m rest }
    let deleted := { done with
      timeout := done.timeout.del (done.message m).requestId, net := .closing closeType rest }
    have hfinish : s.step parse netTid .net = some done := by simp [step, netStep, hnet, done]
    have hdelete : done.step parse netTid .net = some deleted := by
      simp [step, netStep, done, deleted]
    have hrest : deleted.net = .closing closeType rest := rfl
    obtain ⟨t, hruns, hidle⟩ := ih hrest
    exact ⟨t, (Runs.single (hG s) hfinish).trans ((Runs.single (hG done) hdelete).trans hruns),
      hidle⟩

theorem packet_returns {G : ServiceProxy → Action → Prop} (hG : ∀ x, G x .net)
    {m : Ref} {resp : RpcResponse} (hnet : s.net = .packetTaken m resp) :
    ∃ t, Runs (step parse netTid) G s t ∧ t.net = .idle := by
  let deleted := { s with timeout := s.timeout.del resp.requestId, net := .packetDel m resp }
  have hdelete : s.step parse netTid .net = some deleted := by
    simp [step, netStep, hnet, deleted]
  have hfinish : deleted.step parse netTid .net = some { deleted.finishWith netTid m
      { deleted.message m with resp := some resp, status := .ok } with net := .idle } := by
    simp [step, netStep, deleted]
  exact ⟨_, (Runs.single (hG s) hdelete).trans (Runs.single (hG deleted) hfinish), rfl⟩

/-! ## The requests on the wire -/

/-- From `s` on the handler returns, and whenever it has, `m` is settled with `o`. -/
def Finishes (parse : List UInt8 → Option RpcResponse) (netTid : Nat) (s : ServiceProxy)
    (m : Ref) (o : ResponseStatus × Option RpcResponse) : Prop :=
  (∃ t, Runs (step parse netTid) (fun _ _ => True) s t ∧ t.net = .idle) ∧
  ∀ t, Runs (step parse netTid) (fun _ _ => True) s t → t.net = .idle → t.Settled m o

/-- A sent request that is not between `send` and `saveMessage` is in the table. -/
theorem Tracked.held_of_sent (h : s.Tracked) {m : Ref} (htwo : s.TwoWay m)
    (hsent : (s.stage m).pastSend) (hopen : s.finished m = 0) (hidle : s.net = .idle)
    (hsaved : s.stage m ≠ .sent) : s.reqMessages[(s.message m).requestId]? = some m := by
  refine h.held m ⟨?_, htwo, hopen, by simp [hidle, NetState.inHand]⟩
  cases hstage : s.stage m <;> simp_all [Stage.pastSend, Stage.pastSave]

/-- **No response is lost to a race**, in every run in which no response and no close is
handled while a request it is for is between `send` and `saveMessage`, and no request id
is taken while it is pending.  A response with the id of a sent, unfinished request
finishes it with `ResponseStatus_Ok` and that response; a close of its endpoint finishes
it with the status of the close. -/
theorem sent_request_finished (parse : List UInt8 → Option RpcResponse) (netTid : Nat)
    (active : List EndPoint) (s : ServiceProxy)
    (h : Runs (step parse netTid) (SavedFirst parse) (new active) s) (m : Ref)
    (htwo : s.TwoWay m) (hsent : (s.stage m).pastSend) (hopen : s.finished m = 0) :
    (∀ ep data resp s', parse data = some resp → resp.requestId = (s.message m).requestId →
      s.SavedFirst parse (.onPacket ep data) →
      s.step parse netTid (.onPacket ep data) = some s' →
      Finishes parse netTid s' m (.ok, some resp)) ∧
    (∀ ep closeType s', (s.message m).ep = some ep →
      s.SavedFirst parse (.onClose ep closeType) →
      s.step parse netTid (.onClose ep closeType) = some s' →
      Finishes parse netTid s' m (closeStatus closeType, none)) := by
  have hi := inv_of_runs h
  have ht := tracked_of_runs (h.mono (fun _ _ hg => hg.freshId))
  have hcalled : m ∈ s.calls := by
    refine ht.called m (fun hfresh => ?_)
    simp [hfresh, Stage.pastSend, Stage.pastSave] at hsent
  refine ⟨?_, ?_⟩
  · intro ep data resp s' hparse hid hg hstep
    have hi' := hi.step hstep
    cases step_cases hstep with
    | ignored hidle hnone =>
      have hheld := ht.held_of_sent htwo hsent hopen hidle
        (fun hstage => hg resp hparse m hcalled htwo hstage hid.symm)
      rw [← hid, hnone resp hparse] at hheld
      cases hheld
    | @packet _ _ resp' m' hidle hparse' hk =>
      cases hparse.symm.trans hparse'
      have hheld := ht.held_of_sent htwo hsent hopen hidle
        (fun hstage => hg resp hparse m hcalled htwo hstage hid.symm)
      rw [← hid, hk, Option.some.injEq] at hheld
      subst hheld
      exact ⟨packet_returns (fun _ => trivial) rfl,
        fun t hruns hidle' => settled_of_runs hi' (by simp [NetState.outcome]) hruns hidle'⟩
  · intro ep closeType s' hep hg hstep
    have hi' := hi.step hstep
    cases step_cases hstep with
    | onClose hidle =>
      have hheld := ht.held_of_sent htwo hsent hopen hidle
        (fun hstage => hg m hcalled htwo hstage hep)
      have hin : m ∈ (s.reqMessages.toList.map (·.2)).filter
          (fun m => decide ((s.message m).ep = some ep)) :=
        List.mem_filter.mpr ⟨Table.mem_values.mpr ⟨_, hheld⟩, by simpa using hep⟩
      exact ⟨closing_returns (fun _ => trivial) rfl,
        fun t hruns hidle' => settled_of_runs hi'
          (by simpa [ServiceProxy.onClose, NetState.outcome] using hin) hruns hidle'⟩

instance (parse : List UInt8 → Option RpcResponse) (s : ServiceProxy) :
    ∀ a : Action, Decidable (s.SavedFirst parse a)
  | .onPacket _ data => inferInstanceAs (Decidable (∀ resp ∈ parse data, ∀ m ∈ s.calls,
      s.TwoWay m → s.stage m = .sent → (s.message m).requestId ≠ resp.requestId))
  | .onClose ep _ => inferInstanceAs (Decidable (∀ m ∈ s.calls,
      s.TwoWay m → s.stage m = .sent → (s.message m).ep ≠ some ep))
  | .doInvoke m code now => inferInstanceAs (Decidable (s.FreshId (.doInvoke m code now)))
  | .newRequest _ _ _ _ _ => isTrue trivial
  | .wakeup _ => isTrue trivial
  | .delRequest _ => isTrue trivial
  | .endpoints _ => isTrue trivial
  | .updateInMainLoop => isTrue trivial
  | .doTimeOut _ => isTrue trivial
  | .net => isTrue trivial

/-- A waiting sync request gets its response. -/
theorem sent_request_finished_at_response : ∃ s t : ServiceProxy,
    Runs (step parseZero 1) (SavedFirst parseZero) (new [7]) s ∧
    s.step parseZero 1 (.onPacket 7 [0x10, 0x00]) = some (s.onPacket parseZero [0x10, 0x00]) ∧
    Runs (step parseZero 1) (fun _ _ => True) (s.onPacket parseZero [0x10, 0x00]) t ∧
    t.net = .idle ∧ t.Settled 0 (.ok, some ⟨0, 0, []⟩) := by
  obtain ⟨s, hrun, hs⟩ := exists_run (G := SavedFirst parseZero) parseZero 1 (new [7])
    [.newRequest 0 .sync false false 2, .doInvoke 0 (-1) 0, .doInvoke 0 (-1) 0,
      .doInvoke 0 (-1) 0, .doInvoke 0 (-1) 0, .doInvoke 0 (-1) 0]
    (fun s => s.TwoWay 0 ∧ (s.stage 0).pastSend ∧ s.finished 0 = 0 ∧
      (s.message 0).requestId = 0 ∧ s.net = .idle ∧
      s.SavedFirst parseZero (.onPacket 7 [0x10, 0x00])) (by decide)
  obtain ⟨htwo, hsent, hopen, hid, hidle, hg⟩ := of_decide_eq_true hs
  have hstep : s.step parseZero 1 (.onPacket 7 [0x10, 0x00]) =
      some (s.onPacket parseZero [0x10, 0x00]) := if_pos hidle
  have hfinish := (sent_request_finished parseZero 1 [7] s hrun 0 htwo hsent hopen).1
    7 [0x10, 0x00] ⟨0, 0, []⟩ _ (by decide) hid.symm hg hstep
  obtain ⟨⟨t, hruns, hidle'⟩, hall⟩ := hfinish
  exact ⟨s, t, hrun, hstep, hruns, hidle', hall t hruns hidle'⟩

/-- A response and a close that are handled between `send` and `saveMessage` leave the
request unfinished. -/
theorem response_lost_before_save : ∃ s : ServiceProxy,
    Runs (step parseZero 1) (fun _ _ => True) (new [7]) s ∧
    s.TwoWay 0 ∧ (s.stage 0).pastSend ∧ s.finished 0 = 0 ∧
    (s.message 0).requestId = 0 ∧ (s.message 0).ep = some 7 ∧ s.net = .idle ∧
    ¬ Finishes parseZero 1 (s.onPacket parseZero [0x10, 0x00]) 0 (.ok, some ⟨0, 0, []⟩) ∧
    ¬ Finishes parseZero 1 (s.onClose 7 .peer) 0 (closeStatus .peer, none) := by
  obtain ⟨s, hrun, hs⟩ := exists_run (G := fun _ _ => True) parseZero 1 (new [7])
    [.newRequest 0 .sync false false 2, .doInvoke 0 (-1) 0, .doInvoke 0 (-1) 0]
    (fun s => s.TwoWay 0 ∧ (s.stage 0).pastSend ∧ s.finished 0 = 0 ∧
      (s.message 0).requestId = 0 ∧ (s.message 0).ep = some 7 ∧ s.net = .idle ∧
      (s.onPacket parseZero [0x10, 0x00]).net = .idle ∧
      (s.onPacket parseZero [0x10, 0x00]).finished 0 = 0 ∧
      (s.onClose 7 .peer).net = .closing .peer []) (by decide)
  obtain ⟨htwo, hsent, hopen, hid, hep, hidle, hidle', hopen', hclose⟩ := of_decide_eq_true hs
  refine ⟨s, hrun, htwo, hsent, hopen, hid, hep, hidle, fun hfinish => ?_, fun hfinish => ?_⟩
  · have hsettled := hfinish.2 _ .refl hidle'
    exact absurd (hopen'.symm.trans hsettled.1) (by decide)
  · have hend : (s.onClose 7 .peer).step parseZero 1 .net =
        some { s.onClose 7 .peer with net := .idle } := by
      simp [step, netStep, hclose]
    have hsettled := hfinish.2 _ (.single trivial hend) rfl
    exact absurd (hopen.symm.trans hsettled.1) (by decide)

end ServiceProxy

end StormNet.Framework
