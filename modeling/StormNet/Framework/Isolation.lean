/-
  Framework/Isolation.lean --- whose packets finish whose requests.

  `onPacket` is told the endpoint a packet came from and does not look at it: the
  pending request is found by the response id alone.  `Traced` runs the proxy beside a
  record of the endpoint whose packet is being handled and of the requests finished by
  packets so far; no step of the proxy reads the record.
-/
import StormNet.Framework.Completion

set_option autoImplicit false

namespace StormNet.Framework

open StormNet.Foundation
open StormNet.Net (CloseType)
open Function (update update_self update_of_ne)
open ServiceProxy (Action)

/-- The request that `onPacket` has in hand. -/
def NetState.answering : NetState → Option Ref
  | .packetTaken m _ => some m
  | .packetDel m _ => some m
  | _ => none

theorem NetState.mem_inHand_of_answering {net : NetState} {m : Ref}
    (h : net.answering = some m) : m ∈ net.inHand := by
  cases net with
  | packetTaken m' resp => exact List.mem_singleton.mpr (Option.some.inj h).symm
  | packetDel m' resp => exact List.mem_singleton.mpr (Option.some.inj h).symm
  | _ => cases h

namespace ServiceProxy

variable {s t : ServiceProxy} {parse : List UInt8 → Option RpcResponse} {netTid : Nat}

/-! ## The endpoint of a request is chosen once -/

/-- Once a request is saved, its endpoint stays. -/
theorem Step.ep_eq {a : Action} (h : Step parse netTid s a t) {m : Ref}
    (hm : (s.stage m).pastSave) :
    (t.stage m).pastSave ∧ (t.message m).ep = (s.message m).ep := by
  have hlasts := h.lasts hm
  exact ⟨hlasts.saved, hlasts.ep⟩

/-- A request comes into the hands of `onPacket` by the id of its response alone. -/
theorem Step.answering_cases {a : Action} (h : Step parse netTid s a t) {m : Ref}
    (hm : t.net.answering = some m) :
    (∃ ep data resp, a = .onPacket ep data ∧ parse data = some resp ∧
        s.reqMessages[resp.requestId]? = some m) ∨
      (s.net.answering = some m ∧ ∀ ep data, a ≠ .onPacket ep data) := by
  cases h with
  | ignored hidle _ =>
    rw [hidle] at hm
    cases hm
  | @packet ep data resp m' _ hparse hk =>
    refine .inl ⟨ep, data, resp, rfl, hparse, ?_⟩
    rw [← hm]
    exact hk
  | packetDel hnet =>
    refine .inr ⟨?_, by simp⟩
    rw [hnet]
    exact hm
  | refuse _ =>
    rw [← finishInvoke_net s _ _]
    exact .inr ⟨hm, by simp⟩
  | onClose | doTimeOut | packetFinish | closeEnd | closeFinish | closeDel | sweepEnd | sweepMiss
  | sweepTake | sweepFinish | sweepErase => cases hm
  | _ => exact .inr ⟨hm, by simp⟩

/-- The response of a packet names no pending request of another endpoint. -/
def OwnId (parse : List UInt8 → Option RpcResponse) (s : ServiceProxy) : Action → Prop
  | .onPacket ep data => ∀ resp ∈ parse data, ∀ m ∈ s.reqMessages[resp.requestId]?,
      (s.message m).ep = some ep
  | _ => True

instance (parse : List UInt8 → Option RpcResponse) (s : ServiceProxy) :
    ∀ a : Action, Decidable (s.OwnId parse a)
  | .onPacket ep data => inferInstanceAs (Decidable (∀ resp ∈ parse data,
      ∀ m ∈ s.reqMessages[resp.requestId]?, (s.message m).ep = some ep))
  | .newRequest _ _ _ _ _ => isTrue trivial
  | .doInvoke _ _ _ => isTrue trivial
  | .wakeup _ => isTrue trivial
  | .delRequest _ => isTrue trivial
  | .endpoints _ => isTrue trivial
  | .updateInMainLoop => isTrue trivial
  | .onClose _ _ => isTrue trivial
  | .doTimeOut _ => isTrue trivial
  | .net => isTrue trivial

end ServiceProxy

/-! ## The record -/

/-- A proxy, the endpoint of the last packet and the requests finished by packets, each
with the endpoint the packet came from. -/
structure Traced where
  proxy : ServiceProxy
  sender : Option EndPoint
  answers : List (EndPoint × Ref)

namespace Traced

/-- A new proxy with nothing recorded. -/
def new (active : List EndPoint) : Traced where
  proxy := .new active
  sender := none
  answers := []

/-- The endpoint of the last packet, after the step. -/
def senderAfter (x : Traced) : Action → Option EndPoint
  | .onPacket ep _ => some ep
  | _ => x.sender

theorem senderAfter_of_ne {x : Traced} {a : Action} (h : ∀ ep data, a ≠ .onPacket ep data) :
    x.senderAfter a = x.sender := by
  cases a with
  | onPacket ep data => exact absurd rfl (h ep data)
  | _ => rfl

/-- What the step adds to the record: `finishInvoke` at the end of `onPacket`. -/
def answersAfter (x : Traced) : Action → List (EndPoint × Ref)
  | .net =>
      match x.proxy.net with
      | .packetDel m _ => x.sender.toList.map (fun ep => (ep, m)) ++ x.answers
      | _ => x.answers
  | _ => x.answers

/-- A step of the proxy, recorded. -/
def step (parse : List UInt8 → Option RpcResponse) (netTid : Nat) (x : Traced) (a : Action) :
    Option Traced :=
  (x.proxy.step parse netTid a).map
    (fun s => { proxy := s, sender := x.senderAfter a, answers := x.answersAfter a })

variable {x y : Traced} {parse : List UInt8 → Option RpcResponse} {netTid : Nat}

theorem step_eq_some {a : Action} (h : x.step parse netTid a = some y) :
    x.proxy.step parse netTid a = some y.proxy ∧ y.sender = x.senderAfter a ∧
      y.answers = x.answersAfter a := by
  obtain ⟨s, hs, rfl⟩ := Option.map_eq_some_iff.mp h
  exact ⟨hs, rfl, rfl⟩

/-- Every answer so far, and the one being given, is for a request of its sender. -/
structure Attributed (x : Traced) : Prop where
  answered : ∀ ep m, (ep, m) ∈ x.answers →
    (x.proxy.stage m).pastSave ∧ (x.proxy.message m).ep = some ep
  answering : ∀ m, x.proxy.net.answering = some m →
    ∃ ep, x.sender = some ep ∧ (x.proxy.message m).ep = some ep

theorem attributed_new (active : List EndPoint) : (new active).Attributed := by
  constructor
  · intro ep m hm
    cases hm
  · intro m hm
    cases hm

/-- What a step adds to the record comes from the request in hand. -/
theorem mem_answersAfter {a : Action} {ep : EndPoint} {m : Ref}
    (h : (ep, m) ∈ x.answersAfter a) :
    (ep, m) ∈ x.answers ∨ (x.proxy.net.answering = some m ∧ x.sender = some ep) := by
  cases a with
  | net =>
    simp only [answersAfter] at h
    cases hnet : x.proxy.net with
    | packetDel m' resp =>
      simp only [hnet, List.mem_append, List.mem_map, Option.mem_toList,
        Prod.mk.injEq] at h
      rcases h with ⟨ep', hep', rfl, rfl⟩ | h
      · exact .inr ⟨rfl, hep'⟩
      · exact .inl h
    | _ =>
      simp only [hnet] at h
      exact .inl h
  | _ => exact .inl h

theorem Attributed.step (h : x.Attributed) (hi : x.proxy.Inv) {a : Action}
    (hg : x.proxy.OwnId parse a) (hstep : x.step parse netTid a = some y) : y.Attributed := by
  obtain ⟨hproxy, hsender, hanswers⟩ := step_eq_some hstep
  have hcases := ServiceProxy.step_cases hproxy
  have hhand : ∀ m, x.proxy.net.answering = some m → (x.proxy.stage m).pastSave :=
    fun m hm => (hi.hand m (NetState.mem_inHand_of_answering hm)).1
  constructor
  · intro ep m hm
    rw [hanswers] at hm
    rcases mem_answersAfter hm with hm | ⟨hm, hep⟩
    · obtain ⟨hsaved, hep⟩ := h.answered ep m hm
      obtain ⟨hsaved', hep'⟩ := hcases.ep_eq hsaved
      exact ⟨hsaved', hep'.trans hep⟩
    · obtain ⟨ep', hep', hown⟩ := h.answering m hm
      obtain ⟨hsaved', hsame⟩ := hcases.ep_eq (hhand m hm)
      rw [hep, Option.some.injEq] at hep'
      subst hep'
      exact ⟨hsaved', hsame.trans hown⟩
  · intro m hm
    rw [hsender]
    rcases hcases.answering_cases hm with ⟨ep, data, resp, rfl, hparse, hk⟩ | ⟨hm, hother⟩
    · obtain ⟨-, hsaved, -⟩ := hi.entry _ m hk
      obtain ⟨-, hsame⟩ := hcases.ep_eq hsaved
      exact ⟨ep, rfl, hsame.trans (hg resp hparse m hk)⟩
    · obtain ⟨ep, hep, hown⟩ := h.answering m hm
      obtain ⟨-, hsame⟩ := hcases.ep_eq (hhand m hm)
      refine ⟨ep, ?_, hsame.trans hown⟩
      rw [senderAfter_of_ne hother]
      exact hep

/-! ## Runs -/

/-- The recorded runs are the runs of the proxy. -/
theorem runs_proxy_iff {G : ServiceProxy → Action → Prop} {s : ServiceProxy} :
    Runs (ServiceProxy.step parse netTid) G x.proxy s ↔
      ∃ y, Runs (step parse netTid) (fun x a => G x.proxy a) x y ∧ y.proxy = s := by
  apply Runs.recorded_iff Traced.proxy
  intro x a
  rw [step, Option.map_map]
  exact Option.map_id'

theorem attributed_of_runs {active : List EndPoint}
    (h : Runs (step parse netTid) (fun x a => x.proxy.OwnId parse a) (new active) x) :
    x.Attributed := by
  have hall : x.proxy.Inv ∧ x.Attributed := by
    refine h.invariant (I := fun x => x.proxy.Inv ∧ x.Attributed) ?_
      ⟨ServiceProxy.inv_new active, attributed_new active⟩
    rintro x a y ⟨hi, hx⟩ hg hstep
    exact ⟨hi.step (step_eq_some hstep).1, hx.step hi hg hstep⟩
  exact hall.2

/-- The endpoint whose packet the step `a` handles. -/
def handling (x : Traced) : Action → Option EndPoint
  | .onPacket ep _ => some ep
  | .net => x.proxy.net.answering.bind (fun _ => x.sender)
  | _ => none

/-- A request that is not the sender's is neither finished by a step of `onPacket` nor
taken out of the table. -/
theorem Attributed.untouched (h : x.Attributed) {a : Action} (hg : x.proxy.OwnId parse a)
    (hstep : x.step parse netTid a = some y) {ep : EndPoint} (ha : x.handling a = some ep)
    {m : Ref} (hm : (x.proxy.message m).ep ≠ some ep) :
    y.proxy.finished m = x.proxy.finished m ∧
      ∀ k : UInt32, x.proxy.reqMessages[k]? = some m → y.proxy.reqMessages[k]? = some m := by
  obtain ⟨s, hs, rfl⟩ := Option.map_eq_some_iff.mp hstep
  cases ServiceProxy.step_cases hs with
  | ignored _ _ => exact ⟨rfl, fun _ hk => hk⟩
  | @packet ep' data resp m' _ hparse hk =>
    simp only [handling, Option.some.injEq] at ha
    subst ha
    refine ⟨rfl, fun k hkm => ?_⟩
    apply Table.getElem?_erase_eq_some.mpr
    refine ⟨?_, hkm⟩
    rintro rfl
    rw [hk, Option.some.injEq] at hkm
    subst hkm
    exact hm (hg resp hparse m' hk)
  | packetDel _ => exact ⟨rfl, fun _ hk => hk⟩
  | @packetFinish m' resp hnet =>
    have hanswering : x.proxy.net.answering = some m' := by rw [hnet]; rfl
    obtain ⟨ep', hep', hown⟩ := h.answering m' hanswering
    rw [handling, hanswering, Option.bind_some, hep', Option.some.injEq] at ha
    subst ha
    have hne : m ≠ m' := fun hmm => hm (hmm ▸ hown)
    refine ⟨?_, fun k hk => ?_⟩
    · simp only [ServiceProxy.finishWith, ServiceProxy.finishInvoke_finished, update_of_ne hne]
    · simpa only [ServiceProxy.finishWith, ServiceProxy.finishInvoke_reqMessages] using hk
  | closeEnd hnet => rw [handling, hnet] at ha; cases ha
  | closeFinish hnet => rw [handling, hnet] at ha; cases ha
  | closeDel hnet => rw [handling, hnet] at ha; cases ha
  | sweepEnd hnet => rw [handling, hnet] at ha; cases ha
  | sweepMiss hnet _ _ => rw [handling, hnet] at ha; cases ha
  | sweepTake hnet _ _ => rw [handling, hnet] at ha; cases ha
  | sweepFinish hnet => rw [handling, hnet] at ha; cases ha
  | sweepErase hnet => rw [handling, hnet] at ha; cases ha
  | _ => cases ha

/-- **One server does not answer for another.**  In every run in which no packet carries
the id of a pending request of another endpoint, each request finished by a packet was
sent to the endpoint the packet came from, and while a packet of `ep` is handled the
requests sent to other endpoints are neither finished nor taken out of the table. -/
theorem answered_by_own_endPoint (parse : List UInt8 → Option RpcResponse) (netTid : Nat)
    (active : List EndPoint) (x : Traced)
    (h : Runs (step parse netTid) (fun x a => x.proxy.OwnId parse a) (new active) x) :
    (∀ ep m, (ep, m) ∈ x.answers → (x.proxy.message m).ep = some ep) ∧
    ∀ a y ep, x.proxy.OwnId parse a → x.step parse netTid a = some y →
      x.handling a = some ep → ∀ m, (x.proxy.message m).ep ≠ some ep →
        y.proxy.finished m = x.proxy.finished m ∧
          ∀ k : UInt32, x.proxy.reqMessages[k]? = some m → y.proxy.reqMessages[k]? = some m := by
  have hx := attributed_of_runs h
  refine ⟨fun ep m hm => (hx.answered ep m hm).2, ?_⟩
  intro a y ep hg hstep ha m hm
  exact hx.untouched hg hstep ha hm

/-- Two endpoints and a request to the second one, which answers it. -/
theorem answered_by_own_endPoint_of_two : ∃ x : Traced,
    Runs (step ServiceProxy.parseZero 1)
      (fun x a => x.proxy.OwnId ServiceProxy.parseZero a) (new [7, 8]) x ∧
    x.answers = [(8, 0)] ∧ (x.proxy.message 0).ep = some 8 := by
  have hexec : ∃ x, Runs (step ServiceProxy.parseZero 1)
      (fun x a => x.proxy.OwnId ServiceProxy.parseZero a) (new [7, 8]) x ∧
      decide (x.answers = [(8, 0)]) = true :=
    exists_runs_of_schedule (new [7, 8])
      [.newRequest 0 .sync false false 2, .doInvoke 0 (-1) 0, .doInvoke 0 (-1) 0,
        .doInvoke 0 (-1) 0, .onPacket 8 [0x10, 0x00], .net, .net] _ (by decide)
  obtain ⟨x, hrun, hx⟩ := hexec
  have hanswers := of_decide_eq_true hx
  refine ⟨x, hrun, hanswers, ?_⟩
  apply (answered_by_own_endPoint ServiceProxy.parseZero 1 [7, 8] x hrun).1 8 0
  rw [hanswers]
  exact List.mem_cons_self

/-- A packet of endpoint 7 finishes the request sent to endpoint 8. -/
theorem answered_by_other_endPoint : ∃ x : Traced,
    Runs (step ServiceProxy.parseZero 1) (fun _ _ => True) (new [7, 8]) x ∧
    (7, 0) ∈ x.answers ∧ (x.proxy.message 0).ep = some 8 ∧ x.proxy.finished 0 = 1 ∧
    x.proxy.reqMessages[(0 : UInt32)]? = none := by
  have hexec : ∃ x, Runs (step ServiceProxy.parseZero 1) (fun _ _ => True) (new [7, 8]) x ∧
      decide ((7, 0) ∈ x.answers ∧ (x.proxy.message 0).ep = some 8 ∧
        x.proxy.finished 0 = 1 ∧ x.proxy.reqMessages[(0 : UInt32)]? = none) = true :=
    exists_runs_of_schedule (new [7, 8])
      [.newRequest 0 .sync false false 2, .doInvoke 0 (-1) 0, .doInvoke 0 (-1) 0,
        .doInvoke 0 (-1) 0, .onPacket 7 [0x10, 0x00], .net, .net] _ (by decide)
  obtain ⟨x, hrun, hx⟩ := hexec
  obtain ⟨hanswers, hep, hfinished, hentry⟩ := of_decide_eq_true hx
  exact ⟨x, hrun, hanswers, hep, hfinished, hentry⟩

end Traced

end StormNet.Framework
