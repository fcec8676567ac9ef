/-
  Framework/RequestId.lean --- the request ids of a proxy and the responses it holds.

  As long as `m_sequeue` does not come round, the ids taken are all different, and a request
  keeps its id, its type and its endpoint.  A response is in a message or in the hands of
  the net thread only if a packet has brought it.
-/
import Mathlib.Algebra.Group.Nat.Defs
import StormNet.Framework.Delivery

set_option autoImplicit false

namespace StormNet.Framework

open StormNet.Foundation
open Function (update update_self update_of_ne)

theorem Stage.pastTake_of_pastSend {stage : Stage} (h : stage.pastSend) : stage.pastTake := by
  cases stage <;> simp_all [pastSend, pastSave, pastTake]

namespace ServiceProxy

variable {s t : ServiceProxy} {parse : List UInt8 → Option RpcResponse} {netTid : Nat}
  {a : Action}

/-- The ids taken are below `m_sequeue` and different. -/
structure Numbered (s : ServiceProxy) : Prop where
  below : ∀ m, (s.stage m).pastTake → (s.message m).requestId.toNat < s.sequeue.toNat
  apart : ∀ m m', (s.stage m).pastTake → (s.stage m').pastTake →
    (s.message m).requestId = (s.message m').requestId → m = m'

/-- `m_sequeue` does not come round to 0. -/
def NoWrap (s : ServiceProxy) (m : Ref) : Prop :=
  s.stage m = .created → s.sequeue.toNat + 1 < 2 ^ 32

/-- The responses in messages and in the hands of the net thread meet `K`. -/
structure Holds (K : RpcResponse → Prop) (s : ServiceProxy) : Prop where
  message : ∀ m r, (s.message m).resp = some r → K r
  net : ∀ m r, s.net = .packetTaken m r ∨ s.net = .packetDel m r → K r

theorem numbered_new (active : List EndPoint) : (new active).Numbered where
  below m hm := by cases hm
  apart m m' hm := by cases hm

theorem holds_new (K : RpcResponse → Prop) (active : List EndPoint) : (new active).Holds K where
  message m r h := by cases h
  net m r h := by rcases h with h | h <;> cases h

/-- What stays of a request whose id is taken. -/
structure Keeps (s t : ServiceProxy) (m : Ref) : Prop where
  taken : (t.stage m).pastTake
  id : (t.message m).requestId = (s.message m).requestId
  type : (t.message m).invokeType = (s.message m).invokeType
  sent : (s.stage m).pastSend → (t.stage m).pastSend ∧ (t.message m).ep = (s.message m).ep

/-- Nothing is done to the request. -/
theorem Keeps.refl {m : Ref} (hm : (s.stage m).pastTake) : Keeps s s m :=
  ⟨hm, rfl, rfl, fun hsent => ⟨hsent, rfl⟩⟩

/-- A call moves on and fills in its message. -/
theorem Keeps.move {m m' : Ref} {stage : Stage} {message : RequestMessage}
    (hm : (s.stage m).pastTake) (hstage : t.stage = update s.stage m' stage)
    (hmessage : t.message = update s.message m' message)
    (hmove : (s.stage m').pastTake → stage.pastTake ∧
      message.requestId = (s.message m').requestId ∧
      message.invokeType = (s.message m').invokeType ∧
      ((s.stage m').pastSend → stage.pastSend ∧ message.ep = (s.message m').ep)) :
    Keeps s t m := by
  by_cases hmm : m = m'
  · subst hmm
    obtain ⟨htaken, hid, htype, hsent⟩ := hmove hm
    constructor <;> simpa only [hstage, hmessage, update_self]
  · constructor <;> simp only [hstage, hmessage, update_of_ne hmm]
    · exact hm
    · exact fun hsent => ⟨hsent, trivial⟩

/-- The net thread finishes a request. -/
theorem Keeps.finishWith {m m' : Ref} {net : NetState} {message : RequestMessage}
    (hm : (s.stage m).pastTake) (hmessage : ∃ status resp, message =
      { s.message m' with status := status, resp := resp }) :
    Keeps s { s.finishWith netTid m' message with net := net } m := by
  obtain ⟨status, resp, rfl⟩ := hmessage
  obtain ⟨back, hback⟩ := finishWith_message s netTid m' m
    { s.message m' with status := status, resp := resp }
  have hstage : (s.finishWith netTid m'
      { s.message m' with status := status, resp := resp }).stage = s.stage := by
    simp [ServiceProxy.finishWith]
  by_cases hmm : m = m'
  · subst hmm
    constructor <;> simp only [hstage, hback, update_self]
    · exact hm
    · exact fun hsent => ⟨hsent, trivial⟩
  · constructor <;> simp only [hstage, hback, update_of_ne hmm]
    · exact hm
    · exact fun hsent => ⟨hsent, trivial⟩

theorem Step.keeps (h : Step parse netTid s a t) {m : Ref} (hm : (s.stage m).pastTake) :
    Keeps s t m := by
  have hsame : ∀ m', s.message = update s.message m' (s.message m') :=
    fun m' => (Function.update_eq_self m' s.message).symm
  cases h with
  | newRequest hstage => exact .move hm rfl rfl (fun ht => by rw [hstage] at ht; cases ht)
  | takeId hstage => exact .move hm rfl rfl (fun ht => by rw [hstage] at ht; cases ht)
  | broadcast hstage =>
    exact .move hm rfl (hsame _) (fun _ => ⟨rfl, rfl, rfl, fun _ => ⟨rfl, rfl⟩⟩)
  | noEndPoint hstage _ | send hstage _ =>
    exact .move hm rfl rfl (fun _ => ⟨rfl, rfl, rfl, fun hs => by rw [hstage] at hs; cases hs⟩)
  | @refuse m' _ _ hstage =>
    rw [finishInvoke_eq]
    exact .move hm rfl rfl (fun _ => ⟨rfl, rfl, rfl, fun hs => by rw [hstage] at hs; cases hs⟩)
  | oneWay | save | add | wait | done | wakeup =>
    exact .move hm rfl (hsame _) (fun _ => ⟨rfl, rfl, rfl, fun _ => ⟨rfl, rfl⟩⟩)
  | packetFinish | closeFinish | sweepFinish => exact .finishWith hm ⟨_, _, rfl⟩
  | _ => exact ⟨hm, rfl, rfl, fun hsent => ⟨hsent, rfl⟩⟩

/-- A step takes an id or leaves those that are taken. -/
theorem Step.numbers (h : Step parse netTid s a t) :
    (∃ m code now, a = .doInvoke m code now ∧ s.stage m = .created ∧
      t.sequeue = s.sequeue + 1 ∧ (t.message m).requestId = s.sequeue ∧
      ∀ m', (t.stage m').pastTake → m' ≠ m → (s.stage m').pastTake) ∨
    (t.sequeue = s.sequeue ∧ ∀ m', (t.stage m').pastTake → (s.stage m').pastTake) := by
  have hgo : ∀ {m m' : Ref} {old stage : Stage}, s.stage m = old →
      (stage.pastTake → old.pastTake) → (update s.stage m stage m').pastTake →
      (s.stage m').pastTake := by
    intro m m' old stage hstage hback ht
    by_cases hmm : m' = m
    · rw [hmm, hstage]
      rw [hmm, update_self] at ht
      exact hback ht
    · rwa [update_of_ne hmm] at ht
  cases h with
  | newRequest hstage => exact .inr ⟨rfl, fun _ => hgo hstage (fun h => by cases h)⟩
  | takeId hstage =>
    refine .inl ⟨_, _, _, rfl, hstage, rfl, ?_, ?_⟩
    · simp only [update_self]
    · intro m' ht hmm
      simp only [update_of_ne hmm] at ht
      exact ht
  | broadcast hstage | noEndPoint hstage _ | send hstage _ | oneWay hstage _ | save hstage _
  | add hstage _ | wait hstage | done hstage _ | wakeup hstage =>
    exact .inr ⟨rfl, fun _ => hgo hstage (fun _ => rfl)⟩
  | refuse hstage =>
    rw [finishInvoke_eq]
    exact .inr ⟨rfl, fun _ => hgo hstage (fun _ => rfl)⟩
  | packetFinish | closeFinish | sweepFinish =>
    rw [ServiceProxy.finishWith, finishInvoke_eq]
    exact .inr ⟨rfl, fun _ => id⟩
  | _ => exact .inr ⟨rfl, fun _ => id⟩

theorem Numbered.step (hn : s.Numbered) (h : Step parse netTid s a t)
    (hwrap : ∀ m code now, a = .doInvoke m code now → s.NoWrap m) : t.Numbered := by
  have hid : ∀ m, (s.stage m).pastTake → (t.message m).requestId = (s.message m).requestId :=
    fun m hm => (h.keeps hm).id
  rcases h.numbers with ⟨m, code, now, ha, hcreated, hseq, hnew, hold⟩ | ⟨hseq, hold⟩
  · have hsucc : (s.sequeue + 1).toNat = s.sequeue.toNat + 1 := by
      have hlt := hwrap m code now ha hcreated
      rw [UInt32.toNat_add]
      exact Nat.mod_eq_of_lt hlt
    have hdiffers : ∀ m', (t.stage m').pastTake → m' ≠ m →
        (t.message m').requestId ≠ (t.message m).requestId := by
      intro m' ht hmm heq
      have hlt := hn.below m' (hold m' ht hmm)
      rw [← hid m' (hold m' ht hmm), heq, hnew] at hlt
      exact absurd hlt (Nat.lt_irrefl _)
    constructor
    · intro m' ht
      by_cases hmm : m' = m
      · rw [hmm, hnew, hseq, hsucc]
        exact Nat.lt_succ_self _
      · have hlt := hn.below m' (hold m' ht hmm)
        rw [hid m' (hold m' ht hmm), hseq, hsucc]
        exact Nat.lt_succ_of_lt hlt
    · intro m₁ m₂ h₁ h₂ heq
      by_cases hm₁ : m₁ = m
      · by_cases hm₂ : m₂ = m
        · rw [hm₁, hm₂]
        · rw [hm₁] at heq
          exact absurd heq.symm (hdiffers m₂ h₂ hm₂)
      · by_cases hm₂ : m₂ = m
        · rw [hm₂] at heq
          exact absurd heq (hdiffers m₁ h₁ hm₁)
        · rw [hid m₁ (hold m₁ h₁ hm₁), hid m₂ (hold m₂ h₂ hm₂)] at heq
          exact hn.apart m₁ m₂ (hold m₁ h₁ hm₁) (hold m₂ h₂ hm₂) heq
  · constructor
    · intro m ht
      rw [hid m (hold m ht), hseq]
      exact hn.below m (hold m ht)
    · intro m₁ m₂ h₁ h₂ heq
      rw [hid m₁ (hold m₁ h₁), hid m₂ (hold m₂ h₂)] at heq
      exact hn.apart m₁ m₂ (hold m₁ h₁) (hold m₂ h₂) heq

/-- Responses enter by `onPacket`. -/
theorem Holds.step {K : RpcResponse → Prop} (hk : s.Holds K) (h : Step parse netTid s a t)
    (hin : ∀ ep data resp, a = .onPacket ep data → parse data = some resp → K resp) :
    t.Holds K := by
  have hset : ∀ {m : Ref} {message : RequestMessage}, (∀ r, message.resp = some r → K r) →
      ∀ m' r, (update s.message m message m').resp = some r → K r := by
    intro m message hmessage m' r hr
    by_cases hmm : m' = m
    · rw [hmm, update_self] at hr
      exact hmessage r hr
    · rw [update_of_ne hmm] at hr
      exact hk.message m' r hr
  have hfinish : ∀ {m : Ref} {net : NetState} {message : RequestMessage},
      (∀ r, message.resp = some r → K r) → (∀ m' r, net ≠ .packetTaken m' r) →
      (∀ m' r, net ≠ .packetDel m' r) →
      Holds K { s.finishWith netTid m message with net := net } := by
    intro m net message hmessage htaken hdel
    constructor
    · intro m' r hr
      obtain ⟨back, hback⟩ := finishWith_message s netTid m m' message
      simp only [hback] at hr
      exact hset hmessage m' r hr
    · intro m' r hr
      exact (hr.elim (htaken m' r) (hdel m' r)).elim
  have hgone : ∀ {net : NetState}, (∀ m r, net ≠ .packetTaken m r) →
      (∀ m r, net ≠ .packetDel m r) → ∀ m r, net = .packetTaken m r ∨ net = .packetDel m r →
      K r :=
    fun htaken hdel m r hr => (hr.elim (htaken m r) (hdel m r)).elim
  cases h with
  | newRequest hstage =>
    refine ⟨hset ?_, hk.net⟩
    intro r hr
    unfold Framework.newRequest at hr
    split at hr <;> cases hr
  | takeId _ | noEndPoint _ _ | send _ _ => exact ⟨hset (hk.message _), hk.net⟩
  | refuse _ =>
    rw [finishInvoke_eq]
    exact ⟨hset (hk.message _), hk.net⟩
  | @packet ep data resp m' _ hparse _ =>
    refine ⟨hk.message, fun m r hr => ?_⟩
    rcases hr with hr | hr
    · obtain ⟨rfl, rfl⟩ := NetState.packetTaken.inj hr
      exact hin ep data _ rfl hparse
    · cases hr
  | packetDel hnet =>
    refine ⟨hk.message, fun m r hr => ?_⟩
    rcases hr with hr | hr
    · cases hr
    · obtain ⟨rfl, rfl⟩ := NetState.packetDel.inj hr
      exact hk.net _ _ (.inl hnet)
  | @packetFinish m resp hnet =>
    refine hfinish ?_ (fun _ _ h => by cases h) (fun _ _ h => by cases h)
    intro r hr
    rw [← Option.some.inj hr]
    exact hk.net m resp (.inr hnet)
  | closeFinish _ | sweepFinish _ =>
    exact hfinish (hk.message _) (fun _ _ h => by cases h) (fun _ _ h => by cases h)
  | onClose _ | doTimeOut _ | closeEnd _ | closeDel _ | sweepEnd _ | sweepMiss _ _ _
  | sweepTake _ _ _ | sweepErase _ =>
    exact ⟨hk.message, hgone (fun _ _ h => by cases h) (fun _ _ h => by cases h)⟩
  | _ => exact ⟨hk.message, hk.net⟩

/-- The endpoints change by `endpoints` only. -/
theorem Step.active (h : Step parse netTid s a t) (ha : ∀ active, a ≠ .endpoints active) :
    t.activeEndPoints = s.activeEndPoints := by
  cases h with
  | endpoints => exact absurd rfl (ha _)
  | refuse => rw [finishInvoke_eq]
  | packetFinish | closeFinish | sweepFinish => rw [ServiceProxy.finishWith, finishInvoke_eq]
  | _ => rfl

theorem Holds.mono {K K' : RpcResponse → Prop} (hk : s.Holds K) (h : ∀ r, K r → K' r) :
    s.Holds K' :=
  ⟨fun m r hr => h r (hk.message m r hr), fun m r hr => h r (hk.net m r hr)⟩

end ServiceProxy

end StormNet.Framework
