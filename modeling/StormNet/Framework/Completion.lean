/-
  Framework/Completion.lean --- every two-way request is completed exactly once.

  `Tracked` adds to `Inv` that no request is lost: a saved request that nobody has
  taken is under its id in `m_reqMessages`, and behind `m_timeout.add` it has an entry
  there.  It holds in the runs in which no id is taken while a pending request has it.
-/
import StormNet.Framework.Request

set_option autoImplicit false

namespace StormNet.Framework

open StormNet.Foundation
open StormNet.Net (CloseType)
open StormNet.Util (TimeList)
open Function (update update_self update_of_ne)

/-- The request id is taken. -/
def Stage.pastTake : Stage → Bool
  | .fresh => false
  | .created => false
  | _ => true

/-- The turn of the sweep: its clock and the key its callback was called with. -/
def NetState.turn : NetState → Option (UInt64 × UInt32)
  | .sweepTaken now _ key => some (now, key)
  | .sweepErase now key => some (now, key)
  | _ => none

theorem NetState.sweeping_of_turn {net : NetState} {now : UInt64} {key : UInt32}
    (h : net.turn = some (now, key)) : net.sweeping := by
  cases net <;> simp_all [turn, sweeping]

theorem Stage.pastTake_of_pastSave {stage : Stage} (h : stage.pastSave) : stage.pastTake := by
  cases stage <;> simp_all [pastSave, pastTake]

namespace ServiceProxy

variable {s t : ServiceProxy}

/-- A saved request that is neither finished nor in the hands of the net thread. -/
def Awaiting (s : ServiceProxy) (m : Ref) : Prop :=
  (s.stage m).pastSave ∧ s.TwoWay m ∧ s.finished m = 0 ∧ m ∉ s.net.inHand

/-- A request whose completion is not over: its id is taken, and it is unfinished or
`onClose` has yet to take its id out of `m_timeout`. -/
def Pending (s : ServiceProxy) (m : Ref) : Prop :=
  (s.stage m).pastTake ∧ s.TwoWay m ∧ (s.finished m = 0 ∨ s.net.closed = some m)

/-- No request id is taken while a pending request has it. -/
def FreshId (s : ServiceProxy) : Action → Prop
  | .doInvoke m _ _ => s.stage m = .created →
      ∀ m' ∈ s.calls, s.Pending m' → (s.message m').requestId ≠ s.sequeue
  | _ => True

theorem Awaiting.pending {m : Ref} (h : s.Awaiting m) : s.Pending m :=
  ⟨Stage.pastTake_of_pastSave h.1, h.2.1, .inl h.2.2.1⟩

theorem Inv.pending_of_inHand (h : s.Inv) {m : Ref} (hm : m ∈ s.net.inHand) : s.Pending m := by
  obtain ⟨hsaved, htwo, hfin⟩ := h.hand m hm
  exact ⟨Stage.pastTake_of_pastSave hsaved, htwo, .inl hfin⟩

theorem Inv.pending_of_closed (h : s.Inv) {m : Ref} (hm : s.net.closed = some m) :
    s.Pending m := by
  obtain ⟨hsaved, htwo, -⟩ := h.closed m hm
  exact ⟨Stage.pastTake_of_pastSave hsaved, htwo, .inr hm⟩

/-! ## The front of the sweep -/

/-- In the turn of the sweep for `key` the entry of `key` is the front of the list. -/
def AtFront (s : ServiceProxy) : Prop :=
  ∀ now key, s.net.turn = some (now, key) → s.timeout.due now = some key

theorem atFront_new (active : List EndPoint) : (new active).AtFront := by
  simp [AtFront, ServiceProxy.new, NetState.turn]

/-- Callers leave the net thread alone, and `m_timeout` while a sweep is on; the net
thread leaves `m_timeout` alone from the callback to the erasure. -/
theorem AtFront.step (h : s.AtFront) {parse : List UInt8 → Option RpcResponse} {netTid : Nat}
    {a : Action} (hstep : s.step parse netTid a = some t) : t.AtFront := by
  cases step_cases hstep with
  | @add m _ _ _ hsweep =>
    intro now key hturn
    simp only [NetState.sweeping_of_turn hturn, Bool.true_eq_false] at hsweep
  | refuse _ => simpa [AtFront] using h
  | sweepMiss _ hdue _ =>
    rintro now key heq
    cases heq
    exact hdue
  | sweepTake _ hdue _ =>
    rintro now key heq
    cases heq
    exact hdue
  | @sweepFinish now m key hnet =>
    rintro now' key' heq
    cases heq
    simpa [finishWith] using h now key (by rw [hnet]; rfl)
  | packet _ _ _ => simp [AtFront, NetState.turn]
  | onClose _ => simp [AtFront, NetState.turn, ServiceProxy.onClose]
  | doTimeOut _ => simp [AtFront, NetState.turn]
  | packetDel _ => simp [AtFront, NetState.turn]
  | packetFinish _ => simp [AtFront, NetState.turn]
  | closeEnd _ => simp [AtFront, NetState.turn]
  | closeFinish _ => simp [AtFront, NetState.turn]
  | closeDel _ => simp [AtFront, NetState.turn]
  | sweepEnd _ => simp [AtFront, NetState.turn]
  | sweepErase _ => simp [AtFront, NetState.turn]
  -- the other steps are the callers' and change neither the net thread nor `m_timeout`
  | _ => exact h

/-! ## Nothing is lost -/

/-- No request is lost. -/
structure Tracked (s : ServiceProxy) : Prop where
  ids : ∀ m m', s.Pending m → s.Pending m' →
    (s.message m).requestId = (s.message m').requestId → m = m'
  held : ∀ m, s.Awaiting m → s.reqMessages[(s.message m).requestId]? = some m
  timed : ∀ m, s.Awaiting m → (s.stage m).pastAdd → s.timeout.Live (s.message m).requestId
  erasing : ∀ now key, s.net = .sweepErase now key →
    ∀ m, s.Awaiting m → (s.stage m).pastAdd → (s.message m).requestId ≠ key
  called : ∀ m, s.stage m ≠ .fresh → m ∈ s.calls

theorem tracked_new (active : List EndPoint) : (new active).Tracked := by
  constructor <;> simp [ServiceProxy.new, Pending, Awaiting, Stage.pastTake, Stage.pastSave]

namespace Tracked

/-- Two pending requests, one of them taken care of, have different ids. -/
theorem id_ne (h : s.Tracked) {m m' : Ref} (hm : s.Pending m) (hm' : s.Pending m')
    (hne : m' ≠ m) : (s.message m').requestId ≠ (s.message m).requestId := by
  intro hid
  exact hne (h.ids m' m hm' hm hid)

/-- A step after which no request is newly pending, awaited or timed. -/
theorem shrink (h : s.Tracked)
    (hpend : ∀ m, t.Pending m →
      s.Pending m ∧ (t.message m).requestId = (s.message m).requestId)
    (hwait : ∀ m, t.Awaiting m →
      s.Awaiting m ∧ t.reqMessages[(s.message m).requestId]? = some m)
    (hadd : ∀ m, t.Awaiting m → (t.stage m).pastAdd →
      (s.stage m).pastAdd ∧ t.timeout.Live (s.message m).requestId)
    (herase : ∀ now key, t.net = .sweepErase now key →
      ∀ m, t.Awaiting m → (t.stage m).pastAdd → (s.message m).requestId ≠ key)
    (hcalled : ∀ m, t.stage m ≠ .fresh → m ∈ t.calls) : t.Tracked where
  ids m m' hm hm' hid := by
    obtain ⟨hpm, hidm⟩ := hpend m hm
    obtain ⟨hpm', hidm'⟩ := hpend m' hm'
    exact h.ids m m' hpm hpm' (hidm.symm.trans (hid.trans hidm'))
  held m hm := by
    rw [(hpend m hm.pending).2]
    exact (hwait m hm).2
  timed m hm hsaved := by
    rw [(hpend m hm.pending).2]
    exact (hadd m hm hsaved).2
  erasing now key hnet m hm hsaved := by
    rw [(hpend m hm.pending).2]
    exact herase now key hnet m hm hsaved
  called := hcalled

/-- A call moves on in `doInvoke`; if it gets past a table that way, the request needs
no entry there. -/
theorem goto (h : s.Tracked) {m : Ref} {old stage : Stage} (hstage : s.stage m = old)
    (hfresh : old ≠ .fresh) (htake : stage.pastTake → old.pastTake)
    (hpast : s.TwoWay m → s.finished m = 0 →
      (stage.pastSave → old.pastSave) ∧ (stage.pastAdd → old.pastAdd)) :
    Tracked { s with stage := update s.stage m stage } := by
  subst hstage
  have hwaits : ∀ m', Awaiting { s with stage := update s.stage m stage } m' →
      s.Awaiting m' ∧ ((update s.stage m stage m').pastAdd → (s.stage m').pastAdd) := by
    rintro m' ⟨hsaved, htwo, hfin, hhand⟩
    by_cases hmm : m' = m
    · subst hmm
      simp only [update_self] at hsaved ⊢
      obtain ⟨hsave, hadd⟩ := hpast htwo hfin
      exact ⟨⟨hsave hsaved, htwo, hfin, hhand⟩, hadd⟩
    · simp only [update_of_ne hmm] at hsaved ⊢
      exact ⟨⟨hsaved, htwo, hfin, hhand⟩, id⟩
  refine h.shrink ?_ ?_ ?_ ?_ ?_
  · rintro m' ⟨htaken, hrest⟩
    refine ⟨⟨?_, hrest⟩, rfl⟩
    by_cases hmm : m' = m
    · subst hmm
      simp only [update_self] at htaken
      exact htake htaken
    · simpa only [update_of_ne hmm] using htaken
  · intro m' hm'
    exact ⟨(hwaits m' hm').1, h.held m' (hwaits m' hm').1⟩
  · intro m' hm' hadd
    obtain ⟨hold, hadd'⟩ := hwaits m' hm'
    exact ⟨hadd' hadd, h.timed m' hold (hadd' hadd)⟩
  · intro now key hnet m' hm' hadd
    obtain ⟨hold, hadd'⟩ := hwaits m' hm'
    exact h.erasing now key hnet m' hold (hadd' hadd)
  · intro m' hm'
    by_cases hmm : m' = m
    · subst hmm
      exact h.called m' hfresh
    · apply h.called m'
      simpa only [update_of_ne hmm] using hm'

/-- A message changes its fields, not its id or type. -/
theorem setMessage (h : s.Tracked) {m : Ref} {message : RequestMessage}
    (hid : message.requestId = (s.message m).requestId)
    (htype : message.invokeType = (s.message m).invokeType) :
    Tracked { s with message := update s.message m message } := by
  have hsame : ∀ m', (update s.message m message m').requestId = (s.message m').requestId ∧
      (update s.message m message m').invokeType = (s.message m').invokeType := by
    intro m'
    by_cases hmm : m' = m
    · subst hmm
      rw [update_self]
      exact ⟨hid, htype⟩
    · rw [update_of_ne hmm]
      exact ⟨rfl, rfl⟩
  have hwaits : ∀ m', Awaiting { s with message := update s.message m message } m' →
      s.Awaiting m' := by
    rintro m' ⟨hsaved, htwo, hrest⟩
    simp only [TwoWay, hsame] at htwo
    exact ⟨hsaved, htwo, hrest⟩
  refine h.shrink ?_ ?_ ?_ ?_ h.called
  · rintro m' ⟨htake, htwo, hrest⟩
    simp only [TwoWay, hsame] at htwo ⊢
    exact ⟨⟨htake, htwo, hrest⟩, trivial⟩
  · intro m' hm'
    exact ⟨hwaits m' hm', h.held m' (hwaits m' hm')⟩
  · intro m' hm' hadd
    exact ⟨hadd, h.timed m' (hwaits m' hm') hadd⟩
  · intro now key hnet m' hm' hadd
    exact h.erasing now key hnet m' (hwaits m' hm') hadd

/-- `m` is finished, and the net thread lets go of nothing else. -/
theorem finish (h : s.Tracked) (tid : Nat) {m : Ref} {net : NetState}
    (hin : ∀ m' ∈ s.net.inHand, m' = m ∨ m' ∈ net.inHand)
    (hclosed : ∀ m', net.closed = some m' → s.Pending m')
    (herase : ∀ now key, net = .sweepErase now key →
      ∀ m', s.Awaiting m' → m' ≠ m → (s.stage m').pastAdd → (s.message m').requestId ≠ key) :
    Tracked { s.finishInvoke tid m with net := net } := by
  have hwaits : ∀ m', Awaiting { s.finishInvoke tid m with net := net } m' →
      m' ≠ m ∧ s.Awaiting m' := by
    rintro m' ⟨hsaved, htwo, hfin, hhand⟩
    obtain ⟨hne, hfin⟩ := (finished_finishInvoke_eq_zero s tid m m').mp hfin
    simp only [finishInvoke_stage] at hsaved
    exact ⟨hne, hsaved, (finishInvoke_twoWay s tid m m').mp htwo, hfin,
      fun hm' => (hin m' hm').elim hne hhand⟩
  refine h.shrink ?_ ?_ ?_ ?_ ?_
  · rintro m' ⟨htake, htwo, hopen⟩
    simp only [finishInvoke_stage] at htake
    refine ⟨?_, finishInvoke_requestId s tid m m'⟩
    rcases hopen with hfin | hm'
    · exact ⟨htake, (finishInvoke_twoWay s tid m m').mp htwo,
        .inl ((finished_finishInvoke_eq_zero s tid m m').mp hfin).2⟩
    · exact hclosed m' hm'
  · intro m' hm'
    obtain ⟨-, hm'⟩ := hwaits m' hm'
    simpa using ⟨hm', h.held m' hm'⟩
  · intro m' hm' hadd
    simp only [finishInvoke_stage] at hadd
    simpa using ⟨hadd, h.timed m' (hwaits m' hm').2 hadd⟩
  · intro now key hnet m' hm' hadd
    simp only [finishInvoke_stage] at hadd
    obtain ⟨hne, hm'⟩ := hwaits m' hm'
    exact herase now key hnet m' hm' hne hadd
  · simpa using h.called

/-- The net thread finishes a request it has in hand, and lets go of it. -/
theorem finishWith (h : s.Tracked) (hi : s.Inv) (netTid : Nat) {m : Ref} {net : NetState}
    {message : RequestMessage} (hhand : m ∈ s.net.inHand)
    (hid : message.requestId = (s.message m).requestId)
    (htype : message.invokeType = (s.message m).invokeType)
    (hin : ∀ m' ∈ s.net.inHand, m' = m ∨ m' ∈ net.inHand)
    (hclosed : ∀ m', net.closed = some m' → m' = m)
    (herase : ∀ now key, net = .sweepErase now key → key = (s.message m).requestId) :
    Tracked { s.finishWith netTid m message with net := net } := by
  have hset := h.setMessage hid htype
  have hpm : Pending { s with message := update s.message m message } m := by
    obtain ⟨htake, htwo, hopen⟩ := hi.pending_of_inHand hhand
    refine ⟨htake, ?_, hopen⟩
    simpa [TwoWay, htype] using htwo
  refine hset.finish netTid hin (fun m' hm' => ?_) (fun now key hnet m' hm' hne _ => ?_)
  · rw [hclosed m' hm']
    exact hpm
  · have hne := hset.id_ne hpm hm'.pending hne
    simpa [herase now key hnet, hid] using hne

/-- `m_timeout.del(key)` for the id of a pending request that needs no entry. -/
theorem timeoutDel (h : s.Tracked) {m : Ref} {net : NetState} (hm : s.Pending m)
    (hnot : ¬ s.Awaiting m) (hin : net.inHand = s.net.inHand) (hclosed : net.closed = none)
    (herase : ∀ now key, net ≠ .sweepErase now key) :
    Tracked { s with timeout := s.timeout.del (s.message m).requestId, net := net } := by
  have hwaits : ∀ m', Awaiting { s with
      timeout := s.timeout.del (s.message m).requestId, net := net } m' → s.Awaiting m' := by
    rintro m' ⟨hsaved, htwo, hfin, hhand⟩
    exact ⟨hsaved, htwo, hfin, fun hm' => hhand (hin ▸ hm')⟩
  refine h.shrink ?_ ?_ ?_ ?_ h.called
  · rintro m' ⟨htake, htwo, hopen⟩
    refine ⟨⟨htake, htwo, hopen.imp_right (fun hm' => ?_)⟩, rfl⟩
    exact absurd (hclosed.symm.trans hm') (by simp)
  · intro m' hm'
    exact ⟨hwaits m' hm', h.held m' (hwaits m' hm')⟩
  · intro m' hm' hadd
    have hold := hwaits m' hm'
    have hne : m' ≠ m := fun hmm => hnot (hmm ▸ hold)
    exact ⟨hadd, (TimeList.live_del _ _ _).mpr
      ⟨h.id_ne hm hold.pending hne, h.timed m' hold hadd⟩⟩
  · intro now key hnet
    exact absurd hnet (herase now key)

/-- What a handler takes out of the table it has in hand. -/
theorem take (h : s.Tracked) (hi : s.Inv) {k : UInt32} {m : Ref} {net : NetState}
    (hk : s.reqMessages[k]? = some m) (hnow : s.net.inHand = []) (hnet : net.inHand = [m])
    (hclosed : net.closed = none) :
    Tracked { s with reqMessages := s.reqMessages.erase k, net := net } := by
  obtain ⟨hid, hsaved, htwo, hfin, hhand⟩ := hi.entry k m hk
  have hpm : s.Pending m := Awaiting.pending ⟨hsaved, htwo, hfin, hhand⟩
  have hwaits : ∀ m', Awaiting { s with reqMessages := s.reqMessages.erase k, net := net } m' →
      m' ≠ m ∧ s.Awaiting m' := by
    rintro m' ⟨hsaved', htwo', hfin', hhand'⟩
    simp only [hnet, List.mem_singleton] at hhand'
    exact ⟨hhand', hsaved', htwo', hfin', by simp [hnow]⟩
  refine h.shrink ?_ ?_ ?_ ?_ h.called
  · rintro m' ⟨htake, htwo', hopen⟩
    refine ⟨⟨htake, htwo', hopen.imp_right (fun hm' => ?_)⟩, rfl⟩
    exact absurd (hclosed.symm.trans hm') (by simp)
  · intro m' hm'
    obtain ⟨hne, hold⟩ := hwaits m' hm'
    have hidne := h.id_ne hpm hold.pending hne
    rw [hid] at hidne
    exact ⟨hold, Table.getElem?_erase_eq_some.mpr ⟨hidne, h.held m' hold⟩⟩
  · intro m' hm' hadd
    exact ⟨hadd, h.timed m' (hwaits m' hm').2 hadd⟩
  · intro now key herase
    have hempty : net.inHand = [] := by rw [show net = _ from herase]; rfl
    simp [hnet] at hempty

/-- The net thread moves on with the same requests in hand. -/
theorem setNet (h : s.Tracked) {net : NetState} (hin : net.inHand = s.net.inHand)
    (hclosed : net.closed = none)
    (herase : ∀ now key, net = .sweepErase now key →
      ∀ m, s.Awaiting m → (s.message m).requestId ≠ key) :
    Tracked { s with net := net } := by
  have hwaits : ∀ m, Awaiting { s with net := net } m → s.Awaiting m := by
    rintro m ⟨hsaved, htwo, hfin, hhand⟩
    exact ⟨hsaved, htwo, hfin, fun hm => hhand (hin ▸ hm)⟩
  refine h.shrink ?_ ?_ ?_ ?_ h.called
  · rintro m ⟨htake, htwo, hopen⟩
    refine ⟨⟨htake, htwo, hopen.imp_right (fun hm => ?_)⟩, rfl⟩
    exact absurd (hclosed.symm.trans hm) (by simp)
  · intro m hm
    exact ⟨hwaits m hm, h.held m (hwaits m hm)⟩
  · intro m hm hadd
    exact ⟨hadd, h.timed m (hwaits m hm) hadd⟩
  · intro now key hnet m hm _
    exact herase now key hnet m (hwaits m hm)

/-- A call gets a message and an id before `saveMessage`; if the id is taken with it,
no other pending request has it. -/
theorem setCall (h : s.Tracked) {m : Ref} {message : RequestMessage} {stage : Stage}
    {calls : List Ref} (hsub : s.calls ⊆ calls) (hmem : m ∈ calls)
    (hstage : stage.pastSave = false)
    (hnew : stage.pastTake → ∀ m' ∈ s.calls, m' ≠ m → s.Pending m' →
      (s.message m').requestId ≠ message.requestId) :
    Tracked { s with
      message := update s.message m message
      stage := update s.stage m stage
      calls := calls } := by
  have hoff : ∀ m', m' ≠ m → Pending { s with
      message := update s.message m message
      stage := update s.stage m stage
      calls := calls } m' → s.Pending m' := by
    intro m' hne
    simp only [Pending, TwoWay, update_of_ne hne]
    exact id
  have hknown : ∀ m', s.Pending m' → m' ∈ s.calls := by
    rintro m' ⟨htake, -⟩
    refine h.called m' (fun hfresh => ?_)
    simp [hfresh, Stage.pastTake] at htake
  have hwaits : ∀ m', Awaiting { s with
      message := update s.message m message
      stage := update s.stage m stage
      calls := calls } m' → m' ≠ m ∧ s.Awaiting m' := by
    intro m' hm'
    have hne : m' ≠ m := by
      rintro rfl
      have hsaved := hm'.1
      simp [hstage] at hsaved
    simp only [Awaiting, TwoWay, update_of_ne hne] at hm'
    exact ⟨hne, hm'⟩
  constructor
  · intro m₁ m₂ h₁ h₂ hid
    by_cases h₁m : m₁ = m <;> by_cases h₂m : m₂ = m
    · exact h₁m.trans h₂m.symm
    · subst h₁m
      have hp₂ := hoff m₂ h₂m h₂
      simp only [update_self, update_of_ne h₂m] at hid
      exact absurd hid.symm (hnew (by simpa using h₁.1) m₂ (hknown m₂ hp₂) h₂m hp₂)
    · subst h₂m
      have hp₁ := hoff m₁ h₁m h₁
      simp only [update_self, update_of_ne h₁m] at hid
      exact absurd hid (hnew (by simpa using h₂.1) m₁ (hknown m₁ hp₁) h₁m hp₁)
    · simp only [update_of_ne h₁m, update_of_ne h₂m] at hid
      exact h.ids m₁ m₂ (hoff m₁ h₁m h₁) (hoff m₂ h₂m h₂) hid
  · intro m' hm'
    obtain ⟨hne, hold⟩ := hwaits m' hm'
    simpa only [update_of_ne hne] using h.held m' hold
  · intro m' hm' hadd
    obtain ⟨hne, hold⟩ := hwaits m' hm'
    simp only [update_of_ne hne] at hadd ⊢
    exact h.timed m' hold hadd
  · intro now key hnet m' hm' hadd
    obtain ⟨hne, hold⟩ := hwaits m' hm'
    simp only [update_of_ne hne] at hadd ⊢
    exact h.erasing now key hnet m' hold hadd
  · intro m' hm'
    by_cases hmm : m' = m
    · exact hmm ▸ hmem
    · simp only [update_of_ne hmm] at hm'
      exact hsub (h.called m' hm')

/-- `saveMessage` of an unfinished two-way request. -/
theorem save (h : s.Tracked) {m : Ref} (hstage : s.stage m = .sent) (htwo : s.TwoWay m)
    (hfin : s.finished m = 0) :
    Tracked { s.saveMessage (s.message m).requestId m with stage := update s.stage m .saved } := by
  have hpm : s.Pending m := ⟨by rw [hstage]; rfl, htwo, .inl hfin⟩
  have hoff : ∀ m', m' ≠ m → Awaiting { s.saveMessage (s.message m).requestId m with
      stage := update s.stage m .saved } m' → s.Awaiting m' := by
    intro m' hne
    simp only [Awaiting, TwoWay, update_of_ne hne]
    exact id
  have hadds : ∀ m', (update s.stage m .saved m').pastAdd → m' ≠ m ∧ (s.stage m').pastAdd := by
    intro m' hm'
    by_cases hmm : m' = m
    · simp [hmm, Stage.pastAdd] at hm'
    · rw [update_of_ne hmm] at hm'
      exact ⟨hmm, hm'⟩
  constructor
  · have hpend : ∀ m', Pending { s.saveMessage (s.message m).requestId m with
        stage := update s.stage m .saved } m' → s.Pending m' := by
      rintro m' ⟨htake, hrest⟩
      refine ⟨?_, hrest⟩
      by_cases hmm : m' = m
      · rw [hmm, hstage]
        rfl
      · simpa only [update_of_ne hmm] using htake
    intro m₁ m₂ h₁ h₂
    exact h.ids m₁ m₂ (hpend m₁ h₁) (hpend m₂ h₂)
  · intro m' hm'
    refine Table.getElem?_insert_eq_some.mpr ?_
    by_cases hmm : m' = m
    · exact .inl ⟨by rw [hmm]; rfl, hmm.symm⟩
    · have hold := hoff m' hmm hm'
      exact .inr ⟨h.id_ne hpm hold.pending hmm, h.held m' hold⟩
  · intro m' hm' hadd
    obtain ⟨hne, hadd⟩ := hadds m' hadd
    exact h.timed m' (hoff m' hne hm') hadd
  · intro now key hnet m' hm' hadd
    obtain ⟨hne, hadd⟩ := hadds m' hadd
    exact h.erasing now key hnet m' (hoff m' hne hm') hadd
  · intro m' hm'
    by_cases hmm : m' = m
    · exact h.called m' (by rw [hmm, hstage]; simp)
    · apply h.called m'
      simpa only [update_of_ne hmm] using hm'

/-- `m_timeout.add` while no sweep is on. -/
theorem timeoutAdd (h : s.Tracked) {m : Ref} {now : UInt64} (hstage : s.stage m = .saved)
    (hsweep : s.net.sweeping = false) :
    Tracked { s with
      timeout := s.timeout.add (s.message m).requestId now
      stage := update s.stage m .added } := by
  have hpast : ∀ (f : Stage → Bool), f .added = f .saved →
      ∀ m', f (update s.stage m .added m') = f (s.stage m') := by
    intro f hf m'
    by_cases hmm : m' = m
    · rw [hmm, update_self, hstage, hf]
    · rw [update_of_ne hmm]
  have hwaits : ∀ m', Awaiting { s with
      timeout := s.timeout.add (s.message m).requestId now
      stage := update s.stage m .added } m' → s.Awaiting m' := by
    intro m' hm'
    simpa only [Awaiting, TwoWay, hpast Stage.pastSave rfl] using hm'
  have hnet : ∀ now key, s.net ≠ .sweepErase now key := by
    intro now key hnet
    simp [hnet, NetState.sweeping] at hsweep
  constructor
  · intro m₁ m₂ h₁ h₂
    simp only [Pending, TwoWay, hpast Stage.pastTake rfl] at h₁ h₂
    exact h.ids m₁ m₂ h₁ h₂
  · intro m' hm'
    exact h.held m' (hwaits m' hm')
  · intro m' hm' hadd
    refine (TimeList.live_add _ _ _ _).mpr ?_
    by_cases hmm : m' = m
    · exact .inl (by rw [hmm])
    · simp only [update_of_ne hmm] at hadd
      exact .inr (h.timed m' (hwaits m' hm') hadd)
  · intro now' key herase
    exact absurd herase (hnet now' key)
  · intro m' hm'
    refine h.called m' (fun hfresh => hm' ?_)
    have hne : m' ≠ m := by
      rintro rfl
      simp [hstage] at hfresh
    simpa only [update_of_ne hne] using hfresh

/-- A key that is not in the table is the id of no awaited request. -/
theorem ne_of_lookup_none (h : s.Tracked) {key : UInt32} (hk : s.reqMessages[key]? = none)
    {m : Ref} (hm : s.Awaiting m) : (s.message m).requestId ≠ key := by
  intro hid
  have hheld := h.held m hm
  rw [hid, hk] at hheld
  cases hheld

theorem onClose (h : s.Tracked) (hidle : s.net = .idle) (ep : EndPoint) (closeType : CloseType) :
    (s.onClose ep closeType).Tracked := by
  have hwaits : ∀ m, (s.onClose ep closeType).Awaiting m →
      s.Awaiting m ∧ (s.message m).ep ≠ some ep := by
    rintro m ⟨hsaved, htwo, hfin, hhand⟩
    have hold : s.Awaiting m := ⟨hsaved, htwo, hfin, by simp [hidle, NetState.inHand]⟩
    refine ⟨hold, fun hep => hhand ?_⟩
    simp only [ServiceProxy.onClose, NetState.inHand, List.mem_filter, Table.mem_values,
      decide_eq_true_eq]
    exact ⟨⟨_, h.held m hold⟩, hep⟩
  refine h.shrink ?_ ?_ ?_ ?_ h.called
  · rintro m ⟨htake, htwo, hopen⟩
    refine ⟨⟨htake, htwo, hopen.imp_right (fun hm => ?_)⟩, rfl⟩
    simp [ServiceProxy.onClose, NetState.closed] at hm
  · intro m hm
    obtain ⟨hold, hep⟩ := hwaits m hm
    exact ⟨hold, Table.getElem?_filter_eq_some.mpr ⟨h.held m hold, by simpa using hep⟩⟩
  · intro m hm hadd
    exact ⟨hadd, h.timed m (hwaits m hm).1 hadd⟩
  · intro now key hnet
    simp [ServiceProxy.onClose] at hnet

/-- The turn of the sweep for `key` erases the entry of `key`. -/
theorem sweepErase (h : s.Tracked) (hf : s.AtFront) {now : UInt64} {key : UInt32}
    (hnet : s.net = .sweepErase now key) :
    Tracked { s with timeout := s.timeout.eraseFront, net := .sweep now } := by
  rw [TimeList.eraseFront_eq_del (hf now key (by rw [hnet]; rfl))]
  have hwaits : ∀ m, Awaiting { s with timeout := s.timeout.del key, net := .sweep now } m →
      s.Awaiting m := by
    rintro m ⟨hsaved, htwo, hfin, -⟩
    exact ⟨hsaved, htwo, hfin, by simp [hnet, NetState.inHand]⟩
  refine h.shrink ?_ ?_ ?_ (by simp) h.called
  · rintro m ⟨htake, htwo, hopen⟩
    exact ⟨⟨htake, htwo, hopen.imp_right (by simp [NetState.closed])⟩, rfl⟩
  · intro m hm
    exact ⟨hwaits m hm, h.held m (hwaits m hm)⟩
  · intro m hm hadd
    have hold := hwaits m hm
    exact ⟨hadd, (TimeList.live_del _ _ _).mpr
      ⟨h.erasing now key hnet m hold hadd, h.timed m hold hadd⟩⟩

/-- `doInvoke` finishes a request that has no endpoint. -/
theorem refuse (h : s.Tracked) (hi : s.Inv) {m : Ref} (hstage : s.stage m = .refused)
    (tid : Nat) :
    Tracked { s.finishInvoke tid m with stage := update s.stage m .returned } := by
  have hfinish : (s.finishInvoke tid m).Tracked := by
    have hsame : Tracked { s.finishInvoke tid m with net := s.net } :=
      h.finish tid (fun _ => .inr) (fun _ => hi.pending_of_closed)
        (fun now key hnet m' hm' _ => h.erasing now key hnet m' hm')
    rwa [finishInvoke_eq] at hsame ⊢
  have hgo : Tracked { s.finishInvoke tid m with
      stage := update (s.finishInvoke tid m).stage m .returned } :=
    hfinish.goto (by simpa using hstage) (by simp) (fun _ => rfl)
      (fun _ hfin => absurd hfin (by simp))
  rwa [finishInvoke_stage] at hgo

/-- The sweep has found no request under its key. -/
theorem sweepMiss (h : s.Tracked) {now : UInt64} {key : UInt32} (hnet : s.net = .sweep now)
    (hk : s.reqMessages[key]? = none) : Tracked { s with net := .sweepErase now key } := by
  refine h.setNet (by rw [hnet]; rfl) rfl ?_
  rintro now key heq m hm
  cases heq
  exact h.ne_of_lookup_none hk hm

/-- Every step whose request id is fresh keeps the invariant. -/
theorem step (h : s.Tracked) (hi : s.Inv) (hf : s.AtFront)
    {parse : List UInt8 → Option RpcResponse} {netTid : Nat} {a : Action}
    (hfresh : s.FreshId a) (hstep : s.step parse netTid a = some t) : t.Tracked := by
  cases step_cases hstep with
  | @newRequest m =>
    exact h.setCall (List.subset_cons_self m s.calls) List.mem_cons_self rfl
      (by simp [Stage.pastTake])
  | @takeId m _ _ hstage =>
    have hset : Tracked { s with
        message := update s.message m { s.message m with requestId := s.sequeue }
        stage := update s.stage m .taken } :=
      h.setCall (List.Subset.refl _) (h.called m (by simp [hstage])) rfl
        (fun _ m' hm' _ hp => hfresh hstage m' hm' hp)
    exact { hset with }
  | broadcast hstage =>
    exact h.goto hstage (by simp) (fun _ => rfl)
      (fun _ _ => ⟨by simp [Stage.pastSave], by simp [Stage.pastAdd]⟩)
  | noEndPoint hstage _ =>
    exact (h.goto hstage (by simp) (fun _ => rfl)
      (fun _ _ => ⟨by simp [Stage.pastSave], by simp [Stage.pastAdd]⟩)).setMessage rfl rfl
  | send hstage _ =>
    exact (h.goto hstage (by simp) (fun _ => rfl)
      (fun _ _ => ⟨by simp [Stage.pastSave], by simp [Stage.pastAdd]⟩)).setMessage rfl rfl
  | refuse hstage => exact h.refuse hi hstage _
  | oneWay hstage hone =>
    exact h.goto hstage (by simp) (fun _ => rfl) (fun htwo => absurd hone htwo)
  | @save m _ _ hstage htwo => exact h.save hstage htwo (hi.unsaved m (by rw [hstage]; rfl)).1
  | add hstage hsweep => exact h.timeoutAdd hstage hsweep
  | wait hstage =>
    exact h.goto hstage (by simp) (fun _ => rfl) (fun _ _ => ⟨fun _ => rfl, fun _ => rfl⟩)
  | done hstage _ =>
    exact h.goto hstage (by simp) (fun _ => rfl) (fun _ _ => ⟨fun _ => rfl, fun _ => rfl⟩)
  | wakeup hstage =>
    exact h.goto hstage (by simp) (fun _ => rfl) (fun _ _ => ⟨fun _ => rfl, fun _ => rfl⟩)
  | delRequest _ _ => exact { h with }
  | endpoints => exact { h with }
  | updateInMainLoop => exact { h with }
  | ignored _ _ => exact h
  | packet hidle _ hk => exact h.take hi hk (by rw [hidle]; rfl) rfl rfl
  | @onClose ep closeType hidle => exact h.onClose hidle ep closeType
  | doTimeOut hidle => exact h.setNet (by rw [hidle]; rfl) rfl (by simp)
  | @packetDel m resp hnet =>
    have hhand : m ∈ s.net.inHand := by simp [hnet, NetState.inHand]
    rw [← hi.found m resp.requestId (by rw [hnet]; rfl)]
    exact h.timeoutDel (hi.pending_of_inHand hhand) (fun hm => hm.2.2.2 hhand)
      (by rw [hnet]; rfl) rfl (by simp)
  | packetFinish hnet =>
    exact h.finishWith hi netTid (by simp [hnet, NetState.inHand]) rfl rfl
      (by simp [hnet, NetState.inHand]) (by simp [NetState.closed]) (by simp)
  | closeEnd hnet => exact h.setNet (by rw [hnet]; rfl) rfl (by simp)
  | closeFinish hnet =>
    exact h.finishWith hi netTid (by simp [hnet, NetState.inHand]) rfl rfl
      (by simp [hnet, NetState.inHand]) (by simp [NetState.closed, eq_comm]) (by simp)
  | @closeDel closeType m rest hnet =>
    have hclosed : s.net.closed = some m := by rw [hnet]; rfl
    exact h.timeoutDel (hi.pending_of_closed hclosed)
      (fun hm => (hi.closed m hclosed).2.2 hm.2.2.1) (by rw [hnet]; rfl) rfl (by simp)
  | sweepEnd hnet => exact h.setNet (by rw [hnet]; rfl) rfl (by simp)
  | sweepMiss hnet _ hk => exact h.sweepMiss hnet hk
  | sweepTake hnet _ hk => exact h.take hi hk (by rw [hnet]; rfl) rfl rfl
  | @sweepFinish now m key hnet =>
    refine h.finishWith hi netTid (by simp [hnet, NetState.inHand]) rfl rfl
      (by simp [hnet, NetState.inHand]) (by simp [NetState.closed]) ?_
    rintro now' key' heq
    cases heq
    exact (hi.found m key (by rw [hnet]; rfl)).symm
  | sweepErase hnet => exact h.sweepErase hf hnet

end Tracked

/-! ## Runs -/

theorem inv_of_runs {parse : List UInt8 → Option RpcResponse} {netTid : Nat}
    {active : List EndPoint} {G : ServiceProxy → Action → Prop}
    (h : Runs (step parse netTid) G (new active) s) : s.Inv :=
  h.invariant (fun _ _ _ hi _ hstep => hi.step hstep) (inv_new active)

theorem tracked_of_runs {parse : List UInt8 → Option RpcResponse} {netTid : Nat}
    {active : List EndPoint} (h : Runs (step parse netTid) FreshId (new active) s) :
    s.Tracked := by
  have hall : s.Inv ∧ s.AtFront ∧ s.Tracked := by
    refine h.invariant (I := fun x => x.Inv ∧ x.AtFront ∧ x.Tracked) ?_
      ⟨inv_new active, atFront_new active, tracked_new active⟩
    rintro x a y ⟨hi, hf, ht⟩ hfresh hstep
    exact ⟨hi.step hstep, hf.step hstep, ht.step hi hf hfresh hstep⟩
  exact hall.2.2

/-- **Every two-way request is completed exactly once.**  In every state that calls on
any threads, responses, closes and sweeps can reach in any order without a request id
being taken while it is pending: `finishInvoke` was called at most once for each
request; a two-way request past `m_timeout.add` that is neither finished nor in hand
is in `m_reqMessages` and in `m_timeout`; and one finished with `ResponseStatus_Ok`
carries a response with its own id. -/
theorem completed_exactly_once (parse : List UInt8 → Option RpcResponse) (netTid : Nat)
    (active : List EndPoint) (s : ServiceProxy)
    (h : Runs (step parse netTid) FreshId (new active) s) (m : Ref) :
    s.finished m ≤ 1 ∧
    (s.TwoWay m → (s.stage m).pastAdd → s.finished m = 0 → m ∉ s.net.inHand →
      s.reqMessages[(s.message m).requestId]? = some m ∧
        s.timeout.Live (s.message m).requestId) ∧
    (s.finished m ≠ 0 → (s.message m).status = .ok →
      ∃ r, (s.message m).resp = some r ∧ r.requestId = (s.message m).requestId) := by
  have hi := inv_of_runs h
  have ht := tracked_of_runs h
  refine ⟨hi.once m, ?_, hi.own m⟩
  intro htwo hadd hfin hhand
  have hsaved : (s.stage m).pastSave := by
    cases hstage : s.stage m <;> simp_all [Stage.pastAdd, Stage.pastSave]
  have hwait : s.Awaiting m := ⟨hsaved, htwo, hfin, hhand⟩
  exact ⟨ht.held m hwait, ht.timed m hwait hadd⟩

instance (s : ServiceProxy) (m : Ref) : Decidable (s.TwoWay m) :=
  inferInstanceAs (Decidable (_ ≠ _))

instance (s : ServiceProxy) (m : Ref) : Decidable (s.Pending m) :=
  inferInstanceAs (Decidable (_ ∧ _ ∧ _))

instance (s : ServiceProxy) : ∀ a : Action, Decidable (s.FreshId a)
  | .doInvoke m _ _ => inferInstanceAs (Decidable (s.stage m = .created →
      ∀ m' ∈ s.calls, s.Pending m' → (s.message m').requestId ≠ s.sequeue))
  | .newRequest _ _ _ _ _ => isTrue trivial
  | .wakeup _ => isTrue trivial
  | .delRequest _ => isTrue trivial
  | .endpoints _ => isTrue trivial
  | .updateInMainLoop => isTrue trivial
  | .onPacket _ _ => isTrue trivial
  | .onClose _ _ => isTrue trivial
  | .doTimeOut _ => isTrue trivial
  | .net => isTrue trivial

/-- A response parser that knows one message, the protobuf text of a response with
request id 0. -/
def parseZero (data : List UInt8) : Option RpcResponse :=
  if data = [0x10, 0x00] then some ⟨0, 0, []⟩ else none

/-- A sync request answered in the middle of an async one. -/
theorem completed_exactly_once_of_two : ∃ s : ServiceProxy,
    Runs (step parseZero 1) FreshId (new [7]) s ∧
    s.finished 0 = 1 ∧ (s.message 0).resp = some ⟨0, 0, []⟩ ∧
    s.reqMessages[(s.message 1).requestId]? = some 1 ∧
    s.timeout.Live (s.message 1).requestId := by
  obtain ⟨s, hrun, hs⟩ := exists_run (G := FreshId) parseZero 1 (new [7])
    [.newRequest 0 .sync false false 2, .newRequest 1 .async true false 3,
      .doInvoke 0 (-1) 0, .doInvoke 1 (-1) 0, .doInvoke 0 (-1) 0, .doInvoke 0 (-1) 0,
      .doInvoke 1 (-1) 0, .onPacket 7 [0x10, 0x00], .net, .doInvoke 1 (-1) 0, .net,
      .doInvoke 1 (-1) 5, .doInvoke 0 (-1) 6, .doInvoke 0 (-1) 6]
    (fun s => s.finished 0 = 1 ∧ (s.message 0).resp = some ⟨0, 0, []⟩ ∧
      s.TwoWay 1 ∧ (s.stage 1).pastAdd ∧ s.finished 1 = 0 ∧ 1 ∉ s.net.inHand) (by decide)
  obtain ⟨hfin, hresp, htwo, hadd, hopen, hhand⟩ := of_decide_eq_true hs
  obtain ⟨-, hpend, -⟩ := completed_exactly_once parseZero 1 [7] s hrun 1
  exact ⟨s, hrun, hfin, hresp, hpend htwo hadd hopen hhand⟩

end ServiceProxy

end StormNet.Framework
