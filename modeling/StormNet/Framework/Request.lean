/-
  Framework/Request.lean --- where a request can be.

  `Inv` holds in every run of a `ServiceProxy`: a request is not yet saved, in the
  pending table, in the hands of the net thread, or finished, and in no two of these.
  The moves the functions are made of (`goto`, `setMessage`, `save`, `take`, `setNet`,
  `finishInvoke`) keep it one by one, and so does every step.
-/
import StormNet.Foundation.Table
import StormNet.Framework.Step

set_option autoImplicit false

namespace StormNet.Framework

open StormNet.Foundation
open StormNet.Net (CloseType)
open Function (update update_self update_of_ne)

/-- `saveMessage` is behind the call. -/
def Stage.pastSave : Stage → Bool
  | .saved => true
  | .added => true
  | .waiting => true
  | .returned => true
  | _ => false

/-- `m_timeout.add` is behind the call. -/
def Stage.pastAdd : Stage → Bool
  | .added => true
  | .waiting => true
  | .returned => true
  | _ => false

/-- The request in hand in `onPacket` or in the sweep, with the id it was found by. -/
def NetState.foundBy : NetState → Option (Ref × UInt32)
  | .packetTaken m resp => some (m, resp.requestId)
  | .packetDel m resp => some (m, resp.requestId)
  | .sweepTaken _ m key => some (m, key)
  | _ => none

/-- The finished request whose id `onClose` has yet to take out of `m_timeout`. -/
def NetState.closed : NetState → Option Ref
  | .closeDel _ m _ => some m
  | _ => none

theorem NetState.mem_inHand_of_foundBy {net : NetState} {m : Ref} {key : UInt32}
    (h : net.foundBy = some (m, key)) : m ∈ net.inHand := by
  cases net <;> simp_all [foundBy, inHand]

namespace ServiceProxy

variable {s t : ServiceProxy}

/-- A sync or async request. -/
def TwoWay (s : ServiceProxy) (m : Ref) : Prop := (s.message m).invokeType ≠ .oneWay

/-- A request finished with `ResponseStatus_Ok` carries a response with its own id. -/
def OwnResponse (message : RequestMessage) : Prop :=
  message.status = .ok → ∃ r, message.resp = some r ∧ r.requestId = message.requestId

/-! ## Where a request is -/

/-- The invariant of all runs. -/
structure Inv (s : ServiceProxy) : Prop where
  /-- the entries of `m_reqMessages` -/
  entry : ∀ k m, s.reqMessages[k]? = some m →
    (s.message m).requestId = k ∧ (s.stage m).pastSave ∧ s.TwoWay m ∧
      s.finished m = 0 ∧ m ∉ s.net.inHand
  hand : ∀ m ∈ s.net.inHand, (s.stage m).pastSave ∧ s.TwoWay m ∧ s.finished m = 0
  handNodup : s.net.inHand.Nodup
  unsaved : ∀ m, (s.stage m).pastSave = false →
    s.finished m = 0 ∧ (s.message m).status ≠ .ok
  once : ∀ m, s.finished m ≤ 1
  found : ∀ m key, s.net.foundBy = some (m, key) → (s.message m).requestId = key
  closed : ∀ m, s.net.closed = some m →
    (s.stage m).pastSave ∧ s.TwoWay m ∧ s.finished m ≠ 0
  own : ∀ m, s.finished m ≠ 0 → OwnResponse (s.message m)
  back : ∀ m, (s.message m).invokeType = .sync → ((s.message m).back ↔ s.finished m ≠ 0)
  deleted : ∀ m ∈ s.released, (s.stage m).pastSave ∧
    ((s.message m).invokeType = .sync → s.stage m = .returned)
  queued : ∀ m ∈ s.messages, (s.stage m).pastSave ∧ (s.message m).invokeType = .async

theorem inv_new (active : List EndPoint) : (new active).Inv := by
  constructor <;> simp [ServiceProxy.new, NetState.inHand, NetState.foundBy, NetState.closed]

namespace Inv

/-- A call moves on in `doInvoke`. -/
theorem goto (h : s.Inv) {m : Ref} {stage : Stage}
    (hsave : (s.stage m).pastSave → stage.pastSave) (hret : s.stage m ≠ .returned) :
    Inv { s with stage := update s.stage m stage } := by
  have hmono : ∀ m', (s.stage m').pastSave → (update s.stage m stage m').pastSave := by
    intro m' hm'
    by_cases hmm : m' = m
    · subst hmm
      rw [update_self]
      exact hsave hm'
    · rwa [update_of_ne hmm]
  refine { h with entry := ?_, hand := ?_, unsaved := ?_, closed := ?_, deleted := ?_,
                  queued := ?_ }
  · intro k m' hk
    obtain ⟨hid, hsaved, htwo, hfin, hhand⟩ := h.entry k m' hk
    exact ⟨hid, hmono m' hsaved, htwo, hfin, hhand⟩
  · intro m' hm'
    obtain ⟨hsaved, htwo, hfin⟩ := h.hand m' hm'
    exact ⟨hmono m' hsaved, htwo, hfin⟩
  · intro m' hm'
    refine h.unsaved m' (Bool.eq_false_iff.mpr fun hsaved => ?_)
    exact absurd (hmono m' hsaved) (Bool.eq_false_iff.mp hm')
  · intro m' hm'
    obtain ⟨hsaved, htwo, hfin⟩ := h.closed m' hm'
    exact ⟨hmono m' hsaved, htwo, hfin⟩
  · intro m' hm'
    obtain ⟨hsaved, hsync⟩ := h.deleted m' hm'
    refine ⟨hmono m' hsaved, fun hs => ?_⟩
    have hne : m' ≠ m := fun hmm => hret (hmm ▸ hsync hs)
    show update s.stage m stage m' = .returned
    rw [update_of_ne hne]
    exact hsync hs
  · intro m' hm'
    obtain ⟨hsaved, hasync⟩ := h.queued m' hm'
    exact ⟨hmono m' hsaved, hasync⟩

/-- The message of an unfinished request changes, its id and its type only before
`saveMessage`. -/
theorem setMessage (h : s.Inv) {m : Ref} {message : RequestMessage} (hfin : s.finished m = 0)
    (hsame : (s.stage m).pastSave → message.requestId = (s.message m).requestId ∧
      message.invokeType = (s.message m).invokeType)
    (hok : (s.stage m).pastSave = false → message.status ≠ .ok)
    (hback : message.invokeType = .sync → message.back = false) :
    Inv { s with message := update s.message m message } := by
  have hkeep : ∀ m', (s.stage m').pastSave →
      (update s.message m message m').requestId = (s.message m').requestId ∧
      (update s.message m message m').invokeType = (s.message m').invokeType := by
    intro m' hm'
    by_cases hmm : m' = m
    · subst hmm
      rw [update_self]
      exact hsame hm'
    · rw [update_of_ne hmm]
      exact ⟨rfl, rfl⟩
  refine { h with entry := ?_, hand := ?_, unsaved := ?_, found := ?_, closed := ?_, own := ?_,
                  back := ?_, deleted := ?_, queued := ?_ }
  · intro k m' hk
    obtain ⟨hid, hsaved, htwo, hfin, hhand⟩ := h.entry k m' hk
    simp only [TwoWay, hkeep m' hsaved]
    exact ⟨hid, hsaved, htwo, hfin, hhand⟩
  · intro m' hm'
    obtain ⟨hsaved, htwo, hfin⟩ := h.hand m' hm'
    simp only [TwoWay, hkeep m' hsaved]
    exact ⟨hsaved, htwo, hfin⟩
  · intro m' hm'
    by_cases hmm : m' = m
    · subst hmm
      simp only [update_self]
      exact ⟨hfin, hok hm'⟩
    · simp only [update_of_ne hmm]
      exact h.unsaved m' hm'
  · intro m' key hnet
    simp only [hkeep m' (h.hand m' (NetState.mem_inHand_of_foundBy hnet)).1]
    exact h.found m' key hnet
  · intro m' hm'
    obtain ⟨hsaved, htwo, hfin⟩ := h.closed m' hm'
    simp only [TwoWay, hkeep m' hsaved]
    exact ⟨hsaved, htwo, hfin⟩
  · intro m' hm'
    have hne : m' ≠ m := fun hmm => hm' (hmm ▸ hfin)
    simp only [update_of_ne hne]
    exact h.own m' hm'
  · intro m' hsync
    by_cases hmm : m' = m
    · subst hmm
      simp only [update_self] at hsync ⊢
      simp [hback hsync, hfin]
    · simp only [update_of_ne hmm] at hsync ⊢
      exact h.back m' hsync
  · intro m' hm'
    obtain ⟨hsaved, hsync⟩ := h.deleted m' hm'
    simp only [hkeep m' hsaved]
    exact ⟨hsaved, hsync⟩
  · intro m' hm'
    obtain ⟨hsaved, hasync⟩ := h.queued m' hm'
    simp only [hkeep m' hsaved]
    exact ⟨hsaved, hasync⟩

/-- `saveMessage` of an unfinished request that nobody has taken. -/
theorem save (h : s.Inv) {m : Ref} (hsaved : (s.stage m).pastSave) (htwo : s.TwoWay m)
    (hfin : s.finished m = 0) (hhand : m ∉ s.net.inHand) :
    (s.saveMessage (s.message m).requestId m).Inv := by
  refine { h with entry := ?_ }
  intro k m' hk
  rcases Table.getElem?_insert_eq_some.mp hk with ⟨rfl, rfl⟩ | ⟨-, hk⟩
  · exact ⟨rfl, hsaved, htwo, hfin, hhand⟩
  · exact h.entry k m' hk

/-- What a handler takes out of the table it has in hand. -/
theorem take (h : s.Inv) {k : UInt32} {m : Ref} {net : NetState}
    (hk : s.reqMessages[k]? = some m) (hnet : net.inHand = [m])
    (hfound : ∀ m' key, net.foundBy = some (m', key) → key = k)
    (hclosed : net.closed = none) :
    Inv { s with reqMessages := s.reqMessages.erase k, net := net } := by
  obtain ⟨hid, hsaved, htwo, hfin, -⟩ := h.entry k m hk
  refine { h with entry := ?_, hand := ?_, handNodup := ?_, found := ?_,
                  closed := by simp [hclosed] }
  · intro k' m' hk'
    obtain ⟨hne, hk'⟩ := Table.getElem?_erase_eq_some.mp hk'
    obtain ⟨hid', hsaved', htwo', hfin', -⟩ := h.entry k' m' hk'
    refine ⟨hid', hsaved', htwo', hfin', ?_⟩
    simp only [hnet, List.mem_singleton]
    rintro rfl
    exact hne (hid'.symm.trans hid)
  · intro m' hm'
    simp only [hnet, List.mem_singleton] at hm'
    subst hm'
    exact ⟨hsaved, htwo, hfin⟩
  · simp only [hnet, List.nodup_singleton]
  · intro m' key hkey
    have hm' : m' = m := by
      have hin := NetState.mem_inHand_of_foundBy hkey
      rwa [hnet, List.mem_singleton] at hin
    subst hm'
    exact hid.trans (hfound m' key hkey).symm

/-- The net thread moves on and keeps in hand part of what it had. -/
theorem setNet (h : s.Inv) {net : NetState} (hsub : net.inHand.Sublist s.net.inHand)
    (hfound : net.foundBy = none ∨ net.foundBy = s.net.foundBy)
    (hclosed : ∀ m, net.closed = some m →
      (s.stage m).pastSave ∧ s.TwoWay m ∧ s.finished m ≠ 0) :
    Inv { s with net := net } := by
  refine { h with entry := ?_, hand := ?_, handNodup := ?_, found := ?_, closed := hclosed }
  · intro k m hk
    obtain ⟨hid, hsaved, htwo, hfin, hhand⟩ := h.entry k m hk
    exact ⟨hid, hsaved, htwo, hfin, fun hm => hhand (hsub.subset hm)⟩
  · intro m hm
    exact h.hand m (hsub.subset hm)
  · exact h.handNodup.sublist hsub
  · intro m key hkey
    rcases hfound with hnone | hsame
    · exact absurd (hnone.symm.trans hkey) (by simp)
    · exact h.found m key (hsame.symm.trans hkey)

end Inv

/-! ## Finishing -/

@[simp] theorem finishInvoke_twoWay (s : ServiceProxy) (tid : Nat) (m m' : Ref) :
    (s.finishInvoke tid m).TwoWay m' ↔ s.TwoWay m' := by
  simp only [TwoWay, finishInvoke_invokeType]

@[simp] theorem finishInvoke_own (s : ServiceProxy) (tid : Nat) (m m' : Ref) :
    OwnResponse ((s.finishInvoke tid m).message m') ↔ OwnResponse (s.message m') := by
  simp only [OwnResponse, finishInvoke_status, finishInvoke_resp, finishInvoke_requestId]

/-- Finishing a request that is in no table and in nobody's hands. -/
theorem Inv.finishInvoke (h : s.Inv) (tid : Nat) {m : Ref}
    (hentry : ∀ k : UInt32, s.reqMessages[k]? ≠ some m) (hhand : m ∉ s.net.inHand)
    (hfin : s.finished m = 0) (hsaved : (s.stage m).pastSave) (hown : OwnResponse (s.message m)) :
    (s.finishInvoke tid m).Inv where
  entry k m' hk := by
    simp only [finishInvoke_reqMessages] at hk
    have hne : m' ≠ m := fun hmm => hentry k (hmm ▸ hk)
    simpa [finished_finishInvoke_eq_zero, hne] using h.entry k m' hk
  hand m' hm' := by
    simp only [finishInvoke_net] at hm'
    have hne : m' ≠ m := fun hmm => hhand (hmm ▸ hm')
    simpa [finished_finishInvoke_eq_zero, hne] using h.hand m' hm'
  handNodup := by simpa using h.handNodup
  unsaved m' hm' := by
    simp only [finishInvoke_stage] at hm'
    have hne : m' ≠ m := by
      rintro rfl
      simp [hsaved] at hm'
    simpa [finished_finishInvoke_eq_zero, hne] using h.unsaved m' hm'
  once m' := by
    by_cases hmm : m' = m
    · simp [hmm, hfin]
    · simpa [hmm] using h.once m'
  found m' key hkey := by
    simp only [finishInvoke_net] at hkey
    simpa using h.found m' key hkey
  closed m' hm' := by
    simp only [finishInvoke_net] at hm'
    obtain ⟨hsaved', htwo, hfin'⟩ := h.closed m' hm'
    have hne : m' ≠ m := fun hmm => hfin' (hmm ▸ hfin)
    simpa [hne] using ⟨hsaved', htwo, hfin'⟩
  own m' hm' := by
    by_cases hmm : m' = m
    · simpa [hmm] using hown
    · simpa using h.own m' (by simpa [hmm] using hm')
  back m' hsync := by
    simp only [finishInvoke_invokeType] at hsync
    have hback := h.back m' hsync
    rw [finishInvoke_back]
    by_cases hmm : m' = m
    · subst hmm
      simp [hsync]
    · simpa [hmm] using hback
  deleted m' hm' := by
    simp only [finishInvoke_stage, finishInvoke_invokeType]
    rcases (mem_released_finishInvoke s tid m m').mp hm' with hm' | ⟨rfl, hasync, -⟩
    · exact h.deleted m' hm'
    · exact ⟨hsaved, fun hsync => absurd (hasync.symm.trans hsync) (by decide)⟩
  queued m' hm' := by
    simp only [finishInvoke_stage, finishInvoke_invokeType]
    rcases (mem_messages_finishInvoke s tid m m').mp hm' with hm' | ⟨rfl, hasync, -⟩
    · exact h.queued m' hm'
    · exact ⟨hsaved, hasync⟩

/-- The net thread finishes a request it has in hand, and lets go of it. -/
theorem Inv.finishWith (h : s.Inv) (netTid : Nat) {m : Ref} {net : NetState}
    {message : RequestMessage} (hin : m ∈ s.net.inHand)
    (hid : message.requestId = (s.message m).requestId)
    (htype : message.invokeType = (s.message m).invokeType)
    (hback : message.back = (s.message m).back) (hown : OwnResponse message)
    (hsub : net.inHand.Sublist s.net.inHand) (hout : m ∉ net.inHand)
    (hfound : net.foundBy = none) (hclosed : net.closed = none) :
    Inv { s.finishWith netTid m message with net := net } := by
  obtain ⟨hsaved, -, hfin⟩ := h.hand m hin
  have hnotBack : message.invokeType = .sync → message.back = false := by
    intro hsync
    have hiff := h.back m (htype ▸ hsync)
    rw [← hback, hfin] at hiff
    simpa using hiff
  have hset := (h.setNet hsub (.inl hfound) (by simp [hclosed])).setMessage
    hfin (fun _ => ⟨hid, htype⟩)
    (fun hns => absurd hsaved (Bool.eq_false_iff.mp hns)) hnotBack
  have hentry : ∀ k : UInt32, s.reqMessages[k]? ≠ some m := by
    intro k hk
    exact (h.entry k m hk).2.2.2.2 hin
  have hcommute : { s.finishWith netTid m message with net := net } =
      ServiceProxy.finishInvoke
        { s with net := net, message := update s.message m message } netTid m := by
    rw [ServiceProxy.finishWith, finishInvoke_eq, finishInvoke_eq]
  rw [hcommute]
  apply hset.finishInvoke netTid hentry hout hfin hsaved
  show OwnResponse (update s.message m message m)
  rw [update_self]
  exact hown

/-! ## One step -/

/-- Before `saveMessage` the caller fills in its message. -/
theorem Inv.prepare (h : s.Inv) {m : Ref} {message : RequestMessage}
    (hm : (s.stage m).pastSave = false)
    (htype : message.invokeType = (s.message m).invokeType)
    (hback : message.back = (s.message m).back) (hok : message.status ≠ .ok) :
    Inv { s with message := update s.message m message } := by
  obtain ⟨hfin, -⟩ := h.unsaved m hm
  refine h.setMessage hfin (fun hsaved => ?_) (fun _ => hok) (fun hsync => ?_)
  · rw [hm] at hsaved
    cases hsaved
  · have hiff := h.back m (htype ▸ hsync)
    rw [← hback, hfin] at hiff
    simpa using hiff

/-- An unsaved request is in no table and in nobody's hands. -/
theorem Inv.not_entry (h : s.Inv) {m : Ref} (hm : (s.stage m).pastSave = false)
    (k : UInt32) : s.reqMessages[k]? ≠ some m := by
  intro hk
  have hsaved := (h.entry k m hk).2.1
  rw [hm] at hsaved
  cases hsaved

theorem Inv.not_hand (h : s.Inv) {m : Ref} (hm : (s.stage m).pastSave = false) :
    m ∉ s.net.inHand := by
  intro hin
  have hsaved := (h.hand m hin).1
  rw [hm] at hsaved
  cases hsaved

/-- What `onClose` collects leaves the table. -/
theorem Inv.onClose (h : s.Inv) (ep : EndPoint) (closeType : CloseType) :
    (s.onClose ep closeType).Inv := by
  have hcollected : ∀ m, m ∈ (s.onClose ep closeType).net.inHand ↔
      (∃ k : UInt32, s.reqMessages[k]? = some m) ∧ (s.message m).ep = some ep := by
    intro m
    simp only [ServiceProxy.onClose, NetState.inHand, List.mem_filter, Table.mem_values,
      decide_eq_true_eq]
  refine { h with entry := ?_, hand := ?_, handNodup := ?_,
                  found := by simp [ServiceProxy.onClose, NetState.foundBy],
                  closed := by simp [ServiceProxy.onClose, NetState.closed] }
  · intro k m hk
    obtain ⟨hk, hep⟩ := Table.getElem?_filter_eq_some.mp hk
    obtain ⟨hid, hsaved, htwo, hfin, -⟩ := h.entry k m hk
    refine ⟨hid, hsaved, htwo, hfin, fun hm => ?_⟩
    simp [((hcollected m).mp hm).2] at hep
  · intro m hm
    obtain ⟨⟨k, hk⟩, -⟩ := (hcollected m).mp hm
    obtain ⟨-, hsaved, htwo, hfin, -⟩ := h.entry k m hk
    exact ⟨hsaved, htwo, hfin⟩
  · refine List.Nodup.filter _ (Table.nodup_values ?_)
    intro k k' m hk hk'
    exact (h.entry k m hk).1.symm.trans (h.entry k' m hk').1

/-- A call moves on from the stage it is at. -/
theorem Inv.moveOn (h : s.Inv) {m : Ref} {old : Stage} (hstage : s.stage m = old)
    (hret : old ≠ .returned) (stage : Stage) (hsave : old.pastSave → stage.pastSave) :
    Inv { s with stage := update s.stage m stage } := by
  subst hstage
  exact h.goto hsave hret

/-- The constructor of a message, and what a stub assigns to it. -/
theorem Inv.newRequest (h : s.Inv) {m : Ref} (hfresh : s.stage m = .fresh) (type : InvokeType)
    (cb broadcast : Bool) (tid : Nat) : Inv { s with
      message := update s.message m (Framework.newRequest type cb broadcast tid)
      stage := update s.stage m .created
      calls := m :: s.calls } := by
  have hcall := h.moveOn hfresh (by simp) .created (fun hs => by cases hs)
  have hset : Inv { s with
      stage := update s.stage m .created
      message := update s.message m (Framework.newRequest type cb broadcast tid) } := by
    refine hcall.setMessage (h.unsaved m (by rw [hfresh]; rfl)).1 (by simp [Stage.pastSave])
      ?_ ?_
    · unfold Framework.newRequest
      split <;> simp
    · unfold Framework.newRequest
      split <;> simp
  exact { hset with }

/-- `doInvoke` takes the next id. -/
theorem Inv.takeId (h : s.Inv) {m : Ref} (hstage : s.stage m = .created) : Inv { s with
    sequeue := s.sequeue + 1
    message := update s.message m { s.message m with requestId := s.sequeue }
    stage := update s.stage m .taken } := by
  have hcall := h.moveOn hstage (by simp) .taken (fun hs => by cases hs)
  have hset : Inv { s with
      stage := update s.stage m .taken
      message := update s.message m { s.message m with requestId := s.sequeue } } :=
    hcall.prepare (by simp [Stage.pastSave]) rfl rfl (h.unsaved m (by rw [hstage]; rfl)).2
  exact { hset with }

/-- `doInvoke` finishes a request that has no endpoint. -/
theorem Inv.refuse (h : s.Inv) {m : Ref} (hstage : s.stage m = .refused) (tid : Nat) :
    Inv { s.finishInvoke tid m with stage := update s.stage m .returned } := by
  have hm : (s.stage m).pastSave = false := by rw [hstage]; rfl
  obtain ⟨hfin, hok⟩ := h.unsaved m hm
  have hdone := (h.moveOn hstage (by simp) .returned (fun _ => rfl)).finishInvoke tid
    (h.not_entry hm) (h.not_hand hm) hfin (by simp [Stage.pastSave])
    (fun hstatus => absurd hstatus hok)
  rw [finishInvoke_eq] at hdone ⊢
  exact hdone

/-- The caller deletes a request that is not async. -/
theorem Inv.delRequest (h : s.Inv) {m : Ref} (hstage : s.stage m = .returned) :
    Inv { s with released := m :: s.released } := by
  refine { h with deleted := ?_ }
  intro m' hm'
  rcases List.mem_cons.mp hm' with rfl | hm'
  · exact ⟨by rw [hstage]; rfl, fun _ => hstage⟩
  · exact h.deleted m' hm'

/-- The main loop deletes what it has called back. -/
theorem Inv.updateInMainLoop (h : s.Inv) :
    Inv { s with messages := [], released := s.messages ++ s.released } := by
  refine { h with deleted := ?_, queued := by simp }
  intro m hm
  rcases List.mem_append.mp hm with hm | hm
  · obtain ⟨hsaved, hasync⟩ := h.queued m hm
    exact ⟨hsaved, fun hsync => absurd (hasync.symm.trans hsync) (by decide)⟩
  · exact h.deleted m hm

/-- `onPacket` takes the id out of `m_timeout`. -/
theorem Inv.packetDel (h : s.Inv) {m : Ref} {resp : RpcResponse}
    (hnet : s.net = .packetTaken m resp) :
    Inv { s with timeout := s.timeout.del resp.requestId, net := .packetDel m resp } := by
  have hmove : Inv { s with net := .packetDel m resp } :=
    h.setNet (by rw [hnet]; exact List.Sublist.refl _) (by simp [hnet, NetState.foundBy])
      (by simp [NetState.closed])
  exact { hmove with }

/-- `onClose` finishes a request and then takes its id out of `m_timeout`. -/
theorem Inv.closeFinish (h : s.Inv) (netTid : Nat) {closeType : CloseType} {m : Ref}
    {rest : List Ref} (hnet : s.net = .closing closeType (m :: rest)) :
    Inv { s.finishWith netTid m { s.message m with status := closeStatus closeType } with
      net := .closeDel closeType m rest } := by
  have hnodup := h.handNodup
  rw [hnet] at hnodup
  have hin : m ∈ s.net.inHand := by simp [hnet, NetState.inHand]
  obtain ⟨hsaved, htwo, hfin⟩ := h.hand m hin
  -- the loop lets go of `m` first and then holds its id
  have hdone : Inv { s.finishWith netTid m { s.message m with
      status := closeStatus closeType } with net := .closing closeType rest } :=
    h.finishWith netTid hin rfl rfl rfl (fun hok => by cases closeType <;> cases hok)
      (by rw [hnet]; exact List.sublist_cons_self m rest) (List.nodup_cons.mp hnodup).1 rfl rfl
  refine hdone.setNet (List.Sublist.refl _) (.inl rfl) ?_
  rintro m' hm'
  cases hm'
  simp only [ServiceProxy.finishWith, finishInvoke_eq, TwoWay, update_self]
  exact ⟨hsaved, htwo, Nat.succ_ne_zero _⟩

theorem Inv.closeDel (h : s.Inv) {closeType : CloseType} {m : Ref} {rest : List Ref}
    (hnet : s.net = .closeDel closeType m rest) (key : UInt32) :
    Inv { s with timeout := s.timeout.del key, net := .closing closeType rest } := by
  have hmove : Inv { s with net := .closing closeType rest } :=
    h.setNet (by rw [hnet]; exact List.Sublist.refl _) (.inl rfl) (by simp [NetState.closed])
  exact { hmove with }

/-- The net thread lets go of what it holds. -/
theorem Inv.letGo (h : s.Inv) {net : NetState} (hhand : net.inHand = [])
    (hfound : net.foundBy = none) (hclosed : net.closed = none) : Inv { s with net := net } :=
  h.setNet (by rw [hhand]; exact List.nil_sublist _) (.inl hfound) (by simp [hclosed])

/-- Every step keeps the invariant. -/
theorem Inv.step (h : s.Inv) {parse : List UInt8 → Option RpcResponse} {netTid : Nat}
    {a : Action} (hstep : s.step parse netTid a = some t) : t.Inv := by
  cases step_cases hstep with
  | newRequest hfresh => exact h.newRequest hfresh _ _ _ _
  | takeId hstage => exact h.takeId hstage
  | broadcast hstage => exact h.moveOn hstage (by simp) .sent (fun hs => by cases hs)
  | noEndPoint hstage _ =>
    exact (h.moveOn hstage (by simp) .refused (fun hs => by cases hs)).prepare
      (by simp [Stage.pastSave]) rfl rfl (by simp)
  | @send m _ _ ep hstage _ =>
    exact (h.moveOn hstage (by simp) .sent (fun hs => by cases hs)).prepare
      (by simp [Stage.pastSave]) rfl rfl (h.unsaved m (by rw [hstage]; rfl)).2
  | refuse hstage => exact h.refuse hstage _
  | oneWay hstage _ => exact h.moveOn hstage (by simp) .returned (fun _ => rfl)
  | @save m _ _ hstage htwo =>
    have hm : (s.stage m).pastSave = false := by rw [hstage]; rfl
    exact (h.moveOn hstage (by simp) .saved (fun _ => rfl)).save (by simp [Stage.pastSave]) htwo
      (h.unsaved m hm).1 (h.not_hand hm)
  | add hstage _ =>
    have hcall := h.moveOn hstage (by simp) .added (fun _ => rfl)
    exact { hcall with }
  | wait hstage => exact h.moveOn hstage (by simp) .waiting (fun _ => rfl)
  | done hstage _ => exact h.moveOn hstage (by simp) .returned (fun _ => rfl)
  | wakeup hstage => exact h.moveOn hstage (by simp) .returned (fun _ => rfl)
  | delRequest hstage _ => exact h.delRequest hstage
  | endpoints => exact { h with }
  | updateInMainLoop => exact h.updateInMainLoop
  | ignored _ _ => exact h
  | packet _ _ hk =>
    refine h.take hk rfl (fun m' key hkey => ?_) rfl
    cases hkey
    rfl
  | onClose _ => exact h.onClose _ _
  | doTimeOut _ => exact h.letGo rfl rfl rfl
  | packetDel hnet => exact h.packetDel hnet
  | @packetFinish m resp hnet =>
    exact h.finishWith netTid (by simp [hnet, NetState.inHand]) rfl rfl rfl
      (fun _ => ⟨resp, rfl, (h.found m _ (by rw [hnet]; rfl)).symm⟩) (List.nil_sublist _)
      (by simp [NetState.inHand]) rfl rfl
  | closeEnd _ => exact h.letGo rfl rfl rfl
  | closeFinish hnet => exact h.closeFinish netTid hnet
  | closeDel hnet => exact h.closeDel hnet _
  | sweepEnd _ => exact h.letGo rfl rfl rfl
  | sweepMiss _ _ _ => exact h.letGo rfl rfl rfl
  | sweepTake _ _ hk =>
    refine h.take hk rfl (fun m' key' hkey => ?_) rfl
    cases hkey
    rfl
  | sweepFinish hnet =>
    exact h.finishWith netTid (by simp [hnet, NetState.inHand]) rfl rfl rfl
      (fun hok => by cases hok) (List.nil_sublist _) (by simp [NetState.inHand]) rfl rfl
  | @sweepErase now key hnet =>
    have hmove : Inv { s with net := .sweep now } := h.letGo rfl rfl rfl
    exact { hmove with }

/-! ## What stays of a saved request -/

section Lasts

variable {parse : List UInt8 → Option RpcResponse} {netTid : Nat} {a : Action} {m : Ref}

/-- Of a saved message only the status, the response and `back` change. -/
structure Lasts (s t : ServiceProxy) (m : Ref) : Prop where
  saved : (t.stage m).pastSave
  message : ∃ status resp back, t.message m =
    { s.message m with status := status, resp := resp, back := back }

theorem Lasts.id (h : Lasts s t m) : (t.message m).requestId = (s.message m).requestId := by
  obtain ⟨status, resp, back, hmessage⟩ := h.message
  rw [hmessage]

theorem Lasts.type (h : Lasts s t m) : (t.message m).invokeType = (s.message m).invokeType := by
  obtain ⟨status, resp, back, hmessage⟩ := h.message
  rw [hmessage]

theorem Lasts.thread (h : Lasts s t m) : (t.message m).threadId = (s.message m).threadId := by
  obtain ⟨status, resp, back, hmessage⟩ := h.message
  rw [hmessage]

theorem Lasts.ep (h : Lasts s t m) : (t.message m).ep = (s.message m).ep := by
  obtain ⟨status, resp, back, hmessage⟩ := h.message
  rw [hmessage]

theorem Lasts.trans {u : ServiceProxy} (h : Lasts s t m) (h' : Lasts t u m) : Lasts s u m := by
  obtain ⟨status, resp, back, hmessage⟩ := h.message
  obtain ⟨status', resp', back', hmessage'⟩ := h'.message
  refine ⟨h'.saved, status', resp', back', ?_⟩
  rw [hmessage', hmessage]

theorem finishWith_message (s : ServiceProxy) (netTid : Nat) (m m' : Ref)
    (message : RequestMessage) : ∃ back, (s.finishWith netTid m message).message m' =
      { update s.message m message m' with back := back } :=
  finishInvoke_message { s with message := update s.message m message } netTid m m'

theorem lasts_finishWith {net : NetState} {message : RequestMessage} {m' : Ref}
    (hm : (s.stage m).pastSave) (hmessage : ∃ status resp, message =
      { s.message m' with status := status, resp := resp }) :
    Lasts s { s.finishWith netTid m' message with net := net } m := by
  obtain ⟨status, resp, rfl⟩ := hmessage
  obtain ⟨back, hback⟩ := finishWith_message s netTid m' m
    { s.message m' with status := status, resp := resp }
  constructor
  · simpa only [finishWith, finishInvoke_stage] using hm
  · by_cases hmm : m = m'
    · refine ⟨status, resp, back, ?_⟩
      rw [hback, hmm, update_self]
    · refine ⟨(s.message m).status, (s.message m).resp, back, ?_⟩
      rw [hback, update_of_ne hmm]

/-- Another thread leaves a saved message alone. -/
theorem Step.stays (h : Step parse netTid s a t) (ha : a ≠ .net) (hm : (s.stage m).pastSave) :
    (t.stage m).pastSave ∧ t.message m = s.message m ∧ t.finished m = s.finished m := by
  have hne : ∀ {m' : Ref} {stage : Stage}, s.stage m' = stage → stage.pastSave = false →
      m ≠ m' := by
    intro m' stage hstage hnot hmm
    rw [hmm, hstage, hnot] at hm
    cases hm
  have hgo : ∀ {m' : Ref} {stage : Stage}, stage.pastSave →
      (update s.stage m' stage m).pastSave := by
    intro m' stage hsave
    by_cases hmm : m = m'
    · rwa [hmm, update_self]
    · rwa [update_of_ne hmm]
  cases h with
  | newRequest hstage | takeId hstage | noEndPoint hstage _ | send hstage _ =>
    have hmm := hne hstage rfl
    refine ⟨?_, update_of_ne hmm _ _, rfl⟩
    simpa only [update_of_ne hmm] using hm
  | broadcast hstage =>
    have hmm := hne hstage rfl
    refine ⟨?_, rfl, rfl⟩
    simpa only [update_of_ne hmm] using hm
  | @refuse m' _ _ hstage =>
    have hmm := hne hstage rfl
    refine ⟨hgo rfl, ?_, ?_⟩ <;> simp only [finishInvoke_eq, update_of_ne hmm]
  | save | oneWay | add | wait | done | wakeup => exact ⟨hgo rfl, rfl, rfl⟩
  | packetDel | packetFinish | closeEnd | closeFinish | closeDel | sweepEnd | sweepMiss
  | sweepTake | sweepFinish | sweepErase => exact absurd rfl ha
  | _ => exact ⟨hm, rfl, rfl⟩

/-- Every step. -/
theorem Step.lasts (h : Step parse netTid s a t) (hm : (s.stage m).pastSave) : Lasts s t m := by
  by_cases ha : a = .net
  · subst ha
    cases h with
    | packetFinish | closeFinish | sweepFinish => exact lasts_finishWith hm ⟨_, _, rfl⟩
    | _ => exact ⟨hm, _, _, _, rfl⟩
  · obtain ⟨hsaved, hmessage, -⟩ := h.stays ha hm
    exact ⟨hsaved, _, _, _, hmessage⟩

end Lasts

end ServiceProxy

end StormNet.Framework
