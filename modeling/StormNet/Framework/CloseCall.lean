/-
  Framework/CloseCall.lean --- A whole call of `ServiceProxy::onClose`, between the steps of
  the other threads.

  The call takes the requests of its endpoint out of the table and finishes them one by one.
  `finishInvoke` hands a message over, to the callback, to the main loop or to the caller that
  waits, and whoever has it deletes it; the loop then reads the id of the message to take it
  out of `m_timeout`.
-/
import StormNet.Framework.Completion

set_option autoImplicit false

namespace StormNet.Framework

open StormNet.Foundation
open StormNet.Net (CloseType)
open StormNet.Util (TimeList)
open Function (update update_self update_of_ne)

/-- The messages that the loop of `onClose` still uses. -/
def NetState.held (net : NetState) : List Ref := net.closed.toList ++ net.inHand

namespace ServiceProxy

/-- The pending requests of an endpoint, in the order of their ids. -/
def affected (s : ServiceProxy) (ep : EndPoint) : List Ref :=
  (s.reqMessages.toList.map (·.2)).filter (fun m => (s.message m).ep = some ep)

/-- The pending requests are saved under their ids. -/
def Keyed (s : ServiceProxy) : Prop :=
  ∀ (k : UInt32) (m : Ref), s.reqMessages[k]? = some m →
    (s.message m).requestId = k ∧ (s.stage m).pastSave

theorem Inv.keyed {s : ServiceProxy} (h : s.Inv) : s.Keyed := by
  intro k m hk
  obtain ⟨hid, hsaved, -⟩ := h.entry k m hk
  exact ⟨hid, hsaved⟩

/-- The callback of the request runs in `finishInvoke` on the thread `tid`. -/
def CalledBack (s : ServiceProxy) (tid : Nat) (m : Ref) : Prop :=
  (s.message m).invokeType = .async ∧ (s.message m).threadId = tid

instance (s : ServiceProxy) (tid : Nat) (m : Ref) : Decidable (s.CalledBack tid m) :=
  inferInstanceAs (Decidable (_ ∧ _))

/-- A step of another thread deletes the message. -/
def Releases (s : ServiceProxy) (m : Ref) : Action → Prop
  | .delRequest m' => m = m'
  | .updateInMainLoop => m ∈ s.messages
  | _ => False

instance (s : ServiceProxy) (m : Ref) : DecidablePred (s.Releases m) := by
  intro a
  unfold Releases
  split <;> infer_instance

/-- What another thread gives to `saveMessage`. -/
def saving (s : ServiceProxy) : Action → List UInt32
  | .doInvoke m _ _ =>
      if s.stage m = .sent ∧ (s.message m).invokeType ≠ .oneWay then [(s.message m).requestId]
      else []
  | _ => []

/-- What another thread gives to `m_timeout.add`. -/
def adding (s : ServiceProxy) : Action → List UInt32
  | .doInvoke m _ _ => if s.stage m = .saved then [(s.message m).requestId] else []
  | _ => []

/-- What the next step of the loop of `onClose` gives to `m_timeout.del`. -/
def deleting (s : ServiceProxy) : Action → List UInt32
  | .net =>
      match s.net with
      | .closeDel _ m _ => [(s.message m).requestId]
      | _ => []
  | _ => []

/-- The request that the next step of the loop of `onClose` finishes. -/
def finishing (s : ServiceProxy) : Action → List Ref
  | .net =>
      match s.net with
      | .closing _ (m :: _) => [m]
      | _ => []
  | _ => []

/-- The message that the next step of the loop of `onClose` reads or writes. -/
def usedBy (s : ServiceProxy) : Action → List Ref
  | .net =>
      match s.net with
      | .closing _ (m :: _) => [m]
      | .closeDel _ m _ => [m]
      | _ => []
  | _ => []

end ServiceProxy

/-- A call of `onClose`, with what it has done and what other threads have done meanwhile. -/
structure Closing where
  proxy : ServiceProxy
  /-- the requests that the call has finished, with their statuses -/
  done : List (Ref × ResponseStatus)
  /-- the released messages that the call has read or written -/
  touched : List Ref
  /-- the ids that other threads have given to `saveMessage` -/
  saves : List UInt32
  /-- the ids that other threads have given to `m_timeout.add`, and the call not yet to
  `m_timeout.del` -/
  adds : List UInt32

namespace Closing

open ServiceProxy (Action closeStatus)

/-- `onClose` up to its loop. -/
def start (s : ServiceProxy) (ep : EndPoint) (closeType : CloseType) : Closing :=
  ⟨s.onClose ep closeType, [], [], [], []⟩

/-- A step of the call or of another thread. -/
def step (parse : List UInt8 → Option RpcResponse) (netTid : Nat) (c : Closing) (a : Action) :
    Option Closing :=
  let s := c.proxy
  if s.net = .idle then none
  else (s.step parse netTid a).map (fun t => {
    proxy := t
    done := c.done ++ (s.finishing a).map (fun m => (m, (t.message m).status))
    touched := c.touched ++ (s.usedBy a).filter (fun m => m ∈ s.released)
    saves := s.saving a ++ c.saves
    adds := s.adding a ++ c.adds.filter (fun k => k ∉ s.deleting a) })

/-- The step does not delete a message that the call still uses. -/
def Spares (c : Closing) (a : Action) : Prop := ∀ m ∈ c.proxy.net.held, ¬ c.proxy.Releases m a

instance (c : Closing) (a : Action) : Decidable (c.Spares a) :=
  inferInstanceAs (Decidable (∀ m ∈ _, ¬ _))

/-- What a call of `onClose(ep, closeType)` in the state `s` is for.  Where another thread has
saved a request or its timeout meanwhile, the tables may say more. -/
structure Settles (s : ServiceProxy) (ep : EndPoint) (closeType : CloseType) (c : Closing) :
    Prop where
  finished : c.done = (s.affected ep).map (fun m => (m, closeStatus closeType))
  once : (c.done.map (·.1)).Nodup
  others : ∀ (k : UInt32) (m : Ref), s.reqMessages[k]? = some m → (s.message m).ep ≠ some ep →
    c.proxy.message m = s.message m ∧ c.proxy.finished m = s.finished m
  pending : ∀ k : UInt32, k ∉ c.saves → c.proxy.reqMessages[k]? =
    s.reqMessages[k]?.filter (fun m => (s.message m).ep ≠ some ep)
  timeouts : ∀ d : TimeList.ListData UInt32 UInt64, d.key ∉ c.adds →
    (d ∈ c.proxy.timeout.val.list ↔ d ∈ s.timeout.val.list ∧
      ∀ m, s.reqMessages[d.key]? = some m → (s.message m).ep ≠ some ep)
  untouched : c.touched = []

end Closing

/-! ## The steps of the other threads -/

namespace ServiceProxy

variable {parse : List UInt8 → Option RpcResponse} {netTid : Nat} {s t : ServiceProxy}
variable {a : Action} {m : Ref}

/-- While the net thread is in a handler, a step of another thread: what it can do to the
messages that are saved and to the tables. -/
structure Foreign (s t : ServiceProxy) (a : Action) : Prop where
  net : t.net = s.net
  released : ∀ m, (s.stage m).pastSave → (m ∈ t.released ↔ m ∈ s.released ∨ s.Releases m a)
  pending : ∀ k : UInt32, k ∉ s.saving a → t.reqMessages[k]? = s.reqMessages[k]?
  timeouts : ∀ d : TimeList.ListData UInt32 UInt64, d.key ∉ s.adding a →
    (d ∈ t.timeout.val.list ↔ d ∈ s.timeout.val.list)

theorem Step.foreign (h : Step parse netTid s a t) (ha : a ≠ .net) (hbusy : s.net ≠ .idle) :
    Foreign s t a := by
  cases h with
  | ignored hidle _ => exact absurd hidle hbusy
  | packet hidle _ _ => exact absurd hidle hbusy
  | onClose hidle => exact absurd hidle hbusy
  | doTimeOut hidle => exact absurd hidle hbusy
  | packetDel | packetFinish | closeEnd | closeFinish | closeDel | sweepEnd | sweepMiss
  | sweepTake | sweepFinish | sweepErase => exact absurd rfl ha
  | @refuse m' _ _ hstage =>
    refine ⟨finishInvoke_net _ _ _, fun m hm => ?_, fun k _ => ?_, fun d _ => ?_⟩
    · have hmm : m ≠ m' := by
        intro heq
        rw [heq, hstage] at hm
        cases hm
      simp [mem_released_finishInvoke, hmm, Releases]
    · simp
    · simp
  | @save m' _ _ hstage htwo =>
    refine ⟨rfl, fun _ _ => by simp [Releases, saveMessage], fun k hk => ?_, fun _ _ => Iff.rfl⟩
    rw [saving, if_pos ⟨hstage, htwo⟩, List.mem_singleton] at hk
    exact Table.getElem?_insert_of_ne hk
  | @add m' _ now hstage _ =>
    refine ⟨rfl, fun _ _ => by simp [Releases], fun _ _ => rfl, fun d hd => ?_⟩
    rw [adding, if_pos hstage, List.mem_singleton] at hd
    have hmem := TimeList.Raw.mem_list_add s.timeout.property (s.message m').requestId now d
    refine hmem.trans ⟨fun h => ?_, fun h => Or.inl ⟨h, hd⟩⟩
    rcases h with hold | hnew
    · exact hold.1
    · exact absurd (congrArg TimeList.ListData.key hnew) hd
  | delRequest =>
    exact ⟨rfl, fun _ _ => by simp [Releases, or_comm], fun _ _ => rfl, fun _ _ => Iff.rfl⟩
  | updateInMainLoop =>
    exact ⟨rfl, fun _ _ => by simp [Releases, or_comm], fun _ _ => rfl, fun _ _ => Iff.rfl⟩
  | _ => exact ⟨rfl, fun _ _ => by simp [Releases], fun _ _ => rfl, fun _ _ => Iff.rfl⟩

theorem mem_affected {ep : EndPoint} : m ∈ s.affected ep ↔
    (∃ k : UInt32, s.reqMessages[k]? = some m) ∧ (s.message m).ep = some ep := by
  rw [affected, List.mem_filter, Table.mem_values, decide_eq_true_eq]

end ServiceProxy

/-! ## The call -/

namespace Closing

open ServiceProxy (Action Lasts Foreign FreshId closeStatus inv_of_runs new parseZero)

variable {parse : List UInt8 → Option RpcResponse} {netTid : Nat} {s : ServiceProxy}
variable {ep : EndPoint} {closeType : CloseType} {c c' : Closing} {a : Action}

/-- What holds all through a call; `gone` are the requests that it is through with. -/
structure Kept (s : ServiceProxy) (ep : EndPoint) (closeType : CloseType) (c : Closing)
    (gone : List Ref) : Prop where
  parts : gone ++ c.proxy.net.held = s.affected ep
  done : c.done = (gone ++ c.proxy.net.closed.toList).map (fun m => (m, closeStatus closeType))
  net : c.proxy.net = .idle ∨ (∃ rest, c.proxy.net = .closing closeType rest) ∨
    ∃ m rest, c.proxy.net = .closeDel closeType m rest
  lasts : ∀ m ∈ s.affected ep, Lasts s c.proxy m
  others : ∀ m, (s.stage m).pastSave → m ∉ s.affected ep → (c.proxy.stage m).pastSave ∧
    c.proxy.message m = s.message m ∧ c.proxy.finished m = s.finished m
  pending : ∀ k : UInt32, k ∉ c.saves →
    c.proxy.reqMessages[k]? = (s.onClose ep closeType).reqMessages[k]?
  timeouts : ∀ d : TimeList.ListData UInt32 UInt64, d.key ∉ c.adds →
    (d ∈ c.proxy.timeout.val.list ↔ d ∈ s.timeout.val.list ∧
      ∀ m ∈ gone, (s.message m).requestId ≠ d.key)

theorem kept_start (h : s.Keyed) (ep : EndPoint) (closeType : CloseType) :
    Kept s ep closeType (start s ep closeType) [] where
  parts := rfl
  done := rfl
  net := .inr (.inl ⟨_, rfl⟩)
  lasts := by
    intro m hm
    obtain ⟨⟨k, hk⟩, -⟩ := ServiceProxy.mem_affected.mp hm
    exact ⟨(h k m hk).2, _, _, _, rfl⟩
  others m hm _ := ⟨hm, rfl, rfl⟩
  pending _ _ := rfl
  timeouts d _ := by
    constructor
    · intro hd
      exact ⟨hd, fun m hm => by cases hm⟩
    · intro hd
      exact hd.1

theorem Kept.mem_affected {gone : List Ref} (h : Kept s ep closeType c gone) {m : Ref}
    (hm : m ∈ c.proxy.net.held) : m ∈ s.affected ep := by
  rw [← h.parts]
  exact List.mem_append_right _ hm

theorem step_eq_some (h : c.step parse netTid a = some c') : c.proxy.net ≠ .idle ∧
    c.proxy.step parse netTid a = some c'.proxy ∧
    c'.done = c.done ++ (c.proxy.finishing a).map (fun m => (m, (c'.proxy.message m).status)) ∧
    c'.touched = c.touched ++ (c.proxy.usedBy a).filter (fun m => m ∈ c.proxy.released) ∧
    c'.saves = c.proxy.saving a ++ c.saves ∧
    c'.adds = c.proxy.adding a ++ c.adds.filter (fun k => k ∉ c.proxy.deleting a) := by
  simp only [step] at h
  split at h
  · cases h
  · rename_i hbusy
    obtain ⟨t, hstep, rfl⟩ := Option.map_eq_some_iff.mp h
    exact ⟨hbusy, hstep, rfl, rfl, rfl, rfl⟩

/-- Another thread's step in a call. -/
theorem foreign_of_step (ha : a ≠ .net) (h : c.step parse netTid a = some c') :
    Foreign c.proxy c'.proxy a ∧ c'.done = c.done ∧ c'.touched = c.touched ∧
    c'.adds = c.proxy.adding a ++ c.adds := by
  obtain ⟨hbusy, hstep, hdone, htouched, -, hadds⟩ := step_eq_some h
  have hnone : c.proxy.finishing a = [] ∧ c.proxy.usedBy a = [] ∧ c.proxy.deleting a = [] := by
    cases a with
    | net => exact absurd rfl ha
    | _ => exact ⟨rfl, rfl, rfl⟩
  rw [hnone.1, List.map_nil, List.append_nil] at hdone
  rw [hnone.2.1, List.filter_nil, List.append_nil] at htouched
  refine ⟨(ServiceProxy.step_cases hstep).foreign ha hbusy, hdone, htouched, ?_⟩
  rw [hadds, hnone.2.2]
  simp

theorem Kept.lasts_step {gone : List Ref} (h : Kept s ep closeType c gone)
    (hstep : c.step parse netTid a = some c') : ∀ m ∈ s.affected ep, Lasts s c'.proxy m := by
  intro m hm
  obtain ⟨-, hstep, -⟩ := step_eq_some hstep
  have hlasts := h.lasts m hm
  exact hlasts.trans ((ServiceProxy.step_cases hstep).lasts hlasts.saved)

/-- A step of another thread. -/
theorem Kept.foreign {gone : List Ref} (h : Kept s ep closeType c gone) (ha : a ≠ .net)
    (hstep : c.step parse netTid a = some c') : Kept s ep closeType c' gone := by
  obtain ⟨hforeign, hdone, -, hadds⟩ := foreign_of_step ha hstep
  obtain ⟨-, hproxy, -, -, hsaves, -⟩ := step_eq_some hstep
  refine ⟨?_, ?_, ?_, h.lasts_step hstep, fun m hm hother => ?_, fun k hk => ?_, fun d hd => ?_⟩
  · rw [hforeign.net]
    exact h.parts
  · rw [hforeign.net, hdone]
    exact h.done
  · rw [hforeign.net]
    exact h.net
  · obtain ⟨hsaved, hmessage, hfinished⟩ := h.others m hm hother
    obtain ⟨hsaved', hmessage', hfinished'⟩ := (ServiceProxy.step_cases hproxy).stays ha hsaved
    exact ⟨hsaved', hmessage'.trans hmessage, hfinished'.trans hfinished⟩
  · rw [hsaves, List.mem_append, not_or] at hk
    rw [hforeign.pending k hk.1]
    exact h.pending k hk.2
  · rw [hadds, List.mem_append, not_or] at hd
    rw [hforeign.timeouts d hd.1]
    exact h.timeouts d hd.2

/-- What a step of the loop does, case by case. -/
inductive Loop (netTid : Nat) (closeType : CloseType) (c : Closing) : Closing → Prop
  | closeEnd :
      c.proxy.net = .closing closeType [] →
      Loop netTid closeType c { c with proxy := { c.proxy with net := .idle } }
  | closeFinish {m : Ref} {rest : List Ref} :
      c.proxy.net = .closing closeType (m :: rest) → Loop netTid closeType c { c with
        proxy := { c.proxy.finishWith netTid m
          { c.proxy.message m with status := closeStatus closeType } with
            net := .closeDel closeType m rest }
        done := c.done ++ [(m, closeStatus closeType)]
        touched := c.touched ++ [m].filter (fun m => m ∈ c.proxy.released) }
  | closeDel {m : Ref} {rest : List Ref} :
      c.proxy.net = .closeDel closeType m rest → Loop netTid closeType c { c with
        proxy := { c.proxy with
          timeout := c.proxy.timeout.del (c.proxy.message m).requestId
          net := .closing closeType rest }
        touched := c.touched ++ [m].filter (fun m => m ∈ c.proxy.released)
        adds := c.adds.filter (fun k => k ≠ (c.proxy.message m).requestId) }

theorem Kept.loop_cases {gone : List Ref} (h : Kept s ep closeType c gone)
    (hstep : c.step parse netTid .net = some c') : Loop netTid closeType c c' := by
  obtain ⟨hbusy, hproxy, hdone, htouched, hsaves, hadds⟩ := step_eq_some hstep
  obtain ⟨proxy, done, touched, saves, adds⟩ := c'
  rw [ServiceProxy.step, ServiceProxy.netStep] at hproxy
  rw [ServiceProxy.finishing] at hdone
  rw [ServiceProxy.usedBy] at htouched
  rw [ServiceProxy.deleting] at hadds
  simp only [ServiceProxy.saving, ServiceProxy.adding, List.nil_append] at hsaves hadds
  rcases h.net with hidle | ⟨rest, hclosing⟩ | ⟨m, rest, hdel⟩
  · exact absurd hidle hbusy
  · rw [hclosing] at hproxy hdone htouched hadds
    cases rest with
    | nil =>
      have hc : Loop netTid closeType c _ := .closeEnd hclosing
      cases hproxy
      simp only [List.map_nil, List.filter_nil, List.append_nil] at hdone htouched
      simp only [List.not_mem_nil, not_false_eq_true, decide_true, List.filter_true] at hadds
      subst hdone htouched hsaves hadds
      exact hc
    | cons m rest =>
      have hc : Loop netTid closeType c _ := .closeFinish hclosing
      obtain ⟨back, hback⟩ := ServiceProxy.finishWith_message c.proxy netTid m m
        { c.proxy.message m with status := closeStatus closeType }
      cases hproxy
      simp only [List.map_cons, List.map_nil, hback, update_self] at hdone
      simp only [List.not_mem_nil, not_false_eq_true, decide_true, List.filter_true] at hadds
      subst hdone htouched hsaves hadds
      exact hc
  · rw [hdel] at hproxy hdone htouched hadds
    have hc : Loop netTid closeType c _ := .closeDel hdel
    cases hproxy
    simp only [List.map_nil, List.append_nil] at hdone
    simp only [List.mem_singleton] at hadds
    subst hdone htouched hsaves hadds
    exact hc

/-- A step of the loop. -/
theorem Kept.loop {gone : List Ref} (h : Kept s ep closeType c gone)
    (hstep : c.step parse netTid .net = some c') : ∃ gone', Kept s ep closeType c' gone' := by
  have hlasts := h.lasts_step hstep
  have hparts := h.parts
  have hdone := h.done
  cases h.loop_cases hstep with
  | closeEnd hnet =>
    rw [hnet] at hparts hdone
    exact ⟨gone, { h with parts := hparts, done := hdone, net := .inl rfl, lasts := hlasts }⟩
  | @closeFinish m rest hnet =>
    rw [hnet] at hparts hdone
    have hm : m ∈ s.affected ep := by
      refine h.mem_affected ?_
      rw [hnet]
      exact List.mem_cons_self
    refine ⟨gone, hparts, ?_, .inr (.inr ⟨m, rest, rfl⟩), hlasts, fun m' hm' hother => ?_, ?_, ?_⟩
    · rw [hdone]
      simp [NetState.closed]
    · have hne : m' ≠ m := fun hmm => hother (hmm ▸ hm)
      simp only [ServiceProxy.finishWith, ServiceProxy.finishInvoke_eq, update_of_ne hne]
      exact h.others m' hm' hother
    · simp only [ServiceProxy.finishWith, ServiceProxy.finishInvoke_reqMessages]
      exact h.pending
    · simp only [ServiceProxy.finishWith, ServiceProxy.finishInvoke_timeout]
      exact h.timeouts
  | @closeDel m rest hnet =>
    rw [hnet] at hparts hdone
    have hm : m ∈ s.affected ep := by
      refine h.mem_affected ?_
      rw [hnet]
      exact List.mem_cons_self
    have hid := (h.lasts m hm).id
    refine ⟨gone ++ [m], { h with parts := ?_, done := ?_, net := .inr (.inl ⟨rest, rfl⟩),
                                  lasts := hlasts, timeouts := fun d hd => ?_ }⟩
    · rw [← hparts, List.append_assoc]
      rfl
    · rw [hdone]
      simp [NetState.closed]
    · refine (TimeList.Raw.mem_list_del c.proxy.timeout.property _ d).trans ?_
      rw [hid, List.forall_mem_append, List.forall_mem_singleton]
      by_cases hkey : d.key = (s.message m).requestId
      · -- the id is out of the list, whoever has put it there
        simp [hkey]
      · have hold : d.key ∉ c.adds := by
          intro hin
          refine hd (List.mem_filter.mpr ⟨hin, ?_⟩)
          simpa [hid] using hkey
        rw [h.timeouts d hold, and_assoc, ne_comm]

/-- Every step. -/
theorem Kept.step (h : ∃ gone, Kept s ep closeType c gone)
    (hstep : c.step parse netTid a = some c') : ∃ gone, Kept s ep closeType c' gone := by
  obtain ⟨gone, h⟩ := h
  by_cases ha : a = .net
  · subst ha
    exact h.loop hstep
  · exact ⟨gone, h.foreign ha hstep⟩

/-! ## The end of the call -/

/-- The steps that the call still takes. -/
def left (c : Closing) : Nat :=
  match c.proxy.net with
  | .closing _ rest => 2 * rest.length + 1
  | .closeDel _ _ rest => 2 * rest.length + 2
  | _ => 0

/-- A step of the call, not of another thread. -/
def ownStep : Action → Bool
  | .net => true
  | _ => false

theorem Kept.left_eq_zero {gone : List Ref} (h : Kept s ep closeType c gone) :
    c.left = 0 ↔ c.proxy.net = .idle := by
  rcases h.net with hidle | ⟨rest, hclosing⟩ | ⟨m, rest, hdel⟩
  · simp [left, hidle]
  · simp [left, hclosing]
  · simp [left, hdel]

theorem Kept.left_step (h : ∃ gone, Kept s ep closeType c gone)
    (hstep : c.step parse netTid a = some c') :
    c'.left + (if ownStep a then 1 else 0) = c.left := by
  obtain ⟨gone, h⟩ := h
  by_cases ha : a = .net
  · subst ha
    cases h.loop_cases hstep with
    | closeEnd hnet => simp [left, hnet, ownStep]
    | closeFinish hnet =>
      simp [left, hnet, ownStep]
      omega
    | closeDel hnet => simp [left, hnet, ownStep]
  · obtain ⟨hforeign, -⟩ := foreign_of_step ha hstep
    have hnone : ownStep a = false := by
      cases a with
      | net => exact absurd rfl ha
      | _ => rfl
    rw [hnone, left, hforeign.net]
    rfl

theorem Kept.step_isSome {gone : List Ref} (h : Kept s ep closeType c gone)
    (hbusy : c.proxy.net ≠ .idle) : (c.step parse netTid .net).isSome := by
  rw [Closing.step, if_neg hbusy, Option.isSome_map, ServiceProxy.step, ServiceProxy.netStep]
  rcases h.net with hidle | ⟨rest, hclosing⟩ | ⟨m, rest, hdel⟩
  · exact absurd hidle hbusy
  · rw [hclosing]
    cases rest with
    | nil => rfl
    | cons m rest => rfl
  · rw [hdel]
    rfl

/-! ## The messages that the call uses -/

/-- The call has used no released message, and its messages are not released by now, nor by
their callbacks. -/
structure Clean (netTid : Nat) (c : Closing) : Prop where
  untouched : c.touched = []
  held : ∀ m ∈ c.proxy.net.held, m ∉ c.proxy.released
  callbacks : ∀ m ∈ c.proxy.net.inHand, ¬ c.proxy.CalledBack netTid m

theorem spares_net (c : Closing) : c.Spares .net := by
  intro m _ hreleases
  exact hreleases

theorem Kept.calledBack_step {gone : List Ref} (h : Kept s ep closeType c gone)
    (hstep : c.step parse netTid a = some c') {m : Ref} (hm : m ∈ c.proxy.net.held) :
    c'.proxy.CalledBack netTid m ↔ c.proxy.CalledBack netTid m := by
  obtain ⟨-, hproxy, -⟩ := step_eq_some hstep
  have hsaved := (h.lasts m (h.mem_affected hm)).saved
  have hlasts := (ServiceProxy.step_cases hproxy).lasts hsaved
  rw [ServiceProxy.CalledBack, ServiceProxy.CalledBack, hlasts.type, hlasts.thread]

theorem Kept.clean_foreign {gone : List Ref} (h : Kept s ep closeType c gone) (ha : a ≠ .net)
    (hstep : c.step parse netTid a = some c') :
    c'.Clean netTid ↔ c.Clean netTid ∧ c.Spares a := by
  obtain ⟨hforeign, -, htouched, -⟩ := foreign_of_step ha hstep
  have hreleased : ∀ m ∈ c.proxy.net.held,
      (m ∈ c'.proxy.released ↔ m ∈ c.proxy.released ∨ c.proxy.Releases m a) := by
    intro m hm
    exact hforeign.released m (h.lasts m (h.mem_affected hm)).saved
  have hin : ∀ m ∈ c.proxy.net.inHand, m ∈ c.proxy.net.held := by
    intro m hm
    exact List.mem_append_right _ hm
  constructor
  · intro hclean
    have hnot : ∀ m ∈ c.proxy.net.held, m ∉ c.proxy.released ∧ ¬ c.proxy.Releases m a := by
      intro m hm
      rw [← not_or, ← hreleased m hm]
      exact hclean.held m (by rwa [hforeign.net])
    refine ⟨⟨htouched ▸ hclean.untouched, fun m hm => (hnot m hm).1, fun m hm => ?_⟩,
      fun m hm => (hnot m hm).2⟩
    rw [← h.calledBack_step hstep (hin m hm)]
    exact hclean.callbacks m (by rwa [hforeign.net])
  · intro hboth
    obtain ⟨hclean, hspares⟩ := hboth
    refine ⟨htouched.trans hclean.untouched, fun m hm => ?_, fun m hm => ?_⟩
    · rw [hforeign.net] at hm
      rw [hreleased m hm, not_or]
      exact ⟨hclean.held m hm, hspares m hm⟩
    · rw [hforeign.net] at hm
      rw [h.calledBack_step hstep (hin m hm)]
      exact hclean.callbacks m hm

theorem clean_iff (held inHand : List Ref) (hheld : c.proxy.net.held = held)
    (hin : c.proxy.net.inHand = inHand) : c.Clean netTid ↔ c.touched = [] ∧
      (∀ m ∈ held, m ∉ c.proxy.released) ∧ ∀ m ∈ inHand, ¬ c.proxy.CalledBack netTid m := by
  subst hheld hin
  constructor
  · intro hclean
    exact ⟨hclean.untouched, hclean.held, hclean.callbacks⟩
  · intro hclean
    exact ⟨hclean.1, hclean.2.1, hclean.2.2⟩

theorem Kept.clean_loop {gone : List Ref} (h : Kept s ep closeType c gone)
    (hstep : c.step parse netTid .net = some c') : c'.Clean netTid ↔ c.Clean netTid := by
  have hcalled : ∀ m ∈ c.proxy.net.held,
      (c'.proxy.CalledBack netTid m ↔ c.proxy.CalledBack netTid m) := by
    intro m hm
    exact h.calledBack_step hstep hm
  cases h.loop_cases hstep with
  | closeEnd hnet =>
    have hheld : c.proxy.net.held = [] ∧ c.proxy.net.inHand = [] := by
      rw [hnet]
      exact ⟨rfl, rfl⟩
    rw [clean_iff _ _ hheld.1 hheld.2, clean_iff [] [] rfl rfl]
    simp
  | @closeFinish m rest hnet =>
    have hheld : c.proxy.net.held = m :: rest ∧ c.proxy.net.inHand = m :: rest := by
      rw [hnet]
      exact ⟨rfl, rfl⟩
    rw [hheld.1, List.forall_mem_cons] at hcalled
    rw [clean_iff _ _ hheld.1 hheld.2, clean_iff (m :: rest) rest rfl rfl]
    simp only [ServiceProxy.finishWith, ServiceProxy.mem_released_finishInvoke, update_self]
    constructor
    · intro hafter
      obtain ⟨htouched, hnot, hback⟩ := hafter
      refine ⟨(List.append_eq_nil_iff.mp htouched).1, fun x hx hrel => hnot x hx (.inl hrel), ?_⟩
      rw [List.forall_mem_cons]
      refine ⟨fun hm => ?_, fun x hx => ?_⟩
      · exact hnot m List.mem_cons_self (.inr ⟨rfl, hm.1, hm.2.symm⟩)
      · rw [← hcalled.2 x hx]
        exact hback x hx
    · intro hbefore
      obtain ⟨htouched, hnot, hback⟩ := hbefore
      rw [List.forall_mem_cons] at hback
      refine ⟨?_, fun x hx hreleased => ?_, fun x hx => ?_⟩
      · rw [htouched]
        simpa using hnot m List.mem_cons_self
      · rcases hreleased with hold | ⟨-, hm⟩
        · exact hnot x hx hold
        · exact hback.1 ⟨hm.1, hm.2.symm⟩
      · refine (hcalled.2 x hx).not.mpr ?_
        exact hback.2 x hx
  | @closeDel m rest hnet =>
    have hheld : c.proxy.net.held = m :: rest ∧ c.proxy.net.inHand = rest := by
      rw [hnet]
      exact ⟨rfl, rfl⟩
    rw [clean_iff _ _ hheld.1 hheld.2, clean_iff rest rest rfl rfl, List.append_eq_nil_iff,
      List.forall_mem_cons, and_assoc]
    refine and_congr_right fun _ => ?_
    rw [and_assoc]
    refine and_congr ?_ Iff.rfl
    simp

/-- A step keeps the call clean if it deletes none of its messages. -/
theorem Kept.clean_step (h : ∃ gone, Kept s ep closeType c gone)
    (hstep : c.step parse netTid a = some c') :
    c'.Clean netTid ↔ c.Clean netTid ∧ c.Spares a := by
  obtain ⟨gone, h⟩ := h
  by_cases ha : a = .net
  · subst ha
    rw [and_iff_left (spares_net c)]
    exact h.clean_loop hstep
  · exact h.clean_foreign ha hstep

/-- At its end the call has settled its requests, and what is open is whether it has used a
released message. -/
theorem Kept.settles_iff {gone : List Ref} (h : Kept s ep closeType c gone) (hkeyed : s.Keyed)
    (hidle : c.proxy.net = .idle) : Settles s ep closeType c ↔ c.touched = [] := by
  have hgone : gone = s.affected ep := by
    have hparts := h.parts
    rw [hidle] at hparts
    simpa [NetState.held, NetState.closed, NetState.inHand] using hparts
  have hdone : c.done = (s.affected ep).map (fun m => (m, closeStatus closeType)) := by
    rw [h.done, hidle, hgone]
    simp [NetState.closed]
  constructor
  · intro hsettles
    exact hsettles.untouched
  · intro huntouched
    refine ⟨hdone, ?_, fun k m hk hep => ?_, fun k hk => ?_, fun d hd => ?_, huntouched⟩
    · rw [hdone, List.map_map]
      have hfirst : (Prod.fst ∘ fun m : Ref => (m, closeStatus closeType)) = id := rfl
      rw [hfirst, List.map_id]
      refine List.Nodup.filter _ (Table.nodup_values fun k k' m hk hk' => ?_)
      exact (hkeyed k m hk).1.symm.trans (hkeyed k' m hk').1
    · have hother : m ∉ s.affected ep := by
        intro hm
        exact hep (ServiceProxy.mem_affected.mp hm).2
      exact (h.others m (hkeyed k m hk).2 hother).2
    · rw [h.pending k hk, ServiceProxy.onClose, Std.TreeMap.getElem?_filter']
      simp
    · rw [h.timeouts d hd, hgone]
      refine and_congr_right fun _ => ?_
      constructor
      · intro hall m hk hep
        exact hall m (ServiceProxy.mem_affected.mpr ⟨⟨d.key, hk⟩, hep⟩) (hkeyed d.key m hk).1
      · intro hall m hm hid
        obtain ⟨⟨k, hk⟩, hep⟩ := ServiceProxy.mem_affected.mp hm
        rw [(hkeyed k m hk).1] at hid
        exact hall m (hid ▸ hk) hep

/-- **A call of `onClose`**, between any steps of other threads.  It ends with its own step
`2n + 1`, if `n` requests of the table are its endpoint's, and none of its steps is ever stuck.
At its end it has finished each of the `n` once with the status of the close, has left the
others as they were and has taken the `n` ids out of `m_timeout`.  Whether it has used a
released message is the rest of the statement: it has not if and only if its requests were not
deleted before it, none of them has its callback on the net thread, and no other thread has
deleted one before the loop was through with it. -/
theorem onClose_settles_iff (parse : List UInt8 → Option RpcResponse) (netTid : Nat)
    (s : ServiceProxy) (hkeyed : s.Keyed) (ep : EndPoint) (closeType : CloseType)
    (as : List Action) (c : Closing)
    (h : execute (step parse netTid) (fun _ _ => true) (start s ep closeType) as = some c) :
    (c.proxy.net = .idle ↔ as.countP ownStep = 2 * (s.affected ep).length + 1) ∧
    (c.proxy.net ≠ .idle → (c.step parse netTid .net).isSome) ∧
    (c.proxy.net = .idle → (Settles s ep closeType c ↔
      (∀ m ∈ s.affected ep, m ∉ s.released ∧ ¬ s.CalledBack netTid m) ∧
      (execute (step parse netTid) (fun c a => decide (c.Spares a))
        (start s ep closeType) as).isSome)) := by
  have hstart : ∃ gone, Kept s ep closeType (start s ep closeType) gone :=
    ⟨[], kept_start hkeyed ep closeType⟩
  have hkeep : ∀ (c : Closing) (a : Action) (c' : Closing),
      (∃ gone, Kept s ep closeType c gone) → c.step parse netTid a = some c' →
        ∃ gone, Kept s ep closeType c' gone := by
    intro c a c' hkept hstep
    exact Kept.step hkept hstep
  obtain ⟨gone, hkept⟩ := invariant_of_execute hkeep hstart h
  refine ⟨?_, hkept.step_isSome, fun hidle => ?_⟩
  · have hcost : c.left + as.countP ownStep = (start s ep closeType).left :=
      execute_countP hkeep (fun c a c' hkept hstep => Kept.left_step hkept hstep) hstart h
    have hfirst : (start s ep closeType).left = 2 * (s.affected ep).length + 1 := rfl
    rw [← hkept.left_eq_zero]
    omega
  · have hclean := execute_guard_iff (P := Clean netTid) (G := Spares) hkeep
      (fun c a c' hkept hstep => Kept.clean_step hkept hstep) hstart h
    have hend : c.Clean netTid ↔ c.touched = [] := by
      constructor
      · intro hclean
        exact hclean.untouched
      · intro huntouched
        refine ⟨huntouched, ?_, ?_⟩ <;>
          simp [hidle, NetState.held, NetState.closed, NetState.inHand]
    have hbegin : (start s ep closeType).Clean netTid ↔
        ∀ m ∈ s.affected ep, m ∉ s.released ∧ ¬ s.CalledBack netTid m := by
      constructor
      · intro hclean m hm
        exact ⟨hclean.held m hm, hclean.callbacks m hm⟩
      · intro hall
        exact ⟨rfl, fun m hm => (hall m hm).1, fun m hm => (hall m hm).2⟩
    rw [hkept.settles_iff hkeyed hidle, ← hend, hclean, hbegin]

/-- A call after a run of the other threads, both executed. -/
theorem exists_call (before as : List Action) (ep : EndPoint) (closeType : CloseType)
    (p : ServiceProxy → Closing → Bool)
    (h : (execute (ServiceProxy.step parseZero 1) (fun s a => decide (s.FreshId a)) (new [7])
      before).any (fun s => (execute (step parseZero 1) (fun _ _ => true)
        (start s ep closeType) as).any (p s)) = true) :
    ∃ s c, Runs (ServiceProxy.step parseZero 1) FreshId (new [7]) s ∧
      execute (step parseZero 1) (fun _ _ => true) (start s ep closeType) as = some c ∧
      p s c = true := by
  obtain ⟨s, hrun, hs⟩ := ServiceProxy.exists_run (G := FreshId) parseZero 1 (new [7]) before _ h
  obtain ⟨c, hcall, hc⟩ := (Option.any_eq_true _ _).mp hs
  exact ⟨s, c, hrun, hcall, hc⟩

/-- A sync and an async request on the endpoint 7 and an async one on the endpoint 8.  The
caller of the first deletes it and the main loop the second, when the call is through with
them. -/
theorem onClose_settles_iff_of_two : ∃ (s : ServiceProxy) (c : Closing),
    Runs (ServiceProxy.step parseZero 1) FreshId (new [7]) s ∧
    execute (step parseZero 1) (fun _ _ => true) (start s 7 .timeout)
      [.net, .wakeup 0, .net, .delRequest 0, .net, .net, .updateInMainLoop, .net] = some c ∧
    s.affected 7 = [0, 1] ∧ c.proxy.net = .idle ∧ Settles s 7 .timeout c := by
  obtain ⟨s, c, hrun, hcall, hc⟩ := exists_call
    [.newRequest 0 .sync false false 2, .newRequest 1 .async true false 3,
      .newRequest 2 .async true false 3, .doInvoke 0 (-1) 0, .doInvoke 0 (-1) 0,
      .doInvoke 0 (-1) 0, .doInvoke 0 (-1) 0, .doInvoke 0 (-1) 0, .doInvoke 1 (-1) 0,
      .doInvoke 1 (-1) 0, .doInvoke 1 (-1) 0, .doInvoke 1 (-1) 0, .doInvoke 1 (-1) 0,
      .endpoints [8], .doInvoke 2 (-1) 0, .doInvoke 2 (-1) 0, .doInvoke 2 (-1) 0,
      .doInvoke 2 (-1) 0]
    [.net, .wakeup 0, .net, .delRequest 0, .net, .net, .updateInMainLoop, .net] 7 .timeout
    (fun s c => s.affected 7 = [0, 1] ∧ c.proxy.net = .idle ∧
      (∀ m ∈ s.affected 7, m ∉ s.released ∧ ¬ s.CalledBack 1 m) ∧
      (execute (step parseZero 1) (fun c a => decide (c.Spares a)) (start s 7 .timeout)
        [.net, .wakeup 0, .net, .delRequest 0, .net, .net, .updateInMainLoop, .net]).isSome)
    (by decide)
  obtain ⟨haffected, hidle, hready, hspares⟩ := of_decide_eq_true hc
  obtain ⟨-, -, hsettles⟩ :=
    onClose_settles_iff parseZero 1 s (inv_of_runs hrun).keyed 7 .timeout _ c hcall
  exact ⟨s, c, hrun, hcall, haffected, hidle, (hsettles hidle).mpr ⟨hready, hspares⟩⟩

/-- An async request of the net thread is deleted by its callback, and a sync request by its
caller, before the loop reads the request's id. -/
theorem onClose_reads_released :
    (∃ (s : ServiceProxy) (c : Closing),
      Runs (ServiceProxy.step parseZero 1) FreshId (new [7]) s ∧ s.net = .idle ∧
      execute (step parseZero 1) (fun _ _ => true) (start s 7 .connectFail)
        [.net, .net, .net] = some c ∧
      c.proxy.net = .idle ∧ c.touched = [0] ∧ ¬ Settles s 7 .connectFail c) ∧
    ∃ (s : ServiceProxy) (c : Closing),
      Runs (ServiceProxy.step parseZero 1) FreshId (new [7]) s ∧ s.net = .idle ∧
      execute (step parseZero 1) (fun _ _ => true) (start s 7 .connectFail)
        [.net, .wakeup 0, .delRequest 0, .net, .net] = some c ∧
      c.proxy.net = .idle ∧ c.touched = [0] ∧ ¬ Settles s 7 .connectFail c := by
  have hnot : ∀ {s : ServiceProxy} {c : Closing}, c.touched = [0] →
      ¬ Settles s 7 .connectFail c := by
    intro s c htouched hsettles
    rw [hsettles.untouched] at htouched
    cases htouched
  constructor
  · obtain ⟨s, c, hrun, hcall, hc⟩ := exists_call
      [.newRequest 0 .async true false 1, .doInvoke 0 (-1) 0, .doInvoke 0 (-1) 0,
        .doInvoke 0 (-1) 0, .doInvoke 0 (-1) 0, .doInvoke 0 (-1) 0]
      [.net, .net, .net] 7 .connectFail
      (fun s c => s.net = .idle ∧ c.proxy.net = .idle ∧ c.touched = [0]) (by decide)
    obtain ⟨hnet, hidle, htouched⟩ := of_decide_eq_true hc
    exact ⟨s, c, hrun, hnet, hcall, hidle, htouched, hnot htouched⟩
  · obtain ⟨s, c, hrun, hcall, hc⟩ := exists_call
      [.newRequest 0 .sync false false 2, .doInvoke 0 (-1) 0, .doInvoke 0 (-1) 0,
        .doInvoke 0 (-1) 0, .doInvoke 0 (-1) 0, .doInvoke 0 (-1) 0]
      [.net, .wakeup 0, .delRequest 0, .net, .net] 7 .connectFail
      (fun s c => s.net = .idle ∧ c.proxy.net = .idle ∧ c.touched = [0]) (by decide)
    obtain ⟨hnet, hidle, htouched⟩ := of_decide_eq_true hc
    exact ⟨s, c, hrun, hnet, hcall, hidle, htouched, hnot htouched⟩

end Closing

end StormNet.Framework
