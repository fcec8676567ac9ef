/-
  Net/NotifierSlot.lean --- who can close the slot of the notifier.

  `send` and `close` take any id, and `getSocket` reduces it to a slot.  A Send command
  leaves slot 0 alone, a Close command for an id that is a multiple of `m_maxSocket` does
  not; nothing else in the loop closes it.
-/
import StormNet.Net.Notifier

set_option autoImplicit false

namespace StormNet.Net

open StormNet.Foundation
open StormNet.Util (TimeList)

/-- The slot whose bytes are being handled. -/
def Pc.handles : Pc → Option Nat
  | .onData i _ => some i
  | _ => none

namespace SocketLoop

variable {l l' : SocketLoop} {a : Action} {env : Env} {efd : Nat}

/-- The loop's thread is about to run a Close command for slot 0. -/
def closesNotifier (l : SocketLoop) : Bool :=
  match l.pc with
  | .running ⟨.close _, id, _⟩ => l.getSocket id = some 0
  | _ => false

/-- A call `close(id)` for slot 0. -/
def Action.asksToClose (l : SocketLoop) : Action → Bool
  | .close id _ _ => l.getSocket id = some 0
  | _ => false

/-- The command is to close slot 0. -/
def ForNotifier (l : SocketLoop) (cmd : SocketCmd) : Prop :=
  (∃ closeType, cmd.type = .close closeType) ∧ l.getSocket cmd.id = some 0

/-- Neither the sweep nor a handler is about to close slot 0. -/
structure Shields (l : SocketLoop) : Prop where
  attempts : ∀ id, l.connTimeout.Live id → l.hash id ≠ 0
  handles : l.pc.handles ≠ some 0

theorem shields_new (maxSocket efd : Nat) : (new maxSocket efd).Shields where
  attempts := fun id hid => absurd hid (TimeList.live_new 3 id)
  handles := by simp [new, Pc.handles]

/-- The loop's thread closes slot 0 for a Close command only. -/
theorem Shields.closes_ne (h : l.Shields) (hkeeps : l.Keeps efd) (hstep : NetStep l env l')
    (hguard : l.closesNotifier = false) : l'.pc.closes ≠ some 0 := by
  have hnone : (none : Option Nat) ≠ some 0 := by simp
  have hsome : ∀ {i : Nat}, i ≠ 0 → some i ≠ some 0 := fun hi heq => hi (Option.some.inj heq)
  have hconnected : ∀ {i : Nat}, (l.slot i).status = .connected → i ≠ 0 := by
    intro i hi
    apply hkeeps.ne_zero_of_status
    rw [hi]
    exact SocketStatus.noConfusion
  cases hstep with
  | refused e rest applied hat => exact hsome (hat.ne_zero hkeeps)
  | readClosed e rest applied k r hat => exact hsome (hat.ne_zero hkeeps)
  | writeClosed i rest applied backlog hwrites hclose =>
    exact hsome (hconnected (status_of_needClose_handleWrite hclose))
  | sendClosed id target buffer i applied backlog hpc hi hstatus =>
    exact hsome (hconnected hstatus)
  | closed id target closeType i applied hpc hi =>
    intro hzero
    rw [closesNotifier, hpc] at hguard
    apply of_decide_eq_false hguard
    rw [hi]
    exact hzero
  | sweepClosed id hpc hdue => exact hsome (h.attempts id (TimeList.live_of_due hdue))
  | dataClosed i k hpc =>
    intro hzero
    apply h.handles
    rw [hpc]
    exact hzero
  | acceptAgain => exact hkeeps.closes
  | _ => exact hnone

/-- An attempt that is in progress has another slot. -/
theorem Shields.net (h : l.Shields) (hkeeps : l.Keeps efd) (hstep : NetStep l env l') :
    l'.Shields := by
  refine ⟨?_, ?_⟩
  · intro id hid
    rw [hash, hstep.maxSocket_eq]
    cases hstep with
    | connected => exact h.attempts id ((TimeList.live_del _ _ _).mp hid).2
    | refused =>
      rw [closeFd_connTimeout] at hid
      exact h.attempts id ((TimeList.live_del _ _ _).mp hid).2
    | erased => exact h.attempts id (TimeList.live_of_eraseFront hid)
    | connectInProgress cid target i fd hpc hi =>
      rcases (TimeList.live_add _ _ _ _).mp hid with rfl | hold
      · have hslot : l.hash cid.toNat = i := by
          unfold getSocket at hi
          split at hi
          · cases hi
          · exact Option.some.inj hi
        rw [← hash, hslot]
        exact hkeeps.connect_ne hpc hi
      · exact h.attempts id hold
    | readClosed | writeClosed | sendClosed | closed | sweepClosed | dataClosed =>
      rw [closeFd_connTimeout] at hid
      exact h.attempts id hid
    | _ => exact h.attempts id hid
  · have hnone : (none : Option Nat) ≠ some 0 := by simp
    cases hstep with
    | read e rest applied k r hat =>
      intro hzero
      exact hat.ne_zero hkeeps (Option.some.inj hzero)
    | acceptAgain => exact h.handles
    | _ => exact hnone

/-- The callers neither try to connect nor handle anything. -/
theorem Shields.step (h : l.Shields) (hkeeps : l.Keeps efd) (hstep : LoopStep l a l') :
    l'.Shields := by
  cases hstep with
  | net env l' hnet => exact h.net hkeeps hnet
  | _ => exact ⟨h.attempts, h.handles⟩

/-- A step that runs no Close command for slot 0 does not close it. -/
theorem closes_ne_of_step (h : l.Shields) (hkeeps : l.Keeps efd) (hstep : LoopStep l a l')
    (hguard : a.isNet = true → l.closesNotifier = false) : l'.pc.closes ≠ some 0 := by
  cases hstep with
  | net env l' hnet => exact h.closes_ne hkeeps hnet (hguard rfl)
  | _ => exact hkeeps.closes

/-- One more command is queued, and not to close slot 0. -/
theorem not_forNotifier_append {cmd : SocketCmd} (h : ∀ c ∈ l.commands, ¬ l.ForNotifier c)
    (hcmd : ¬ l.ForNotifier cmd) :
    ∀ c ∈ commands { l with queue := l.queue ++ [cmd] }, ¬ l.ForNotifier c := by
  rw [commands_queue]
  exact List.forall_mem_append.mpr ⟨h, List.forall_mem_singleton.mpr hcmd⟩

/-- Which commands are for slot 0 is told by the calls. -/
theorem not_forNotifier_step (hstep : LoopStep l a l') (hasks : a.asksToClose l = false)
    (h : ∀ cmd ∈ l.commands, ¬ l.ForNotifier cmd) :
    ∀ cmd ∈ l'.commands, ¬ l'.ForNotifier cmd := by
  cases hstep with
  | turned | reserved | published => exact h
  | pushed c op hc =>
    refine not_forNotifier_append h ?_
    intro hfor
    obtain ⟨⟨closeType, htype⟩, -⟩ := hfor
    cases op <;> cases htype
  | issued a cmd hcmd =>
    refine not_forNotifier_append h ?_
    intro hfor
    obtain ⟨⟨closeType, htype⟩, hzero⟩ := hfor
    cases a with
    | close id target closeType =>
      cases hcmd
      exact of_decide_eq_false hasks hzero
    | _ => cases hcmd <;> cases htype
  | net env l' hnet =>
    intro cmd hcmd hfor
    refine h cmd (hnet.commands_subset hcmd) ⟨hfor.1, ?_⟩
    have hzero := hfor.2
    rw [getSocket, hash, hnet.maxSocket_eq] at hzero
    exact hzero

theorem closesNotifier_iff : l.closesNotifier = true ↔
    ∃ closeType id target, l.pc = .running ⟨.close closeType, id, target⟩ ∧
      l.getSocket id = some 0 := by
  unfold closesNotifier
  constructor
  · intro h
    split at h
    · rename_i closeType id target hpc
      exact ⟨closeType, id, target, hpc, of_decide_eq_true h⟩
    · cases h
  · intro h
    obtain ⟨closeType, id, target, hpc, hzero⟩ := h
    rw [hpc]
    exact decide_eq_true hzero

theorem not_closesNotifier (h : ∀ cmd ∈ l.commands, ¬ l.ForNotifier cmd) :
    l.closesNotifier = false := by
  apply eq_false_of_ne_true
  intro hcloses
  obtain ⟨closeType, id, target, hpc, hzero⟩ := closesNotifier_iff.mp hcloses
  exact h _ (mem_commands_of_running hpc) ⟨⟨closeType, rfl⟩, hzero⟩

/-- A Close command for slot 0 closes the eventfd. -/
theorem closed_of_closesNotifier (hkeeps : l.Keeps efd) (hcloses : l.closesNotifier = true)
    (hstep : l.netStep env = some l') : l'.files efd = none := by
  obtain ⟨closeType, id, target, hpc, hzero⟩ := closesNotifier_iff.mp hcloses
  obtain ⟨hfd, -, hstatus⟩ := hkeeps.slots 0
  have huse : l.inUse 0 := by
    rw [inUse, hstatus]
    decide
  simp only [netStep, hpc, handleOneCmd, Option.some.injEq] at hstep
  rw [← hstep, closeCmd_of_inUse hzero huse]
  have huse' : (l.deliver .command [target] 0).inUse 0 = true := huse
  have hfd' : ((l.deliver .command [target] 0).slot 0).fd = some efd := hfd
  rw [forceClose, if_pos huse', hfd']
  exact Function.update_self ..

end SocketLoop

namespace Notifier

variable {w w' : Notifier} {a : Label} {efd : Nat}

/-- The notifier works: its slot is listening, and the eventfd is open and registered. -/
structure Works (w : Notifier) (efd : Nat) : Prop where
  status : (w.loop.slot 0).status = .listen
  fd : (w.loop.slot 0).fd = some efd
  opened : w.loop.files efd ≠ none
  registered : w.loop.poll.epoll efd = some ⟨true, false, 0⟩

/-- The step runs a Close command for slot 0. -/
def ClosesNotifier (w : Notifier) : Label → Prop
  | .net _ => w.loop.closesNotifier = true
  | _ => False

/-- A thread calls `close(id)` for slot 0. -/
def AsksToClose (w : Notifier) : Label → Prop
  | .caller _ a => a.asksToClose w.loop = true
  | _ => False

instance (w : Notifier) : (a : Label) → Decidable (ClosesNotifier w a)
  | .net _ => inferInstanceAs (Decidable (_ = true))
  | .caller _ _ => instDecidableFalse
  | .write _ => instDecidableFalse
  | .read => instDecidableFalse

instance (w : Notifier) : (a : Label) → Decidable (AsksToClose w a)
  | .net _ => instDecidableFalse
  | .caller _ _ => inferInstanceAs (Decidable (_ = true))
  | .write _ => instDecidableFalse
  | .read => instDecidableFalse

/-- A later command wakes the loop: its `write` makes the edge of the notifier pending. -/
def Wakes (w : Notifier) : Prop := ∀ tid w', w.step (.write tid) = some w' → w'.Pending

theorem Works.wakes (h : w.Works efd) : w.Wakes := by
  intro tid w' hstep
  cases step_cases hstep with
  | write tid hwriting =>
    have hregistered : w.registered = true := by
      simp [Notifier.registered, h.fd, h.registered]
    rw [hregistered]
    exact ⟨EventFd.ready_write w.eventFd, efd, h.fd, h.registered⟩

/-- What holds between any two steps. -/
structure Guarded (w : Notifier) (efd : Nat) : Prop where
  numbered : w.loop.Numbered
  keeps : w.loop.Keeps efd
  shields : w.loop.Shields

theorem guarded_new (maxSocket efd : Nat) : (new maxSocket efd).Guarded efd where
  numbered := SocketLoop.numbered_new maxSocket efd
  keeps := SocketLoop.keeps_new maxSocket efd
  shields := SocketLoop.shields_new maxSocket efd

theorem Guarded.works (h : w.Guarded efd) : w.Works efd where
  status := (h.keeps.slots 0).2.2
  fd := (h.keeps.slots 0).1
  opened := h.keeps.file
  registered := h.keeps.registered

theorem Guarded.step (h : w.Guarded efd) (hguard : ¬ w.ClosesNotifier a)
    (hstep : w.step a = some w') : w'.Guarded efd := by
  have hloop : ∀ {b : SocketLoop.Action} {l : SocketLoop}, w.loop.step b = some l →
      (b.isNet = true → w.loop.closesNotifier = false) →
      l.Numbered ∧ l.Keeps efd ∧ l.Shields := by
    intro b l hl hb
    have hcases := SocketLoop.step_cases hl
    have hcloses := SocketLoop.closes_ne_of_step h.shields h.keeps hcases hb
    exact ⟨h.numbered.step hcases, h.keeps.step h.numbered hcases hcloses,
      h.shields.step h.keeps hcases⟩
  cases step_cases hstep with
  | caller tid b l _ hnet hl =>
    obtain ⟨hnumbered, hkeeps, hshields⟩ := hloop hl (fun htrue => by
      rw [hnet] at htrue
      cases htrue)
    exact ⟨hnumbered, hkeeps, hshields⟩
  | write | read => exact ⟨h.numbered, h.keeps, h.shields⟩
  | net env l _ _ hl =>
    have hl' : w.loop.step (.net env) = some l := hl
    obtain ⟨hnumbered, hkeeps, hshields⟩ := hloop hl' (fun _ => eq_false_of_ne_true hguard)
    exact ⟨hnumbered, hkeeps, hshields⟩

/-- A step keeps the notifier working if and only if it runs no Close command for it. -/
theorem works_step_iff (h : w.Guarded efd) (hstep : w.step a = some w') :
    w'.Works efd ↔ ¬ w.ClosesNotifier a := by
  constructor
  · intro hworks hcloses
    cases step_cases hstep with
    | net env l _ _ hl =>
      exact hworks.opened (SocketLoop.closed_of_closesNotifier h.keeps hcloses hl)
    | caller | write | read => exact hcloses
  · intro hguard
    exact (h.step hguard hstep).works

/-- Without a call for slot 0 no command is for slot 0. -/
theorem Guarded.calls (h : w.Guarded efd)
    (hcommands : ∀ cmd ∈ w.loop.commands, ¬ w.loop.ForNotifier cmd) (hasks : ¬ w.AsksToClose a)
    (hstep : w.step a = some w') :
    w'.Guarded efd ∧ ∀ cmd ∈ w'.loop.commands, ¬ w'.loop.ForNotifier cmd := by
  have hguard : ¬ w.ClosesNotifier a := by
    intro hcloses
    cases a with
    | net env =>
      rw [ClosesNotifier, SocketLoop.not_closesNotifier hcommands] at hcloses
      cases hcloses
    | caller | write | read => exact hcloses
  refine ⟨h.step hguard hstep, ?_⟩
  cases step_cases hstep with
  | caller tid b l _ _ hl =>
    exact SocketLoop.not_forNotifier_step (SocketLoop.step_cases hl) (eq_false_of_ne_true hasks)
      hcommands
  | write | read => exact hcommands
  | net env l _ _ hl =>
    have hl' : w.loop.step (.net env) = some l := hl
    exact SocketLoop.not_forNotifier_step (SocketLoop.step_cases hl') rfl hcommands

/-- **The notifier works as long as nobody calls `close(id)` for its slot**, whatever other
ids are passed; **and until the loop runs such a command, no longer.** -/
theorem notifier_survives (maxSocket efd : Nat) :
    (∀ w, Runs step (fun w a => ¬ w.AsksToClose a) (new maxSocket efd) w →
      w.Works efd ∧ w.Wakes) ∧
    ∀ w, Runs step (fun w a => ¬ w.ClosesNotifier a) (new maxSocket efd) w →
      w.Works efd ∧ w.Wakes ∧
        ∀ a w', w.step a = some w' → (w'.Works efd ↔ ¬ w.ClosesNotifier a) := by
  constructor
  · intro w h
    have hguarded : w.Guarded efd ∧ ∀ cmd ∈ w.loop.commands, ¬ w.loop.ForNotifier cmd := by
      apply h.invariant (I := fun w => w.Guarded efd ∧
        ∀ cmd ∈ w.loop.commands, ¬ w.loop.ForNotifier cmd)
      · intro x a y hx hasks hstep
        exact hx.1.calls hx.2 hasks hstep
      · refine ⟨guarded_new maxSocket efd, ?_⟩
        intro cmd hcmd
        cases hcmd
    exact ⟨hguarded.1.works, hguarded.1.works.wakes⟩
  · intro w h
    have hguarded : w.Guarded efd := by
      apply h.invariant (I := fun w => w.Guarded efd) _ (guarded_new maxSocket efd)
      intro x a y hx hguard hstep
      exact hx.step hguard hstep
    exact ⟨hguarded.works, hguarded.works.wakes, fun a w' hstep => works_step_iff hguarded hstep⟩

/-- A `close` of a slot nobody has, a `close` of a negative id, a `send` to the notifier. -/
theorem notifier_survives_of_calls : ∃ w,
    Runs step (fun w a => ¬ w.AsksToClose a) (new 2 3) w ∧
    Runs step (fun w a => ¬ w.ClosesNotifier a) (new 2 3) w ∧ w.loop.queue.length = 2 ∧
    (w.Works 3 ∧ w.Wakes) ∧ (w.Works 3 ∧ w.Wakes ∧
      ∀ a w', w.step a = some w' → (w'.Works 3 ↔ ¬ w.ClosesNotifier a)) := by
  have hexec : ∃ w, Runs step (fun w a => ¬ w.AsksToClose a ∧ ¬ w.ClosesNotifier a) (new 2 3) w ∧
      decide (w.loop.queue.length = 2) = true :=
    exists_runs_of_schedule (new 2 3) [.caller 7 (.close 1 none .self), .write 7,
      .caller 7 (.send 0 none (IoBuffer.ofBytes [7])), .write 7,
      .net { ready := [(3, true, false)] }, .net {}, .read, .net {}, .net {},
      .caller 7 (.close (-2) none .self)] _ (by decide)
  obtain ⟨w, hw, hqueue⟩ := hexec
  have hasks := hw.mono (fun _ _ hg => hg.1)
  have hcloses := hw.mono (fun _ _ hg => hg.2)
  exact ⟨w, hasks, hcloses, of_decide_eq_true hqueue, (notifier_survives 2 3).1 w hasks,
    (notifier_survives 2 3).2 w hcloses⟩

/-- `close(0)`, the id of a `Connection` that nobody has filled. -/
theorem notifier_closed : ∃ w, Runs step (fun _ _ => True) (new 2 3) w ∧
    (w.loop.slot 0).status = .idle ∧ w.registered = false ∧ ¬ w.Works 3 := by
  have hexec : ∃ w, Runs step (fun _ _ => True) (new 2 3) w ∧
      decide ((w.loop.slot 0).status = .idle ∧ w.registered = false) = true :=
    exists_runs_of_schedule (new 2 3) [.caller 7 (.close 0 none .self), .write 7,
      .net { ready := [(3, true, false)] }, .net {}, .read, .net {}, .net {}, .net {}] _
      (by decide)
  obtain ⟨w, hw, hstate⟩ := hexec
  obtain ⟨hstatus, hregistered⟩ := of_decide_eq_true hstate
  refine ⟨w, hw, hstatus, hregistered, ?_⟩
  intro hworks
  rw [hworks.status] at hstatus
  cases hstatus

end Notifier

end StormNet.Net
