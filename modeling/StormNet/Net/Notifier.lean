/-
  Net/Notifier.lean --- the eventfd that wakes the loop.

  `pushCmd` puts a command into `m_queue` and then writes to the eventfd of slot 0; the
  loop reads the eventfd and then empties the queue.  `Notifier` runs the loop beside the
  eventfd, with a step for each of these: any number of threads come between them in any
  order.

  The registration is edge-triggered, so a write that nobody notices would leave its
  command in the queue until the next one.  There is none: `woken` says who will see a
  queue that is not empty.
-/
import StormNet.Foundation.Transition
import StormNet.Net.SlotNumbers

set_option autoImplicit false

namespace StormNet.Net

open StormNet.Foundation
open Function (update update_self update_of_ne forall_update_iff)

/-! ## The eventfd -/

/-- An eventfd in an epoll instance, with `EPOLLET`. -/
structure EventFd where
  counter : Nat
  /-- it is on the ready list -/
  edge : Bool
  deriving DecidableEq, Repr

namespace EventFd

/-- `write` of 1; a registered eventfd is put on the ready list. -/
def write (e : EventFd) (registered : Bool) : EventFd :=
  ⟨e.counter + 1, e.edge || registered⟩

/-- `read`, which does not block. -/
def read (e : EventFd) : EventFd := { e with counter := 0 }

/-- `epoll_wait` reports it. -/
def report (e : EventFd) : EventFd := { e with edge := false }

/-- `epoll_wait` has it to report: it is on the ready list, and it can be read. -/
def Ready (e : EventFd) : Prop := e.edge = true ∧ 0 < e.counter

instance (e : EventFd) : Decidable e.Ready := inferInstanceAs (Decidable (_ ∧ _))

theorem ready_write (e : EventFd) : (e.write true).Ready :=
  ⟨Bool.or_true e.edge, Nat.succ_pos e.counter⟩

end EventFd

/-! ## The system -/

/-- In `handleCmd`, and the queue has not been seen empty. -/
def Pc.InHandleCmd (pc : Pc) : Prop :=
  pc.resumes = some .command ∨ pc.runs ≠ none ∨ pc.fails ≠ none

/-- In `runOnce` outside the loop over the events. -/
def Pc.Idles (pc : Pc) : Prop :=
  pc = .polling ∨ pc = .sweeping ∨ pc.resumes = some .erase

/-- `handleWrite` touches the registration of a connected fd only. -/
theorem handleWrite_epoll {s : Socket} {poll : SocketPoller} {results : List WriteResult}
    {n : Nat} (h : s.status = .connected → s.fd ≠ some n) :
    (handleWrite s poll results).poll.epoll n = poll.epoll n := by
  unfold handleWrite
  split
  · rfl
  · rename_i hstatus
    generalize writeLoop results s.writeBuffer = r
    obtain ⟨left, written, ending⟩ := r
    cases ending with
    | drained =>
      dsimp only
      split
      · rename_i fd hfd
        apply SocketPoller.epoll_delEvent
        intro hn
        exact h (not_not.mp hstatus) (hn ▸ hfd)
      · rfl
    | blocked | close => rfl

/-- So does `sendSocket`. -/
theorem sendSocket_epoll {s : Socket} {poll : SocketPoller} {buffer : IoBuffer}
    {results : List WriteResult} {n : Nat} (h : s.status = .connected → s.fd ≠ some n) :
    (sendSocket s poll buffer results).poll.epoll n = poll.epoll n := by
  unfold sendSocket
  split
  · rfl
  · rename_i hstatus
    split
    · rfl
    · generalize sendLoop results buffer = r
      obtain ⟨left, written, ending⟩ := r
      cases ending with
      | blocked =>
        dsimp only
        split
        · rename_i fd hfd
          apply SocketPoller.epoll_addToWrite
          intro hn
          exact h (not_not.mp hstatus) (hn ▸ hfd)
        · rfl
      | drained | close => rfl

namespace SocketLoop

/-- The step is a `push_back` of `pushCmd`. -/
def Action.pushes : Action → Bool
  | .reserve _ | .publish _ | .net _ => false
  | .push _ | .send _ _ _ | .close _ _ _ | .terminate => true

/-- The step is one of the loop's thread. -/
def Action.isNet : Action → Bool
  | .net _ => true
  | _ => false

/-- `runOnce` is about to call `handleCmd`. -/
def atNotify (l : SocketLoop) : Bool :=
  l.pc = .resume .event ∧ l.event.head?.any (fun e => (l.slot e.ud).type = .notify)

/-- `epoll_wait` reports the eventfd of the notifier. -/
def reportsNotifier (l : SocketLoop) (env : Env) : Bool :=
  l.pc = .polling ∧ env.ready.any (fun r => (l.slot 0).fd = some r.1)

/-! ### The notifier's slot -/

/-- Slot 0 is the notifier's; no other slot has its fd. -/
def Fits (efd : Nat) : Nat → Socket → Prop
  | 0, s => s.fd = some efd ∧ s.type = .notify ∧ s.status = .listen
  | _ + 1, s => s.fd ≠ some efd

/-- The notifier is in its slot and registered, and nobody is about to take either away. -/
structure Keeps (l : SocketLoop) (efd : Nat) : Prop where
  slots : ∀ i, Fits efd i (l.slot i)
  file : l.files efd ≠ none
  registered : l.poll.epoll efd = some ⟨true, false, 0⟩
  calls : ∀ c, l.call c ≠ none → c.slot ≠ 0
  reserved : ∀ c op, l.call c = some (.reserved op) → op.fd ≠ some efd
  commands : ∀ cmd ∈ l.commands, cmd.type = .connect → l.getSocket cmd.id ≠ some 0
  closes : l.pc.closes ≠ some 0
  fails : l.pc.fails ≠ some 0
  connects : l.pc.connects ≠ some 0

section Keeps

variable {l l' : SocketLoop} {a : Action} {env : Env} {efd i : Nat}

theorem fits_of_ne {s : Socket} (hi : i ≠ 0) (hfd : s.fd ≠ some efd) : Fits efd i s := by
  cases i with
  | zero => exact absurd rfl hi
  | succ n => exact hfd

theorem Fits.congr {s t : Socket} (h : Fits efd i s) (hfd : t.fd = s.fd)
    (htype : t.type = s.type) (hstatus : t.status = s.status) : Fits efd i t := by
  cases i with
  | zero => exact ⟨hfd.trans h.1, htype.trans h.2.1, hstatus.trans h.2.2⟩
  | succ n => exact fun heq => h (hfd.symm.trans heq)

theorem keeps_new (maxSocket efd : Nat) : (new maxSocket efd).Keeps efd where
  slots := by
    intro i
    cases i with
    | zero => simp [new, Fits]
    | succ n => simp [new, Fits]
  file := by simp [new]
  registered := by simp [new, SocketPoller.addToRead, SocketPoller.new, epollCtl]
  calls := fun _ h => absurd rfl h
  reserved := by
    intro c op hc
    cases hc
  commands := by
    intro cmd hcmd
    cases hcmd
  closes := by simp [new, Pc.closes]
  fails := by simp [new, Pc.fails]
  connects := by simp [new, Pc.connects]

namespace Keeps

theorem type_zero (h : l.Keeps efd) : (l.slot 0).type = .notify := (h.slots 0).2.1

theorem ne_zero_of_type (h : l.Keeps efd) (htype : (l.slot i).type ≠ .notify) : i ≠ 0 := by
  intro hi
  exact htype (hi ▸ h.type_zero)

theorem ne_zero_of_status (h : l.Keeps efd) (hstatus : (l.slot i).status ≠ .listen) :
    i ≠ 0 := by
  intro hi
  exact hstatus (hi ▸ (h.slots 0).2.2)

theorem fd_ne (h : l.Keeps efd) (hi : i ≠ 0) : (l.slot i).fd ≠ some efd := by
  have hfits := h.slots i
  cases i with
  | zero => exact absurd rfl hi
  | succ n => exact hfits

/-- An fd that another slot has. -/
theorem ne_of_fd (h : l.Keeps efd) (hi : i ≠ 0) {fd : Nat} (hfd : (l.slot i).fd = some fd) :
    efd ≠ fd := by
  intro heq
  exact h.fd_ne hi (heq ▸ hfd)

/-- An fd that is new. -/
theorem ne_of_files (h : l.Keeps efd) {fd : Nat} (hfd : l.files fd = none) : efd ≠ fd := by
  intro heq
  exact h.file (heq ▸ hfd)

/-- A Connect command is for another slot. -/
theorem connect_ne (h : l.Keeps efd) {id : Int} {target : Option Conn}
    (hpc : l.pc = .running ⟨.connect, id, target⟩) (hi : l.getSocket id = some i) : i ≠ 0 := by
  have hmem : (⟨.connect, id, target⟩ : SocketCmd) ∈ l.commands :=
    mem_commands_of_running hpc
  intro hzero
  exact h.commands _ hmem rfl (hzero ▸ hi)

theorem closes_ne (h : l.Keeps efd) {closeType : CloseType} {k : Resume}
    (hpc : l.pc = .closing i closeType k) : i ≠ 0 := by
  intro hzero
  apply h.closes
  rw [hpc, hzero, Pc.closes]

theorem fails_ne (h : l.Keeps efd) (hpc : l.pc = .failing i) : i ≠ 0 := by
  intro hzero
  apply h.fails
  rw [hpc, hzero, Pc.fails]

theorem connects_ne (h : l.Keeps efd) {k : Resume} (hpc : l.pc = .onConnect i k) : i ≠ 0 := by
  intro hzero
  apply h.connects
  rw [hpc, hzero, Pc.connects]

/-- One slot is assigned. -/
theorem set (h : l.Keeps efd) {s : Socket} (hs : Fits efd i s) (j : Nat) :
    Fits efd j (update l.slot i s j) :=
  (forall_update_iff l.slot fun k t => Fits efd k t).mpr ⟨hs, fun k _ => h.slots k⟩ j

theorem setBuffers (h : l.Keeps efd) (r : Option IoBuffer) (w : List IoBuffer) (j : Nat) :
    Fits efd j (update l.slot i { l.slot i with readBuffer := r, writeBuffer := w } j) := by
  apply h.set
  exact (h.slots i).congr rfl rfl rfl

end Keeps

/-- The kernel has the notifier as before. -/
def SameNotifier (l l' : SocketLoop) (efd : Nat) : Prop :=
  l'.files efd = l.files efd ∧ l'.poll.epoll efd = l.poll.epoll efd

/-- An fd that is not the notifier's is closed. -/
theorem SameNotifier.closeFd {l₁ : SocketLoop} {fd : Option Nat} (h : SameNotifier l l₁ efd)
    (hfd : fd ≠ some efd) : SameNotifier l (l₁.closeFd fd) efd := by
  cases fd with
  | none => exact h
  | some fd =>
    have hne : efd ≠ fd := fun heq => hfd (congrArg some heq.symm)
    obtain ⟨hfiles, hepoll⟩ := h
    exact ⟨(update_of_ne hne _ _).trans hfiles,
      (SocketPoller.epoll_kernelClose hne).trans hepoll⟩

theorem AtEvent.ne_zero {e : SocketEvent} {rest : List SocketEvent} (hat : l.AtEvent e rest)
    (h : l.Keeps efd) : e.ud ≠ 0 := by
  apply h.ne_zero_of_type
  rw [hat.type]
  exact SocketType.noConfusion

/-- The fd of a slot that is being closed. -/
theorem Keeps.fd_of_connected (h : l.Keeps efd) (hstatus : (l.slot i).status = .connected) :
    (l.slot i).fd ≠ some efd := by
  apply h.fd_ne
  apply h.ne_zero_of_status
  rw [hstatus]
  exact SocketStatus.noConfusion

/-- The loop's thread leaves the notifier's slot alone. -/
theorem Keeps.netSlots (h : l.Keeps efd) (hstep : NetStep l env l') (j : Nat) :
    Fits efd j (l'.slot j) := by
  cases hstep with
  | connected e rest applied fd hat =>
    apply h.set
    exact fits_of_ne (hat.ne_zero h) (h.fd_ne (hat.ne_zero h))
  | read | wrote | sent | dataOver => exact h.setBuffers _ _ j
  | readClosed | writeClosed | sendClosed | dataClosed =>
    rw [closeFd_slot]
    exact h.setBuffers _ _ j
  | connectDone _ _ i fd hpc hi _ hfd | connectInProgress _ _ i fd hpc hi _ hfd =>
    apply h.set
    apply fits_of_ne (h.connect_ne hpc hi)
    exact fun heq => h.ne_of_files hfd (Option.some.inj heq).symm
  | accepted i k fd allocId hpc hidle hhash hfd =>
    have hk : k ≠ 0 := h.ne_zero_of_status (by rw [hidle]; exact SocketStatus.noConfusion)
    apply h.set
    apply fits_of_ne hk
    exact fun heq => h.ne_of_files hfd (Option.some.inj heq).symm
  | cleared i closeType k hpc =>
    apply h.set
    exact fits_of_ne (h.closes_ne hpc) (by simp)
  | idled i hpc =>
    apply h.set
    exact fits_of_ne (h.fails_ne hpc) (h.fd_ne (h.fails_ne hpc))
  | refused | closed | sweepClosed =>
    rw [closeFd_slot]
    exact h.slots j
  | _ => exact h.slots j

/-- An fd that is new goes into the files and epoll beside the notifier's. -/
theorem Keeps.netKernel (h : l.Keeps efd) (hstep : NetStep l env l')
    (hcloses : l'.pc.closes ≠ some 0) : SameNotifier l l' efd := by
  cases hstep with
  | connected e rest applied fd hat hstatus hfd =>
    exact ⟨rfl, SocketPoller.epoll_delEvent (h.ne_of_fd (hat.ne_zero h) hfd)⟩
  | refused e rest applied hat | readClosed e rest applied k r hat =>
    refine SameNotifier.closeFd ?_ (h.fd_ne (hat.ne_zero h))
    exact ⟨rfl, rfl⟩
  | wrote => exact ⟨rfl, handleWrite_epoll h.fd_of_connected⟩
  | writeClosed i rest applied backlog hwrites hclose =>
    have hconnected := status_of_needClose_handleWrite hclose
    refine SameNotifier.closeFd ?_ (h.fd_of_connected hconnected)
    exact ⟨rfl, handleWrite_epoll h.fd_of_connected⟩
  | connectDone id target i fd hpc hi hresult hfd =>
    exact ⟨update_of_ne (h.ne_of_files hfd) _ _, rfl⟩
  | connectInProgress id target i fd hpc hi hresult hfd =>
    have hne : efd ≠ fd := h.ne_of_files hfd
    exact ⟨update_of_ne hne _ _, SocketPoller.epoll_addEvent hne⟩
  | listened id target poll hpc hpoll =>
    refine ⟨rfl, ?_⟩
    rcases hpoll with rfl | ⟨i, fd, hfd, rfl⟩
    · rfl
    · apply SocketPoller.epoll_addToRead
      simp [h.registered]
  | sent => exact ⟨rfl, sendSocket_epoll h.fd_of_connected⟩
  | sendClosed id target buffer i applied backlog hpc hi hstatus =>
    refine SameNotifier.closeFd ?_ (h.fd_of_connected hstatus)
    exact ⟨rfl, sendSocket_epoll h.fd_of_connected⟩
  | closed | sweepClosed | dataClosed =>
    refine SameNotifier.closeFd ?_ (h.fd_ne ?_)
    · exact ⟨rfl, rfl⟩
    · exact fun hi => hcloses (congrArg some hi)
  | accepted i k fd allocId hpc hidle hhash hfd =>
    have hne : efd ≠ fd := h.ne_of_files hfd
    exact ⟨update_of_ne hne _ _, SocketPoller.epollCtl_of_ne hne⟩
  | connectOver i k poll hpc hpoll =>
    refine ⟨rfl, ?_⟩
    rcases hpoll with rfl | ⟨fd, hfd, rfl⟩
    · rfl
    · exact SocketPoller.epoll_addEvent (h.ne_of_fd (h.connects_ne hpc) hfd)
  | cleared i closeType k hpc =>
    refine ⟨rfl, ?_⟩
    simp only [clear]
    split
    · rename_i fd hfd
      exact SocketPoller.epoll_del_of_ne (h.ne_of_fd (h.closes_ne hpc) hfd)
    · rfl
  | _ => exact ⟨rfl, rfl⟩

/-- Nothing is done to the notifier's slot next. -/
theorem Keeps.netPc (h : l.Keeps efd) (hstep : NetStep l env l') :
    l'.pc.fails ≠ some 0 ∧ l'.pc.connects ≠ some 0 := by
  have hnone : (none : Option Nat) ≠ some 0 := by simp
  cases hstep with
  | connected e rest applied fd hat =>
    refine ⟨hnone, ?_⟩
    exact fun heq => hat.ne_zero h (Option.some.inj heq)
  | connectFailed id target i hpc hi =>
    refine ⟨?_, hnone⟩
    exact fun heq => h.connect_ne hpc hi (Option.some.inj heq)
  | connectDone id target i fd hpc hi =>
    refine ⟨hnone, ?_⟩
    exact fun heq => h.connect_ne hpc hi (Option.some.inj heq)
  | acceptAgain => exact ⟨h.fails, h.connects⟩
  | _ => exact ⟨hnone, hnone⟩

/-- The loop's thread keeps the notifier where it is. -/
theorem Keeps.net (h : l.Keeps efd) (hstep : NetStep l env l')
    (hcloses : l'.pc.closes ≠ some 0) : l'.Keeps efd := by
  obtain ⟨hfiles, hepoll⟩ := h.netKernel hstep hcloses
  obtain ⟨hfails, hconnects⟩ := h.netPc hstep
  refine ⟨h.netSlots hstep, ?_, ?_, ?_, ?_, ?_, hcloses, hfails, hconnects⟩
  · rw [hfiles]
    exact h.file
  · rw [hepoll]
    exact h.registered
  · rw [hstep.call_eq]
    exact h.calls
  · rw [hstep.call_eq]
    exact h.reserved
  · intro cmd hcmd htype
    rw [getSocket, hash, hstep.maxSocket_eq]
    exact h.commands cmd (hstep.commands_subset hcmd) htype

/-- A command is queued, and not to connect slot 0. -/
theorem Keeps.queued (h : l.Keeps efd) {cmd : SocketCmd}
    (hcmd : cmd.type = .connect → l.getSocket cmd.id ≠ some 0) :
    Keeps { l with queue := l.queue ++ [cmd] } efd := by
  refine { h with commands := ?_ }
  rw [commands_queue]
  exact List.forall_mem_append.mpr ⟨h.commands, List.forall_mem_singleton.mpr hcmd⟩

/-- A caller takes a slot that is idle, with an fd that is new. -/
theorem Keeps.reserve (h : l.Keeps efd) {op : Op} {allocId : Nat}
    (hidle : (l.slot i).status = .idle) (hfd : ∀ fd, op.fd = some fd → l.files fd = none) :
    Keeps { l with
      allocId := allocId
      slot := update l.slot i { l.slot i with id := i, fd := none, status := .reserse }
      gen := update l.gen i (l.gen i + 1)
      call := update l.call ⟨i, l.gen i + 1⟩ (some (.reserved op))
      files := op.opened ⟨i, l.gen i + 1⟩ l.files } efd := by
  have hi : i ≠ 0 := h.ne_zero_of_status (by rw [hidle]; exact SocketStatus.noConfusion)
  refine { h with slots := ?_, file := ?_, calls := ?_, reserved := ?_ }
  · apply h.set
    exact fits_of_ne hi (by simp)
  · cases op with
    | connect handler => exact h.file
    | listen handler fd =>
      simp only [Op.opened, update_of_ne (h.ne_of_files (hfd fd rfl))]
      exact h.file
  · intro c hc
    by_cases hci : c = ⟨i, l.gen i + 1⟩
    · rw [hci]
      exact hi
    · simp only [update_of_ne hci] at hc
      exact h.calls c hc
  · intro c op' hc
    by_cases hci : c = ⟨i, l.gen i + 1⟩
    · simp only [hci, update_self, Option.some.injEq, Call.reserved.injEq] at hc
      subst hc
      exact fun heq => h.file (hfd efd heq)
    · simp only [update_of_ne hci] at hc
      exact h.reserved c op' hc

theorem Keeps.publish (h : l.Keeps efd) {c : Conn} {op : Op}
    (hc : l.call c = some (.reserved op)) : Keeps { l with
      slot := update l.slot c.slot (op.fill (l.slot c.slot))
      call := update l.call c (some (.published op)) } efd := by
  have hslot : c.slot ≠ 0 := h.calls c (by simp [hc])
  refine { h with slots := ?_, calls := ?_, reserved := ?_ }
  · apply h.set
    apply fits_of_ne hslot
    cases op with
    | connect handler => exact h.fd_ne hslot
    | listen handler fd => exact h.reserved c _ hc
  · intro d hd
    by_cases hdc : d = c
    · rw [hdc]
      exact hslot
    · simp only [update_of_ne hdc] at hd
      exact h.calls d hd
  · intro d op' hd
    by_cases hdc : d = c
    · simp [hdc] at hd
    · simp only [update_of_ne hdc] at hd
      exact h.reserved d op' hd

/-- As long as its slot is not closed, the notifier is kept. -/
theorem Keeps.step (h : l.Keeps efd) (hnumbered : l.Numbered) (hstep : LoopStep l a l')
    (hcloses : l'.pc.closes ≠ some 0) : l'.Keeps efd := by
  cases hstep with
  | turned => exact { h with }
  | reserved op i allocId hpicks hidle hhash hfd => exact h.reserve hidle hfd
  | published c op hc => exact h.publish hc
  | pushed c op hc =>
    have hcall : l.call c ≠ none := by simp [hc]
    have hown : l.Own c.slot := hnumbered.calls c hcall
    have hqueued : Keeps { l with
        queue := l.queue ++ [⟨op.cmdType, (l.slot c.slot).id, some c⟩] } efd := by
      apply h.queued
      intro _ hzero
      rw [hown.1, getSocket_natCast, hown.2] at hzero
      exact h.calls c hcall (Option.some.inj hzero)
    refine { hqueued with calls := ?_, reserved := ?_ }
    · intro d hd
      by_cases hdc : d = c
      · exact hdc ▸ h.calls c hcall
      · exact h.calls d (by simpa only [update_of_ne hdc] using hd)
    · intro d op' hd
      by_cases hdc : d = c
      · simp [hdc] at hd
      · exact h.reserved d op' (by simpa only [update_of_ne hdc] using hd)
  | issued a cmd hcmd =>
    refine { h.queued ?_ with }
    intro htype
    cases a <;> cases hcmd <;> cases htype
  | net env l' hnet => exact h.net hnet hcloses

end Keeps

/-! ### What the loop's thread does with an event of the notifier -/

section Batch

variable {l l' : SocketLoop} {a : Action} {env : Env} {e : SocketEvent}

/-- The events are handled when the loop over them is left. -/
theorem NetStep.event_eq_nil (h : NetStep l env l') (hidles : l.pc.Idles → l.event = [])
    (hpc : l'.pc.Idles) : l'.event = [] := by
  cases h with
  | batchDone _ hevent => exact hevent
  | swept hat => exact hidles (.inr (.inl hat))
  | erased hat => exact hidles (.inr (.inr (congrArg Pc.resumes hat)))
  | sweepIgnored id hat => exact hidles (.inr (.inl hat))
  | sweepClosed id hat =>
    rw [closeFd_event]
    exact hidles (.inr (.inl hat))
  | acceptAgain => exact hidles hpc
  | connectOver i k poll hat =>
    apply hidles
    simpa [hat, Pc.Idles, Pc.resumes] using hpc
  | dataOver i k hat =>
    apply hidles
    simpa [hat, Pc.Idles, Pc.resumes] using hpc
  | dataClosed i k hat =>
    simp only [closeFd_event]
    apply hidles
    simpa [hat, Pc.Idles, Pc.resumes] using hpc
  | cleared i closeType k hat =>
    apply hidles
    simpa [hat, Pc.Idles, Pc.resumes] using hpc
  | skipped e rest applied k hat hstatus hk | read e rest applied k r hat hstatus hk =>
    rcases hk with rfl | rfl <;> simp [Pc.Idles, Pc.resumes] at hpc
  | readClosed e rest applied k r hat hstatus hk =>
    rcases hk with rfl | rfl <;> simp [Pc.Idles, Pc.resumes] at hpc
  | _ => simp [Pc.Idles, Pc.resumes] at hpc

/-- An event that is not the one at hand. -/
theorem mem_rest {e' : SocketEvent} {rest : List SocketEvent} (hevent : l.event = e' :: rest)
    (htype : (l.slot e'.ud).type ≠ .notify) (he : e ∈ l.event)
    (hnotify : (l.slot e.ud).type = .notify) : e ∈ rest := by
  rw [hevent] at he
  refine (List.mem_cons.mp he).resolve_left ?_
  intro heq
  exact htype (heq ▸ hnotify)

theorem AtEvent.mem_rest {e' : SocketEvent} {rest : List SocketEvent} (hat : l.AtEvent e' rest)
    (he : e ∈ l.event) (hnotify : (l.slot e.ud).type = .notify) : e ∈ rest := by
  refine SocketLoop.mem_rest hat.event ?_ he hnotify
  rw [hat.type]
  exact SocketType.noConfusion

/-- An event of the notifier stays until it is handled by `handleCmd`. -/
theorem NetStep.notifier_event (h : NetStep l env l') (hidles : l.pc.Idles → l.event = [])
    (he : e ∈ l.event) (hnotify : (l.slot e.ud).type = .notify) :
    l'.pc.InHandleCmd ∨ e ∈ l'.event := by
  have hwrites : ∀ {i rest}, l.Writes i rest → e ∈ rest := by
    intro i rest hw
    rcases hw with ⟨e', hat, -⟩ | ⟨target, -, hevent⟩
    · exact hat.mem_rest he hnotify
    · exact hevent ▸ he
  cases h with
  | polled hpc =>
    rw [hidles (.inl hpc)] at he
    cases he
  | batchDone hpc hevent => exact .inr he
  | notified => exact .inl (.inl rfl)
  | listening e' rest applied hpc hevent htype =>
    refine .inr (mem_rest hevent ?_ he hnotify)
    rw [htype]
    exact SocketType.noConfusion
  | connected e' rest applied fd hat => exact .inr (hat.mem_rest he hnotify)
  | skipped e' rest applied k hat | read e' rest applied k r hat =>
    exact .inr (hat.mem_rest he hnotify)
  | refused e' rest applied hat | readClosed e' rest applied k r hat =>
    simp only [closeFd_event]
    exact .inr (hat.mem_rest he hnotify)
  | wrote i rest applied backlog hw => exact .inr (hwrites hw)
  | writeClosed i rest applied backlog hw =>
    simp only [closeFd_event]
    exact .inr (hwrites hw)
  | sendClosed | closed | sweepClosed | dataClosed =>
    simp only [closeFd_event]
    exact .inr he
  | _ => exact .inr he

/-- `handleCmd` goes on until it has seen the queue empty. -/
theorem NetStep.inHandleCmd (h : NetStep l env l') (hpc : l.pc.InHandleCmd) :
    l'.pc.InHandleCmd ∨ l'.queue = [] := by
  cases h with
  | commandsDone _ hqueue => exact .inr hqueue
  | popped => exact .inl (.inr (.inl (by simp [Pc.runs])))
  | connectFailed => exact .inl (.inr (.inr (by simp [Pc.fails])))
  | acceptAgain => exact .inl hpc
  | connectOver i k poll hat | dataOver i k hat | dataClosed i k hat
  | cleared i closeType k hat =>
    left
    simpa [hat, Pc.InHandleCmd, Pc.resumes, Pc.runs, Pc.fails] using hpc
  | connectIgnored | connectDone | connectInProgress | listened | sendIgnored | sent | sendClosed
  | closeIgnored | closed | exited | idled => exact .inl (.inl rfl)
  | polled hat | batchDone hat | notified _ _ _ hat | listening _ _ _ hat | erased hat
  | acceptDone _ hat | accepted _ _ _ _ hat | swept hat | sweepIgnored _ hat | sweepClosed _ hat
  | acceptOver _ _ hat => simp [hat, Pc.InHandleCmd, Pc.resumes, Pc.runs, Pc.fails] at hpc
  | connected _ _ _ _ hat | refused _ _ _ hat | skipped _ _ _ _ hat | read _ _ _ _ _ hat
  | readClosed _ _ _ _ _ hat =>
    simp [hat.pc, Pc.InHandleCmd, Pc.resumes, Pc.runs, Pc.fails] at hpc
  | wrote _ _ _ _ hw | writeClosed _ _ _ _ hw =>
    rcases hw with ⟨_, hat, -⟩ | ⟨_, hat, -⟩
    · simp [hat.pc, Pc.InHandleCmd, Pc.resumes, Pc.runs, Pc.fails] at hpc
    · simp [hat, Pc.InHandleCmd, Pc.resumes, Pc.runs, Pc.fails] at hpc

/-- The callers leave the loop's thread alone, and queue what they push. -/
theorem LoopStep.caller_eq (h : LoopStep l a l') (hnet : a.isNet = false) :
    l'.pc = l.pc ∧ l'.event = l.event ∧ (a.pushes = false → l'.queue = l.queue) := by
  cases h with
  | turned | reserved | published => exact ⟨rfl, rfl, fun _ => rfl⟩
  | pushed => exact ⟨rfl, rfl, fun hpushes => Bool.noConfusion hpushes⟩
  | issued a cmd hcmd =>
    refine ⟨rfl, rfl, ?_⟩
    intro hpushes
    cases a <;> cases hcmd <;> cases hpushes
  | net => cases hnet

end Batch

end SocketLoop

/-- `SocketLoop` with the eventfd of `m_notifier`, which is slot 0. -/
structure Notifier where
  loop : SocketLoop
  eventFd : EventFd
  /-- the threads between the `push_back` and the `write` of `pushCmd` -/
  writing : List Nat
  /-- the loop's thread is in front of the `read` of `handleCmd` -/
  reading : Bool

namespace Notifier

/-- The steps; the threads that call `connect`, `listen`, `send`, `close` and `terminate`
are numbered.  A callback that calls one of these counts as a thread. -/
inductive Label where
  | caller (tid : Nat) (a : SocketLoop.Action)
  /-- the `write` of `pushCmd` -/
  | write (tid : Nat)
  /-- the `read` of `handleCmd` -/
  | read
  /-- any other step of the loop's thread -/
  | net (env : SocketLoop.Env)

/-- The eventfd is in the epoll instance. -/
def registered (w : Notifier) : Bool :=
  (w.loop.slot 0).fd.any (fun fd => (w.loop.poll.epoll fd).isSome)

def step (w : Notifier) : Label → Option Notifier
  | .caller tid a =>
      if tid ∈ w.writing ∨ a.isNet then none
      else (w.loop.step a).map (fun l => { w with
        loop := l
        writing := if a.pushes then tid :: w.writing else w.writing })
  | .write tid =>
      if tid ∈ w.writing then some { w with
        eventFd := w.eventFd.write w.registered
        writing := w.writing.erase tid }
      else none
  | .read => if w.reading then some { w with eventFd := w.eventFd.read, reading := false } else none
  | .net env =>
      if w.reading ∨ (w.loop.reportsNotifier env ∧ ¬ w.eventFd.Ready) then none
      else (w.loop.netStep env).map (fun l => { w with
        loop := l
        eventFd := if w.loop.reportsNotifier env then w.eventFd.report else w.eventFd
        reading := w.loop.atNotify })

/-- What a step can do. -/
inductive Step (w : Notifier) : Label → Notifier → Prop
  | caller (tid : Nat) (a : SocketLoop.Action) (l : SocketLoop) : tid ∉ w.writing →
      a.isNet = false → w.loop.step a = some l →
      Step w (.caller tid a) { w with
        loop := l
        writing := if a.pushes then tid :: w.writing else w.writing }
  | write (tid : Nat) : tid ∈ w.writing →
      Step w (.write tid) { w with
        eventFd := w.eventFd.write w.registered
        writing := w.writing.erase tid }
  | read : w.reading = true →
      Step w .read { w with eventFd := w.eventFd.read, reading := false }
  | net (env : SocketLoop.Env) (l : SocketLoop) : w.reading = false →
      (w.loop.reportsNotifier env = true → w.eventFd.Ready) → w.loop.netStep env = some l →
      Step w (.net env) { w with
        loop := l
        eventFd := if w.loop.reportsNotifier env then w.eventFd.report else w.eventFd
        reading := w.loop.atNotify }

theorem step_cases {w w' : Notifier} {a : Label} (h : w.step a = some w') : w.Step a w' := by
  cases a with
  | caller tid a =>
    simp only [step] at h
    split at h
    · cases h
    · rename_i hguard
      rw [not_or] at hguard
      obtain ⟨l, hl, rfl⟩ := Option.map_eq_some_iff.mp h
      exact .caller tid a l hguard.1 (Bool.eq_false_iff.mpr hguard.2) hl
  | write tid =>
    simp only [step] at h
    split at h
    · exact Option.some.inj h ▸ .write tid ‹_›
    · cases h
  | read =>
    simp only [step] at h
    split at h
    · exact Option.some.inj h ▸ .read ‹_›
    · cases h
  | net env =>
    simp only [step] at h
    split at h
    · cases h
    · rename_i hguard
      rw [not_or, not_and, not_not] at hguard
      obtain ⟨l, hl, rfl⟩ := Option.map_eq_some_iff.mp h
      exact .net env l (Bool.eq_false_iff.mpr hguard.1) hguard.2 hl

/-- Behind the constructor of `SocketLoop`. -/
def new (maxSocket efd : Nat) : Notifier where
  loop := SocketLoop.new maxSocket efd
  eventFd := ⟨0, false⟩
  writing := []
  reading := false

/-- The step does not close the notifier's slot. -/
def Spares (w : Notifier) (a : Label) : Prop := ∀ w' ∈ w.step a, w'.loop.pc.closes ≠ some 0

instance (w : Notifier) (a : Label) : Decidable (w.Spares a) :=
  inferInstanceAs (Decidable (∀ w' ∈ w.step a, _))

/-- The edge of the notifier is pending in epoll. -/
def Pending (w : Notifier) : Prop :=
  w.eventFd.Ready ∧ ∃ fd, (w.loop.slot 0).fd = some fd ∧
    w.loop.poll.epoll fd = some ⟨true, false, 0⟩

/-! ## The invariant -/

/-- Whoever will see a queue that is not empty: a thread that is yet to write, `handleCmd`,
or an event of the notifier, in the batch or in epoll. -/
structure Woken (w : Notifier) (efd : Nat) : Prop where
  numbered : w.loop.Numbered
  keeps : w.loop.Keeps efd
  idles : w.loop.pc.Idles → w.loop.event = []
  reading : w.reading = true → w.loop.pc = .resume .command
  woken : w.loop.queue ≠ [] → w.writing ≠ [] ∨ w.loop.pc.InHandleCmd ∨
    (∃ e ∈ w.loop.event, e.ud = 0) ∨ w.eventFd.Ready

section Woken

variable {w w' : Notifier} {efd : Nat} {l : SocketLoop} {env : SocketLoop.Env}

theorem woken_new (maxSocket efd : Nat) : (new maxSocket efd).Woken efd where
  numbered := SocketLoop.numbered_new maxSocket efd
  keeps := SocketLoop.keeps_new maxSocket efd
  idles := fun _ => rfl
  reading := fun h => Bool.noConfusion h
  woken := absurd rfl

/-- A thread that pushes owes a write. -/
theorem Woken.caller (h : w.Woken efd) {tid : Nat} {a : SocketLoop.Action}
    (hnet : a.isNet = false) (hstep : w.loop.step a = some l) (hcloses : l.pc.closes ≠ some 0) :
    Woken { w with
      loop := l
      writing := if a.pushes then tid :: w.writing else w.writing } efd := by
  have hloop : w.loop.LoopStep a l := SocketLoop.step_cases hstep
  obtain ⟨hpc, hevent, hqueue⟩ := hloop.caller_eq hnet
  refine ⟨h.numbered.step hloop, h.keeps.step h.numbered hloop hcloses, ?_, ?_, ?_⟩
  · show l.pc.Idles → l.event = []
    rw [hpc, hevent]
    exact h.idles
  · show w.reading = true → l.pc = .resume .command
    rw [hpc]
    exact h.reading
  · show l.queue ≠ [] → _ ∨ l.pc.InHandleCmd ∨ (∃ e ∈ l.event, e.ud = 0) ∨ w.eventFd.Ready
    rw [hpc, hevent]
    intro hne
    cases hpushes : a.pushes with
    | true => exact .inl (by simp)
    | false =>
      rw [hqueue hpushes] at hne
      exact h.woken hne

/-- A write makes the notifier's event ready. -/
theorem Woken.write (h : w.Woken efd) (tid : Nat) : Woken { w with
    eventFd := w.eventFd.write w.registered
    writing := w.writing.erase tid } efd := by
  have hregistered : w.registered = true := by
    simp [Notifier.registered, (h.keeps.slots 0).1, h.keeps.registered]
  refine { h with woken := ?_ }
  intro _
  rw [hregistered]
  exact .inr (.inr (.inr (EventFd.ready_write w.eventFd)))

/-- The `read` is in `handleCmd`, in front of the loop over the queue. -/
theorem Woken.read (h : w.Woken efd) (hreading : w.reading = true) :
    Woken { w with eventFd := w.eventFd.read, reading := false } efd := by
  refine { h with reading := fun hfalse => Bool.noConfusion hfalse, woken := ?_ }
  intro _
  refine .inr (.inl (.inl ?_))
  rw [h.reading hreading, Pc.resumes]

/-- `runOnce` calls `handleCmd`. -/
theorem pc_of_atNotify {l₀ : SocketLoop} (hstep : l₀.netStep env = some l)
    (h : l₀.atNotify = true) : l.pc = .resume .command := by
  obtain ⟨hpc, hhead⟩ := of_decide_eq_true h
  cases hevent : l₀.event with
  | nil => simp [hevent] at hhead
  | cons e rest =>
    have htype : (l₀.slot e.ud).type = .notify := by simpa [hevent] using hhead
    simp only [SocketLoop.netStep, hpc, hevent, Option.some.injEq] at hstep
    simp [← hstep, SocketLoop.handleEvent, htype]

/-- An event of the notifier that `epoll_wait` reports is in the batch. -/
theorem mem_of_reportsNotifier {l₀ : SocketLoop} (hkeeps : l₀.Keeps efd)
    (hstep : l₀.netStep env = some l) (h : l₀.reportsNotifier env = true) :
    ∃ e ∈ l.event, e.ud = 0 := by
  obtain ⟨hpc, hready⟩ := of_decide_eq_true h
  obtain ⟨r, hr, hfd⟩ := List.any_eq_true.mp hready
  have hefd : r.1 = efd := by
    rw [decide_eq_true_iff, (hkeeps.slots 0).1] at hfd
    exact (Option.some.inj hfd).symm
  simp only [SocketLoop.netStep, hpc, SocketLoop.wait] at hstep
  split at hstep
  · cases hstep
    refine ⟨⟨0, r.2.1, r.2.2, (l₀.files r.1).map File.owner⟩, ?_, rfl⟩
    apply List.mem_filterMap.mpr
    refine ⟨r, hr, ?_⟩
    rw [hefd, hkeeps.registered]
    rfl
  · cases hstep

/-- The loop's thread passes the event on, and sees the queue empty in the end. -/
theorem Woken.net (h : w.Woken efd) (hstep : w.loop.netStep env = some l)
    (hcloses : l.pc.closes ≠ some 0) : Woken { w with
      loop := l
      eventFd := if w.loop.reportsNotifier env then w.eventFd.report else w.eventFd
      reading := w.loop.atNotify } efd := by
  have hnet : w.loop.NetStep env l := SocketLoop.netStep_cases hstep
  refine ⟨h.numbered.net hnet, h.keeps.net hnet hcloses, hnet.event_eq_nil h.idles,
    pc_of_atNotify hstep, ?_⟩
  intro hqueue
  have hne : w.loop.queue ≠ [] := by
    rcases hnet.queue_cases with ⟨hsame, -⟩ | ⟨cmd, -, hpop, -⟩
    · exact hsame ▸ hqueue
    · rw [hpop]
      exact List.cons_ne_nil _ _
  rcases h.woken hne with hwriting | hpc | ⟨e, he, hud⟩ | hready
  · exact .inl hwriting
  · exact .inr (.inl ((hnet.inHandleCmd hpc).resolve_right hqueue))
  · have hnotify : (w.loop.slot e.ud).type = .notify := hud ▸ h.keeps.type_zero
    rcases hnet.notifier_event h.idles he hnotify with hpc | he
    · exact .inr (.inl hpc)
    · exact .inr (.inr (.inl ⟨e, he, hud⟩))
  · cases hreports : w.loop.reportsNotifier env with
    | true => exact .inr (.inr (.inl (mem_of_reportsNotifier h.keeps hstep hreports)))
    | false => exact .inr (.inr (.inr hready))

/-- Every step that does not close the notifier's slot keeps the queue watched. -/
theorem Woken.step (h : w.Woken efd) {a : Label} (hspares : w.Spares a)
    (hstep : w.step a = some w') : w'.Woken efd := by
  have hcloses : w'.loop.pc.closes ≠ some 0 := hspares w' hstep
  cases step_cases hstep with
  | caller tid a l _ hnet hl => exact h.caller hnet hl hcloses
  | write tid => exact h.write tid
  | read hreading => exact h.read hreading
  | net env l _ _ hl => exact h.net hl hcloses

end Woken

/-- The loop of a notifier runs as any loop does. -/
theorem runs_loop {G : Notifier → Label → Prop} {maxSocket efd : Nat} {w : Notifier}
    (h : Runs step G (new maxSocket efd) w) :
    Runs SocketLoop.step (fun _ _ => True) (SocketLoop.new maxSocket efd) w.loop := by
  apply Runs.project loop _ h
  intro x a y _ hstep
  cases step_cases hstep with
  | caller tid a l _ _ hl => exact .inr ⟨a, trivial, hl⟩
  | net env l _ _ hl => exact .inr ⟨.net env, trivial, hl⟩
  | write | read => exact .inl rfl

/-- **No queued command is forgotten**: while nobody is about to write, a queue that is not
empty is in the hands of `handleCmd`, or an event of the notifier is in the batch or pending
in epoll. -/
theorem no_command_forgotten (maxSocket efd : Nat) {w : Notifier}
    (h : Runs step Spares (new maxSocket efd) w) (hqueue : w.loop.queue ≠ [])
    (hwriting : w.writing = []) :
    w.loop.pc.InHandleCmd ∨
    (∃ e ∈ w.loop.event, e.ud = 0 ∧ (w.loop.slot e.ud).type = .notify) ∨ w.Pending := by
  have hwoken : w.Woken efd := by
    apply h.invariant _ (woken_new maxSocket efd)
    intro x a y hx hspares hstep
    exact hx.step hspares hstep
  rcases hwoken.woken hqueue with hwrites | hpc | ⟨e, he, hud⟩ | hready
  · exact absurd hwriting hwrites
  · exact .inl hpc
  · exact .inr (.inl ⟨e, he, hud, hud ▸ hwoken.keeps.type_zero⟩)
  · exact .inr (.inr ⟨hready, efd, (hwoken.keeps.slots 0).1, hwoken.keeps.registered⟩)

/-- A second thread comes between the last look at the queue and the next `epoll_wait`. -/
theorem no_command_forgotten_of_race : ∃ w, Runs step Spares (new 2 3) w ∧
    w.loop.pc = .polling ∧ w.loop.queue.length = 1 ∧
    (w.loop.pc.InHandleCmd ∨
      (∃ e ∈ w.loop.event, e.ud = 0 ∧ (w.loop.slot e.ud).type = .notify) ∨ w.Pending) := by
  have hexec : ∃ w, Runs step Spares (new 2 3) w ∧
      decide (w.loop.pc = .polling ∧ w.loop.queue.length = 1 ∧ w.writing = []) = true :=
    exists_runs_of_schedule (new 2 3) [.caller 7 (.close 1 none .self), .write 7,
      .net { ready := [(3, true, false)] }, .net {}, .read, .net {}, .net {}, .net {},
      .caller 8 (.close 1 none .self), .net {}, .net {}, .write 8] _ (by decide)
  obtain ⟨w, hw, hrest⟩ := hexec
  obtain ⟨hpc, hqueue, hwriting⟩ := of_decide_eq_true hrest
  refine ⟨w, hw, hpc, hqueue, no_command_forgotten 2 3 hw ?_ hwriting⟩
  exact List.ne_nil_of_length_pos (hqueue ▸ Nat.one_pos)


end Notifier

end StormNet.Net
