/-
  Net/LoopStep.lean --- the steps of the loop's thread, case by case.

  `NetStep` lists what `netStep` can do, with the state it leaves; `netStep_cases` says
  that the list is complete.  `LoopChange` takes the same steps apart into small changes
  that know what is around them; here a step is one case, with the branch of the source
  it took and the values it read.  The fields that only record, `applied` and `backlog`,
  are left open.
-/
import StormNet.Net.LoopChange

set_option autoImplicit false

namespace StormNet.Net

open Function (update update_self update_of_ne)
open StormNet.Util (TimeList)

/-- Where the thread goes on behind the `handleRead` of the event. -/
def SocketEvent.Behind (e : SocketEvent) (k : Resume) : Prop :=
  k = .event ∨ k = .write e.ud e.target

/-- A reply that asks for the close is about a connected socket. -/
theorem status_of_needClose_handleWrite {s : Socket} {poll : SocketPoller}
    {results : List WriteResult} (h : (handleWrite s poll results).needClose = true) :
    s.status = .connected := by
  by_contra hstatus
  rw [handleWrite, if_pos hstatus] at h
  cases h

namespace SocketLoop

variable {l l' : SocketLoop} {env : Env}

/-! ## What `closeFd` leaves -/

section CloseFd

variable (l : SocketLoop) (fd : Option Nat)

theorem closeFd_eq : l.closeFd fd = { l with
    files := (l.closeFd fd).files, poll := (l.closeFd fd).poll } := by
  unfold closeFd
  split <;> rfl

@[simp] theorem closeFd_slot : (l.closeFd fd).slot = l.slot := by rw [closeFd_eq]

@[simp] theorem closeFd_queue : (l.closeFd fd).queue = l.queue := by rw [closeFd_eq]

@[simp] theorem closeFd_event : (l.closeFd fd).event = l.event := by rw [closeFd_eq]

@[simp] theorem closeFd_connTimeout : (l.closeFd fd).connTimeout = l.connTimeout := by
  rw [closeFd_eq]

@[simp] theorem closeFd_maxSocket : (l.closeFd fd).maxSocket = l.maxSocket := by
  rw [closeFd_eq]

@[simp] theorem closeFd_call : (l.closeFd fd).call = l.call := by rw [closeFd_eq]

end CloseFd

/-! ## The cases -/

/-- The events that `epoll_wait` reports. -/
def reported (l : SocketLoop) (ready : List (Nat × Bool × Bool)) : List SocketEvent :=
  ready.filterMap (fun r => (l.poll.epoll r.1).map (fun event =>
    ⟨event.ud, r.2.1, r.2.2, (l.files r.1).map File.owner⟩))

/-- `runOnce` is at the event `e` for a slot of type Normal. -/
structure AtEvent (l : SocketLoop) (e : SocketEvent) (rest : List SocketEvent) : Prop where
  pc : l.pc = .resume .event
  event : l.event = e :: rest
  type : (l.slot e.ud).type = .normal

/-- `runOnce` is at the `handleWrite` for the slot `i`: the event reports nothing to read, or
its `handleRead` is over. -/
def Writes (l : SocketLoop) (i : Nat) (rest : List SocketEvent) : Prop :=
  (∃ e, l.AtEvent e rest ∧ e.ud = i ∧ (l.slot i).status ≠ .connecting ∧ e.read = false ∧
    e.write = true) ∨
  ∃ target, l.pc = .resume (.write i target) ∧ l.event = rest

/-- What a step of the loop's thread can do, case by case. -/
inductive NetStep (l : SocketLoop) (env : Env) : SocketLoop → Prop
  | polled : l.pc = .polling → (∀ r ∈ env.ready, (l.poll.epoll r.1).isSome) →
      NetStep l env { l with event := l.reported env.ready, pc := .resume .event }
  | batchDone : l.pc = .resume .event → l.event = [] →
      NetStep l env { l with pc := .sweeping }
  | notified (e : SocketEvent) (rest : List SocketEvent) (applied : List Delivery) :
      l.pc = .resume .event → l.event = e :: rest → (l.slot e.ud).type = .notify →
      NetStep l env { l with event := rest, applied := applied, pc := .resume .command }
  | listening (e : SocketEvent) (rest : List SocketEvent) (applied : List Delivery) :
      l.pc = .resume .event → l.event = e :: rest → (l.slot e.ud).type = .listen →
      NetStep l env { l with event := rest, applied := applied, pc := .accepting e.ud }
  | connected (e : SocketEvent) (rest : List SocketEvent) (applied : List Delivery) (fd : Nat) :
      l.AtEvent e rest → (l.slot e.ud).status = .connecting → (l.slot e.ud).fd = some fd →
      NetStep l env { l with
        event := rest
        applied := applied
        connTimeout := l.connTimeout.del (l.slot e.ud).id
        slot := update l.slot e.ud { l.slot e.ud with status := .connected }
        poll := l.poll.delEvent fd .epWrite e.ud
        pc := .onConnect e.ud .event }
  | refused (e : SocketEvent) (rest : List SocketEvent) (applied : List Delivery) :
      l.AtEvent e rest → (l.slot e.ud).status = .connecting →
      NetStep l env { closeFd { l with
        event := rest
        applied := applied
        connTimeout := l.connTimeout.del (l.slot e.ud).id } (l.slot e.ud).fd with
          pc := .closing e.ud .connectFail .event }
  | skipped (e : SocketEvent) (rest : List SocketEvent) (applied : List Delivery) (k : Resume) :
      l.AtEvent e rest → (l.slot e.ud).status ≠ .connecting → e.Behind k →
      NetStep l env { l with event := rest, applied := applied, pc := .resume k }
  | read (e : SocketEvent) (rest : List SocketEvent) (applied : List Delivery) (k : Resume)
      (r : Option IoBuffer) :
      l.AtEvent e rest → (l.slot e.ud).status = .connected → e.Behind k → e.read = true →
      NetStep l env { l with
        event := rest
        applied := applied
        slot := update l.slot e.ud { l.slot e.ud with readBuffer := r }
        pc := .onData e.ud k }
  | readClosed (e : SocketEvent) (rest : List SocketEvent) (applied : List Delivery)
      (k : Resume) (r : Option IoBuffer) :
      l.AtEvent e rest → (l.slot e.ud).status = .connected → e.Behind k → e.read = true →
      NetStep l env { closeFd { l with
        event := rest
        applied := applied
        slot := update l.slot e.ud { l.slot e.ud with readBuffer := r } } (l.slot e.ud).fd with
          pc := .closing e.ud .peer k }
  | wrote (i : Nat) (rest : List SocketEvent) (applied : List Delivery)
      (backlog : Nat → List (Option Conn)) : l.Writes i rest →
      (Net.handleWrite (l.slot i) l.poll env.writes).needClose = false →
      NetStep l env { l with
        event := rest
        applied := applied
        backlog := backlog
        slot := update l.slot i { l.slot i with
          writeBuffer := (Net.handleWrite (l.slot i) l.poll env.writes).socket.writeBuffer }
        poll := (Net.handleWrite (l.slot i) l.poll env.writes).poll
        pc := .resume .event }
  | writeClosed (i : Nat) (rest : List SocketEvent) (applied : List Delivery)
      (backlog : Nat → List (Option Conn)) : l.Writes i rest →
      (Net.handleWrite (l.slot i) l.poll env.writes).needClose = true →
      NetStep l env { closeFd { l with
        event := rest
        applied := applied
        backlog := backlog
        slot := update l.slot i { l.slot i with
          writeBuffer := (Net.handleWrite (l.slot i) l.poll env.writes).socket.writeBuffer }
        poll := (Net.handleWrite (l.slot i) l.poll env.writes).poll } (l.slot i).fd with
          pc := .closing i .peer .event }
  | commandsDone : l.pc = .resume .command → l.queue = [] →
      NetStep l env { l with pc := .resume .event }
  | popped (cmd : SocketCmd) (rest : List SocketCmd) :
      l.pc = .resume .command → l.queue = cmd :: rest →
      NetStep l env { l with queue := rest, pc := .running cmd }
  | erased : l.pc = .resume .erase →
      NetStep l env { l with connTimeout := l.connTimeout.eraseFront, pc := .sweeping }
  | connectIgnored (id : Int) (target : Option Conn) :
      l.pc = .running ⟨.connect, id, target⟩ → l.getSocket id = none →
      NetStep l env { l with pc := .resume .command }
  | connectFailed (id : Int) (target : Option Conn) (i : Nat) :
      l.pc = .running ⟨.connect, id, target⟩ → l.getSocket id = some i →
      env.connect = .failed → NetStep l env { l with pc := .failing i }
  | connectDone (id : Int) (target : Option Conn) (i fd : Nat) :
      l.pc = .running ⟨.connect, id, target⟩ → l.getSocket id = some i →
      env.connect = .done fd → l.files fd = none →
      NetStep l env { l with
        files := update l.files fd (some ⟨l.occupant i, false⟩)
        slot := update l.slot i { l.slot i with fd := some fd, status := .connected }
        pc := .onConnect i .command }
  | connectInProgress (id : Int) (target : Option Conn) (i fd : Nat) :
      l.pc = .running ⟨.connect, id, target⟩ → l.getSocket id = some i →
      env.connect = .inProgress fd → l.files fd = none →
      NetStep l env { l with
        files := update l.files fd (some ⟨l.occupant i, false⟩)
        slot := update l.slot i { l.slot i with fd := some fd, status := .connecting }
        poll := l.poll.addEvent fd .epWrite i
        connTimeout := l.connTimeout.add id.toNat env.now
        pc := .resume .command }
  | listened (id : Int) (target : Option Conn) (poll : SocketPoller) :
      l.pc = .running ⟨.listen, id, target⟩ →
      (poll = l.poll ∨ ∃ i fd, (l.slot i).fd = some fd ∧ poll = (l.poll.addToRead fd i).1) →
      NetStep l env { l with poll := poll, pc := .resume .command }
  | sendIgnored (id : Int) (target : Option Conn) (buffer : IoBuffer) :
      l.pc = .running ⟨.send buffer, id, target⟩ →
      (∀ i, l.getSocket id = some i → (l.slot i).status ≠ .connected) →
      NetStep l env { l with pc := .resume .command }
  | sent (id : Int) (target : Option Conn) (buffer : IoBuffer) (i : Nat)
      (applied : List Delivery) (backlog : Nat → List (Option Conn)) :
      l.pc = .running ⟨.send buffer, id, target⟩ → l.getSocket id = some i →
      (l.slot i).status = .connected →
      (Net.sendSocket (l.slot i) l.poll buffer env.writes).needClose = false →
      NetStep l env { l with
        applied := applied
        backlog := backlog
        slot := update l.slot i { l.slot i with
          writeBuffer :=
            (Net.sendSocket (l.slot i) l.poll buffer env.writes).socket.writeBuffer }
        poll := (Net.sendSocket (l.slot i) l.poll buffer env.writes).poll
        pc := .resume .command }
  | sendClosed (id : Int) (target : Option Conn) (buffer : IoBuffer) (i : Nat)
      (applied : List Delivery) (backlog : Nat → List (Option Conn)) :
      l.pc = .running ⟨.send buffer, id, target⟩ → l.getSocket id = some i →
      (l.slot i).status = .connected →
      (Net.sendSocket (l.slot i) l.poll buffer env.writes).needClose = true →
      NetStep l env { closeFd { l with
        applied := applied
        backlog := backlog
        slot := update l.slot i { l.slot i with
          writeBuffer :=
            (Net.sendSocket (l.slot i) l.poll buffer env.writes).socket.writeBuffer }
        poll := (Net.sendSocket (l.slot i) l.poll buffer env.writes).poll } (l.slot i).fd with
          pc := .closing i .peer .command }
  | closeIgnored (id : Int) (target : Option Conn) (closeType : CloseType) :
      l.pc = .running ⟨.close closeType, id, target⟩ →
      NetStep l env { l with pc := .resume .command }
  | closed (id : Int) (target : Option Conn) (closeType : CloseType) (i : Nat)
      (applied : List Delivery) : l.pc = .running ⟨.close closeType, id, target⟩ →
      l.getSocket id = some i → l.inUse i →
      NetStep l env { closeFd { l with applied := applied } (l.slot i).fd with
        pc := .closing i closeType .command }
  | exited (id : Int) (target : Option Conn) : l.pc = .running ⟨.exit, id, target⟩ →
      NetStep l env { l with running := false, pc := .resume .command }
  | acceptDone (i : Nat) : l.pc = .accepting i →
      NetStep l env { l with pc := .resume .event }
  | acceptAgain (i allocId : Nat) : l.pc = .accepting i →
      NetStep l env { l with allocId := allocId }
  | accepted (i j fd allocId : Nat) : l.pc = .accepting i → (l.slot j).status = .idle →
      l.hash j = j → l.files fd = none →
      NetStep l env { l with
        allocId := allocId
        slot := update l.slot j { l.slot j with
          id := j, fd := some fd, type := .normal, status := .connected,
          handler := (l.slot i).handler }
        gen := update l.gen j (l.gen j + 1)
        files := update l.files fd (some ⟨⟨j, l.gen j + 1⟩, false⟩)
        poll := (l.poll.addToRead fd j).1
        pc := .onAccept j i }
  | swept : l.pc = .sweeping → l.connTimeout.due env.now = none →
      NetStep l env { l with pc := .polling }
  | sweepIgnored (id : Nat) : l.pc = .sweeping → l.connTimeout.due env.now = some id →
      NetStep l env { l with pc := .resume .erase }
  | sweepClosed (id : Nat) : l.pc = .sweeping → l.connTimeout.due env.now = some id →
      l.inUse (l.hash id) →
      NetStep l env { l.closeFd (l.slot (l.hash id)).fd with
        pc := .closing (l.hash id) .connTimeOut .erase }
  | connectOver (i : Nat) (k : Resume) (poll : SocketPoller) : l.pc = .onConnect i k →
      (poll = l.poll ∨ ∃ fd, (l.slot i).fd = some fd ∧ poll = l.poll.addEvent fd .epRead i) →
      NetStep l env { l with poll := poll, pc := .resume k }
  | acceptOver (i listener : Nat) : l.pc = .onAccept i listener →
      NetStep l env { l with pc := .accepting listener }
  | dataOver (i : Nat) (k : Resume) : l.pc = .onData i k →
      NetStep l env { l with
        slot := update l.slot i { l.slot i with readBuffer := env.handled.1 }
        pc := .resume k }
  | dataClosed (i : Nat) (k : Resume) : l.pc = .onData i k → l.inUse i →
      NetStep l env { closeFd { l with
        slot := update l.slot i { l.slot i with readBuffer := env.handled.1 } }
          (l.slot i).fd with pc := .closing i .self k }
  | cleared (i : Nat) (closeType : CloseType) (k : Resume) : l.pc = .closing i closeType k →
      NetStep l env { l.clear i with pc := .resume k }
  | idled (i : Nat) : l.pc = .failing i →
      NetStep l env { l with
        slot := update l.slot i { l.slot i with status := .idle }
        pc := .resume .command }

section Cases

/-- `forceClose` closes a slot in use and leaves any other. -/
theorem forceClose_cases {P : SocketLoop → Prop} {i : Nat} {closeType : CloseType} {k : Resume}
    (hclose : l.inUse i → P { l.closeFd (l.slot i).fd with pc := .closing i closeType k })
    (hleave : ¬ l.inUse i → P { l with pc := .resume k }) : P (l.forceClose i closeType k) := by
  unfold forceClose
  split
  · exact hclose ‹_›
  · exact hleave ‹_›

theorem forceClose_slot (l : SocketLoop) (i : Nat) (closeType : CloseType) (k : Resume) :
    (l.forceClose i closeType k).slot = l.slot := by
  unfold forceClose
  split
  · exact closeFd_slot _ _
  · rfl

theorem inUse_of_connecting {i : Nat} (h : (l.slot i).status = .connecting) : l.inUse i := by
  simp [inUse, h]

theorem inUse_of_connected {i : Nat} (h : (l.slot i).status = .connected) : l.inUse i := by
  simp [inUse, h]

theorem netStep_handleConnect {e : SocketEvent} {rest : List SocketEvent}
    {applied : List Delivery} (hat : l.AtEvent e rest)
    (hstatus : (l.slot e.ud).status = .connecting) :
    NetStep l env
      (handleConnect { l with event := rest, applied := applied } e.ud env.soError) := by
  dsimp only [handleConnect]
  split
  · rename_i hfd _
    exact .connected e rest applied _ hat hstatus hfd
  · apply forceClose_cases
    · intro _
      exact .refused e rest applied hat hstatus
    · intro hnot
      exact absurd (inUse_of_connecting hstatus) hnot

theorem netStep_handleRead {e : SocketEvent} {rest : List SocketEvent}
    {applied : List Delivery} {k : Resume} (hat : l.AtEvent e rest)
    (hstatus : (l.slot e.ud).status ≠ .connecting) (hk : e.Behind k) (hread : e.read = true) :
    NetStep l env (handleRead { l with event := rest, applied := applied } e.ud env k) := by
  dsimp only [handleRead]
  split
  · exact .skipped e rest applied k hat hstatus hk
  · rename_i hconnected
    rw [not_not] at hconnected
    generalize readLoop env.reads ((l.slot e.ud).readBuffer.getD env.pooled) = r
    obtain ⟨buffer, needClose⟩ := r
    dsimp only
    split
    · apply forceClose_cases
      · intro _
        have hclosed : NetStep l env _ :=
          .readClosed e rest applied k (some buffer) hat hconnected hk hread
        simpa only [update_self] using hclosed
      · intro hnot
        refine absurd (inUse_of_connected ?_) hnot
        simpa only [update_self] using hconnected
    · exact .read e rest applied k (some buffer) hat hconnected hk hread

/-- A reply is put in place, and the slot is closed if it asks for that. -/
theorem writeReply_cases {P : SocketLoop → Prop} {i : Nat} {reply : WriteReply}
    {targets : List (Option Conn)} {k : Resume} (hfollows : reply.Follows (l.slot i) l.poll)
    (hstatus : reply.needClose = true → (l.slot i).status = .connected)
    (hopen : ∀ applied backlog, reply.needClose = false → P { l with
      applied := applied
      backlog := backlog
      slot := update l.slot i { l.slot i with writeBuffer := reply.socket.writeBuffer }
      poll := reply.poll
      pc := .resume k })
    (hclose : ∀ applied backlog, reply.needClose = true → P { closeFd { l with
      applied := applied
      backlog := backlog
      slot := update l.slot i { l.slot i with writeBuffer := reply.socket.writeBuffer }
      poll := reply.poll } (l.slot i).fd with pc := .closing i .peer k }) :
    P (l.writeReply i reply targets k) := by
  rw [← hfollows.socket] at hopen hclose
  dsimp only [writeReply]
  split
  · rename_i hneed
    apply forceClose_cases
    · intro _
      have hfd : reply.socket.fd = (l.slot i).fd := by rw [hfollows.socket]
      simp only [update_self, hfd]
      exact hclose _ _ hneed
    · intro hnot
      have hsocket : reply.socket.status = .connected := by
        rw [hfollows.socket]
        exact hstatus hneed
      refine absurd (inUse_of_connected ?_) hnot
      simpa only [update_self] using hsocket
  · exact hopen _ _ (Bool.eq_false_iff.mpr ‹_›)

theorem netStep_handleWrite {i : Nat} {rest : List SocketEvent} {applied : List Delivery}
    (hwrites : l.Writes i rest) :
    NetStep l env (handleWrite { l with event := rest, applied := applied } i env) := by
  apply writeReply_cases
  · exact follows_handleWrite _ _ _
  · exact status_of_needClose_handleWrite
  · intro applied backlog hneed
    exact .wrote i rest applied backlog hwrites hneed
  · intro applied backlog hneed
    exact .writeClosed i rest applied backlog hwrites hneed

theorem netStep_handleEvent {e : SocketEvent} {rest : List SocketEvent}
    (hpc : l.pc = .resume .event) (hevent : l.event = e :: rest) :
    NetStep l env (handleEvent { l with event := rest } e env) := by
  have hbehind : e.Behind (if e.write then .write e.ud e.target else .event) := by
    cases e.write with
    | true => exact .inr rfl
    | false => exact .inl rfl
  -- the note of the delivery changes nothing but the record
  have hnote : ∃ applied, (if inUse { l with event := rest } e.ud then
      deliver { l with event := rest } .event [e.target] e.ud else { l with event := rest }) =
      { l with event := rest, applied := applied } := by
    split
    · exact ⟨_, rfl⟩
    · exact ⟨l.applied, rfl⟩
  obtain ⟨applied, hnote⟩ := hnote
  dsimp only [handleEvent]
  rw [hnote]
  cases htype : (l.slot e.ud).type with
  | notify => exact .notified e rest applied hpc hevent htype
  | listen => exact .listening e rest applied hpc hevent htype
  | normal =>
    have hat : l.AtEvent e rest := ⟨hpc, hevent, htype⟩
    dsimp only
    split
    · exact netStep_handleConnect hat ‹_›
    · rename_i hstatus
      split
      · exact netStep_handleRead hat hstatus hbehind ‹_›
      · rename_i hread
        split
        · exact netStep_handleWrite
            (.inl ⟨e, hat, rfl, hstatus, Bool.eq_false_iff.mpr hread, ‹_›⟩)
        · exact .skipped e rest applied .event hat hstatus (.inl rfl)

theorem netStep_connectSocket {id : Int} {target : Option Conn}
    (hpc : l.pc = .running ⟨.connect, id, target⟩) (h : l.connectSocket id env = some l') :
    NetStep l env l' := by
  unfold connectSocket at h
  cases hi : l.getSocket id with
  | none =>
    simp only [hi, Option.some.injEq] at h
    exact h ▸ .connectIgnored id target hpc hi
  | some i =>
    simp only [hi] at h
    split at h
    · exact Option.some.inj h ▸ .connectFailed id target i hpc hi ‹_›
    · rename_i fd hresult
      split at h
      · cases h
      · rename_i hfd
        rw [Bool.not_eq_true, Option.isSome_eq_false_iff, Option.isNone_iff_eq_none] at hfd
        exact Option.some.inj h ▸ .connectDone id target i fd hpc hi hresult hfd
    · rename_i fd hresult
      split at h
      · cases h
      · rename_i hfd
        rw [Bool.not_eq_true, Option.isSome_eq_false_iff, Option.isNone_iff_eq_none] at hfd
        exact Option.some.inj h ▸ .connectInProgress id target i fd hpc hi hresult hfd

theorem netStep_listenSocket {id : Int} {target : Option Conn}
    (hpc : l.pc = .running ⟨.listen, id, target⟩) : NetStep l env (l.listenSocket id) := by
  refine .listened id target _ hpc ?_
  split
  · rename_i i _
    split
    · rename_i fd hfd
      exact .inr ⟨i, fd, hfd, rfl⟩
    · exact .inl rfl
  · exact .inl rfl

theorem netStep_sendSocket {id : Int} {target : Option Conn} {buffer : IoBuffer}
    (hpc : l.pc = .running ⟨.send buffer, id, target⟩) :
    NetStep l env (l.sendSocket ⟨.send buffer, id, target⟩ buffer env) := by
  unfold sendSocket
  cases hi : l.getSocket id with
  | none => exact .sendIgnored id target buffer hpc (by simp [hi])
  | some i =>
    dsimp only
    split
    · rename_i hstatus
      refine .sendIgnored id target buffer hpc (fun j hj => ?_)
      rw [hi, Option.some.injEq] at hj
      exact hj ▸ hstatus
    · rename_i hstatus
      rw [not_not] at hstatus
      apply writeReply_cases
      · exact follows_sendSocket _ _ _ _
      · exact fun _ => hstatus
      · intro applied backlog hneed
        exact .sent id target buffer i applied backlog hpc hi hstatus hneed
      · intro applied backlog hneed
        exact .sendClosed id target buffer i applied backlog hpc hi hstatus hneed

/-- A Close command on a slot in use goes to `forceClose`. -/
theorem closeCmd_of_inUse {cmd : SocketCmd} {closeType : CloseType} {i : Nat}
    (hi : l.getSocket cmd.id = some i) (huse : l.inUse i) : l.closeCmd cmd closeType =
      (l.deliver .command [cmd.target] i).forceClose i closeType .command := by
  have hi' : (l.deliver .command [cmd.target] i).getSocket cmd.id = some i := hi
  unfold closeCmd
  dsimp only
  rw [hi]
  dsimp only
  rw [if_pos huse, closeSocket, hi']

theorem netStep_closeCmd {id : Int} {target : Option Conn} {closeType : CloseType}
    (hpc : l.pc = .running ⟨.close closeType, id, target⟩) :
    NetStep l env (l.closeCmd ⟨.close closeType, id, target⟩ closeType) := by
  cases hi : l.getSocket id with
  | none =>
    unfold closeCmd closeSocket
    dsimp only
    rw [hi]
    dsimp only
    rw [hi]
    exact .closeIgnored id target closeType hpc
  | some i =>
    by_cases huse : l.inUse i
    · rw [closeCmd_of_inUse hi huse]
      apply forceClose_cases
      · intro _
        exact .closed id target closeType i _ hpc hi huse
      · intro hnot
        exact absurd huse hnot
    · unfold closeCmd closeSocket
      dsimp only
      rw [hi]
      dsimp only
      rw [if_neg huse, hi]
      apply forceClose_cases
      · intro huse'
        exact absurd huse' huse
      · intro _
        exact .closeIgnored id target closeType hpc

theorem netStep_handleOneCmd {cmd : SocketCmd} (hpc : l.pc = .running cmd)
    (h : l.handleOneCmd cmd env = some l') : NetStep l env l' := by
  obtain ⟨type, id, target⟩ := cmd
  unfold handleOneCmd at h
  cases type with
  | connect => exact netStep_connectSocket hpc h
  | listen => exact Option.some.inj h ▸ netStep_listenSocket hpc
  | send buffer => exact Option.some.inj h ▸ netStep_sendSocket hpc
  | close closeType => exact Option.some.inj h ▸ netStep_closeCmd hpc
  | exit => exact Option.some.inj h ▸ .exited id target hpc

theorem netStep_handleAccept {i : Nat} (hpc : l.pc = .accepting i)
    (h : l.handleAccept i env.accept = some l') : NetStep l env l' := by
  unfold handleAccept at h
  split at h
  · exact Option.some.inj h ▸ .acceptDone i hpc
  · exact Option.some.inj h ▸ .acceptDone i hpc
  · exact Option.some.inj h ▸ .acceptAgain i l.allocId hpc
  · rename_i fd _
    split at h
    · rename_i hlisten
      obtain ⟨allocId, hnone | ⟨j, hidle, hhash, hsome⟩⟩ := tryNewSocket_cases l
      · rw [hnone] at h
        exact Option.some.inj h ▸ .acceptAgain i allocId hpc
      · simp only [hsome, Option.some.injEq, occupant, update_self, Function.update_idem] at h
        exact h ▸ .accepted i j fd allocId hpc hidle hhash
          (Option.isNone_iff_eq_none.mp hlisten.2)
    · cases h

theorem netStep_closeSocket {id : Nat} (hpc : l.pc = .sweeping)
    (hdue : l.connTimeout.due env.now = some id) :
    NetStep l env (l.closeSocket id .connTimeOut .erase) := by
  have hi : l.getSocket id = some (l.hash id) := by
    rw [getSocket, if_neg (by omega), Int.toNat_natCast]
  unfold closeSocket
  rw [hi]
  apply forceClose_cases
  · exact .sweepClosed id hpc hdue
  · intro _
    exact .sweepIgnored id hpc hdue

/-- The cases are all there is. -/
theorem netStep_cases (h : l.netStep env = some l') : NetStep l env l' := by
  unfold netStep at h
  split at h
  case h_1 hpc =>
    unfold wait at h
    split at h
    · exact Option.some.inj h ▸ .polled hpc ‹_›
    · cases h
  case h_2 hpc =>
    split at h
    · exact Option.some.inj h ▸ .batchDone hpc ‹_›
    · exact Option.some.inj h ▸ netStep_handleEvent hpc ‹_›
  case h_3 i target hpc =>
    have hwrites : l.Writes i l.event := .inr ⟨target, hpc, rfl⟩
    cases h
    split
    · exact netStep_handleWrite hwrites
    · exact @netStep_handleWrite _ _ i l.event l.applied hwrites
  case h_4 hpc =>
    split at h
    · exact Option.some.inj h ▸ .commandsDone hpc ‹_›
    · exact Option.some.inj h ▸ .popped _ _ hpc ‹_›
  case h_5 hpc => exact Option.some.inj h ▸ .erased hpc
  case h_6 cmd hpc => exact netStep_handleOneCmd hpc h
  case h_7 i hpc => exact netStep_handleAccept hpc h
  case h_8 hpc =>
    split at h
    · exact Option.some.inj h ▸ .swept hpc ‹_›
    · exact Option.some.inj h ▸ netStep_closeSocket hpc ‹_›
  case h_9 i k hpc =>
    cases h
    refine .connectOver i k _ hpc ?_
    split
    · rename_i fd hfd
      exact .inr ⟨fd, hfd, rfl⟩
    · exact .inl rfl
  case h_10 i listener hpc => exact Option.some.inj h ▸ .acceptOver i listener hpc
  case h_11 i k hpc =>
    dsimp only at h
    split at h
    · exact Option.some.inj h ▸ .dataOver i k hpc
    · cases h
      apply forceClose_cases
      · intro huse
        have huse' : l.inUse i := by simpa only [inUse, update_self] using huse
        have hclosed : NetStep l env _ := .dataClosed i k hpc huse'
        simpa only [update_self] using hclosed
      · intro _
        exact .dataOver i k hpc
  case h_12 i closeType k hpc => exact Option.some.inj h ▸ .cleared i closeType k hpc
  case h_13 i hpc => exact Option.some.inj h ▸ .idled i hpc

end Cases

/-! ## The steps of the system -/

/-- What a step of the system can do. -/
inductive LoopStep (l : SocketLoop) : Action → SocketLoop → Prop
  | turned (op : Op) (allocId : Nat) :
      LoopStep l (.reserve op) { l with allocId := allocId }
  | reserved (op : Op) (i allocId : Nat) : l.picks (.reserve op) = some i →
      (l.slot i).status = .idle → l.hash i = i → (∀ fd, op.fd = some fd → l.files fd = none) →
      LoopStep l (.reserve op) { l with
        allocId := allocId
        slot := update l.slot i { l.slot i with id := i, fd := none, status := .reserse }
        gen := update l.gen i (l.gen i + 1)
        call := update l.call ⟨i, l.gen i + 1⟩ (some (.reserved op))
        files := op.opened ⟨i, l.gen i + 1⟩ l.files }
  | published (c : Conn) (op : Op) : l.call c = some (.reserved op) →
      LoopStep l (.publish c) { l with
        slot := update l.slot c.slot (op.fill (l.slot c.slot))
        call := update l.call c (some (.published op)) }
  | pushed (c : Conn) (op : Op) : l.call c = some (.published op) →
      LoopStep l (.push c) { l with
        call := update l.call c none
        queue := l.queue ++ [⟨op.cmdType, (l.slot c.slot).id, some c⟩] }
  | issued (a : Action) (cmd : SocketCmd) : a.cmd = some cmd →
      LoopStep l a { l with queue := l.queue ++ [cmd] }
  | net (env : Env) (l' : SocketLoop) : NetStep l env l' → LoopStep l (.net env) l'

theorem step_cases {a : Action} (h : l.step a = some l') : LoopStep l a l' := by
  cases a with
  | reserve op =>
    obtain ⟨allocId, ⟨-, rfl⟩ | ⟨i, hpicks, hidle, hhash, hfd, rfl⟩⟩ := reserve_cases h
    · exact .turned op allocId
    · exact .reserved op i allocId hpicks hidle hhash hfd
  | publish c =>
    simp only [step, publish] at h
    split at h
    · exact Option.some.inj h ▸ .published c _ ‹_›
    · cases h
  | push c =>
    simp only [step, push] at h
    split at h
    · exact Option.some.inj h ▸ .pushed c _ ‹_›
    · cases h
  | send id target buffer =>
    simp only [step] at h
    split at h
    · exact Option.some.inj h ▸ .issued _ _ rfl
    · cases h
  | close id target closeType =>
    simp only [step] at h
    split at h
    · exact Option.some.inj h ▸ .issued _ _ rfl
    · cases h
  | terminate => exact Option.some.inj h ▸ .issued _ _ rfl
  | net env => exact .net env l' (netStep_cases h)

/-! ## What the loop's thread leaves alone -/

/-- Only the callers enter and leave `connect` and `listen`. -/
theorem NetStep.call_eq (h : NetStep l env l') : l'.call = l.call := by
  cases h
  all_goals first | rfl | exact closeFd_call _ _

theorem NetStep.maxSocket_eq (h : NetStep l env l') : l'.maxSocket = l.maxSocket := by
  cases h
  all_goals first | rfl | exact closeFd_maxSocket _ _

theorem LoopStep.maxSocket_eq {a : Action} (h : LoopStep l a l') :
    l'.maxSocket = l.maxSocket := by
  cases h with
  | net env l' hnet => exact hnet.maxSocket_eq
  | _ => rfl

/-- The loop's thread queues nothing, and takes a command out to run it. -/
theorem NetStep.queue_cases (h : NetStep l env l') :
    (l'.queue = l.queue ∧ l'.pc.runs = none) ∨
    ∃ cmd, l.pc = .resume .command ∧ l.queue = cmd :: l'.queue ∧ l'.pc = .running cmd := by
  cases h with
  | popped cmd rest hpc hqueue => exact .inr ⟨cmd, hpc, hqueue, rfl⟩
  | acceptAgain i allocId hpc =>
    refine .inl ⟨rfl, ?_⟩
    simp only [hpc, Pc.runs]
  | _ =>
    refine .inl ⟨?_, rfl⟩
    first | rfl | exact closeFd_queue _ _

theorem NetStep.commands_subset (h : NetStep l env l') : l'.commands ⊆ l.commands := by
  have hsub : l.queue ⊆ l.commands := List.subset_append_right _ _
  rcases h.queue_cases with ⟨hqueue, hruns⟩ | ⟨cmd, -, hqueue, hpc⟩
  · rw [commands, hqueue, hruns]
    exact hsub
  · rw [hqueue] at hsub
    rw [commands, hpc]
    exact hsub

end SocketLoop

end StormNet.Net
