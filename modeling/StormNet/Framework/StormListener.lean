/-
  Framework/StormListener.lean --- `StormListener` of `framework/storm_listener.cpp` with
  the sockets of its loop, the queue of Close commands and the consumer of its packets.

  The handlers run on the net thread, one at a time; a sweep of `updateNet` is cut at
  its turns, between the callback and the erasure.  What the loop does is left open:
  which sockets it accepts, when data arrives, when and why it closes a socket, who
  else queues a Close command.  A slot has at most one open socket; the net thread
  executes the Close commands in order, each on the socket open in its slot then.

  `no` of a `Connection`, `accepted`, `admitted` and `calls` are records; no function
  reads them.
-/
import StormNet.Foundation.Transition
import StormNet.Net.SocketDefine
import StormNet.Util.TimeList

set_option autoImplicit false

namespace StormNet.Framework

open StormNet.Foundation
open StormNet.Net (CloseType)
open StormNet.Util (TimeList)

/-! ## Data -/

/-- `Connection`: what the service is told of a socket.  `no` tells apart the
connections of one slot. -/
structure Connection where
  id : UInt32
  fd : Int
  ip : String
  port : Int
  no : Nat
  deriving DecidableEq, Repr

/-- `StormListener::Packet` with its `PacketType`. -/
inductive StormListener.Packet where
  | accept (conn : Connection)
  | close (conn : Connection) (closeType : CloseType)
  | packet (conn : Connection) (data : List UInt8)
  deriving DecidableEq, Repr

/-- A call of the `StormService`. -/
inductive ServiceCall where
  | onAccept
  | onRequest (data : List UInt8)
  | onClose (closeType : CloseType)
  deriving DecidableEq, Repr

/-- The call that the switch of `StormService::update` makes for a packet. -/
def StormListener.Packet.call : StormListener.Packet → Connection × ServiceCall
  | .accept conn => (conn, .onAccept)
  | .close conn closeType => (conn, .onClose closeType)
  | .packet conn data => (conn, .onRequest data)

/-- The fields of `ServiceConfig` that a listener reads. -/
structure ServiceConfig where
  maxConnections : UInt32
  maxQueueLen : UInt32
  keepAliveTime : UInt32
  emptyConnTimeOut : UInt32
  deriving DecidableEq, Repr

/-- Where the net thread is in `updateNet`. -/
inductive Sweep where
  /-- not in it -/
  | idle
  /-- the head of the loop over `m_conList` -/
  | conList (now : UInt32)
  /-- `doIdleClose` has returned -/
  | conErase (now : UInt32)
  /-- the head of the loop over `m_timelist` -/
  | timelist (now : UInt32)
  /-- `doTimeClose` has returned -/
  | timeErase (now : UInt32)
  deriving DecidableEq, Repr

/-- A listener, the open sockets it has accepted and the queued Close commands. -/
structure StormListener where
  /-- `m_inLoop` -/
  inLoop : Bool
  /-- `m_config` -/
  config : ServiceConfig
  /-- `m_conList` -/
  conList : TimeList UInt32 UInt32
  /-- `m_timelist` -/
  timelist : TimeList UInt32 UInt32
  /-- `m_queue` -/
  queue : List StormListener.Packet
  sweep : Sweep
  /-- the open sockets of the loop with this handler -/
  sockets : List Connection
  /-- the Close commands in the queue of the loop -/
  closes : List (UInt32 × CloseType)
  /-- the sockets accepted so far -/
  accepted : List Connection
  /-- those that `onAccept` has not refused -/
  admitted : List Connection
  /-- the calls of the service so far, in order -/
  calls : List (Connection × ServiceCall)

namespace StormListener

/-- A listener behind `startListen`. -/
def new (inLoop : Bool) (config : ServiceConfig) : StormListener where
  inLoop := inLoop
  config := config
  conList := .new config.emptyConnTimeOut
  timelist := .new config.keepAliveTime
  queue := []
  sweep := .idle
  sockets := []
  closes := []
  accepted := []
  admitted := []
  calls := []

/-! ## The functions of the class -/

/-- `SocketLoop::close`. -/
def close (s : StormListener) (id : UInt32) (closeType : CloseType) : StormListener :=
  { s with closes := s.closes ++ [(id, closeType)] }

/-- The two ends of the handlers: the service is called at once, or the packet is
queued. -/
def deliver (s : StormListener) (packet : Packet) : StormListener :=
  if s.inLoop then { s with calls := s.calls ++ [packet.call] }
  else { s with queue := s.queue ++ [packet] }

/-- `StormListener::onAccept`. -/
def onAccept (s : StormListener) (conn : Connection) (now : UInt32) : StormListener :=
  if s.timelist.size ≥ s.config.maxConnections.toNat then
    s.close conn.id .self
  else
    let s := { s with conList := s.conList.add conn.id now, admitted := conn :: s.admitted }
    s.deliver (.accept conn)

/-- `StormListener::onClose`. -/
def onClose (s : StormListener) (conn : Connection) (closeType : CloseType) : StormListener :=
  let s := { s with conList := s.conList.del conn.id, timelist := s.timelist.del conn.id }
  s.deliver (.close conn closeType)

/-- `StormListener::onPacket`. -/
def onPacket (s : StormListener) (conn : Connection) (data : List UInt8) (now : UInt32) :
    StormListener :=
  let s := { s with conList := s.conList.del conn.id, timelist := s.timelist.add conn.id now }
  if s.inLoop = false ∧ UInt32.ofNat s.queue.length > s.config.maxQueueLen then s
  else s.deliver (.packet conn data)

/-- `StormListener::doIdleClose`. -/
def doIdleClose (s : StormListener) (id : UInt32) : StormListener := s.close id .idleTimeout

/-- `StormListener::doTimeClose`. -/
def doTimeClose (s : StormListener) (id : UInt32) : StormListener := s.close id .timeout

/-- The next step of `updateNet`: `m_conList.timeout(now)`, then `m_timelist.timeout(now)`. -/
def updateNet (s : StormListener) : Option StormListener :=
  match s.sweep with
  | .idle => none
  | .conList now =>
      match s.conList.due now with
      | none => some { s with sweep := .timelist now }
      | some id => some { s.doIdleClose id with sweep := .conErase now }
  | .conErase now => some { s with conList := s.conList.eraseFront, sweep := .conList now }
  | .timelist now =>
      match s.timelist.due now with
      | none => some { s with sweep := .idle }
      | some id => some { s.doTimeClose id with sweep := .timeErase now }
  | .timeErase now => some { s with timelist := s.timelist.eraseFront, sweep := .timelist now }

/-- One turn of `StormService::update`. -/
def update (s : StormListener) : Option StormListener :=
  match s.queue with
  | [] => none
  | packet :: queue => some { s with queue := queue, calls := s.calls ++ [packet.call] }

/-! ## The system -/

/-- What happens next. -/
inductive Action where
  /-- the loop accepts a socket -/
  | accept (conn : Connection) (now : UInt32)
  /-- a packet arrives on a socket -/
  | packet (conn : Connection) (data : List UInt8) (now : UInt32)
  /-- the loop closes a socket: end of file, an error, a malformed packet -/
  | closed (conn : Connection) (closeType : CloseType)
  /-- the loop executes the next Close command -/
  | command
  /-- somebody queues a Close command -/
  | close (id : UInt32) (closeType : CloseType)
  /-- the net thread enters `updateNet` -/
  | updateNet (now : UInt32)
  /-- the net thread goes on in `updateNet` -/
  | net
  /-- the service takes a packet from the queue -/
  | update
  deriving DecidableEq, Repr

/-- `SocketLoop::forceClose` of an open socket. -/
def forceClose (s : StormListener) (conn : Connection) (closeType : CloseType) : StormListener :=
  { s with sockets := s.sockets.erase conn }.onClose conn closeType

/-- The next Close command: it closes the socket that is open in its slot, if any. -/
def command (s : StormListener) : Option StormListener :=
  match s.closes with
  | [] => none
  | (id, closeType) :: closes =>
      let s := { s with closes := closes }
      match s.sockets.find? (fun conn => conn.id = id) with
      | none => some s
      | some conn => some (s.forceClose conn closeType)

/-- One step.  The net thread runs its handlers outside `updateNet`. -/
def step (s : StormListener) : Action → Option StormListener
  | .accept conn now =>
      if s.sweep = .idle ∧ conn ∉ s.accepted ∧ ∀ conn' ∈ s.sockets, conn'.id ≠ conn.id then
        some ({ s with sockets := conn :: s.sockets, accepted := conn :: s.accepted }.onAccept
          conn now)
      else none
  | .packet conn data now =>
      if s.sweep = .idle ∧ conn ∈ s.sockets then some (s.onPacket conn data now) else none
  | .closed conn closeType =>
      if s.sweep = .idle ∧ conn ∈ s.sockets then some (s.forceClose conn closeType) else none
  | .command => if s.sweep = .idle then s.command else none
  | .close id closeType => some (s.close id closeType)
  | .updateNet now => if s.sweep = .idle then some { s with sweep := .conList now } else none
  | .net => s.updateNet
  | .update => s.update

/-! ## The cases -/

section Deliver

variable (s : StormListener) (packet : Packet)

/-- What `deliver` changes, in one record. -/
theorem deliver_eq : s.deliver packet = { s with
    calls := if s.inLoop then s.calls ++ [packet.call] else s.calls
    queue := if s.inLoop then s.queue else s.queue ++ [packet] } := by
  unfold deliver
  split <;> rfl

@[simp] theorem deliver_inLoop : (s.deliver packet).inLoop = s.inLoop := by rw [deliver_eq]

@[simp] theorem deliver_config : (s.deliver packet).config = s.config := by rw [deliver_eq]

@[simp] theorem deliver_conList : (s.deliver packet).conList = s.conList := by rw [deliver_eq]

@[simp] theorem deliver_timelist : (s.deliver packet).timelist = s.timelist := by
  rw [deliver_eq]

@[simp] theorem deliver_sweep : (s.deliver packet).sweep = s.sweep := by rw [deliver_eq]

@[simp] theorem deliver_sockets : (s.deliver packet).sockets = s.sockets := by rw [deliver_eq]

@[simp] theorem deliver_closes : (s.deliver packet).closes = s.closes := by rw [deliver_eq]

@[simp] theorem deliver_accepted : (s.deliver packet).accepted = s.accepted := by
  rw [deliver_eq]

@[simp] theorem deliver_admitted : (s.deliver packet).admitted = s.admitted := by
  rw [deliver_eq]

end Deliver

/-- What a step can do, case by case. -/
inductive Step (s : StormListener) : Action → StormListener → Prop
  | refuse {conn : Connection} {now : UInt32} :
      s.sweep = .idle → conn ∉ s.accepted → (∀ conn' ∈ s.sockets, conn'.id ≠ conn.id) →
      s.config.maxConnections.toNat ≤ s.timelist.size →
      Step s (.accept conn now) { s with
        sockets := conn :: s.sockets
        accepted := conn :: s.accepted
        closes := s.closes ++ [(conn.id, .self)] }
  | enter {conn : Connection} {now : UInt32} :
      s.sweep = .idle → conn ∉ s.accepted → (∀ conn' ∈ s.sockets, conn'.id ≠ conn.id) →
      s.timelist.size < s.config.maxConnections.toNat →
      Step s (.accept conn now) ({ s with
        sockets := conn :: s.sockets
        accepted := conn :: s.accepted
        admitted := conn :: s.admitted
        conList := s.conList.add conn.id now }.deliver (.accept conn))
  | drop {conn : Connection} {data : List UInt8} {now : UInt32} :
      s.sweep = .idle → conn ∈ s.sockets → s.inLoop = false →
      Step s (.packet conn data now) { s with
        conList := s.conList.del conn.id
        timelist := s.timelist.add conn.id now }
  | packet {conn : Connection} {data : List UInt8} {now : UInt32} :
      s.sweep = .idle → conn ∈ s.sockets → Step s (.packet conn data now) ({ s with
        conList := s.conList.del conn.id
        timelist := s.timelist.add conn.id now }.deliver (.packet conn data))
  | closed {conn : Connection} {closeType : CloseType} :
      s.sweep = .idle → conn ∈ s.sockets →
      Step s (.closed conn closeType) (s.forceClose conn closeType)
  | execute {conn : Connection} {closeType : CloseType} {closes : List (UInt32 × CloseType)} :
      s.sweep = .idle → s.closes = (conn.id, closeType) :: closes → conn ∈ s.sockets →
      Step s .command ({ s with closes := closes }.forceClose conn closeType)
  | ignore {id : UInt32} {closeType : CloseType} {closes : List (UInt32 × CloseType)} :
      s.sweep = .idle → s.closes = (id, closeType) :: closes →
      (∀ conn ∈ s.sockets, conn.id ≠ id) → Step s .command { s with closes := closes }
  | close {id : UInt32} {closeType : CloseType} :
      Step s (.close id closeType) { s with closes := s.closes ++ [(id, closeType)] }
  | updateNet {now : UInt32} :
      s.sweep = .idle → Step s (.updateNet now) { s with sweep := .conList now }
  | conDue {now : UInt32} {id : UInt32} :
      s.sweep = .conList now → s.conList.due now = some id → Step s .net { s with
        closes := s.closes ++ [(id, .idleTimeout)]
        sweep := .conErase now }
  | conEnd {now : UInt32} :
      s.sweep = .conList now → Step s .net { s with sweep := .timelist now }
  | conErase {now : UInt32} :
      s.sweep = .conErase now → Step s .net { s with
        conList := s.conList.eraseFront
        sweep := .conList now }
  | timeDue {now : UInt32} {id : UInt32} :
      s.sweep = .timelist now → s.timelist.due now = some id → Step s .net { s with
        closes := s.closes ++ [(id, .timeout)]
        sweep := .timeErase now }
  | timeEnd {now : UInt32} :
      s.sweep = .timelist now → Step s .net { s with sweep := .idle }
  | timeErase {now : UInt32} :
      s.sweep = .timeErase now → Step s .net { s with
        timelist := s.timelist.eraseFront
        sweep := .timelist now }
  | update {packet : Packet} {queue : List Packet} :
      s.queue = packet :: queue → Step s .update { s with
        queue := queue
        calls := s.calls ++ [packet.call] }

section Step

variable {s t : StormListener}

theorem step_updateNet (h : s.updateNet = some t) : Step s .net t := by
  unfold updateNet at h
  cases hsweep : s.sweep with
  | idle => simp [hsweep] at h
  | conList now =>
    cases hdue : s.conList.due now with
    | none =>
      simp only [hsweep, hdue, Option.some.injEq] at h
      exact h ▸ .conEnd hsweep
    | some id =>
      simp only [hsweep, hdue, Option.some.injEq] at h
      exact h ▸ .conDue hsweep hdue
  | conErase now =>
    simp only [hsweep, Option.some.injEq] at h
    exact h ▸ .conErase hsweep
  | timelist now =>
    cases hdue : s.timelist.due now with
    | none =>
      simp only [hsweep, hdue, Option.some.injEq] at h
      exact h ▸ .timeEnd hsweep
    | some id =>
      simp only [hsweep, hdue, Option.some.injEq] at h
      exact h ▸ .timeDue hsweep hdue
  | timeErase now =>
    simp only [hsweep, Option.some.injEq] at h
    exact h ▸ .timeErase hsweep

theorem step_command (hidle : s.sweep = .idle) (h : s.command = some t) :
    Step s .command t := by
  unfold command at h
  split at h
  · cases h
  · rename_i id closeType closes hcloses
    cases hfind : s.sockets.find? (fun conn => conn.id = id) with
    | none =>
      simp only [hfind, Option.some.injEq] at h
      refine h ▸ .ignore hidle hcloses (fun conn hconn => ?_)
      simpa using List.find?_eq_none.mp hfind conn hconn
    | some conn =>
      simp only [hfind, Option.some.injEq] at h
      have hid : conn.id = id := by simpa using List.find?_some hfind
      subst hid
      exact h ▸ .execute hidle hcloses (List.mem_of_find?_eq_some hfind)

/-- The cases are all there is. -/
theorem step_cases {a : Action} (h : s.step a = some t) : Step s a t := by
  cases a with
  | accept conn now =>
    simp only [step, onAccept] at h
    split at h
    · rename_i hguard
      obtain ⟨hidle, hfresh, hfree⟩ := hguard
      split at h
      · exact Option.some.inj h ▸ .refuse hidle hfresh hfree ‹_›
      · exact Option.some.inj h ▸ .enter hidle hfresh hfree (Nat.lt_of_not_le ‹_›)
    · cases h
  | packet conn data now =>
    simp only [step, onPacket] at h
    split at h
    · rename_i hguard
      split at h
      · rename_i hdrop
        exact Option.some.inj h ▸ .drop hguard.1 hguard.2 hdrop.1
      · exact Option.some.inj h ▸ .packet hguard.1 hguard.2
    · cases h
  | closed conn closeType =>
    simp only [step] at h
    split at h
    · rename_i hguard
      exact Option.some.inj h ▸ .closed hguard.1 hguard.2
    · cases h
  | command =>
    simp only [step] at h
    split at h
    · exact step_command ‹_› h
    · cases h
  | close id closeType => exact Option.some.inj h ▸ .close
  | updateNet now =>
    simp only [step] at h
    split at h
    · exact Option.some.inj h ▸ .updateNet ‹_›
    · cases h
  | net => exact step_updateNet h
  | update =>
    simp only [step, update] at h
    split at h
    · cases h
    · exact Option.some.inj h ▸ .update ‹_›

end Step

end StormListener

end StormNet.Framework
