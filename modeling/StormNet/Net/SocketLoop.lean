/-
  Net/SocketLoop.lean --- `SocketLoop` of `net/socket_loop.cpp` as a transition system.

  Callers of `connect` and `listen` take a slot on their own threads and queue a command;
  `send` and `close` only queue one.  The loop's thread runs `runOnce` over and over: a
  batch of epoll events, among them the one that drains the queue, and then the sweep of
  `m_connTimeout`.  One step of it goes from one place where it can meet another thread to
  the next, and every callback of a handler is such a place.

  The code names a connection by its slot.  The model numbers the occupants of each slot
  beside it, and notes for commands, events and buffers the connection that they are
  meant for; no step looks at these.
-/
import StormNet.Net.HandleRead
import StormNet.Net.SendPath
import StormNet.Util.TimeList

set_option autoImplicit false

namespace StormNet.Net

open StormNet.Foundation
open StormNet.Util (TimeList)
open Function (update)

/-- A connection: its slot, and the how-manieth occupant of the slot it is. -/
structure Conn where
  slot : Nat
  gen : Nat
  deriving DecidableEq, Repr

/-- `SocketCmdType`, with what the command carries. -/
inductive SocketCmdType where
  | connect
  | listen
  | send (buffer : IoBuffer)
  | close (closeType : CloseType)
  | exit
  deriving DecidableEq, Repr

/-- `SocketCmd`. -/
structure SocketCmd where
  type : SocketCmdType
  id : Int
  /-- the connection whose id the caller passed -/
  target : Option Conn
  deriving DecidableEq, Repr

/-- `SocketEvent`: `pUd`, `bRead` and `bWrite`. -/
structure SocketEvent where
  ud : Nat
  read : Bool
  write : Bool
  /-- the connection whose fd was reported -/
  target : Option Conn
  deriving DecidableEq, Repr

/-- A call of `connect` or `listen`; `listen` has its fd from `socketListen`. -/
inductive Op where
  | connect (handler : Nat)
  | listen (handler fd : Nat)
  deriving DecidableEq, Repr

/-- What the call assigns to its slot. -/
def Op.fill (op : Op) (s : Socket) : Socket :=
  match op with
  | .connect handler => { s with handler := some handler, status := .connecting }
  | .listen handler fd =>
      { s with fd := some fd, type := .listen, status := .listen, handler := some handler }

/-- The command of the call. -/
def Op.cmdType : Op → SocketCmdType
  | .connect _ => .connect
  | .listen _ _ => .listen

/-- How far a call that has its slot is. -/
inductive Call where
  /-- behind `getNewSocket` -/
  | reserved (op : Op)
  /-- behind the assignments to the slot -/
  | published (op : Op)
  deriving DecidableEq, Repr

/-- An open file: the connection it was opened for, and whether `accept` works on it. -/
structure File where
  owner : Conn
  listening : Bool
  deriving DecidableEq, Repr

/-- Where the loop's thread goes on behind a callback. -/
inductive Resume where
  /-- the next event of the batch -/
  | event
  /-- the `handleWrite` behind a `handleRead` -/
  | write (i : Nat) (target : Option Conn)
  /-- the next command -/
  | command
  /-- the end of a turn of `m_connTimeout.timeout` -/
  | erase
  deriving DecidableEq, Repr

/-- Where the loop's thread is. -/
inductive Pc where
  /-- in front of `epoll_wait` -/
  | polling
  | resume (k : Resume)
  /-- `handleOneCmd(cmd)` -/
  | running (cmd : SocketCmd)
  /-- in the loop of `handleAccept` -/
  | accepting (i : Nat)
  /-- in the loop of `m_connTimeout.timeout` -/
  | sweeping
  | onConnect (i : Nat) (k : Resume)
  /-- `onAccept` on the slot `i`, called for the listening slot -/
  | onAccept (i listener : Nat)
  | onData (i : Nat) (k : Resume)
  /-- in `forceClose`, behind `::close`: where `onClose` runs -/
  | closing (i : Nat) (closeType : CloseType) (k : Resume)
  /-- in `connectSocket`, without success: where `onClose` runs -/
  | failing (i : Nat)
  deriving DecidableEq, Repr

/-- What reached a connection. -/
inductive Effect where
  | command
  | event
  /-- bytes of a buffer -/
  | bytes
  deriving DecidableEq, Repr

/-- Something meant for `target` that was applied to `actual`. -/
structure Delivery where
  effect : Effect
  target : Conn
  actual : Conn
  deriving DecidableEq, Repr

/-- `SocketLoop`, with the kernel's files. -/
structure SocketLoop where
  /-- `m_maxSocket` -/
  maxSocket : Nat
  /-- `m_allocId`, as an unsigned word -/
  allocId : Nat
  /-- `m_running` -/
  running : Bool
  /-- `m_slot` -/
  slot : Nat → Socket
  /-- `m_queue` -/
  queue : List SocketCmd
  /-- `m_poll` -/
  poll : SocketPoller
  /-- `m_connTimeout` -/
  connTimeout : TimeList Nat Nat
  /-- `m_event`, from the event at hand on -/
  event : List SocketEvent
  pc : Pc
  /-- the calls of `connect` and `listen` under way -/
  call : Conn → Option Call
  files : Nat → Option File
  /-- the occupants each slot has had -/
  gen : Nat → Nat
  /-- the connections that the buffers in `writeBuffer` are meant for -/
  backlog : Nat → List (Option Conn)
  applied : List Delivery

namespace SocketLoop

/-! ## Slots -/

/-- `hash`. -/
def hash (l : SocketLoop) (id : Nat) : Nat := id % l.maxSocket

/-- `getSocket`. -/
def getSocket (l : SocketLoop) (id : Int) : Option Nat :=
  if id < 0 then none else some (l.hash id.toNat)

/-- The next value of `m_allocId`; a negative one is cut to its lower 31 bits. -/
def nextId (allocId : Nat) : Nat :=
  let id := (allocId + 1) % 2 ^ 32
  if id < 2 ^ 31 then id else id % 2 ^ 31

/-- The connection in the slot `i`, or the last one there. -/
def occupant (l : SocketLoop) (i : Nat) : Conn := ⟨i, l.gen i⟩

/-- One turn of the loop of `getNewSocket`: the slot, if the turn gets it. -/
def tryNewSocket (l : SocketLoop) : SocketLoop × Option Nat :=
  let id := nextId l.allocId
  let i := l.hash id
  if (l.slot i).status ≠ .idle then ({ l with allocId := id }, none)
  else
    ({ l with
        allocId := id
        slot := update l.slot i { l.slot i with id := i, fd := none, status := .reserse }
        gen := update l.gen i (l.gen i + 1) },
      some i)

/-- `status` is neither `Idle` nor `Reserse`. -/
def inUse (l : SocketLoop) (i : Nat) : Bool :=
  (l.slot i).status ≠ .idle ∧ (l.slot i).status ≠ .reserse

/-- Note that something meant for each of `targets` was applied to the slot `i`. -/
def deliver (l : SocketLoop) (effect : Effect) (targets : List (Option Conn)) (i : Nat) :
    SocketLoop :=
  { l with
    applied := targets.filterMap (Option.map (⟨effect, ·, l.occupant i⟩)) ++ l.applied }

/-- `::close(fd)`. -/
def closeFd (l : SocketLoop) (fd : Option Nat) : SocketLoop :=
  match fd with
  | none => l
  | some fd => { l with files := update l.files fd none, poll := l.poll.kernelClose fd }

/-- `forceClose` up to the callback. -/
def forceClose (l : SocketLoop) (i : Nat) (closeType : CloseType) (k : Resume) : SocketLoop :=
  if l.inUse i then { l.closeFd (l.slot i).fd with pc := .closing i closeType k }
  else { l with pc := .resume k }

/-- `forceClose` behind the callback. -/
def clear (l : SocketLoop) (i : Nat) : SocketLoop :=
  { l with
    slot := update l.slot i
      { l.slot i with fd := none, status := .idle, readBuffer := none, writeBuffer := [] }
    poll := match (l.slot i).fd with
      | some fd => l.poll.del fd
      | none => l.poll
    backlog := update l.backlog i [] }

/-! ## Callers -/

/-- `pushCmd`. -/
def pushCmd (l : SocketLoop) (cmd : SocketCmd) : SocketLoop :=
  { l with queue := l.queue ++ [cmd] }

/-- A turn of `getNewSocket` in `connect` or `listen`.  A caller that has had
`m_maxSocket` turns, or an open fd too many, gives up and leaves nothing behind. -/
def reserve (l : SocketLoop) (op : Op) : Option SocketLoop :=
  match l.tryNewSocket with
  | (l', none) => some l'
  | (l', some i) =>
      let c := l'.occupant i
      let l' := { l' with call := update l'.call c (some (.reserved op)) }
      match op with
      | .connect _ => some l'
      | .listen _ fd =>
          if (l.files fd).isSome then none
          else some { l' with files := update l'.files fd (some ⟨c, true⟩) }

/-- The assignments of `connect` and `listen` to the slot. -/
def publish (l : SocketLoop) (c : Conn) : Option SocketLoop :=
  match l.call c with
  | some (.reserved op) => some { l with
      slot := update l.slot c.slot (op.fill (l.slot c.slot))
      call := update l.call c (some (.published op)) }
  | _ => none

/-- The end of `connect` and `listen`. -/
def push (l : SocketLoop) (c : Conn) : Option SocketLoop :=
  match l.call c with
  | some (.published op) => some
      ({ l with call := update l.call c none }.pushCmd
        ⟨op.cmdType, (l.slot c.slot).id, some c⟩)
  | _ => none

/-- `id` is an id that some connection in its slot had: `target` says which. -/
def Names (l : SocketLoop) (id : Int) (target : Option Conn) : Prop :=
  ∀ c ∈ target, l.getSocket id = some c.slot ∧ c.gen ≤ l.gen c.slot

instance (l : SocketLoop) (id : Int) (target : Option Conn) : Decidable (l.Names id target) :=
  match target with
  | none => isTrue (by simp [Names])
  | some c =>
      decidable_of_iff (l.getSocket id = some c.slot ∧ c.gen ≤ l.gen c.slot) (by simp [Names])

/-! ## The loop's thread -/

/-- What `socket()` and `connect()` do. -/
inductive ConnectResult where
  /-- an error -/
  | failed
  /-- `connect` returns 0 -/
  | done (fd : Nat)
  /-- `EINPROGRESS` -/
  | inProgress (fd : Nat)
  deriving DecidableEq, Repr

/-- What a turn of the loop of `handleAccept` does. -/
inductive AcceptResult where
  /-- `EAGAIN` -/
  | again
  /-- another error -/
  | error
  /-- a connection, with a turn of `getNewSocket` for it -/
  | accepted (fd : Nat)
  /-- a connection, and `getNewSocket` has returned NULL -/
  | full
  deriving DecidableEq, Repr

/-- What the calls in a step of the loop's thread meet. -/
structure Env where
  /-- the events of `epoll_wait`: the fd, `EPOLLIN`, and one of `EPOLLOUT`, `EPOLLERR` and
  `EPOLLHUP` -/
  ready : List (Nat × Bool × Bool) := []
  /-- `getsockopt` fails or reports an error -/
  soError : Bool := false
  reads : List ReadResult := []
  writes : List WriteResult := []
  connect : ConnectResult := .failed
  accept : AcceptResult := .again
  /-- `m_bufferPool.get()` -/
  pooled : IoBuffer := IoBuffer.new 4096
  /-- what `onData` leaves in the read buffer, and its result -/
  handled : Option IoBuffer × Bool := (none, true)
  now : Nat := 0

/-- `SocketPoller::wait`: only registered fds are reported. -/
def wait (l : SocketLoop) (ready : List (Nat × Bool × Bool)) : Option SocketLoop :=
  if ∀ r ∈ ready, (l.poll.epoll r.1).isSome then
    some { l with
      event := ready.filterMap (fun r => (l.poll.epoll r.1).map (fun event =>
        ⟨event.ud, r.2.1, r.2.2, (l.files r.1).map File.owner⟩))
      pc := .resume .event }
  else none

/-- `handleConnect`. -/
def handleConnect (l : SocketLoop) (i : Nat) (soError : Bool) : SocketLoop :=
  let s := l.slot i
  let l := { l with connTimeout := l.connTimeout.del s.id }
  match s.fd, soError with
  | some fd, false =>
      { l with
        slot := update l.slot i { s with status := .connected }
        poll := l.poll.delEvent fd .epWrite i
        pc := .onConnect i .event }
  | _, _ => l.forceClose i .connectFail .event

/-- `handleRead`, up to `onData`. -/
def handleRead (l : SocketLoop) (i : Nat) (env : Env) (k : Resume) : SocketLoop :=
  let s := l.slot i
  if s.status ≠ .connected then { l with pc := .resume k }
  else
    let (buffer, needClose) := readLoop env.reads (s.readBuffer.getD env.pooled)
    let l := { l with slot := update l.slot i { s with readBuffer := some buffer } }
    if needClose then l.forceClose i .peer k
    else { l with pc := .onData i k }

/-- The reply of `sendSocket` or `handleWrite` on the slot `i`, then `forceClose` if it
asks for it.  The bytes written are those of the first buffers of `targets`, the ones that
are gone from the queue and the one that may be written in part. -/
def writeReply (l : SocketLoop) (i : Nat) (reply : WriteReply) (targets : List (Option Conn))
    (k : Resume) : SocketLoop :=
  let gone := targets.length - reply.socket.writeBuffer.length
  let reached := if reply.written = [] then [] else targets.take (gone + 1)
  let l := { l.deliver .bytes reached i with
    slot := update l.slot i reply.socket
    poll := reply.poll
    backlog := update l.backlog i (targets.drop gone) }
  if reply.needClose then l.forceClose i .peer k else { l with pc := .resume k }

/-- `handleWrite`. -/
def handleWrite (l : SocketLoop) (i : Nat) (env : Env) : SocketLoop :=
  l.writeReply i (Net.handleWrite (l.slot i) l.poll env.writes) (l.backlog i) .event

/-- The `switch` of `runOnce` on one event. -/
def handleEvent (l : SocketLoop) (e : SocketEvent) (env : Env) : SocketLoop :=
  let i := e.ud
  let s := l.slot i
  let l := if l.inUse i then l.deliver .event [e.target] i else l
  match s.type with
  | .notify => { l with pc := .resume .command }
  | .listen => { l with pc := .accepting i }
  | .normal =>
      if s.status = .connecting then l.handleConnect i env.soError
      else if e.read then l.handleRead i env (if e.write then .write i e.target else .event)
      else if e.write then l.handleWrite i env
      else { l with pc := .resume .event }

/-- `connectSocket`. -/
def connectSocket (l : SocketLoop) (id : Int) (env : Env) : Option SocketLoop :=
  match l.getSocket id with
  | none => some { l with pc := .resume .command }
  | some i =>
      let s := l.slot i
      match env.connect with
      | .failed => some { l with pc := .failing i }
      | .done fd =>
          if (l.files fd).isSome then none
          else some { l with
            files := update l.files fd (some ⟨l.occupant i, false⟩)
            slot := update l.slot i { s with fd := some fd, status := .connected }
            pc := .onConnect i .command }
      | .inProgress fd =>
          if (l.files fd).isSome then none
          else some { l with
            files := update l.files fd (some ⟨l.occupant i, false⟩)
            slot := update l.slot i { s with fd := some fd, status := .connecting }
            poll := l.poll.addEvent fd .epWrite i
            connTimeout := l.connTimeout.add id.toNat env.now
            pc := .resume .command }

/-- `listenSocket`. -/
def listenSocket (l : SocketLoop) (id : Int) : SocketLoop :=
  { l with
    poll := match l.getSocket id with
      | some i =>
          match (l.slot i).fd with
          | some fd => (l.poll.addToRead fd i).1
          | none => l.poll
      | none => l.poll
    pc := .resume .command }

/-- `sendSocket`. -/
def sendSocket (l : SocketLoop) (cmd : SocketCmd) (buffer : IoBuffer) (env : Env) :
    SocketLoop :=
  match l.getSocket cmd.id with
  | none => { l with pc := .resume .command }
  | some i =>
      let s := l.slot i
      if s.status ≠ .connected then { l with pc := .resume .command }
      else (l.deliver .command [cmd.target] i).writeReply i
        (Net.sendSocket s l.poll buffer env.writes) (l.backlog i ++ [cmd.target]) .command

/-- `closeSocket`. -/
def closeSocket (l : SocketLoop) (id : Int) (closeType : CloseType) (k : Resume) :
    SocketLoop :=
  match l.getSocket id with
  | none => { l with pc := .resume k }
  | some i => l.forceClose i closeType k

/-- The Close command. -/
def closeCmd (l : SocketLoop) (cmd : SocketCmd) (closeType : CloseType) : SocketLoop :=
  let l := match l.getSocket cmd.id with
    | some i => if l.inUse i then l.deliver .command [cmd.target] i else l
    | none => l
  l.closeSocket cmd.id closeType .command

/-- `handleOneCmd`. -/
def handleOneCmd (l : SocketLoop) (cmd : SocketCmd) (env : Env) : Option SocketLoop :=
  match cmd.type with
  | .connect => l.connectSocket cmd.id env
  | .listen => some (l.listenSocket cmd.id)
  | .send buffer => some (l.sendSocket cmd buffer env)
  | .close closeType => some (l.closeCmd cmd closeType)
  | .exit => some { l with running := false, pc := .resume .command }

/-- A turn of the loop of `handleAccept` on the slot `i`. -/
def handleAccept (l : SocketLoop) (i : Nat) (result : AcceptResult) : Option SocketLoop :=
  match result with
  | .again | .full => some { l with pc := .resume .event }
  | .error => some l
  | .accepted fd =>
      if (l.slot i).fd.any (fun s => (l.files s).any File.listening) ∧ (l.files fd).isNone then
        match l.tryNewSocket with
        | (l', none) => some l'
        | (l', some j) => some { l' with
            files := update l'.files fd (some ⟨l'.occupant j, false⟩)
            slot := update l'.slot j { l'.slot j with
              fd := some fd, type := .normal, status := .connected, handler := (l.slot i).handler }
            poll := (l'.poll.addToRead fd j).1
            pc := .onAccept j i }
      else none

/-- A step of the loop's thread. -/
def netStep (l : SocketLoop) (env : Env) : Option SocketLoop :=
  match l.pc with
  | .polling => l.wait env.ready
  | .resume .event =>
      match l.event with
      | [] => some { l with pc := .sweeping }
      | e :: rest => some ({ l with event := rest }.handleEvent e env)
  | .resume (.write i target) =>
      let l := if (l.slot i).status = .connected then l.deliver .event [target] i else l
      some (l.handleWrite i env)
  | .resume .command =>
      match l.queue with
      | [] => some { l with pc := .resume .event }
      | cmd :: rest => some { l with queue := rest, pc := .running cmd }
  | .resume .erase =>
      some { l with connTimeout := l.connTimeout.eraseFront, pc := .sweeping }
  | .running cmd => l.handleOneCmd cmd env
  | .accepting i => l.handleAccept i env.accept
  | .sweeping =>
      match l.connTimeout.due env.now with
      | none => some { l with pc := .polling }
      | some id => some (l.closeSocket id .connTimeOut .erase)
  | .onConnect i k =>
      some { l with
        poll := match (l.slot i).fd with
          | some fd => l.poll.addEvent fd .epRead i
          | none => l.poll
        pc := .resume k }
  | .onAccept _ listener => some { l with pc := .accepting listener }
  | .onData i k =>
      let l := { l with
        slot := update l.slot i { l.slot i with readBuffer := env.handled.1 } }
      if env.handled.2 then some { l with pc := .resume k }
      else some (l.forceClose i .self k)
  | .closing i _ k => some { l.clear i with pc := .resume k }
  | .failing i =>
      some { l with
        slot := update l.slot i { l.slot i with status := .idle }
        pc := .resume .command }

/-! ## The system -/

/-- The steps of the callers and of the loop's thread. -/
inductive Action where
  | reserve (op : Op)
  | publish (c : Conn)
  | push (c : Conn)
  /-- `send(id, ..)`, meant for `target` -/
  | send (id : Int) (target : Option Conn) (buffer : IoBuffer)
  /-- `close(id, ..)`, meant for `target` -/
  | close (id : Int) (target : Option Conn) (closeType : CloseType)
  | terminate
  | net (env : Env)

def step (l : SocketLoop) : Action → Option SocketLoop
  | .reserve op => l.reserve op
  | .publish c => l.publish c
  | .push c => l.push c
  | .send id target buffer =>
      if l.Names id target then some (l.pushCmd ⟨.send buffer, id, target⟩) else none
  | .close id target closeType =>
      if l.Names id target then some (l.pushCmd ⟨.close closeType, id, target⟩) else none
  | .terminate => some (l.pushCmd ⟨.exit, 0, none⟩)
  | .net env => l.netStep env

/-- Behind the constructor: the notifier with the eventfd `efd` is in slot 0. -/
def new (maxSocket efd : Nat) : SocketLoop where
  maxSocket := maxSocket
  allocId := 0
  running := false
  slot := update (fun _ => {}) 0 { fd := some efd, type := .notify, status := .listen }
  queue := []
  poll := (SocketPoller.new.addToRead efd 0).1
  connTimeout := TimeList.new 3
  event := []
  pc := .polling
  call := fun _ => none
  files := update (fun _ => none) efd (some ⟨⟨0, 0⟩, false⟩)
  gen := fun _ => 0
  backlog := fun _ => []
  applied := []

end SocketLoop

end StormNet.Net
