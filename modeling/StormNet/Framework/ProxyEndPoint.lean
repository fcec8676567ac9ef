/-
  Framework/ProxyEndPoint.lean --- `ProxyEndPoint` of `framework/storm_service_proxy.cpp`,
  composed with its `SocketLoop`.

  The endpoint is the handler of the connection it opens.  `send` may run on any thread and
  holds `m_mutex` while it is in `SocketLoop::connect`; the callbacks run on the loop's
  thread, take the mutex for their critical section, and return to the loop.  Every other
  user of the loop is free to do what it likes, except to register the endpoint as its own
  handler.
-/
import StormNet.Foundation.Transition
import StormNet.Net.LoopInvariant

set_option autoImplicit false

namespace StormNet.Framework

open StormNet.Foundation StormNet.Net

/-- Where the holder of `m_mutex` is in `ProxyEndPoint::send`. -/
inductive Sending where
  /-- the mutex is free -/
  | free
  /-- in `m_loop->connect`, without a slot -/
  | connecting
  | reserved (c : Conn)
  | published (c : Conn)
  /-- in front of the assignment to `m_connId` -/
  | returned (c : Conn)
  deriving DecidableEq, Repr

/-- `ProxyEndPoint`; an `m_connId` of -1 is `none`. -/
structure ProxyEndPoint where
  connId : Option Nat
  connected : Bool
  buffer : IoBuffer
  sending : Sending

/-- A `ProxyEndPoint` and its loop. -/
structure Client where
  loop : SocketLoop
  endPoint : ProxyEndPoint
  /-- the critical section of the callback at hand is over -/
  ran : Bool

namespace Client

/-- The slot whose callback runs: `onConnect` or `onClose`. -/
def hooks : Pc → Option Nat
  | .onConnect i _ => some i
  | .closing i _ _ => some i
  | .failing i => some i
  | _ => none

/-- The loop's thread is in `onConnect` or `onClose` of the handler. -/
def InCallback (handler : Nat) (l : SocketLoop) : Prop :=
  ∃ i, hooks l.pc = some i ∧ (l.slot i).handler = some handler

/-- The handler that a call brings. -/
def opHandler : Op → Nat
  | .connect handler => handler
  | .listen handler _ => handler

/-- `m_loop->send(m_connId, ..)`. -/
def loopSend (l : SocketLoop) (connId : Option Nat) (bytes : List UInt8) : SocketLoop :=
  l.pushCmd ⟨.send (IoBuffer.ofBytes bytes), connId.elim (-1) Int.ofNat, connId.map l.occupant⟩

/-- `ProxyEndPoint::send`, up to `m_loop->connect` if it gets there. -/
def send (s : Client) (data : List UInt8) : Option Client :=
  let ep := s.endPoint
  if ep.sending ≠ .free then none
  else if ep.connected then some { s with loop := loopSend s.loop ep.connId data }
  else (ep.buffer.pushBack data).map (fun buffer => { s with
    endPoint := { ep with
      buffer := buffer
      sending := if ep.connId.isSome then .free else .connecting } })

/-- A turn of `getNewSocket` in `m_loop->connect(this, ..)`. -/
def newSocket (handler : Nat) (s : Client) : Option Client :=
  if s.endPoint.sending ≠ .connecting then none
  else (s.loop.reserve (.connect handler)).map (fun l => { s with
    loop := l
    endPoint := { s.endPoint with
      sending := (s.loop.tryNewSocket.2.map (fun i => Sending.reserved (l.occupant i))).getD
        .connecting } })

/-- `getNewSocket` has returned NULL: `m_connId = -1`. -/
def noSocket (s : Client) : Option Client :=
  if s.endPoint.sending ≠ .connecting then none
  else some { s with endPoint := { s.endPoint with connId := none, sending := .free } }

/-- `m_connId = ..`, with the id that `connect` has read from the slot. -/
def assign (s : Client) : Option Client :=
  match s.endPoint.sending with
  | .returned c => some { s with
      endPoint := { s.endPoint with connId := some (s.loop.slot c.slot).id, sending := .free } }
  | _ => none

/-- `ProxyEndPoint::onConnect`. -/
def onConnect (handler : Nat) (s : Client) : Option Client :=
  let ep := s.endPoint
  match s.loop.pc with
  | .onConnect i _ =>
      if (s.loop.slot i).handler = some handler ∧ s.ran = false ∧ ep.sending = .free then
        if ep.buffer.getSize ≠ 0 then some
          { loop := loopSend s.loop ep.connId ep.buffer.contents
            endPoint := { ep with connected := true, buffer := ep.buffer.reset }
            ran := true }
        else some { s with endPoint := { ep with connected := true }, ran := true }
      else none
  | _ => none

/-- `ProxyEndPoint::onClose` on the slot `i`, up to the unlocking. -/
def closed (handler : Nat) (s : Client) (i : Nat) : Option Client :=
  let ep := s.endPoint
  if (s.loop.slot i).handler = some handler ∧ s.ran = false ∧ ep.sending = .free then
    if ep.connId ≠ some (s.loop.slot i).id then some { s with ran := true }
    else some { s with
      endPoint := { ep with connId := none, connected := false, buffer := ep.buffer.reset }
      ran := true }
  else none

/-- `ProxyEndPoint::onClose`. -/
def onClose (handler : Nat) (s : Client) : Option Client :=
  match s.loop.pc with
  | .closing i _ _ => s.closed handler i
  | .failing i => s.closed handler i
  | _ => none

inductive Action where
  /-- a step of the loop, or of another user of it -/
  | loop (a : SocketLoop.Action)
  /-- `ProxyEndPoint::send` -/
  | send (data : List UInt8)
  | newSocket
  | noSocket
  | assign
  | onConnect
  | onClose

/-- A step of the loop's thread: a callback of the endpoint returns behind its critical
section. -/
def netStep (handler : Nat) (s : Client) (env : SocketLoop.Env) : Option Client :=
  if (hooks s.loop.pc).any (fun i => (s.loop.slot i).handler = some handler) ∧ s.ran = false then
    none
  else (s.loop.netStep env).map (fun l => { s with loop := l, ran := false })

/-- The endpoint's own call of `connect` goes on. -/
def Sending.publish (sending : Sending) (c : Conn) : Sending :=
  if sending = .reserved c then .published c else sending

def Sending.push (sending : Sending) (c : Conn) : Sending :=
  if sending = .published c then .returned c else sending

def loopStep (handler : Nat) (s : Client) (a : SocketLoop.Action) : Option Client :=
  match a with
  | .reserve op =>
      if opHandler op = handler then none
      else (s.loop.reserve op).map (fun l => { s with loop := l })
  | .publish c => (s.loop.publish c).map (fun l => { s with
      loop := l
      endPoint := { s.endPoint with sending := Sending.publish s.endPoint.sending c } })
  | .push c => (s.loop.push c).map (fun l => { s with
      loop := l
      endPoint := { s.endPoint with sending := Sending.push s.endPoint.sending c } })
  | .net env => netStep handler s env
  | a => (s.loop.step a).map (fun l => { s with loop := l })

def step (handler : Nat) (s : Client) : Action → Option Client
  | .loop a => s.loopStep handler a
  | .send data => s.send data
  | .newSocket => s.newSocket handler
  | .noSocket => s.noSocket
  | .assign => s.assign
  | .onConnect => s.onConnect handler
  | .onClose => s.onClose handler

/-- A new endpoint on a new loop. -/
def new (maxSocket efd : Nat) : Client where
  loop := .new maxSocket efd
  endPoint := ⟨none, false, IoBuffer.new 4096, .free⟩
  ran := false

/-- The endpoint and the loop agree about the connection. -/
structure Agrees (handler : Nat) (s : Client) : Prop where
  connected : s.endPoint.connected = true → ∃ i, s.endPoint.connId = some i ∧
    (s.loop.slot i).status = .connected ∧ (s.loop.slot i).handler = some handler
  connecting : ∀ i, s.endPoint.connId = some i → s.endPoint.connected = false →
    (s.loop.slot i).status = .connecting ∧ (s.loop.slot i).handler = some handler

/-- `connectSocket` runs only for a slot that is Connecting and has no fd yet. -/
def Rechecked (s : Client) : Action → Prop
  | .loop a => ∀ i ∈ s.loop.connects a,
      (s.loop.slot i).status = .connecting ∧ (s.loop.slot i).fd = none
  | _ => True

end Client

end StormNet.Framework
