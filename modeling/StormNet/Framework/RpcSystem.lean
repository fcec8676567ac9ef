/-
  Framework/RpcSystem.lean --- a proxy, the streams to its endpoints and the services behind
  them, as one transition system.

  What the proxy does is `ServiceProxy`, step by step.  The bytes of `ProxyEndPoint::send`
  go into the stream of its connection; each side reads from its stream in pieces of any size,
  through `handleRead`.  A listener queues the packets and the threads of the service take
  them, or the net thread does; the answer goes to the socket that has the slot of the request's
  connection by then.

  A proxy that closes its socket goes on with the next connection.  What is on the way to it is
  dropped, and it is told, or is not; the listener closes its side of the old connection at some
  time, and reads on until then.  The proxy is the only client of its endpoints.

  The number in a packet, `sent`, `taken` and `executed` are records; no function reads them.
-/
import StormNet.Framework.RpcService
import StormNet.Framework.Step
import StormNet.Net.HandleRead

set_option autoImplicit false

namespace StormNet.Framework

open StormNet.Foundation StormNet.Net StormNet.Util
open Function (update)

/-! ## The state -/

/-- The stream to a listener. -/
structure UpStream where
  conn : Connection
  /-- the listener has not closed its socket -/
  opened : Bool
  /-- the bytes that the socket has not read -/
  bytes : List UInt8
  buffer : IoBuffer

/-- The streams to an endpoint and back. -/
structure Link where
  /-- the number of the proxy's connection; the ones below it are closed there -/
  current : Nat
  up : Nat → UpStream
  down : List UInt8
  downBuffer : IoBuffer

/-- A packet that a listener has passed on. -/
structure Received where
  /-- the number of its connection -/
  stream : Nat
  conn : Connection
  data : List UInt8

/-- A service object on its thread: its state, and the packet `update` has popped. -/
structure ServiceObject (σ : Type) where
  state : σ
  hand : Option Received

/-- A call of `onRequest` with what it was answered. -/
structure Execution (σ : Type) where
  state : σ
  conn : Connection
  request : RpcRequest
  response : RpcResponse

/-- A listener with the service objects behind it. -/
structure Server (σ : Type) where
  /-- `m_queue`, or the packets the net thread is about to pass on -/
  queue : List Received
  worker : Nat → ServiceObject σ
  /-- the requests of each connection that were taken from the queue, in order -/
  taken : Nat → List RpcRequest
  executed : List (Execution σ)

/-- What is fixed while the system runs. -/
structure Deployment (σ : Type) where
  proto : RpcProto
  methods : List (Method σ)
  inLoop : EndPoint → Bool
  config : EndPoint → ServiceConfig
  /-- the id of the client's net thread -/
  netTid : Nat

structure RpcSystem (σ : Type) where
  proxy : ServiceProxy
  /-- the fields `proto_id` and `request` of a message -/
  call : Ref → UInt32 × List UInt8
  link : EndPoint → Link
  server : EndPoint → Server σ
  /-- the packets that `onData` of the client has yet to pass to `onPacket` -/
  arrived : List (List UInt8)
  /-- the requests handed to each connection of an endpoint, in order -/
  sent : EndPoint → Nat → List RpcRequest

/-! ## The functions -/

/-- A socket reads: the packets passed on, and the buffer if it stays open. -/
def receive (b : IoBuffer) (rs : List ReadResult) : List (List UInt8) × Option IoBuffer :=
  let r := handleRead ((b.contents ++ bytesRead rs).length + 1) rs b
  (packetsBeforeClose r.1, r.2)

namespace Link

/-- The stream `n` is `u` from here on. -/
def setUp (l : Link) (n : Nat) (u : UpStream) : Link := { l with up := update l.up n u }

/-- The proxy's socket writes. -/
def send (l : Link) (bytes : List UInt8) : Link :=
  let u := l.up l.current
  l.setUp l.current { u with bytes := u.bytes ++ bytes }

/-- The proxy's socket is closed and its read buffer goes to the pool; what is sent from here
on goes to the next connection. -/
def next (l : Link) : Link :=
  { l with current := l.current + 1, down := [], downBuffer := l.downBuffer.reset }

/-- The listener closes its socket of the connection `n`. -/
def shut (l : Link) (n : Nat) : Link := l.setUp n { l.up n with opened := false }

/-- The connection `n` has the slot `id` of the listener's loop. -/
def Holds (l : Link) (n : Nat) (id : UInt32) : Prop :=
  n ≤ l.current ∧ (l.up n).opened = true ∧ (l.up n).conn.id = id

instance (l : Link) (n : Nat) (id : UInt32) : Decidable (l.Holds n id) :=
  inferInstanceAs (Decidable (_ ∧ _))

/-- `m_loop->send` or `m_loop->close` on the slot that the connection `n` has, if one has it. -/
def reply (l : Link) (slot : Option Nat) (out : Reply) : Link :=
  match slot, out with
  | some n, .close _ => l.shut n
  -- the answer to a connection that the proxy has closed reaches nobody
  | some n, .send bytes => if n = l.current then { l with down := l.down ++ bytes } else l
  | _, _ => l

end Link

section Server

variable {σ : Type}

/-- `StormListener::onPacket`. -/
def Server.onPacket (inLoop : Bool) (config : ServiceConfig) (stream : Nat) (conn : Connection)
    (v : Server σ) (data : List UInt8) : Server σ :=
  -- too many packets in the queue: this one is thrown away
  if inLoop = false ∧ UInt32.ofNat v.queue.length > config.maxQueueLen then v
  else { v with queue := v.queue ++ [⟨stream, conn, data⟩] }

/-- The service object `w` pops a packet. -/
def Server.take (proto : RpcProto) (v : Server σ) (w : Nat) : Option (Server σ) :=
  if (v.worker w).hand.isSome then none
  else
    match v.queue with
    | [] => none
    | p :: queue => some { v with
        queue := queue
        worker := update v.worker w { v.worker w with hand := some p }
        taken := update v.taken p.stream
          (v.taken p.stream ++ (proto.parseRequest p.data).toList) }

/-- The service object `w` is done with its packet. -/
def Server.finish (v : Server σ) (w : Nat) (state : σ) (executed : List (Execution σ)) :
    Server σ :=
  { v with
    worker := update v.worker w { state := state, hand := none }
    executed := v.executed ++ executed }

end Server

namespace RpcSystem

variable {σ : Type}

/-- The `req` of a message once its id is set. -/
def rpcRequest (s : RpcSystem σ) (m : Ref) : RpcRequest where
  protoId := (s.call m).1
  requestId := (s.proxy.message m).requestId
  invokeType := (s.proxy.message m).invokeType.code
  request := (s.call m).2

/-- `ProxyEndPoint::send` of an encoded request. -/
def send (proto : RpcProto) (q : RpcRequest) (s : RpcSystem σ) (ep : EndPoint) : RpcSystem σ :=
  let l := s.link ep
  { s with
    link := update s.link ep (l.send (encoded (proto.writeRequest q)))
    sent := update s.sent ep
      (update (s.sent ep) l.current (s.sent ep l.current ++ [q])) }

/-- The endpoints that the next step of `doInvoke` sends to. -/
def targets (s : ServiceProxy) (m : Ref) (code : Int64) : List EndPoint :=
  if s.stage m ≠ .taken then []
  else if (s.message m).invokeType = .oneWay ∧ (s.message m).broadcast then s.activeEndPoints
  else (s.selectEndPoint code).toList

/-- The next step of `doInvoke`.  The endpoints of `lost` send to a socket that is gone. -/
def doInvoke (d : Deployment σ) (s : RpcSystem σ) (m : Ref) (code : Int64) (now : UInt64)
    (lost : List EndPoint) : Option (RpcSystem σ) :=
  (s.proxy.doInvoke m code now).map fun proxy =>
    ((targets s.proxy m code).filter (· ∉ lost)).foldl (send d.proto (s.rpcRequest m))
      { s with proxy := proxy }

/-- The listener's socket of the connection `n` reads. -/
def toServer (d : Deployment σ) (s : RpcSystem σ) (ep : EndPoint) (n : Nat)
    (rs : List ReadResult) : RpcSystem σ :=
  let l := s.link ep
  let u := l.up n
  let (packets, left) := receive u.buffer rs
  { s with
    link := update s.link ep (match left with
      | none => l.shut n
      | some b => l.setUp n { u with bytes := u.bytes.drop (bytesRead rs).length, buffer := b })
    server := update s.server ep
      (packets.foldl (Server.onPacket (d.inLoop ep) (d.config ep) n u.conn) (s.server ep)) }

/-- The service object `w` runs `onRequest` on its packet; `slot` is the connection that has
the slot of the packet's one by then. -/
def run (d : Deployment σ) (s : RpcSystem σ) (ep : EndPoint) (w : Nat) (slot : Option Nat) :
    Option (RpcSystem σ) :=
  let v := s.server ep
  let state := (v.worker w).state
  (v.worker w).hand.bind fun p =>
    if ∀ n ∈ slot, (s.link ep).Holds n p.conn.id then
      let (state', out) := onRequest d.proto d.methods state p.conn p.data
      let executed := (d.proto.parseRequest p.data).toList.map fun req =>
        ⟨state, p.conn, req, (respond d.methods state p.conn req).2⟩
      some { s with
        link := update s.link ep ((s.link ep).reply slot out)
        server := update s.server ep (v.finish w state' executed) }
    else none

/-- The proxy's socket reads. -/
def toClient (s : RpcSystem σ) (ep : EndPoint) (rs : List ReadResult) : RpcSystem σ :=
  let l := s.link ep
  let (packets, left) := receive l.downBuffer rs
  { s with
    link := update s.link ep (match left with
      | none => l.next
      | some b => { l with down := l.down.drop (bytesRead rs).length, downBuffer := b })
    arrived := packets }

/-! ## The system -/

/-- What happens next. -/
inductive Action where
  /-- thread `tid` makes the message `m` with its `proto_id` and `request` -/
  | newRequest (m : Ref) (type : InvokeType) (cb broadcast : Bool) (tid : Nat)
      (protoId : UInt32) (request : List UInt8)
  /-- the next step of a `doInvoke` -/
  | doInvoke (m : Ref) (code : Int64) (now : UInt64) (lost : List EndPoint)
  /-- the endpoints change -/
  | endpoints (active : List EndPoint)
  /-- another step of the proxy -/
  | proxy (a : ServiceProxy.Action)
  /-- the listener's socket of a connection reads what the `read()` calls meet -/
  | toServer (ep : EndPoint) (n : Nat) (rs : List ReadResult)
  /-- the listener closes its socket of a connection -/
  | shut (ep : EndPoint) (n : Nat)
  /-- a service object pops a packet -/
  | take (ep : EndPoint) (w : Nat)
  /-- a service object runs `onRequest` and sends the answer -/
  | run (ep : EndPoint) (w : Nat) (slot : Option Nat)
  /-- the proxy's socket reads -/
  | toClient (ep : EndPoint) (rs : List ReadResult)
  /-- `onPacket` is given the next packet -/
  | packet (ep : EndPoint)
  /-- the proxy's socket is closed, the proxy is told or not -/
  | close (ep : EndPoint) (closeType : CloseType) (told : Bool)

/-- The steps of the proxy that touch neither a stream nor the endpoints. -/
def inner : ServiceProxy.Action → Bool
  | .wakeup _ => true
  | .delRequest _ => true
  | .updateInMainLoop => true
  | .doTimeOut _ => true
  | .net => true
  | _ => false

/-- One step.  The net thread of the client passes on all packets of a read first. -/
def step (d : Deployment σ) (s : RpcSystem σ) : Action → Option (RpcSystem σ)
  | .newRequest m type cb broadcast tid protoId request =>
      (s.proxy.step d.proto.parseResponse d.netTid
        (.newRequest m type cb broadcast tid)).map fun proxy =>
          { s with proxy := proxy, call := update s.call m (protoId, request) }
  | .doInvoke m code now lost => s.doInvoke d m code now lost
  | .endpoints active => some { s with proxy := { s.proxy with activeEndPoints := active } }
  | .proxy a =>
      if inner a then
        (s.proxy.step d.proto.parseResponse d.netTid a).map fun proxy =>
          { s with proxy := proxy }
      else none
  | .toServer ep n rs =>
      let u := (s.link ep).up n
      if u.opened = true ∧ closes rs = false ∧ bytesRead rs <+: u.bytes then
        some (s.toServer d ep n rs)
      else none
  | .shut ep n => some { s with link := update s.link ep ((s.link ep).shut n) }
  | .take ep w =>
      ((s.server ep).take d.proto w).map fun v => { s with server := update s.server ep v }
  | .run ep w slot => s.run d ep w slot
  | .toClient ep rs =>
      if s.arrived = [] ∧ s.proxy.net = .idle ∧ closes rs = false ∧
          bytesRead rs <+: (s.link ep).down then
        some (s.toClient ep rs)
      else none
  | .packet ep =>
      match s.arrived with
      | [] => none
      | data :: arrived =>
          (s.proxy.step d.proto.parseResponse d.netTid (.onPacket ep data)).map fun proxy =>
            { s with proxy := proxy, arrived := arrived }
  | .close ep closeType told =>
      if s.arrived = [] ∧ s.proxy.net = .idle then
        some { s with
          proxy := if told then s.proxy.onClose ep closeType else s.proxy
          link := update s.link ep (s.link ep).next }
      else none

/-- Before the first call; the services start in the state `start`, and the listener of an
endpoint is going to know its connections by `conn`. -/
def new (active : List EndPoint) (conn : EndPoint → Nat → Connection) (start : σ) :
    RpcSystem σ where
  proxy := .new active
  call := fun _ => (0, [])
  link := fun ep => ⟨0, fun n => ⟨conn ep n, true, [], .new 4096⟩, [], .new 4096⟩
  server := fun _ => ⟨[], fun _ => ⟨start, none⟩, fun _ => [], []⟩
  arrived := []
  sent := fun _ _ => []

end RpcSystem

end StormNet.Framework
