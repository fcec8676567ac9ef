/-
  Framework/ServiceProxy.lean --- `ServiceProxy` of `framework/storm_service_proxy.cpp`
  as a transition system of caller threads and the net thread.

  A call is one `RequestMessage`, named by a reference that is never used twice.  Its
  `doInvoke` runs on any thread and is cut where another thread can come between: at
  the atomic counter, at the endpoint, at each locked table and at the notifier.  The
  handlers of the net thread are cut in the same way and run one at a time.

  The endpoint lists change by `endpoints`, at any moment and in any way; what
  `ProxyEndPoint::send` does with the bytes is another component's matter, and the
  generated protobuf parser is the parameter `parse`.
-/
import Mathlib.Logic.Function.Basic
import StormNet.Foundation.Transition
import StormNet.Net.SocketDefine
import StormNet.Util.TimeList

set_option autoImplicit false

namespace StormNet.Framework

open StormNet.Foundation
open StormNet.Net (CloseType)
open StormNet.Util (TimeList)
open Function (update)

/-! ## Messages -/

/-- `InvokeType`. -/
inductive InvokeType where
  | sync
  | async
  | oneWay
  deriving DecidableEq, Repr

/-- `ResponseStatus`. -/
inductive ResponseStatus where
  | ok
  | timeOut
  | netError
  | coderError
  | noProtoId
  | error
  deriving DecidableEq, Repr

/-- The fields of `RpcResponse` a client reads. -/
structure RpcResponse where
  requestId : UInt32
  ret : Int
  response : List UInt8
  deriving DecidableEq, Repr

/-- A `ProxyEndPoint*`. -/
abbrev EndPoint := Nat

/-- A `RequestMessage*`. -/
abbrev Ref := Nat

/-- `RequestMessage` with the values its constructor sets. -/
structure RequestMessage where
  invokeType : InvokeType := .sync
  requestId : UInt32 := 0
  ep : Option EndPoint := none
  status : ResponseStatus := .timeOut
  resp : Option RpcResponse := none
  back : Bool := false
  threadId : Nat := 0
  broadcast : Bool := false
  deriving DecidableEq, Repr

/-- `ServiceProxy::newRequest` called on thread `tid`; `cb` says whether a callback is
given. -/
def newRequest (type : InvokeType) (cb broadcast : Bool) (tid : Nat) : RequestMessage :=
  if type = .async ∧ cb = false then
    { invokeType := .oneWay, broadcast := broadcast, threadId := tid }
  else { invokeType := type, threadId := tid }

/-! ## The state -/

/-- How far the `doInvoke` of a call is. -/
inductive Stage where
  /-- the reference is not in use -/
  | fresh
  /-- `newRequest` has returned -/
  | created
  /-- the request id is taken and the request is encoded -/
  | taken
  /-- there is no endpoint, `finishInvoke` comes next -/
  | refused
  /-- the bytes are handed to `ProxyEndPoint::send` -/
  | sent
  /-- `saveMessage` is done -/
  | saved
  /-- `m_timeout.add` is done -/
  | added
  /-- in `notifier.wait()` -/
  | waiting
  | returned
  deriving DecidableEq, Repr

/-- Where the net thread is. -/
inductive NetState where
  /-- in no handler of this proxy -/
  | idle
  /-- `onPacket`: `m_timeout.del` comes next -/
  | packetTaken (m : Ref) (resp : RpcResponse)
  /-- `onPacket`: `finishInvoke` comes next -/
  | packetDel (m : Ref) (resp : RpcResponse)
  /-- `onClose`: the loop over `affectMsg`, of which `rest` is left -/
  | closing (closeType : CloseType) (rest : List Ref)
  /-- `onClose`: `m_timeout.del` of the finished `m` comes next -/
  | closeDel (closeType : CloseType) (m : Ref) (rest : List Ref)
  /-- `TimeList::timeout`: the head of the loop -/
  | sweep (now : UInt64)
  /-- `doReqTimeOut(key)` has taken `m` out, `finishInvoke` comes next -/
  | sweepTaken (now : UInt64) (m : Ref) (key : UInt32)
  /-- the callback for `key` has returned -/
  | sweepErase (now : UInt64) (key : UInt32)
  deriving DecidableEq, Repr

/-- The requests taken out of `m_reqMessages` that the net thread is about to finish. -/
def NetState.inHand : NetState → List Ref
  | .packetTaken m _ => [m]
  | .packetDel m _ => [m]
  | .closing _ rest => rest
  | .closeDel _ _ rest => rest
  | .sweepTaken _ m _ => [m]
  | _ => []

/-- The net thread is inside `TimeList::timeout` and holds the list's mutex. -/
def NetState.sweeping : NetState → Bool
  | .sweep _ => true
  | .sweepTaken _ _ _ => true
  | .sweepErase _ _ => true
  | _ => false

/-- One proxy, its messages and the threads in it.  `calls`, `finished` and
`released` record the calls made, the number of times `finishInvoke` was called for
each message and the messages that `delRequest` has deleted. -/
structure ServiceProxy where
  /-- `m_activeEndPoints` -/
  activeEndPoints : List EndPoint
  /-- `m_sequeue` -/
  sequeue : UInt32
  /-- `m_reqMessages` -/
  reqMessages : Std.TreeMap UInt32 Ref
  /-- `m_timeout` -/
  timeout : TimeList UInt32 UInt64
  message : Ref → RequestMessage
  stage : Ref → Stage
  calls : List Ref
  net : NetState
  /-- the manager's `m_messages` -/
  messages : List Ref
  finished : Ref → Nat
  released : List Ref

namespace ServiceProxy

/-- A proxy with the given endpoints, before its first call. -/
def new (active : List EndPoint) : ServiceProxy where
  activeEndPoints := active
  sequeue := 0
  reqMessages := ∅
  timeout := .new 3000
  message := fun _ => {}
  stage := fun _ => .fresh
  calls := []
  net := .idle
  messages := []
  finished := fun _ => 0
  released := []

/-! ## The functions of the class -/

/-- `ServiceProxy::selectEndPoint`, with `code` the thread's `m_hashCode`. -/
def selectEndPoint (s : ServiceProxy) (code : Int64) : Option EndPoint :=
  if s.activeEndPoints.isEmpty then none
  else if code ≠ -1 then s.activeEndPoints[code.toUInt64.toNat % s.activeEndPoints.length]?
  else s.activeEndPoints[s.sequeue.toNat % s.activeEndPoints.length]?

/-- `ServiceProxy::saveMessage`. -/
def saveMessage (s : ServiceProxy) (requestId : UInt32) (m : Ref) : ServiceProxy :=
  { s with reqMessages := s.reqMessages.insert requestId m }

/-- `ServiceProxy::getAndDelReqMessage`. -/
def getAndDelReqMessage (s : ServiceProxy) (requestId : UInt32) :
    Option (Ref × ServiceProxy) :=
  s.reqMessages[requestId]?.map
    (fun m => (m, { s with reqMessages := s.reqMessages.erase requestId }))

/-- `ServiceProxy::finishInvoke` on thread `tid`.  A callback that is dispatched ends
in the generated `delRequest`. -/
def finishInvoke (s : ServiceProxy) (tid : Nat) (m : Ref) : ServiceProxy :=
  let s := { s with finished := update s.finished m (s.finished m + 1) }
  match (s.message m).invokeType with
  | .sync => { s with message := update s.message m { s.message m with back := true } }
  | .async =>
      if tid = (s.message m).threadId then { s with released := m :: s.released }
      else { s with messages := s.messages ++ [m] }
  | .oneWay => s

/-- The status `onClose` gives the requests of a closed endpoint. -/
def closeStatus : CloseType → ResponseStatus
  | .timeout => .timeOut
  | .connectFail => .netError
  | .connTimeOut => .netError
  | _ => .error

/-- The next atomic step of `doInvoke(message)` for the call `m`; `code` is the
thread's `m_hashCode` and `now` the clock, where the step reads them. -/
def doInvoke (s : ServiceProxy) (m : Ref) (code : Int64) (now : UInt64) :
    Option ServiceProxy :=
  let message := s.message m
  let goto (s : ServiceProxy) (stage : Stage) : ServiceProxy :=
    { s with stage := update s.stage m stage }
  match s.stage m with
  | .created =>
      let s := { s with
        sequeue := s.sequeue + 1
        message := update s.message m { message with requestId := s.sequeue } }
      some (goto s .taken)
  | .taken =>
      if message.invokeType = .oneWay ∧ message.broadcast then some (goto s .sent)
      else
        match s.selectEndPoint code with
        | none =>
            let s := { s with message := update s.message m { message with status := .netError } }
            some (goto s .refused)
        | some ep =>
            let s := { s with message := update s.message m { message with ep := some ep } }
            some (goto s .sent)
  | .refused => some (goto (s.finishInvoke message.threadId m) .returned)
  | .sent =>
      if message.invokeType = .oneWay then some (goto s .returned)
      else some (goto (s.saveMessage message.requestId m) .saved)
  | .saved =>
      -- `add` waits for the mutex of the list
      if s.net.sweeping then none
      else some (goto { s with timeout := s.timeout.add message.requestId now } .added)
  | .added =>
      if message.invokeType = .sync ∧ message.back = false then some (goto s .waiting)
      else some (goto s .returned)
  | _ => none

/-- `pthread_cond_wait` returns in the call `m`: because of the signal, or for no
reason. -/
def wakeup (s : ServiceProxy) (m : Ref) : Option ServiceProxy :=
  if s.stage m = .waiting then some { s with stage := update s.stage m .returned } else none

/-- The generated stub of a sync or one-way call deletes the message behind `doInvoke`. -/
def delRequest (s : ServiceProxy) (m : Ref) : Option ServiceProxy :=
  if s.stage m = .returned ∧ (s.message m).invokeType ≠ .async ∧ m ∉ s.released then
    some { s with released := m :: s.released }
  else none

/-- `ServiceProxy::onPacket` up to `getAndDelReqMessage`. -/
def onPacket (s : ServiceProxy) (parse : List UInt8 → Option RpcResponse)
    (data : List UInt8) : ServiceProxy :=
  match parse data with
  | none => s
  | some resp =>
      match s.getAndDelReqMessage resp.requestId with
      | none => s
      | some (m, s) => { s with net := .packetTaken m resp }

/-- `ServiceProxy::onClose` up to the loop over `affectMsg`. -/
def onClose (s : ServiceProxy) (ep : EndPoint) (closeType : CloseType) : ServiceProxy :=
  let affected (m : Ref) : Bool := (s.message m).ep = some ep
  { s with
    net := .closing closeType ((s.reqMessages.toList.map (·.2)).filter affected)
    reqMessages := s.reqMessages.filter (fun _ m => !affected m) }

/-- `ServiceProxy::doReqTimeOut(requestId)` up to `finishInvoke`, in the sweep at `now`. -/
def doReqTimeOut (s : ServiceProxy) (now : UInt64) (requestId : UInt32) : ServiceProxy :=
  match s.getAndDelReqMessage requestId with
  | none => { s with net := .sweepErase now requestId }
  | some (m, s) => { s with net := .sweepTaken now m requestId }

/-- Set the status and call `finishInvoke` on the net thread. -/
def finishWith (s : ServiceProxy) (netTid : Nat) (m : Ref) (message : RequestMessage) :
    ServiceProxy :=
  { s with message := update s.message m message }.finishInvoke netTid m

/-- The next atomic step of the handler the net thread is in. -/
def netStep (s : ServiceProxy) (netTid : Nat) : Option ServiceProxy :=
  match s.net with
  | .idle => none
  | .packetTaken m resp =>
      some { s with timeout := s.timeout.del resp.requestId, net := .packetDel m resp }
  | .packetDel m resp =>
      let message := { s.message m with resp := some resp, status := .ok }
      some { s.finishWith netTid m message with net := .idle }
  | .closing _ [] => some { s with net := .idle }
  | .closing closeType (m :: rest) =>
      let message := { s.message m with status := closeStatus closeType }
      some { s.finishWith netTid m message with net := .closeDel closeType m rest }
  | .closeDel closeType m rest =>
      some { s with
        timeout := s.timeout.del (s.message m).requestId
        net := .closing closeType rest }
  | .sweep now =>
      match s.timeout.due now with
      | none => some { s with net := .idle }
      | some key => some (s.doReqTimeOut now key)
  | .sweepTaken now m key =>
      let message := { s.message m with status := .timeOut }
      some { s.finishWith netTid m message with net := .sweepErase now key }
  | .sweepErase now _ => some { s with timeout := s.timeout.eraseFront, net := .sweep now }

/-! ## The system -/

/-- What happens next. -/
inductive Action where
  /-- thread `tid` makes the message `m` -/
  | newRequest (m : Ref) (type : InvokeType) (cb broadcast : Bool) (tid : Nat)
  /-- the next step of a `doInvoke` -/
  | doInvoke (m : Ref) (code : Int64) (now : UInt64)
  /-- `notifier.wait()` returns -/
  | wakeup (m : Ref)
  /-- the stub deletes its message -/
  | delRequest (m : Ref)
  /-- the active endpoints change -/
  | endpoints (active : List EndPoint)
  /-- `updateInMainLoop` of the manager dispatches the queued messages -/
  | updateInMainLoop
  /-- the net thread enters `onPacket` -/
  | onPacket (ep : EndPoint) (data : List UInt8)
  /-- the net thread enters `onClose` -/
  | onClose (ep : EndPoint) (closeType : CloseType)
  /-- the net thread enters `doTimeOut` -/
  | doTimeOut (now : UInt64)
  /-- the net thread goes on in its handler -/
  | net

/-- One step of the system; `netTid` is the net thread's id. -/
def step (parse : List UInt8 → Option RpcResponse) (netTid : Nat) (s : ServiceProxy) :
    Action → Option ServiceProxy
  | .newRequest m type cb broadcast tid =>
      if s.stage m = .fresh then
        some { s with
          message := update s.message m (Framework.newRequest type cb broadcast tid)
          stage := update s.stage m .created
          calls := m :: s.calls }
      else none
  | .doInvoke m code now => s.doInvoke m code now
  | .wakeup m => s.wakeup m
  | .delRequest m => s.delRequest m
  | .endpoints active => some { s with activeEndPoints := active }
  | .updateInMainLoop => some { s with messages := [], released := s.messages ++ s.released }
  | .onPacket _ data => if s.net = .idle then some (s.onPacket parse data) else none
  | .onClose ep closeType => if s.net = .idle then some (s.onClose ep closeType) else none
  | .doTimeOut now => if s.net = .idle then some { s with net := .sweep now } else none
  | .net => s.netStep netTid

end ServiceProxy

end StormNet.Framework
