/-
  Framework/NetLocks.lean --- the mutexes of the net thread.

  Each function is the code it runs, cut down to the mutexes it locks; what it finds
  (an entry, an endpoint, a due timer) is an argument, so one definition covers all its
  outcomes.  A `ScopeMutex` is `within`, with `lock.unlock()` as the end of the scope.

  `onPacket` and `onClose` call `finishInvoke` with no mutex of the proxy held.  The
  timeout sweep calls it inside the mutex of the proxy's `m_timeout` and that of the
  manager, and a callback that needs one of the two locks it again.
-/
import StormNet.Foundation.Lock

set_option autoImplicit false

namespace StormNet.Framework.NetLocks

open StormNet.Foundation (Code)
open StormNet.Foundation.Code

/-- A `ServiceProxy*`. -/
abbrev Proxy := Nat

/-- The mutexes. -/
inductive Lock where
  /-- `ServiceProxyManager::m_mutex` -/
  | manager
  /-- the notifier of the manager's `m_messages` -/
  | messages
  /-- `m_epMutex` -/
  | epMutex (p : Proxy)
  /-- `m_messMutex` -/
  | messMutex (p : Proxy)
  /-- the mutex of `m_timeout` -/
  | timeout (p : Proxy)
  /-- `ProxyEndPoint::m_mutex` of the `e`-th endpoint of `p` -/
  | endPoint (p : Proxy) (e : Nat)
  /-- the notifier of a `RequestMessage` -/
  | message (m : Nat)
  /-- the notifier of the loop's `m_queue` -/
  | queue
  /-- the mutex of the loop's `m_connTimeout` -/
  | connTimeout
  deriving DecidableEq, Repr

/-- What `ProxyEndPoint::send` finds. -/
inductive SendPath where
  /-- connected: the data goes to the loop -/
  | connected
  /-- connecting: the data is buffered -/
  | connecting
  /-- not connected: the loop is asked to connect, if it has a slot -/
  | connect (slot : Bool)
  deriving DecidableEq, Repr

/-- The endpoint a request finds, and the path its bytes take. -/
abbrev Route := Option (Nat × SendPath)

/-! ## The functions -/

/-- `SocketLoop::pushCmd`. -/
def pushCmd : Code Lock := within .queue skip

/-- `ProxyEndPoint::send`. -/
def send (p : Proxy) (e : Nat) : SendPath → Code Lock
  | .connected => within (.endPoint p e) pushCmd
  | .connecting => within (.endPoint p e) skip
  | .connect slot => within (.endPoint p e) (if slot then pushCmd else skip)

/-- `ProxyEndPoint::onConnect`; `pending` says whether the send buffer holds data. -/
def onConnect (p : Proxy) (e : Nat) (pending : Bool) : Code Lock :=
  within (.endPoint p e) (if pending then pushCmd else skip)

/-- `ServiceProxy::selectEndPoint`. -/
def selectEndPoint (p : Proxy) : Code Lock := within (.epMutex p) skip

/-- `ServiceProxy::updateEndPoints`. -/
def updateEndPoints (p : Proxy) : Code Lock := within (.epMutex p) skip

/-- `ServiceProxy::moveToInactive`. -/
def moveToInactive (p : Proxy) : Code Lock := within (.epMutex p) skip

/-- `ServiceProxy::saveMessage`. -/
def saveMessage (p : Proxy) : Code Lock := within (.messMutex p) skip

/-- `ServiceProxy::getAndDelReqMessage`. -/
def getAndDelReqMessage (p : Proxy) : Code Lock := within (.messMutex p) skip

/-- `m_timeout.add`. -/
def timeoutAdd (p : Proxy) : Code Lock := within (.timeout p) skip

/-- `m_timeout.del`. -/
def timeoutDel (p : Proxy) : Code Lock := within (.timeout p) skip

/-- `ServiceProxy::doInvoke` of a two-way request up to the wait; `refused` is
`finishInvoke` in the case without an endpoint. -/
def doInvoke (p : Proxy) (route : Route) (refused : Code Lock) : Code Lock :=
  (selectEndPoint p).seq <|
    match route with
    | none => refused
    | some (e, path) => (send p e path).seq ((saveMessage p).seq (timeoutAdd p))

/-- `doInvoke` of the sync request `m`: with an endpoint it waits at the notifier, and
without one `finishInvoke` signals it. -/
def syncInvoke (p : Proxy) (route : Route) (m : Nat) : Code Lock :=
  (doInvoke p route (within (.message m) skip)).seq (within (.message m) skip)

/-- What `stringToProxy` does behind its look-up. -/
inductive Lookup where
  /-- the proxy is known -/
  | found
  /-- the string is parsed without a query, with this result -/
  | parsed (ok : Bool)
  /-- the registry `r` is queried for the new proxy `p` with the sync request `m` -/
  | queried (p r : Proxy) (route : Route) (m : Nat) (answered : Bool)
  deriving DecidableEq, Repr

/-- `ServiceProxyManager::stringToProxy`. -/
def stringToProxy (lookup : Lookup) : Code Lock :=
  (within .manager skip).seq <|
    match lookup with
    | .found => skip
    | .parsed ok => if ok then skip else within .manager skip
    | .queried p r route m answered =>
        (syncInvoke r route m).seq (if answered then updateEndPoints p else skip)

/-- What a completion callback does with the framework, in order. -/
inductive Callback where
  | done
  /-- an async request on `p`; `refused` is its own callback, which `doInvoke` runs at
  once if `p` has no endpoint -/
  | asyncRequest (p : Proxy) (route : Route) (refused : Callback) (rest : Callback)
  /-- asks the manager for a proxy -/
  | askProxy (lookup : Lookup) (rest : Callback)
  /-- the registry's answer is applied to `p` -/
  | update (p : Proxy) (rest : Callback)

/-- The code of a callback. -/
def Callback.code : Callback → Code Lock
  | .done => skip
  | .asyncRequest p route refused rest => (doInvoke p route refused.code).seq rest.code
  | .askProxy lookup rest => (stringToProxy lookup).seq rest.code
  | .update p rest => (updateEndPoints p).seq rest.code

/-- The request that `finishInvoke` is called with on the net thread. -/
inductive Completion where
  /-- a sync request: its caller is woken -/
  | sync (m : Nat)
  /-- an async request of another thread: it is queued for the main loop -/
  | elsewhere
  /-- an async request that the net thread issued -/
  | here (callback : Callback)

/-- `ServiceProxy::finishInvoke` on the net thread. -/
def finishInvoke : Completion → Code Lock
  | .sync m => within (.message m) skip
  | .elsewhere => within .messages skip
  | .here callback => callback.code

/-- `ServiceProxy::onPacket`; `taken` is the request with the id of the response. -/
def onPacket (p : Proxy) (taken : Option Completion) : Code Lock :=
  (getAndDelReqMessage p).seq <|
    match taken with
    | none => skip
    | some c => (timeoutDel p).seq (finishInvoke c)

/-- `ServiceProxy::onClose`; `moved` says whether the endpoint becomes inactive and
`affected` are the collected requests. -/
def proxyOnClose (p : Proxy) (moved : Bool) (affected : List Completion) : Code Lock :=
  (if moved then moveToInactive p else skip).seq <|
    (within (.messMutex p) skip).seq <|
      forEach (fun c => (finishInvoke c).seq (timeoutDel p)) affected

/-- `ServiceProxy::doReqTimeOut`; `taken` is the request with the id that is due. -/
def doReqTimeOut (p : Proxy) (taken : Option Completion) : Code Lock :=
  (within (.messMutex p) skip).seq <|
    match taken with
    | none => skip
    | some c => finishInvoke c

/-- `ServiceProxy::doTimeOut`: `m_timeout.timeout` calls `doReqTimeOut` for the due ids
inside its own mutex. -/
def doTimeOut (p : Proxy) (due : List (Option Completion)) : Code Lock :=
  within (.timeout p) (forEach (doReqTimeOut p) due)

/-- `ServiceProxyManager::updateInNetLoop`: the sweeps of the proxies, and the registry
queries of those that need the locator. -/
def updateInNetLoop (sweeps : List (Proxy × List (Option Completion)))
    (updates : List (Proxy × Route)) : Code Lock :=
  within .manager <|
    (forEach (fun x => doTimeOut x.1 x.2) sweeps).seq <|
      -- a refused query ends in a callback that only logs
      forEach (fun x => doInvoke x.1 x.2 skip) updates

/-- `ProxyEndPoint::onClose` of endpoint `e` of `p`. -/
structure Close where
  p : Proxy
  e : Nat
  /-- the close is for another connection -/
  stale : Bool
  moved : Bool
  affected : List Completion

def Close.code (c : Close) : Code Lock :=
  (within (.endPoint c.p c.e) skip).seq <|
    if c.stale then skip else proxyOnClose c.p c.moved c.affected

/-- What the net thread does next. -/
inductive NetEvent where
  /-- `handleCmd` takes a command -/
  | command
  /-- `m_connTimeout.add` or `.del` -/
  | connTimer
  | connect (p : Proxy) (e : Nat) (pending : Bool)
  | packet (p : Proxy) (taken : Option Completion)
  | close (c : Close)
  /-- the sweep of `m_connTimeout` closes connections inside its mutex -/
  | connTimeout (closes : List Close)
  | update (sweeps : List (Proxy × List (Option Completion))) (updates : List (Proxy × Route))
  /-- other code of the server on the net thread -/
  | user (code : Callback)

def NetEvent.code : NetEvent → Code Lock
  | .command => within .queue skip
  | .connTimer => within .connTimeout skip
  | .connect p e pending => onConnect p e pending
  | .packet p taken => onPacket p taken
  | .close c => c.code
  | .connTimeout closes => within .connTimeout (forEach Close.code closes)
  | .update sweeps updates => updateInNetLoop sweeps updates
  | .user callback => callback.code

/-- A run of the net thread. -/
def netThread (events : List NetEvent) : Code Lock := forEach NetEvent.code events

/-! ## Which mutexes a callback can find held -/

/-- Around a callback only these mutexes are held: that of the manager, that of a
proxy's `m_timeout` and that of the loop's `m_connTimeout`. -/
def Outer (held : List Lock) : Prop :=
  ∀ l ∈ held, l = .manager ∨ l = .connTimeout ∨ ∃ p, l = .timeout p

section Outer

variable {held : List Lock}

theorem Outer.epMutex (h : Outer held) (p : Proxy) : Lock.epMutex p ∉ held := by
  intro hmem
  rcases h _ hmem with heq | heq | ⟨q, heq⟩ <;> cases heq

theorem Outer.messMutex (h : Outer held) (p : Proxy) : Lock.messMutex p ∉ held := by
  intro hmem
  rcases h _ hmem with heq | heq | ⟨q, heq⟩ <;> cases heq

theorem Outer.endPoint (h : Outer held) (p : Proxy) (e : Nat) : Lock.endPoint p e ∉ held := by
  intro hmem
  rcases h _ hmem with heq | heq | ⟨q, heq⟩ <;> cases heq

theorem Outer.message (h : Outer held) (m : Nat) : Lock.message m ∉ held := by
  intro hmem
  rcases h _ hmem with heq | heq | ⟨q, heq⟩ <;> cases heq

theorem Outer.messages (h : Outer held) : Lock.messages ∉ held := by
  intro hmem
  rcases h _ hmem with heq | heq | ⟨q, heq⟩ <;> cases heq

theorem Outer.queue (h : Outer held) : Lock.queue ∉ held := by
  intro hmem
  rcases h _ hmem with heq | heq | ⟨q, heq⟩ <;> cases heq

theorem ok_send (h : Outer held) (p : Proxy) (e : Nat) (path : SendPath) :
    (send p e path).Ok held := by
  have hend := h.endPoint p e
  have hqueue := h.queue
  cases path with
  | connected => simp [send, pushCmd, hend, hqueue]
  | connecting => simp [send, hend]
  | connect slot => cases slot <;> simp [send, pushCmd, hend, hqueue]

/-- A request that finds an endpoint needs the mutex of `m_timeout`; one that finds
none runs its callback. -/
theorem ok_doInvoke (h : Outer held) (p : Proxy) (route : Route) (refused : Code Lock) :
    (doInvoke p route refused).Ok held ↔
      match route with
      | none => refused.Ok held
      | some _ => Lock.timeout p ∉ held := by
  cases route with
  | none => simp [doInvoke, selectEndPoint, h.epMutex p]
  | some x =>
    simp [doInvoke, selectEndPoint, saveMessage, timeoutAdd, h.epMutex p, h.messMutex p,
      ok_send h]

theorem ok_syncInvoke (h : Outer held) (p : Proxy) (route : Route) (m : Nat)
    (hp : Lock.timeout p ∉ held) : (syncInvoke p route m).Ok held := by
  cases route <;> simp [syncInvoke, ok_doInvoke h, h.message m, hp]

/-- Whatever else it does, `stringToProxy` needs the mutex of the manager. -/
theorem not_ok_stringToProxy (hm : Lock.manager ∈ held) (lookup : Lookup) :
    ¬ (stringToProxy lookup).Ok held := by
  simp [stringToProxy, hm]

theorem ok_stringToProxy (h : Outer held) (hm : Lock.manager ∉ held)
    (ht : ∀ p, Lock.timeout p ∉ held) (lookup : Lookup) : (stringToProxy lookup).Ok held := by
  cases lookup with
  | found => simp [stringToProxy, hm]
  | parsed ok => cases ok <;> simp [stringToProxy, hm]
  | queried p r route m answered =>
    cases answered <;>
      simp [stringToProxy, updateEndPoints, hm, ok_syncInvoke h r route m (ht r), h.epMutex p]

end Outer

/-! ## Callbacks outside a sweep -/

/-- No proxy's `m_timeout` and not the manager. -/
def NoSweep (held : List Lock) : Prop := ∀ l ∈ held, l = .connTimeout

section NoSweep

variable {held : List Lock}

theorem NoSweep.outer (h : NoSweep held) : Outer held := fun l hl => .inr (.inl (h l hl))

theorem NoSweep.timeout (h : NoSweep held) (p : Proxy) : Lock.timeout p ∉ held := by
  intro hmem
  cases h _ hmem

theorem NoSweep.manager (h : NoSweep held) : Lock.manager ∉ held := by
  intro hmem
  cases h _ hmem

/-- Outside a sweep a callback may do anything. -/
theorem ok_callback (h : NoSweep held) (c : Callback) : c.code.Ok held := by
  induction c with
  | done => simp [Callback.code]
  | asyncRequest p route refused rest ihr ih =>
    cases route <;> simp [Callback.code, ok_doInvoke h.outer, ihr, ih, h.timeout p]
  | askProxy lookup rest ih =>
    simp [Callback.code, ok_stringToProxy h.outer h.manager h.timeout, ih]
  | update p rest ih => simp [Callback.code, updateEndPoints, h.outer.epMutex p, ih]

theorem ok_finishInvoke (h : NoSweep held) (c : Completion) : (finishInvoke c).Ok held := by
  cases c with
  | sync m => simp [finishInvoke, h.outer.message m]
  | elsewhere => simp [finishInvoke, h.outer.messages]
  | here callback => exact ok_callback h callback

theorem ok_onPacket (h : NoSweep held) (p : Proxy) (taken : Option Completion) :
    (onPacket p taken).Ok held := by
  cases taken <;>
    simp [onPacket, getAndDelReqMessage, timeoutDel, h.outer.messMutex p, h.timeout p,
      ok_finishInvoke h]

theorem ok_proxyOnClose (h : NoSweep held) (p : Proxy) (moved : Bool)
    (affected : List Completion) : (proxyOnClose p moved affected).Ok held := by
  cases moved <;>
    simp [proxyOnClose, moveToInactive, timeoutDel, h.outer.messMutex p, h.outer.epMutex p,
      h.timeout p, ok_finishInvoke h]

theorem ok_close (h : NoSweep held) (c : Close) : c.code.Ok held := by
  cases hs : c.stale <;>
    simp [Close.code, hs, h.outer.endPoint c.p c.e, ok_proxyOnClose h]

end NoSweep

/-! ## Callbacks in a sweep -/

/-- What a callback run by the sweep of `p` may do: it does not ask the manager for a
proxy, and its requests on `p` find no endpoint.  The callbacks that `doInvoke` runs for
refused requests are run by the sweep too. -/
def Callback.Harmless (p : Proxy) : Callback → Prop
  | .done => True
  | .asyncRequest _ none refused rest => refused.Harmless p ∧ rest.Harmless p
  | .asyncRequest q (some _) _ rest => q ≠ p ∧ rest.Harmless p
  | .askProxy _ _ => False
  | .update _ rest => rest.Harmless p

/-- The callback of a completion is harmless. -/
def Completion.Harmless (p : Proxy) : Completion → Prop
  | .here callback => callback.Harmless p
  | _ => True

/-- The mutexes held inside the sweep of `p`. -/
def inSweep (p : Proxy) : List Lock := [.timeout p, .manager]

theorem outer_inSweep (p : Proxy) : Outer (inSweep p) := by
  intro l hl
  simp only [inSweep, List.mem_cons, List.not_mem_nil, or_false] at hl
  rcases hl with rfl | rfl
  · exact .inr (.inr ⟨p, rfl⟩)
  · exact .inl rfl

/-- In the sweep of `p` exactly the harmless callbacks run to their end. -/
theorem ok_callback_inSweep (p : Proxy) (c : Callback) :
    c.code.Ok (inSweep p) ↔ c.Harmless p := by
  have hout := outer_inSweep p
  induction c with
  | done => simp [Callback.code, Callback.Harmless]
  | asyncRequest q route refused rest ihr ih =>
    cases route with
    | none => simp [Callback.code, Callback.Harmless, ok_doInvoke hout, ihr, ih]
    | some x =>
      have hq : Lock.timeout q ∉ inSweep p ↔ q ≠ p := by simp [inSweep]
      simp [Callback.code, Callback.Harmless, ok_doInvoke hout, ih, hq]
  | askProxy lookup rest ih =>
    have hno : ¬ (stringToProxy lookup).Ok (inSweep p) :=
      not_ok_stringToProxy (by simp [inSweep]) lookup
    simp [Callback.code, Callback.Harmless, hno]
  | update q rest ih =>
    simp [Callback.code, Callback.Harmless, updateEndPoints, hout.epMutex q, ih]

theorem ok_finishInvoke_inSweep (p : Proxy) (c : Completion) :
    (finishInvoke c).Ok (inSweep p) ↔ c.Harmless p := by
  cases c with
  | sync m => simp [finishInvoke, Completion.Harmless, (outer_inSweep p).message m]
  | elsewhere => simp [finishInvoke, Completion.Harmless, (outer_inSweep p).messages]
  | here callback => exact ok_callback_inSweep p callback

theorem ok_doReqTimeOut_inSweep (p : Proxy) (taken : Option Completion) :
    (doReqTimeOut p taken).Ok (inSweep p) ↔ ∀ c ∈ taken, c.Harmless p := by
  cases taken <;>
    simp [doReqTimeOut, (outer_inSweep p).messMutex p, ok_finishInvoke_inSweep]

/-- The registry queries run with the mutex of the manager held. -/
theorem ok_update (x : Proxy × Route) : (doInvoke x.1 x.2 skip).Ok [Lock.manager] := by
  have hout : Outer [Lock.manager] := by simp [Outer]
  rw [ok_doInvoke hout]
  cases x.2 <;> simp

theorem ok_doTimeOut (x : Proxy × List (Option Completion)) :
    (doTimeOut x.1 x.2).Ok [Lock.manager] ↔ ∀ taken ∈ x.2, ∀ c ∈ taken, c.Harmless x.1 := by
  have hfree : Lock.timeout x.1 ∉ [Lock.manager] := by simp
  simp only [doTimeOut, ok_within, ok_forEach]
  exact ⟨fun h taken ht => (ok_doReqTimeOut_inSweep x.1 taken).mp (h.2 taken ht),
    fun h => ⟨hfree, fun taken ht => (ok_doReqTimeOut_inSweep x.1 taken).mpr (h taken ht)⟩⟩

theorem ok_updateInNetLoop (sweeps : List (Proxy × List (Option Completion)))
    (updates : List (Proxy × Route)) :
    (updateInNetLoop sweeps updates).Ok [] ↔
      ∀ x ∈ sweeps, ∀ taken ∈ x.2, ∀ c ∈ taken, c.Harmless x.1 := by
  simp only [updateInNetLoop, ok_within, ok_seq, ok_forEach, ok_doTimeOut]
  exact ⟨fun h => h.2.1, fun h => ⟨by simp, h, fun x _ => ok_update x⟩⟩

/-! ## Runs -/

/-- The condition on one event: if it is the proxies' sweep, the callbacks that it runs
are harmless for the proxy swept. -/
def NetEvent.Harmless : NetEvent → Prop
  | .update sweeps _ => ∀ x ∈ sweeps, ∀ taken ∈ x.2, ∀ c ∈ taken, c.Harmless x.1
  | _ => True

theorem ok_event (e : NetEvent) : e.code.Ok [] ↔ e.Harmless := by
  have hfree : NoSweep [] := by simp [NoSweep]
  have hconn : NoSweep [Lock.connTimeout] := by simp [NoSweep]
  cases e with
  | command => simp [NetEvent.code, NetEvent.Harmless]
  | connTimer => simp [NetEvent.code, NetEvent.Harmless]
  | connect p e pending =>
    cases pending <;> simp [NetEvent.code, NetEvent.Harmless, onConnect, pushCmd]
  | packet p taken => simp [NetEvent.code, NetEvent.Harmless, ok_onPacket hfree]
  | close c => simp [NetEvent.code, NetEvent.Harmless, ok_close hfree]
  | connTimeout closes => simp [NetEvent.code, NetEvent.Harmless, ok_close hconn]
  | update sweeps updates => exact ok_updateInNetLoop sweeps updates
  | user callback => simp [NetEvent.code, NetEvent.Harmless, ok_callback hfree]

/-- **Completion callbacks may call back into the framework, except from the sweep.**
In a run of the net thread no mutex is locked by a thread that holds it if and only if
no callback that `updateInNetLoop` runs in the sweep of a proxy issues a request on that
proxy that finds an endpoint, or asks the manager for a proxy. -/
theorem netThread_ok_iff (events : List NetEvent) :
    (netThread events).Ok [] ↔ ∀ e ∈ events, e.Harmless := by
  have hevents : (netThread events).Ok [] ↔ ∀ e ∈ events, e.code.Ok [] :=
    ok_forEach NetEvent.code events []
  rw [hevents]
  constructor
  · intro h e he
    exact (ok_event e).mp (h e he)
  · intro h e he
    exact (ok_event e).mpr (h e he)

/-- A request that times out and whose callback issues the next one, and one whose
callback asks for a proxy, each lock a mutex that the sweep holds; from `onPacket` and
`onClose` the same callbacks run to their end. -/
theorem sweep_callbacks_relock :
    let again := Callback.asyncRequest 0 (some (0, .connected)) .done .done
    let ask := Callback.askProxy .found .done
    ¬ (netThread [.update [(0, [some (.here again)])] []]).Ok [] ∧
    ¬ (netThread [.update [(0, [some (.here ask)])] []]).Ok [] ∧
    (netThread [.packet 0 (some (.here again)), .packet 0 (some (.here ask)),
      .close ⟨0, 0, false, false, [.here again, .here ask]⟩]).Ok [] := by
  decide

end StormNet.Framework.NetLocks
