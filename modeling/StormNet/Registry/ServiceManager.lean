/-
  Registry/ServiceManager.lean --- `ServiceManager` of
  `storm_servers/storm_registry/ServiceManager.cpp` and the table behind it.

  Three indexes are kept by different parts of the code: the lists of `m_services` under the
  concatenated names, the queue of endpoints to insert, and the `ip-port` strings of the last
  reload.  A function that reads the clock more than once is given every reading.

  The table has the columns the code names.  A `heart_beat_time` that `parseTime` refuses is
  `none`; an insert leaves that column to its default.
-/
import StormNet.Foundation.Grouping
import StormNet.Foundation.Transition
import StormNet.Util.UtilString

set_option autoImplicit false

namespace StormNet.Registry

open StormNet.Foundation
open StormNet.Util (Str)
open Function (update)

/-! ## Data -/

/-- The four names of a service. -/
structure Names where
  appName : Str
  serverName : Str
  serviceName : Str
  setName : Str
  deriving DecidableEq, Repr

/-- `getKey`. -/
def getKey (n : Names) : Str := n.appName ++ n.serverName ++ n.serviceName ++ n.setName

/-- What tells one endpoint from another: its service and its address. -/
structure Id where
  names : Names
  ip : Str
  port : UInt32
  deriving DecidableEq, Repr

/-- `ip + "-" + tostr(port)`. -/
def ipPort (ip : Str) (port : UInt32) : Str := ip ++ '-' :: Nat.toDigits 10 port.toNat

/-- `EndPoint`. -/
structure EndPoint extends Id where
  heartBeatTime : UInt32
  active : Bool
  deriving DecidableEq, Repr

/-- The key of the list an endpoint belongs to. -/
def Id.key (e : Id) : Str := getKey e.names

/-- A row of `t_storm`. -/
structure Row extends Id where
  heartBeatTime : Option UInt32
  deriving DecidableEq, Repr

/-- `RegistryConfig`, without the access to the database. -/
structure RegistryConfig where
  reloadInterval : UInt32
  activeInterval : UInt32
  updateInterval : UInt32
  deriving DecidableEq, Repr

/-- The values that `RegistryConfig::init` sets. -/
def RegistryConfig.init : RegistryConfig := ⟨58, 122, 2⟩

/-- `ServiceManager`. -/
structure ServiceManager where
  /-- `m_services`; a key without a list has the empty one -/
  services : Str → List EndPoint
  /-- `m_newServices` -/
  newServices : List EndPoint
  /-- `m_updateServices` -/
  updateServices : List EndPoint
  /-- `m_allService` -/
  allService : List Str
  /-- `m_updateSec` -/
  updateSec : UInt32
  /-- `m_reloadSec` -/
  reloadSec : UInt32

/-- The manager and its table. -/
structure Store where
  manager : ServiceManager
  rows : List Row

/-- How the database fares during a call: how many statements of a flush succeed before one
raises an exception (`none` if none does), and whether the select succeeds. -/
structure Io where
  inserts : Option Nat := none
  updates : Option Nat := none
  selects : Bool := true
  deriving DecidableEq, Repr

namespace ServiceManager

/-! ## The net thread -/

/-- `isNewService`. -/
def isNewService (m : ServiceManager) (e : Id) : Bool := ipPort e.ip e.port ∉ m.allService

/-- `getService`. -/
def getService (m : ServiceManager) (n : Names) : List EndPoint := m.services (getKey n)

/-- `addNewService`. -/
def addNewService (m : ServiceManager) (ep : EndPoint) : ServiceManager :=
  { m with newServices := m.newServices ++ [ep] }

/-- `services[key].push_back(ep)`. -/
def push (services : Str → List EndPoint) (ep : EndPoint) : Str → List EndPoint :=
  Grouping.push (·.key) services ep

/-- `ep.ip == req.ip() && ep.port == req.port()`. -/
def isAt (e : Id) (ep : EndPoint) : Bool := ep.ip = e.ip && ep.port = e.port

/-- What a heartbeat does to an endpoint of its list. -/
def beat (e : Id) (now : UInt32) (ep : EndPoint) : EndPoint :=
  if isAt e ep then { ep with heartBeatTime := now, active := true } else ep

/-- The endpoint that a heartbeat creates. -/
def newEndPoint (e : Id) (now : UInt32) : EndPoint :=
  { e with heartBeatTime := now, active := true }

/-- The branch of `heartBeat` for a known address. -/
def refresh (m : ServiceManager) (e : Id) (now : UInt32) : ServiceManager :=
  { m with
    services := update m.services e.key ((m.services e.key).map (beat e now))
    updateServices := m.updateServices ++ ((m.services e.key).filter (isAt e)).map (beat e now) }

/-- `heartBeat`, with the names and the address of the `ServiceInfo`. -/
def heartBeat (m : ServiceManager) (e : Id) (now : UInt32) : ServiceManager :=
  if m.isNewService e then
    { m.addNewService (newEndPoint e now) with services := push m.services (newEndPoint e now) }
  else m.refresh e now

/-! ## The main thread -/

/-- The rows that a flush writes before the first exception. -/
def written {α : Type} (statements : Option Nat) (eps : List α) : List α :=
  match statements with
  | none => eps
  | some n => eps.take n

/-- One turn of the loop of `loadFromDB`. -/
def loadRow (cfg : RegistryConfig) (now : UInt32) (row : Row) : Option EndPoint :=
  row.heartBeatTime.map fun time =>
    { row with heartBeatTime := time, active := !(now > time + cfg.activeInterval) }

/-- What `loadFromDB` makes of the table; `none` when it returns early. -/
def loaded (cfg : RegistryConfig) (now : UInt32) (rows : List Row) : Option (List EndPoint) :=
  if rows = [] then none else rows.mapM (loadRow cfg now)

/-- The two swaps at the end of `loadFromDB`. -/
def swapServices (m : ServiceManager) (eps : List EndPoint) : ServiceManager :=
  { m with services := eps.foldl push (fun _ => []) }

def swapAllService (m : ServiceManager) (eps : List EndPoint) : ServiceManager :=
  { m with allService := eps.map (fun ep => ipPort ep.ip ep.port) }

/-- `m_reloadSec` and `m_updateSec` are set before anything else. -/
def startLoad (m : ServiceManager) (now : UInt32) : ServiceManager :=
  { m with updateSec := now, reloadSec := now }

end ServiceManager

/-! ## Who is in which list -/

variable {m : ServiceManager} {e : Id} {now : UInt32} {ep : EndPoint} {key : Str}

namespace ServiceManager

/-- The endpoints of a list, without what a heartbeat changes. -/
def listed (m : ServiceManager) (key : Str) : List Id := (m.services key).map (·.toId)

theorem heartBeat_of_new (h : m.isNewService e = true) :
    m.heartBeat e now = { m.addNewService (newEndPoint e now) with
      services := push m.services (newEndPoint e now) } := if_pos h

theorem heartBeat_of_known (h : m.isNewService e = false) :
    m.heartBeat e now = m.refresh e now := by
  rw [heartBeat, if_neg (by simp [h])]

@[simp] theorem toId_beat (e : Id) (now : UInt32) (ep : EndPoint) :
    (beat e now ep).toId = ep.toId := by
  unfold beat
  split <;> rfl

/-- A heartbeat of a new address is pushed into its list. -/
theorem listed_push (m : ServiceManager) (ep : EndPoint) (key : Str) :
    listed { m with services := push m.services ep } key =
      m.listed key ++ if key = ep.key then [ep.toId] else [] := by
  show (push m.services ep key).map (·.toId) = _
  rw [push, Grouping.push_apply, List.map_append, listed]
  congr 1
  split <;> rfl

/-- A heartbeat of a known address keeps who is in which list. -/
theorem listed_refresh (m : ServiceManager) (e : Id) (now : UInt32) (key : Str) :
    (m.refresh e now).listed key = m.listed key := by
  simp only [listed, refresh, Function.update_apply]
  split
  · rename_i heq
    simp [heq]
  · rfl

/-- The lists behind a load are the endpoints of the table, grouped. -/
theorem listed_swapServices (m : ServiceManager) (eps : List EndPoint) (key : Str) :
    (m.swapServices eps).listed key = Grouping.group Id.key (eps.map (·.toId)) key := by
  show (eps.foldl (Grouping.push _) (fun _ => []) key).map (·.toId) = _
  rw [Grouping.foldl_push, List.nil_append]
  exact Grouping.map_group _ (fun _ => rfl) eps key

theorem toId_loadRow {cfg : RegistryConfig} {row : Row} (h : loadRow cfg now row = some ep) :
    ep.toId = row.toId := by
  obtain ⟨time, -, rfl⟩ := Option.map_eq_some_iff.mp h
  rfl

theorem map_toId_loaded {cfg : RegistryConfig} {rows : List Row} {eps : List EndPoint}
    (h : loaded cfg now rows = some eps) : eps.map (·.toId) = rows.map (·.toId) := by
  rw [loaded, Option.ite_none_left_eq_some] at h
  obtain ⟨-, h⟩ := h
  induction rows generalizing eps with
  | nil => cases h; rfl
  | cons row rows ih =>
    simp only [List.mapM_cons, Option.bind_eq_bind, Option.pure_def, Option.bind_eq_some_iff,
      Option.some.injEq] at h
    obtain ⟨ep, hep, eps', heps, rfl⟩ := h
    rw [List.map_cons, List.map_cons, toId_loadRow hep, ih heps]

end ServiceManager

namespace Store

open ServiceManager

/-- The row that is inserted for an endpoint. -/
def insertedRow (columnDefault : Option UInt32) (ep : EndPoint) : Row :=
  { ep with heartBeatTime := columnDefault }

/-- `update t_storm set heart_beat_time = .. where ip = .. and port = ..`. -/
def updateRows (rows : List Row) (ep : EndPoint) : List Row :=
  rows.map fun row =>
    if row.ip = ep.ip ∧ row.port = ep.port then { row with heartBeatTime := some ep.heartBeatTime }
    else row

/-- `flushNewServiceToDB`; `columnDefault` is what the table puts into `heart_beat_time`. -/
def flushNewServiceToDB (columnDefault : Option UInt32) (s : Store) (statements : Option Nat) :
    Store where
  manager := { s.manager with newServices := [] }
  rows := s.rows ++ (written statements s.manager.newServices).map (insertedRow columnDefault)

/-- `flushUpdateServiceToDB`. -/
def flushUpdateServiceToDB (s : Store) (statements : Option Nat) : Store where
  manager := { s.manager with updateServices := [] }
  rows := (written statements s.manager.updateServices).foldl updateRows s.rows

/-- What a load has to swap in, if it comes so far. -/
def fetched (cfg : RegistryConfig) (s : Store) (now : UInt32) (selects : Bool) :
    Option (List EndPoint) :=
  if selects then loaded cfg now s.rows else none

/-- `loadFromDB`, with its two readings of the clock. -/
def loadFromDB (cfg : RegistryConfig) (s : Store) (start now : UInt32) (selects : Bool) :
    Store :=
  match s.fetched cfg now selects with
  | none => { s with manager := s.manager.startLoad start }
  | some eps =>
      { s with manager := ((s.manager.startLoad start).swapServices eps).swapAllService eps }

/-- `now > m_updateSec + g_config.updateInterval`. -/
def updateDue (cfg : RegistryConfig) (m : ServiceManager) (now : UInt32) : Bool :=
  now > m.updateSec + cfg.updateInterval

/-- `UtilTime::getNow() > m_reloadSec + g_config.reloadInterval`. -/
def reloadDue (cfg : RegistryConfig) (m : ServiceManager) (now : UInt32) : Bool :=
  now > m.reloadSec + cfg.reloadInterval

/-- `update`. -/
def update (cfg : RegistryConfig) (columnDefault : Option UInt32) (s : Store)
    (clock : Nat → UInt32) (io : Io) : Store :=
  let flushed := s.flushNewServiceToDB columnDefault io.inserts
  if updateDue cfg flushed.manager (clock 0) then
    let updated := flushed.flushUpdateServiceToDB io.updates
    if reloadDue cfg updated.manager (clock 1) then
      updated.loadFromDB cfg (clock 2) (clock 3) io.selects
    else updated
  else flushed

/-- A call that runs by itself. -/
inductive Action where
  | heartBeat (e : Id) (now : UInt32)
  | update (clock : Nat → UInt32) (io : Io)
  | loadFromDB (start now : UInt32) (selects : Bool)

def step (cfg : RegistryConfig) (columnDefault : Option UInt32) (s : Store) :
    Action → Option Store
  | .heartBeat e now => some { s with manager := s.manager.heartBeat e now }
  | .update clock io => some (s.update cfg columnDefault clock io)
  | .loadFromDB start now selects => some (s.loadFromDB cfg start now selects)

/-- A new manager over a table; its times are not set yet. -/
def start (rows : List Row) (updateSec reloadSec : UInt32) : Store where
  manager := ⟨fun _ => [], [], [], [], updateSec, reloadSec⟩
  rows := rows

@[simp] theorem map_toId_updateRows (rows : List Row) (ep : EndPoint) :
    (updateRows rows ep).map (·.toId) = rows.map (·.toId) := by
  rw [updateRows, List.map_map]
  apply List.map_congr_left
  intro row _
  simp only [Function.comp_apply]
  split <;> rfl

@[simp] theorem map_toId_foldl_updateRows (eps : List EndPoint) (rows : List Row) :
    (eps.foldl updateRows rows).map (·.toId) = rows.map (·.toId) := by
  induction eps generalizing rows with
  | nil => rfl
  | cons ep eps ih => rw [List.foldl_cons, ih, map_toId_updateRows]

/-- What is in the table or on its way there. -/
def ids (s : Store) : List Id :=
  s.rows.map (·.toId) ++ s.manager.newServices.map (·.toId)

/-- A flush without an exception takes the queue into the table. -/
@[simp] theorem map_toId_flushNewServiceToDB (columnDefault : Option UInt32) (s : Store) :
    (s.flushNewServiceToDB columnDefault none).rows.map (·.toId) = s.ids := by
  simp only [flushNewServiceToDB, written, List.map_append, List.map_map, ids]
  rfl

@[simp] theorem ids_flushNewServiceToDB (columnDefault : Option UInt32) (s : Store) :
    (s.flushNewServiceToDB columnDefault none).ids = s.ids := by
  rw [ids, map_toId_flushNewServiceToDB]
  exact List.append_nil _

@[simp] theorem map_toId_flushUpdateServiceToDB (s : Store) (statements : Option Nat) :
    (s.flushUpdateServiceToDB statements).rows.map (·.toId) = s.rows.map (·.toId) :=
  map_toId_foldl_updateRows _ _

@[simp] theorem ids_flushUpdateServiceToDB (s : Store) (statements : Option Nat) :
    (s.flushUpdateServiceToDB statements).ids = s.ids := by
  rw [ids, map_toId_flushUpdateServiceToDB]
  rfl

/-- A load touches neither the table nor the queues. -/
theorem loadFromDB_frame (cfg : RegistryConfig) (s : Store) (start now : UInt32) (selects : Bool) :
    (s.loadFromDB cfg start now selects).rows = s.rows ∧
      (s.loadFromDB cfg start now selects).manager.newServices = s.manager.newServices := by
  unfold loadFromDB
  split <;> exact ⟨rfl, rfl⟩

@[simp] theorem ids_loadFromDB (cfg : RegistryConfig) (s : Store) (start now : UInt32)
    (selects : Bool) : (s.loadFromDB cfg start now selects).ids = s.ids := by
  obtain ⟨hrows, hqueue⟩ := loadFromDB_frame cfg s start now selects
  rw [ids, hrows, hqueue, ids]

/-- What a load swaps in is the table. -/
theorem map_toId_fetched {cfg : RegistryConfig} {s : Store} {selects : Bool}
    {eps : List EndPoint} (h : s.fetched cfg now selects = some eps) :
    eps.map (·.toId) = s.rows.map (·.toId) := by
  unfold fetched at h
  split at h
  · exact map_toId_loaded h
  · cases h

/-- The lists behind a load: those of the table, or those before. -/
theorem listed_loadFromDB (cfg : RegistryConfig) (s : Store) (start now : UInt32) (selects : Bool)
    (key : Str) : (s.loadFromDB cfg start now selects).manager.listed key =
      if (s.fetched cfg now selects).isSome then
        Grouping.group Id.key (s.rows.map (·.toId)) key
      else s.manager.listed key := by
  unfold loadFromDB
  cases hfetched : s.fetched cfg now selects with
  | none => rfl
  | some eps =>
    rw [Option.isSome_some, if_pos rfl, ← map_toId_fetched hfetched]
    exact listed_swapServices (s.manager.startLoad start) eps key

end Store

end StormNet.Registry
