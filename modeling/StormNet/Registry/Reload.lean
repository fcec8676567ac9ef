/-
  Registry/Reload.lean --- `heartBeat` on the net thread between the steps of `update` on
  the main thread.

  Each call is cut where it takes or gives back a lock and where it goes to the database.
  Every database operation succeeds.  `init` calls `loadFromDB` as `update` does.
-/
import StormNet.Registry.Registration

set_option autoImplicit false

namespace StormNet.Registry

open StormNet.Foundation
open StormNet.Util (Str)
open ServiceManager

/-! ## Two threads -/

/-- Where the net thread is in `heartBeat`. -/
inductive Net where
  | idle
  /-- before `addNewService` -/
  | adding (ep : EndPoint)
  /-- before the new endpoint is pushed into its list -/
  | pushing (ep : EndPoint)
  /-- the address is known; before the lock of the lists is taken -/
  | known (e : Id)
  /-- in the loop, with the lock of the lists -/
  | beating (e : Id) (i : Nat)

/-- Where the main thread is in `update`. -/
inductive Main where
  | idle
  /-- in `flushNewServiceToDB`; `now` was read before -/
  | inserting (now : UInt32) (batch : List EndPoint)
  /-- in `flushUpdateServiceToDB` -/
  | refreshing (batch : List EndPoint)
  /-- in `loadFromDB`, before the select -/
  | loading
  /-- before the swap of the lists -/
  | selected (eps : List EndPoint)
  /-- before the swap of the `ip-port` strings -/
  | swapped (eps : List EndPoint)

/-- The endpoints that a flush has taken and not inserted yet. -/
def Main.batch : Main → List EndPoint
  | .inserting _ batch => batch
  | _ => []

/-- The store and its two threads. -/
structure Threads where
  store : Store
  net : Net
  main : Main

inductive Action where
  | heartBeat (e : Id) (now : UInt32)
  /-- the net thread goes on -/
  | net (now : UInt32)
  | update (now : UInt32)
  | loadFromDB (start : UInt32)
  /-- the main thread goes on -/
  | main (clock : Nat → UInt32)

namespace ServiceManager

/-- `eps.swap(m_newServices)`. -/
def takeNew (m : ServiceManager) : ServiceManager := { m with newServices := [] }

/-- `eps.swap(m_updateServices)`. -/
def takeUpdates (m : ServiceManager) : ServiceManager := { m with updateServices := [] }

/-- One turn of the loop of `heartBeat`, at an endpoint of the list. -/
def beatAt (m : ServiceManager) (e : Id) (i : Nat) (now : UInt32) (ep : EndPoint) :
    ServiceManager :=
  if isAt e ep then
    { m with
      services := Function.update m.services e.key ((m.services e.key).set i (beat e now ep))
      updateServices := m.updateServices ++ [beat e now ep] }
  else m

end ServiceManager

namespace Threads

variable {cfg : RegistryConfig} {columnDefault : Option UInt32} {s t u : Threads} {a : Action}

/-- The manager of the store. -/
def manager (s : Threads) : ServiceManager := s.store.manager

/-- A step of the net thread, which leaves the table alone. -/
def toNet (s : Threads) (m : ServiceManager) (net : Net) : Threads :=
  { s with store := { s.store with manager := m }, net := net }

def netStep (s : Threads) (now : UInt32) : Option Threads :=
  match s.net with
  | .idle => none
  | .adding ep => some (s.toNet (s.manager.addNewService ep) (.pushing ep))
  | .pushing ep =>
      some (s.toNet { s.manager with services := push s.manager.services ep } .idle)
  | .known e => some (s.toNet s.manager (.beating e 0))
  | .beating e i =>
      match (s.manager.services e.key)[i]? with
      | none => some (s.toNet s.manager .idle)
      | some ep => some (s.toNet (s.manager.beatAt e i now ep) (.beating e (i + 1)))

/-- The net thread holds the lock of the lists. -/
def locked (s : Threads) : Bool :=
  match s.net with
  | .beating _ _ => true
  | _ => false

/-- A step of the main thread. -/
def toMain (s : Threads) (m : ServiceManager) (rows : List Row) (main : Main) : Threads :=
  { s with store := ⟨m, rows⟩, main := main }

def mainStep (cfg : RegistryConfig) (columnDefault : Option UInt32) (s : Threads)
    (clock : Nat → UInt32) : Option Threads :=
  match s.main with
  | .idle => none
  | .inserting now (ep :: batch) =>
      some (s.toMain s.manager (s.store.rows ++ [Store.insertedRow columnDefault ep])
        (.inserting now batch))
  | .inserting now [] =>
      if Store.updateDue cfg s.manager now then
        some (s.toMain s.manager.takeUpdates s.store.rows (.refreshing s.manager.updateServices))
      else some (s.toMain s.manager s.store.rows .idle)
  | .refreshing (ep :: batch) =>
      some (s.toMain s.manager (Store.updateRows s.store.rows ep) (.refreshing batch))
  | .refreshing [] =>
      if Store.reloadDue cfg s.manager (clock 0) then
        some (s.toMain (s.manager.startLoad (clock 1)) s.store.rows .loading)
      else some (s.toMain s.manager s.store.rows .idle)
  | .loading =>
      match s.store.fetched cfg (clock 0) true with
      | none => some (s.toMain s.manager s.store.rows .idle)
      | some eps => some (s.toMain s.manager s.store.rows (.selected eps))
  | .selected eps =>
      if s.locked then none
      else some (s.toMain (s.manager.swapServices eps) s.store.rows (.swapped eps))
  | .swapped eps => some (s.toMain (s.manager.swapAllService eps) s.store.rows .idle)

def step (cfg : RegistryConfig) (columnDefault : Option UInt32) (s : Threads) :
    Action → Option Threads
  | .heartBeat e now =>
      match s.net with
      | .idle =>
          if s.manager.isNewService e then
            some (s.toNet s.manager (.adding (newEndPoint e now)))
          else some (s.toNet s.manager (.known e))
      | _ => none
  | .net now => s.netStep now
  | .update now =>
      match s.main with
      | .idle =>
          some (s.toMain s.manager.takeNew s.store.rows (.inserting now s.manager.newServices))
      | _ => none
  | .loadFromDB start =>
      match s.main with
      | .idle => some (s.toMain (s.manager.startLoad start) s.store.rows .loading)
      | _ => none
  | .main clock => s.mainStep cfg columnDefault clock

/-- Both threads between two calls. -/
def resting (s : Store) : Threads := ⟨s, .idle, .idle⟩

/-! ## Calls that run by themselves -/

/-- `Goes` is a run of the two threads. -/
def Goes (cfg : RegistryConfig) (columnDefault : Option UInt32) : Threads → Threads → Prop :=
  Runs (step cfg columnDefault) (fun _ _ => True)

theorem Goes.trans (h₁ : Goes cfg columnDefault s t) (h₂ : Goes cfg columnDefault t u) :
    Goes cfg columnDefault s u := Runs.trans h₁ h₂

theorem Goes.of_step (h : step cfg columnDefault s a = some t) : Goes cfg columnDefault s t :=
  Runs.single trivial h

variable {m : ServiceManager} {rows : List Row}

/-- The manager after the turns at the endpoints `done`. -/
def beaten (m : ServiceManager) (e : Id) (now : UInt32) (done todo : List EndPoint) :
    ServiceManager :=
  { m with
    services := Function.update m.services e.key (done.map (beat e now) ++ todo)
    updateServices := m.updateServices ++ (done.filter (isAt e)).map (beat e now) }

theorem beatAt_beaten (m : ServiceManager) (e : Id) (now : UInt32) (done todo : List EndPoint)
    (ep : EndPoint) :
    (beaten m e now done (ep :: todo)).beatAt e done.length now ep =
      beaten m e now (done ++ [ep]) todo := by
  have hset : (done.map (beat e now) ++ ep :: todo).set done.length (beat e now ep) =
      (done ++ [ep]).map (beat e now) ++ todo := by
    rw [List.set_append_right _ _ (by simp)]
    simp
  unfold beatAt
  split
  · rename_i hat
    simp only [beaten, Function.update_self, Function.update_idem, hset, List.filter_append,
      List.map_append, List.filter_cons_of_pos hat, List.filter_nil, List.map_cons, List.map_nil,
      List.append_assoc]
  · rename_i hat
    have hbeat : beat e now ep = ep := by rw [beat, if_neg hat]
    simp [beaten, hat, hbeat]

/-- The loop of `heartBeat`. -/
theorem goes_beating (e : Id) (now : UInt32) (main : Main) (done todo : List EndPoint)
    (hlist : m.services e.key = done ++ todo) :
    Goes cfg columnDefault ⟨⟨beaten m e now done todo, rows⟩, .beating e done.length, main⟩
      ⟨⟨m.refresh e now, rows⟩, .idle, main⟩ := by
  induction todo generalizing done with
  | nil =>
    apply Goes.of_step (a := .net now)
    have hend : beaten m e now done [] = m.refresh e now := by
      rw [List.append_nil] at hlist
      rw [beaten, refresh, hlist, List.append_nil]
    simp only [step, netStep, manager, toNet]
    rw [List.getElem?_eq_none (by simp [beaten]), hend]
  | cons ep todo ih =>
    have hturn : step cfg columnDefault
        ⟨⟨beaten m e now done (ep :: todo), rows⟩, .beating e done.length, main⟩ (.net now) =
        some ⟨⟨beaten m e now (done ++ [ep]) todo, rows⟩, .beating e (done ++ [ep]).length,
          main⟩ := by
      have hat : ((beaten m e now done (ep :: todo)).services e.key)[done.length]? = some ep := by
        simp [beaten]
      simp only [step, netStep, manager, toNet, hat, beatAt_beaten, List.length_append,
        List.length_singleton]
    refine (Goes.of_step hturn).trans (ih (done ++ [ep]) ?_)
    rw [hlist, List.append_assoc, List.singleton_append]

/-- A heartbeat that nothing interrupts. -/
theorem goes_heartBeat (e : Id) (now : UInt32) (main : Main) :
    Goes cfg columnDefault ⟨⟨m, rows⟩, .idle, main⟩ ⟨⟨m.heartBeat e now, rows⟩, .idle, main⟩ := by
  cases hnew : m.isNewService e with
  | true =>
    rw [heartBeat_of_new hnew]
    have hstart : step cfg columnDefault ⟨⟨m, rows⟩, .idle, main⟩ (.heartBeat e now) =
        some ⟨⟨m, rows⟩, .adding (newEndPoint e now), main⟩ := if_pos hnew
    have hadd : step cfg columnDefault ⟨⟨m, rows⟩, .adding (newEndPoint e now), main⟩ (.net now) =
        some ⟨⟨m.addNewService (newEndPoint e now), rows⟩, .pushing (newEndPoint e now), main⟩ :=
      rfl
    exact ((Goes.of_step hstart).trans (Goes.of_step hadd)).trans (Goes.of_step (a := .net now) rfl)
  | false =>
    rw [heartBeat_of_known hnew]
    have hstart : step cfg columnDefault ⟨⟨m, rows⟩, .idle, main⟩ (.heartBeat e now) =
        some ⟨⟨m, rows⟩, .known e, main⟩ := if_neg (by simp [manager, hnew])
    have hlock : step cfg columnDefault ⟨⟨m, rows⟩, .known e, main⟩ (.net now) =
        some ⟨⟨m, rows⟩, .beating e 0, main⟩ := rfl
    have hloop : Goes cfg columnDefault
        ⟨⟨beaten m e now [] (m.services e.key), rows⟩, .beating e 0, main⟩
        ⟨⟨m.refresh e now, rows⟩, .idle, main⟩ := goes_beating e now main [] _ rfl
    have hsame : beaten m e now [] (m.services e.key) = m := by simp [beaten]
    rw [hsame] at hloop
    exact ((Goes.of_step hstart).trans (Goes.of_step hlock)).trans hloop

/-- The loop of `flushNewServiceToDB`. -/
theorem goes_inserting (net : Net) (now : UInt32) (batch : List EndPoint) :
    Goes cfg columnDefault ⟨⟨m, rows⟩, net, .inserting now batch⟩
      ⟨⟨m, rows ++ batch.map (Store.insertedRow columnDefault)⟩, net, .inserting now []⟩ := by
  induction batch generalizing rows with
  | nil =>
    rw [List.map_nil, List.append_nil]
    exact .refl
  | cons ep batch ih =>
    have hinsert : step cfg columnDefault ⟨⟨m, rows⟩, net, .inserting now (ep :: batch)⟩
        (.main fun _ => now) =
        some ⟨⟨m, rows ++ [Store.insertedRow columnDefault ep]⟩, net, .inserting now batch⟩ := rfl
    rw [List.map_cons, List.append_cons]
    exact (Goes.of_step hinsert).trans ih

/-- The loop of `flushUpdateServiceToDB`. -/
theorem goes_refreshing (net : Net) (batch : List EndPoint) :
    Goes cfg columnDefault ⟨⟨m, rows⟩, net, .refreshing batch⟩
      ⟨⟨m, batch.foldl Store.updateRows rows⟩, net, .refreshing []⟩ := by
  induction batch generalizing rows with
  | nil => exact .refl
  | cons ep batch ih => exact (Goes.of_step (a := .main fun _ => 0) rfl).trans ih

/-- What is left of `loadFromDB` once its time is set. -/
theorem goes_loading (start now : UInt32) :
    Goes cfg columnDefault ⟨⟨m.startLoad start, rows⟩, .idle, .loading⟩
      (resting (Store.loadFromDB cfg ⟨m, rows⟩ start now true)) := by
  unfold Store.loadFromDB
  cases hfetched : Store.fetched cfg ⟨m, rows⟩ now true with
  | none =>
    have hfetched' : Store.fetched cfg ⟨m.startLoad start, rows⟩ now true = none := hfetched
    apply Goes.of_step (a := .main fun _ => now)
    simp only [step, mainStep, hfetched']
    rfl
  | some eps =>
    have hfetched' : Store.fetched cfg ⟨m.startLoad start, rows⟩ now true = some eps := hfetched
    have hselect : step cfg columnDefault ⟨⟨m.startLoad start, rows⟩, .idle, .loading⟩
        (.main fun _ => now) =
        some ⟨⟨m.startLoad start, rows⟩, .idle, .selected eps⟩ := by
      simp only [step, mainStep, hfetched']
      rfl
    have hswap : step cfg columnDefault ⟨⟨m.startLoad start, rows⟩, .idle, .selected eps⟩
        (.main fun _ => now) =
        some ⟨⟨(m.startLoad start).swapServices eps, rows⟩, .idle, .swapped eps⟩ := rfl
    refine ((Goes.of_step hselect).trans (Goes.of_step hswap)).trans ?_
    exact .of_step (a := .main fun _ => now) rfl

/-- **A call that nothing interrupts does what the same call does in one step.** -/
theorem goes_call {s t : Store} {a : Store.Action} (hsucceeds : Store.Succeeds a)
    (hstep : Store.step cfg columnDefault s a = some t) :
    Goes cfg columnDefault (resting s) (resting t) := by
  cases a with
  | heartBeat e now =>
    cases hstep
    exact goes_heartBeat e now .idle
  | update clock io =>
    obtain rfl : io = {} := hsucceeds
    cases hstep
    let flushed := s.flushNewServiceToDB columnDefault none
    let updated := flushed.flushUpdateServiceToDB none
    have hinsert : Goes cfg columnDefault (resting s)
        ⟨flushed, .idle, .inserting (clock 0) []⟩ := by
      refine (Goes.of_step (a := .update (clock 0)) rfl).trans ?_
      exact goes_inserting .idle (clock 0) s.manager.newServices
    unfold Store.update
    simp only
    split
    · rename_i hupdate
      have htake : step cfg columnDefault ⟨flushed, .idle, .inserting (clock 0) []⟩
          (.main clock) = some ⟨⟨flushed.manager.takeUpdates, flushed.rows⟩, .idle,
            .refreshing flushed.manager.updateServices⟩ := if_pos hupdate
      have hrefresh : Goes cfg columnDefault (resting s) ⟨updated, .idle, .refreshing []⟩ :=
        (hinsert.trans (Goes.of_step htake)).trans (goes_refreshing .idle _)
      split
      · rename_i hreload
        have hstart : step cfg columnDefault ⟨updated, .idle, .refreshing []⟩
            (.main fun i => clock (i + 1)) =
            some ⟨⟨updated.manager.startLoad (clock 2), updated.rows⟩, .idle, .loading⟩ :=
          if_pos hreload
        exact (hrefresh.trans (Goes.of_step hstart)).trans (goes_loading (clock 2) (clock 3))
      · rename_i hreload
        have hend : step cfg columnDefault ⟨updated, .idle, .refreshing []⟩
            (.main fun i => clock (i + 1)) = some (resting updated) := if_neg hreload
        exact hrefresh.trans (Goes.of_step hend)
    · rename_i hupdate
      have hend : step cfg columnDefault ⟨flushed, .idle, .inserting (clock 0) []⟩
          (.main clock) = some (resting flushed) := if_neg hupdate
      exact hinsert.trans (Goes.of_step hend)
  | loadFromDB start now selects =>
    obtain rfl : selects = true := hsucceeds
    cases hstep
    have hstart : step cfg columnDefault (resting s) (.loadFromDB start) =
        some ⟨⟨s.manager.startLoad start, s.rows⟩, .idle, .loading⟩ := rfl
    exact (Goes.of_step hstart).trans (goes_loading start now)

/-! ## Where a listed endpoint comes from -/

/-- What is in the table or on its way there. -/
def pending (s : Threads) : List Id := s.store.ids ++ s.main.batch.map (·.toId)

theorem mem_pending {i : Id} : i ∈ s.pending ↔
    (i ∈ s.store.rows.map (·.toId) ∨ i ∈ s.manager.newServices.map (·.toId)) ∨
      i ∈ s.main.batch.map (·.toId) := by
  rw [pending, List.mem_append, Store.ids, List.mem_append, manager]

theorem listed_beatAt (m : ServiceManager) (e : Id) (i : Nat) (now : UInt32) {ep : EndPoint}
    (hep : (m.services e.key)[i]? = some ep) (key : Str) :
    (m.beatAt e i now ep).listed key = m.listed key := by
  unfold beatAt
  split
  · simp only [listed, Function.update_apply]
    split
    · rename_i hkey
      rw [hkey, List.map_set, toId_beat]
      apply List.ext_getElem?
      intro j
      rw [List.getElem?_set]
      split
      · rename_i hij
        rw [← hij, List.getElem?_map, hep]
        obtain ⟨hlt, -⟩ := List.getElem?_eq_some_iff.mp hep
        simp [hlt]
      · rfl
    · rfl
  · rfl

@[simp] theorem newServices_beatAt (m : ServiceManager) (e : Id) (i : Nat) (now : UInt32)
    (ep : EndPoint) : (m.beatAt e i now ep).newServices = m.newServices := by
  unfold beatAt
  split <;> rfl

/-! ## What a step can be -/

/-- A step as the lists and the way to the table see it. -/
inductive StepCases (s : Threads) : Action → Threads → Prop where
  /-- the net thread lists and queues nothing -/
  | beat {a : Action} {m : ServiceManager} {net : Net}
      (hlisted : ∀ key, m.listed key = s.manager.listed key)
      (hqueue : m.newServices = s.manager.newServices) (hnot : ∀ ep, net ≠ .pushing ep) :
      StepCases s a (s.toNet m net)
  | add {a : Action} (ep : EndPoint) :
      StepCases s a (s.toNet (s.manager.addNewService ep) (.pushing ep))
  | push {a : Action} {ep : EndPoint} (hnet : s.net = .pushing ep) :
      StepCases s a (s.toNet { s.manager with services := push s.manager.services ep } .idle)
  /-- the main thread keeps the lists and loses nothing on the way to the table -/
  | main {a : Action} {m : ServiceManager} {rows : List Row} {main : Main}
      (hservices : m.services = s.manager.services)
      (hpending : ∀ i ∈ s.pending, i ∈ (s.toMain m rows main).pending)
      (hfresh : ∀ eps, main = .selected eps → eps.map (·.toId) = rows.map (·.toId)) :
      StepCases s a (s.toMain m rows main)
  | swap {clock : Nat → UInt32} {eps : List EndPoint} (hmain : s.main = .selected eps) :
      StepCases s (.main clock)
        (s.toMain (s.manager.swapServices eps) s.store.rows (.swapped eps))

theorem netStep_cases {now : UInt32} (hstep : s.netStep now = some t) :
    StepCases s (.net now) t := by
  unfold netStep at hstep
  split at hstep
  · cases hstep
  · cases hstep
    exact .add _
  · rename_i ep hnet
    cases hstep
    exact .push hnet
  · cases hstep
    exact .beat (fun _ => rfl) rfl (by simp)
  · rename_i e i hnet
    split at hstep
    · cases hstep
      exact .beat (fun _ => rfl) rfl (by simp)
    · rename_i ep hat
      cases hstep
      exact .beat (listed_beatAt s.manager e i now hat) (newServices_beatAt ..) (by simp)

/-- A step of the main thread between two flushes. -/
theorem StepCases.quiet {m : ServiceManager} {main : Main} (hbatch : s.main.batch = [])
    (hservices : m.services = s.manager.services)
    (hqueue : m.newServices = s.manager.newServices)
    (hfresh : ∀ eps, main = .selected eps → eps.map (·.toId) = s.store.rows.map (·.toId)) :
    StepCases s a (s.toMain m s.store.rows main) := by
  refine .main hservices ?_ hfresh
  intro i hi
  rw [mem_pending, hbatch] at hi
  rw [mem_pending, manager, toMain, hqueue]
  exact .inl (hi.resolve_right List.not_mem_nil)

theorem mainStep_cases {clock : Nat → UInt32}
    (hstep : s.mainStep cfg columnDefault clock = some t) : StepCases s (.main clock) t := by
  unfold mainStep at hstep
  split at hstep
  · cases hstep
  · rename_i now ep batch hmain
    cases hstep
    refine .main rfl ?_ (by simp)
    intro i hi
    rw [mem_pending, hmain] at hi
    rw [mem_pending]
    simp only [Main.batch, toMain, List.map_append, List.map_cons, List.mem_append,
      List.mem_cons] at hi ⊢
    rcases hi with (hrow | hnew) | hep | hbatch
    · exact .inl (.inl (.inl hrow))
    · exact .inl (.inr hnew)
    · exact .inl (.inl (.inr (.inl hep)))
    · exact .inr hbatch
  · rename_i now hmain
    have hbatch : s.main.batch = [] := by rw [hmain]; rfl
    split at hstep
    · cases hstep
      exact .quiet hbatch rfl rfl (by simp)
    · cases hstep
      exact .quiet hbatch rfl rfl (by simp)
  · rename_i ep batch hmain
    cases hstep
    refine .main rfl ?_ (by simp)
    intro i hi
    rw [mem_pending, hmain] at hi
    rw [mem_pending, toMain, Store.map_toId_updateRows]
    exact hi
  · rename_i hmain
    have hbatch : s.main.batch = [] := by rw [hmain]; rfl
    split at hstep
    · cases hstep
      exact .quiet hbatch rfl rfl (by simp)
    · cases hstep
      exact .quiet hbatch rfl rfl (by simp)
  · rename_i hmain
    have hbatch : s.main.batch = [] := by rw [hmain]; rfl
    split at hstep
    · cases hstep
      exact .quiet hbatch rfl rfl (by simp)
    · rename_i eps hfetched
      cases hstep
      refine .quiet hbatch rfl rfl ?_
      intro eps' heps
      cases heps
      exact Store.map_toId_fetched hfetched
  · rename_i eps hmain
    split at hstep
    · cases hstep
    · cases hstep
      exact .swap hmain
  · rename_i eps hmain
    have hbatch : s.main.batch = [] := by rw [hmain]; rfl
    cases hstep
    exact .quiet hbatch rfl rfl (by simp)

theorem step_cases (hstep : step cfg columnDefault s a = some t) : StepCases s a t := by
  cases a with
  | heartBeat e now =>
    unfold step at hstep
    simp only at hstep
    split at hstep
    · split at hstep <;> cases hstep <;> exact .beat (fun _ => rfl) rfl (by simp)
    · cases hstep
  | net now => exact netStep_cases hstep
  | update now =>
    unfold step at hstep
    simp only at hstep
    split at hstep
    · rename_i hmain
      cases hstep
      refine .main rfl ?_ (by simp)
      -- the queue becomes the batch
      intro i hi
      rw [mem_pending, hmain] at hi
      rw [mem_pending]
      have hold := hi.resolve_right List.not_mem_nil
      exact hold.imp .inl id
    · cases hstep
  | loadFromDB start =>
    unfold step at hstep
    simp only at hstep
    split at hstep
    · rename_i hmain
      have hbatch : s.main.batch = [] := by rw [hmain]; rfl
      cases hstep
      exact .quiet hbatch rfl rfl (by simp)
    · cases hstep
  | main clock => exact mainStep_cases hstep

/-! ## What holds between any two steps -/

/-- What holds between any two steps. -/
structure Inv (s : Threads) : Prop where
  keyed : Store.Keyed s.manager
  /-- an endpoint is queued before it is listed -/
  covered : ∀ key, ∀ i ∈ s.manager.listed key, i ∈ s.pending
  queued : ∀ ep, s.net = .pushing ep → ep.toId ∈ s.pending
  /-- the table does not change between the select and the swap -/
  fresh : ∀ eps, s.main = .selected eps → eps.map (·.toId) = s.store.rows.map (·.toId)

theorem inv_start (rows : List Row) (updateSec reloadSec : UInt32) :
    Inv (resting (Store.start rows updateSec reloadSec)) where
  keyed := Store.keyed_start rows updateSec reloadSec
  covered := fun _ _ hi => (nomatch hi)
  queued := fun _ h => (nomatch h)
  fresh := fun _ h => (nomatch h)

/-- A step of the net thread that queues nothing keeps what is pending. -/
theorem pending_toNet {m : ServiceManager} {net : Net}
    (h : m.newServices = s.manager.newServices) : (s.toNet m net).pending = s.pending := by
  show (s.store.rows.map _ ++ m.newServices.map _) ++ _ = _
  rw [h]
  rfl

theorem mem_pending_addNewService (s : Threads) (ep : EndPoint) (net : Net) {i : Id} :
    i ∈ (s.toNet (s.manager.addNewService ep) net).pending ↔ i ∈ s.pending ∨ i = ep.toId := by
  simp only [mem_pending, manager, toNet, addNewService, List.map_append, List.map_cons,
    List.map_nil, List.mem_append, List.mem_singleton]
  tauto

theorem Inv.add (h : Inv s) (ep : EndPoint) :
    Inv (s.toNet (s.manager.addNewService ep) (.pushing ep)) where
  keyed := h.keyed
  covered := fun key i hi => (mem_pending_addNewService s ep _).mpr (.inl (h.covered key i hi))
  queued := by
    intro ep' hep
    cases hep
    exact (mem_pending_addNewService s ep _).mpr (.inr rfl)
  fresh := h.fresh

theorem Inv.push (h : Inv s) {ep : EndPoint} (hnet : s.net = .pushing ep) :
    Inv (s.toNet { s.manager with services := push s.manager.services ep } .idle) where
  keyed := h.keyed.push ep
  covered := by
    have hsame : (s.toNet { s.manager with services := ServiceManager.push s.manager.services ep }
        .idle).pending = s.pending := pending_toNet rfl
    intro key i hi
    rw [hsame]
    change i ∈ listed { s.manager with services := ServiceManager.push s.manager.services ep }
      key at hi
    rw [listed_push, List.mem_append] at hi
    rcases hi with hold | hnew
    · exact h.covered key i hold
    · split at hnew
      · rw [List.mem_singleton.mp hnew]
        exact h.queued ep hnet
      · cases hnew
  queued := by simp [Threads.toNet]
  fresh := h.fresh

theorem Inv.swap (h : Inv s) {eps : List EndPoint} (hmain : s.main = .selected eps) :
    Inv (s.toMain (s.manager.swapServices eps) s.store.rows (.swapped eps)) := by
  have hrows := h.fresh eps hmain
  have hpending : (s.toMain (s.manager.swapServices eps) s.store.rows (.swapped eps)).pending =
      s.pending := by
    rw [pending, pending, hmain]
    rfl
  have hlisted := listed_swapServices s.manager eps
  refine ⟨?_, ?_, ?_, fun _ heps => (nomatch heps)⟩
  · intro key i hi
    exact (Grouping.mem_group.mp (hlisted key ▸ hi)).2
  · intro key i hi
    rw [mem_pending]
    exact .inl (.inl (hrows ▸ (Grouping.mem_group.mp (hlisted key ▸ hi)).1))
  · intro ep hep
    rw [hpending]
    exact h.queued ep hep

theorem Inv.step (h : Inv s) (hstep : Threads.step cfg columnDefault s a = some t) : Inv t := by
  cases step_cases hstep with
  | @beat _ m net hlisted hqueue hnot =>
    refine ⟨?_, ?_, fun ep hep => absurd hep (hnot ep), h.fresh⟩
    · intro key i hi
      exact h.keyed key i (hlisted key ▸ hi)
    · intro key i hi
      rw [pending_toNet hqueue]
      exact h.covered key i (hlisted key ▸ hi)
  | add ep => exact h.add ep
  | push hnet => exact h.push hnet
  | @main _ m rows main hservices hpending hfresh =>
    have hlisted : ∀ key, m.listed key = s.manager.listed key := by
      intro key
      rw [listed, hservices, listed]
    refine ⟨?_, ?_, ?_, hfresh⟩
    · intro key i hi
      exact h.keyed key i (hlisted key ▸ hi)
    · intro key i hi
      exact hpending i (h.covered key i (hlisted key ▸ hi))
    · intro ep hep
      exact hpending _ (h.queued ep hep)
  | swap hmain => exact h.swap hmain

theorem Inv.reached {rows : List Row} {updateSec reloadSec : UInt32}
    (h : Runs (Threads.step cfg columnDefault) (fun _ _ => True)
      (resting (Store.start rows updateSec reloadSec)) s) : Inv s := by
  apply h.invariant (I := Inv) _ (inv_start rows updateSec reloadSec)
  intro s a t hs _ hstep
  exact hs.step hstep

/-! ## A reload and the registrations before it -/

/-- What `getService` returned is returned later. -/
def Kept (s t : Threads) : Prop :=
  ∀ n, ∀ ep ∈ s.manager.getService n, ∃ ep' ∈ t.manager.getService n, ep'.toId = ep.toId

theorem kept_iff :
    Kept s t ↔ ∀ key, ∀ i ∈ s.manager.listed key, i ∈ t.manager.listed key := by
  constructor
  · intro h key i hi
    have hkey : getKey ⟨key, [], [], []⟩ = key := by simp [getKey]
    obtain ⟨ep, hep, rfl⟩ := List.mem_map.mp hi
    obtain ⟨ep', hep', hid⟩ := h ⟨key, [], [], []⟩ ep (by rw [getService, hkey]; exact hep)
    rw [getService, hkey] at hep'
    exact List.mem_map.mpr ⟨ep', hep', hid⟩
  · intro h n ep hep
    exact List.mem_map.mp (h (getKey n) ep.toId (List.mem_map_of_mem hep))

theorem Kept.trans (h₁ : Kept s t) (h₂ : Kept t u) : Kept s u := by
  rw [kept_iff] at *
  exact fun key i hi => h₂ key i (h₁ key i hi)

theorem Kept.of_services (h : t.manager.services = s.manager.services) : Kept s t := by
  rw [kept_iff]
  intro key i hi
  rw [listed, h]
  exact hi

/-- The main thread is about to swap the lists. -/
def swaps (s : Threads) : Bool :=
  match s.main with
  | .selected _ => true
  | _ => false

/-- When the lists are swapped, every endpoint that is listed and whose insert is still
queued already has a row. -/
def Timely (s : Threads) : Action → Prop
  | .main _ => s.swaps = true → ∀ ep ∈ s.manager.newServices,
      ep.toId ∈ s.manager.listed ep.key → ep.toId ∈ s.store.rows.map (·.toId)
  | _ => True

instance (s : Threads) : (a : Action) → Decidable (Timely s a)
  | .main _ => inferInstanceAs (Decidable (_ = true → ∀ ep ∈ s.manager.newServices, _ → _ ∈ _))
  | .heartBeat _ _ => instDecidableTrue
  | .net _ => instDecidableTrue
  | .update _ => instDecidableTrue
  | .loadFromDB _ => instDecidableTrue

/-- Every step but a swap keeps the lists. -/
theorem kept_or_swap (hstep : Threads.step cfg columnDefault s a = some t) :
    Kept s t ∨ ∃ clock eps, a = .main clock ∧ s.main = .selected eps ∧
      t.manager = s.manager.swapServices eps := by
  cases step_cases hstep with
  | beat hlisted hqueue hnot =>
    refine .inl (kept_iff.mpr ?_)
    intro key i hi
    exact (hlisted key).symm ▸ hi
  | add ep => exact .inl (.of_services rfl)
  | @push _ ep hnet =>
    refine .inl (kept_iff.mpr ?_)
    intro key i hi
    show i ∈ listed { s.manager with services := push s.manager.services ep } key
    rw [listed_push]
    exact List.mem_append_left _ hi
  | main hservices hpending hfresh => exact .inl (.of_services hservices)
  | @swap clock eps hmain => exact .inr ⟨clock, eps, rfl, hmain, rfl⟩

/-- A swap keeps the lists if and only if every listed endpoint has a row. -/
theorem kept_swap_iff (h : Inv s) {eps : List EndPoint} (hmain : s.main = .selected eps)
    (ht : t.manager = s.manager.swapServices eps) :
    Kept s t ↔ ∀ ep ∈ s.manager.newServices,
      ep.toId ∈ s.manager.listed ep.key → ep.toId ∈ s.store.rows.map (·.toId) := by
  have hlisted : ∀ key i, i ∈ t.manager.listed key ↔
      i ∈ s.store.rows.map (·.toId) ∧ i.key = key := by
    intro key i
    rw [ht, listed_swapServices, Grouping.mem_group, h.fresh eps hmain]
  rw [kept_iff]
  constructor
  · intro hkept ep _ hep
    exact ((hlisted _ _).mp (hkept ep.key ep.toId hep)).1
  · intro hrows key i hi
    rw [hlisted]
    refine ⟨?_, h.keyed key i hi⟩
    have hpending := h.covered key i hi
    rw [mem_pending, hmain] at hpending
    rcases hpending with (hrow | hnew) | hbatch
    · exact hrow
    · obtain ⟨ep, hep, rfl⟩ := List.mem_map.mp hnew
      refine hrows ep hep ?_
      have hkey : ep.key = key := h.keyed key ep.toId hi
      rw [hkey]
      exact hi
    · cases hbatch

theorem swapped_of_mainStep {clock : Nat → UInt32} {eps : List EndPoint}
    (hmain : s.main = .selected eps) (hstep : s.mainStep cfg columnDefault clock = some t) :
    t.manager = s.manager.swapServices eps := by
  rw [mainStep, hmain] at hstep
  simp only at hstep
  split at hstep
  · cases hstep
  · cases hstep
    rfl

theorem kept_step_iff (h : Inv s) (hstep : Threads.step cfg columnDefault s a = some t) :
    Kept s t ↔ Timely s a := by
  rcases kept_or_swap hstep with hkept | ⟨clock, eps, rfl, hmain, ht⟩
  · refine iff_of_true hkept ?_
    cases a with
    | main clock =>
      intro hswaps
      unfold swaps at hswaps
      split at hswaps
      · rename_i eps hmain
        exact (kept_swap_iff h hmain (swapped_of_mainStep hmain hstep)).mp hkept
      · cases hswaps
    | heartBeat _ _ | net _ | update _ | loadFromDB _ => trivial
  · have hswaps : s.swaps = true := by rw [swaps, hmain]
    rw [kept_swap_iff h hmain ht]
    exact (imp_iff_right hswaps).symm

/-- **A reload drops no registered endpoint as long as the lists are never swapped while a
listed endpoint without a row is queued, and no longer.** -/
theorem registrations_survive {rows : List Row} {updateSec reloadSec : UInt32}
    (hs : Runs (Threads.step cfg columnDefault) (fun _ _ => True)
      (resting (Store.start rows updateSec reloadSec)) s)
    (ht : Runs (Threads.step cfg columnDefault) Timely s t) :
    Kept s t ∧ ∀ a u, Threads.step cfg columnDefault t a = some u →
      (Kept t u ↔ Timely t a) := by
  have hinv := Inv.reached hs
  have hrun : Inv t ∧ Kept s t := by
    apply ht.invariant (I := fun t => Inv t ∧ Kept s t)
    · intro t a u hkept htimely hstep
      exact ⟨hkept.1.step hstep, hkept.2.trans ((kept_step_iff hkept.1 hstep).mpr htimely)⟩
    · exact ⟨hinv, .of_services rfl⟩
  exact ⟨hrun.2, fun a u hstep => kept_step_iff hrun.1 hstep⟩

/-- Another service on another host. -/
def otherHost : Id := ⟨⟨"a".toList, "b".toList, "d".toList, []⟩, "10.0.0.3".toList, 80⟩

/-- A heartbeat, the flush behind it, and a reload. -/
theorem registrations_survive_of_flushed :
    ∃ s t, Runs (Threads.step .init (some 0)) (fun _ _ => True)
        (resting (Store.start [⟨otherHost, some 0⟩] 0 0)) s ∧
      Runs (Threads.step .init (some 0)) Timely s t ∧
      t.manager.getService Store.oneName.names =
        [{ Store.oneName with heartBeatTime := 0, active := false }] ∧
      (Kept s t ∧ ∀ a u, Threads.step .init (some 0) t a = some u →
        (Kept t u ↔ Timely t a)) := by
  have hexec : ∃ s, Runs (Threads.step .init (some 0)) (fun _ _ => True)
      (resting (Store.start [⟨otherHost, some 0⟩] 0 0)) s ∧
      (execute (Threads.step .init (some 0)) (fun s a => decide (Timely s a)) s
        [.update 1000, .main fun _ => 1000, .main fun _ => 1000, .main fun _ => 1000,
          .main fun _ => 1000, .main fun _ => 1000, .main fun _ => 1000]).any
        (fun t => decide (t.manager.getService Store.oneName.names =
          [{ Store.oneName with heartBeatTime := 0, active := false }])) = true :=
    exists_runs_of_schedule (resting (Store.start [⟨otherHost, some 0⟩] 0 0))
      [.heartBeat Store.oneName 7, .net 7, .net 7] _ (by decide)
  obtain ⟨s, hs, hrest⟩ := hexec
  obtain ⟨t, ht, hlist⟩ := exists_runs_of_execute (fun _ _ hg => of_decide_eq_true hg) _ _ hrest
  exact ⟨s, t, hs, ht, of_decide_eq_true hlist, registrations_survive hs ht⟩

/-- The first heartbeat of an endpoint falls between the select and the swap. -/
theorem dropped_by_reload :
    ∃ s t, Runs (Threads.step .init (some 0)) (fun _ _ => True)
        (resting (Store.start [⟨otherHost, some 0⟩] 0 0)) s ∧
      Runs (Threads.step .init (some 0)) (fun _ _ => True) s t ∧
      s.manager.getService Store.oneName.names = [newEndPoint Store.oneName 1000] ∧
      t.manager.getService Store.oneName.names = [] := by
  have hexec : ∃ s, Runs (Threads.step .init (some 0)) (fun _ _ => True)
      (resting (Store.start [⟨otherHost, some 0⟩] 0 0)) s ∧
      (decide (s.manager.getService Store.oneName.names = [newEndPoint Store.oneName 1000]) &&
        (execute (Threads.step .init (some 0)) (fun _ _ => true) s [.main fun _ => 1000]).any
          (fun t => decide (t.manager.getService Store.oneName.names = []))) = true :=
    exists_runs_of_schedule (resting (Store.start [⟨otherHost, some 0⟩] 0 0))
      [.update 1000, .main fun _ => 1000, .main fun _ => 1000, .main fun _ => 1000,
        .heartBeat Store.oneName 1000, .net 1000, .net 1000] _ (by decide)
  obtain ⟨s, hs, hrest⟩ := hexec
  obtain ⟨hlisted, hrest⟩ := Bool.and_eq_true_iff.mp hrest
  obtain ⟨t, ht, hgone⟩ := exists_runs_of_execute (fun _ _ _ => trivial) _ _ hrest
  exact ⟨s, t, hs, ht, of_decide_eq_true hlisted, of_decide_eq_true hgone⟩

end Threads

end StormNet.Registry
