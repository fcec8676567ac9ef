/-
  Net/PooledLoop.lean --- a `SocketLoop` with its `m_bufferPool`, and what the connections have
  read and shown.

  The loop takes every step it takes alone, with what `m_bufferPool.get()` and `onData` give it.
  What a slot has read since it became connected, and what its handler has been shown since
  then, are records; no step looks at them.
-/
import StormNet.Net.LoopInvariant
import StormNet.Net.LoopStep
import StormNet.Net.ReadPool

set_option autoImplicit false

namespace StormNet.Net

open StormNet.Foundation StormNet.Util
open StormNet.Util.PacketProtocolLen (HeadersOk)
open Function (update update_self update_of_ne)

/-! ## The system -/

/-- The slot whose data is being handled, or which is being closed. -/
def Pc.serves : Pc → Option Nat
  | .onData i _ => some i
  | .closing i _ _ => some i
  | _ => none

/-- The slot that the event at hand reads from. -/
def SocketLoop.reads (l : SocketLoop) : Option Nat :=
  match l.pc, l.event with
  | .resume .event, e :: _ =>
      if (l.slot e.ud).type = .normal ∧ (l.slot e.ud).status = .connected ∧ e.read = true then
        some e.ud
      else none
  | _, _ => none

structure PooledLoop where
  loop : SocketLoop
  pool : ReadPool
  received : Nat → List UInt8
  shown : Nat → List (List UInt8)

namespace PooledLoop

/-- Behind the constructor. -/
def new (maxSocket efd : Nat) : PooledLoop where
  loop := .new maxSocket efd
  pool := .new
  received := fun _ => []
  shown := fun _ => []

/-- The loop has taken a step; a slot that was not connected has read and shown nothing. -/
def goTo (p : PooledLoop) (l : SocketLoop) : PooledLoop :=
  { p with
    loop := l
    received := fun i => if (p.loop.slot i).status = .connected then p.received i else []
    shown := fun i => if (p.loop.slot i).status = .connected then p.shown i else [] }

/-- `handleRead` of the slot `i` up to `onData`. -/
def handleRead (p : PooledLoop) (i : Nat) (env : SocketLoop.Env) : Option PooledLoop :=
  (p.pool.acquire i).bind fun (node, pool) =>
    let b := pool.pool.object node
    (p.loop.netStep { env with pooled := b }).map fun l =>
      let q := p.goTo l
      { q with
        pool := pool.store node (readLoop env.reads b).1
        received := update q.received i (q.received i ++ bytesRead env.reads) }

/-- `onData` of the slot `i`; `parser` is the `m_parser` of a handler, and the loop makes as many
turns as there are bytes, and one. -/
def onData (parser : Option Nat → IoBuffer → Packet) (p : PooledLoop) (i : Nat)
    (env : SocketLoop.Env) : Option PooledLoop :=
  (p.pool.readBuffer i).bind fun node =>
    let b := p.pool.pool.object node
    let r := onDataWith (parser (p.loop.slot i).handler) (b.contents.length + 1) b
    (p.loop.netStep { env with handled := (some r.buffer, r.result ≠ some false) }).map fun l =>
      let q := p.goTo l
      { q with
        pool := p.pool.store node r.buffer
        shown := update q.shown i (q.shown i ++ r.packets) }

/-- A step of the loop's thread. -/
def netStep (parser : Option Nat → IoBuffer → Packet) (p : PooledLoop) (env : SocketLoop.Env) :
    Option PooledLoop :=
  match p.loop.pc with
  | .onData i _ => p.onData parser i env
  | .closing i _ _ => (p.loop.netStep env).map fun l => { p.goTo l with pool := p.pool.release i }
  | _ =>
      match p.loop.reads with
      | some i => p.handleRead i env
      | none => (p.loop.netStep env).map p.goTo

def step (parser : Option Nat → IoBuffer → Packet) (p : PooledLoop) :
    SocketLoop.Action → Option PooledLoop
  | .net env => p.netStep parser env
  | a => (p.loop.step a).map p.goTo

/-- No slot is pulled away, and what a slot reads is well formed for its parser and not too
much. -/
def Fed (Ok : Option Nat → List UInt8 → Prop) (p : PooledLoop) (a : SocketLoop.Action) : Prop :=
  p.loop.Admits a ∧
  match a with
  | .net env => ∀ i ∈ p.loop.reads,
      Ok (p.loop.slot i).handler (p.pool.held i ++ bytesRead env.reads) ∧
        (p.pool.held i ++ bytesRead env.reads).length < 2 ^ 31
  | _ => True

end PooledLoop

/-! ## What the steps do about reading -/

namespace SocketLoop

variable {l l' : SocketLoop} {env : Env} {i : Nat}

/-- The step reads nothing, handles no data and empties no buffer. -/
structure Unread (l l' : SocketLoop) : Prop where
  readBuffer : ∀ i, (l'.slot i).readBuffer = (l.slot i).readBuffer
  connected : ∀ i, (l.slot i).status = .connected →
    (l'.slot i).status = .connected ∧ (l'.slot i).handler = (l.slot i).handler
  pc : l'.pc = l.pc ∨ l.pc.serves = none ∧ ∀ i k, l'.pc ≠ .onData i k

/-- One slot is assigned, and keeps its read buffer. -/
theorem Unread.set {s : Socket} {slot : Nat → Socket} (hslot : l'.slot = slot)
    (hset : slot = update l.slot i s) (hbuffer : s.readBuffer = (l.slot i).readBuffer)
    (hstatus : (l.slot i).status = .connected →
      s.status = .connected ∧ s.handler = (l.slot i).handler)
    (hpc : l'.pc = l.pc ∨ l.pc.serves = none ∧ ∀ i k, l'.pc ≠ .onData i k) : Unread l l' := by
  subst hslot
  refine ⟨fun j => ?_, fun j hj => ?_, hpc⟩
  · rw [hset]
    exact field_update Socket.readBuffer hbuffer j
  · by_cases hji : j = i
    · subst hji
      rw [hset, update_self]
      exact hstatus hj
    · rw [hset, update_of_ne hji]
      exact ⟨hj, rfl⟩

theorem Unread.same (hslot : l'.slot = l.slot)
    (hpc : l'.pc = l.pc ∨ l.pc.serves = none ∧ ∀ i k, l'.pc ≠ .onData i k) : Unread l l' := by
  refine ⟨fun j => ?_, fun j hj => ?_, hpc⟩
  · rw [hslot]
  · rw [hslot]
    exact ⟨hj, rfl⟩

/-- The steps of the loop's thread that do not read. -/
theorem NetStep.unread (h : NetStep l env l') (hsound : l.Sound)
    (hadmits : l.Admits (.net env)) (hreads : l.reads = none) (hserves : l.pc.serves = none) :
    Unread l l' := by
  have hnoread : ∀ {e rest}, l.AtEvent e rest → (l.slot e.ud).status = .connected →
      e.read ≠ true := by
    intro e rest hat hstatus hread
    rw [reads, hat.pc, hat.event] at hreads
    simp [hat.type, hstatus, hread] at hreads
  have hpc : ∀ {pc : Pc}, (∀ i k, pc ≠ .onData i k) →
      pc = l.pc ∨ l.pc.serves = none ∧ ∀ i k, pc ≠ .onData i k := fun h => .inr ⟨hserves, h⟩
  have hopen : ∀ {i}, (l.slot i).fd = none → (l.slot i).status ≠ .connected :=
    fun hnone hstatus => hsound.connected _ hstatus hnone
  cases h with
  | read e rest applied k r hat hstatus hk hread => exact absurd hread (hnoread hat hstatus)
  | readClosed e rest applied k r hat hstatus hk hread => exact absurd hread (hnoread hat hstatus)
  | dataOver i k hat | dataClosed i k hat | cleared i closeType k hat =>
    rw [hat] at hserves
    cases hserves
  | connected e rest applied fd hat hstatus hfd =>
    exact .set rfl rfl rfl (fun _ => ⟨rfl, rfl⟩) (hpc fun _ _ h => by cases h)
  | wrote | sent =>
    exact .set rfl rfl rfl (fun hi => ⟨hi, rfl⟩) (hpc fun _ _ h => by cases h)
  | writeClosed | sendClosed =>
    exact .set (closeFd_slot _ _) rfl rfl (fun hi => ⟨hi, rfl⟩) (hpc fun _ _ h => by cases h)
  | connectDone id target i fd hat hi | connectInProgress id target i fd hat hi =>
    have hnone := (hadmits.connect i (by simp only [connects, hat, hi])).1
    exact .set rfl rfl rfl (fun hi => absurd hi (hopen hnone)) (hpc fun _ _ h => by cases h)
  | accepted i j fd allocId hat hidle =>
    refine .set rfl rfl rfl (fun hj => ?_) (hpc fun _ _ h => by cases h)
    rw [hidle] at hj
    cases hj
  | idled i hat =>
    have hnone := (hsound.failing i (by rw [hat]; rfl)).1
    exact .set rfl rfl rfl (fun hi => absurd hi (hopen hnone)) (hpc fun _ _ h => by cases h)
  | refused | closed | sweepClosed =>
    exact .same (closeFd_slot _ _) (hpc fun _ _ h => by cases h)
  | acceptAgain => exact .same rfl (.inl rfl)
  | _ => exact .same rfl (hpc fun _ _ h => by cases h)

/-- The steps of the callers. -/
theorem LoopStep.unread {a : Action} (h : LoopStep l a l') (hsound : l.Sound)
    (hcaller : ∀ env, a ≠ .net env) : Unread l l' := by
  cases h with
  | turned | pushed | issued => exact .same rfl (.inl rfl)
  | reserved op i allocId hpicks hidle =>
    refine .set rfl rfl rfl (fun hi => ?_) (.inl rfl)
    rw [hidle] at hi
    cases hi
  | published c op hc =>
    have hreserse := (hsound.reserved c op hc).2.1
    refine .set (i := c.slot) rfl rfl ?_ (fun hi => ?_) (.inl rfl)
    · cases op <;> rfl
    · rw [hreserse] at hi
      cases hi
  | net env => exact absurd rfl (hcaller env)

theorem reads_eq_some (h : l.reads = some i) : ∃ e rest, l.AtEvent e rest ∧ e.ud = i ∧
    (l.slot i).status = .connected ∧ e.read = true := by
  unfold reads at h
  split at h
  · rename_i e rest hpc hevent
    obtain ⟨⟨htype, hstatus, hread⟩, hi⟩ := Option.ite_none_right_eq_some.mp h
    obtain rfl := Option.some.inj hi
    exact ⟨e, rest, ⟨hpc, hevent, htype⟩, rfl, hstatus, hread⟩
  · cases h

/-- What `handleRead` leaves. -/
theorem handleRead_of_connected (hstatus : (l.slot i).status = .connected) (env : Env)
    (k : Resume) :
    let r := readLoop env.reads ((l.slot i).readBuffer.getD env.pooled)
    (l.handleRead i env k).slot =
        update l.slot i { l.slot i with readBuffer := some r.1 } ∧
      (r.2 = false ∧ (l.handleRead i env k).pc = .onData i k ∨
        (l.handleRead i env k).pc = .closing i .peer k) := by
  dsimp only [handleRead]
  rw [if_neg (not_not_intro hstatus)]
  generalize readLoop env.reads ((l.slot i).readBuffer.getD env.pooled) = r
  obtain ⟨b, needClose⟩ := r
  cases needClose with
  | false => exact ⟨rfl, .inl ⟨rfl, rfl⟩⟩
  | true =>
    dsimp only
    rw [if_pos rfl, forceClose, if_pos]
    · exact ⟨closeFd_slot _ _, .inr rfl⟩
    · apply inUse_of_connected
      simp only [update_self]
      exact hstatus

/-- An event that reads comes to `handleRead`. -/
theorem handleEvent_of_read {e : SocketEvent} (htype : (l.slot e.ud).type = .normal)
    (hstatus : (l.slot e.ud).status = .connected) (hread : e.read = true) (env : Env) :
    ∃ (l₁ : SocketLoop) (k : Resume),
      l.handleEvent e env = l₁.handleRead e.ud env k ∧ l₁.slot = l.slot := by
  have hconnecting : (l.slot e.ud).status ≠ .connecting := by
    rw [hstatus]
    decide
  refine ⟨l.deliver .event [e.target] e.ud, if e.write then .write e.ud e.target else .event, ?_,
    rfl⟩
  dsimp only [handleEvent]
  rw [if_pos (inUse_of_connected hstatus), htype]
  dsimp only
  rw [if_neg hconnecting, if_pos hread]

/-- What reading leaves. -/
theorem netStep_of_reads (h : l.reads = some i) (hstep : l.netStep env = some l') :
    let r := readLoop env.reads ((l.slot i).readBuffer.getD env.pooled)
    l'.slot = update l.slot i { l.slot i with readBuffer := some r.1 } ∧
      (r.2 = false ∧ (∃ k, l'.pc = .onData i k) ∨
        ∃ closeType k, l'.pc = .closing i closeType k) := by
  obtain ⟨e, rest, hat, rfl, hstatus, hread⟩ := reads_eq_some h
  rw [netStep, hat.pc, hat.event] at hstep
  simp only [Option.some.injEq] at hstep
  obtain ⟨l₁, k, hevent, hslot⟩ :=
    handleEvent_of_read (l := { l with event := rest, pc := .resume .event }) hat.type hstatus
      hread env
  have hspec := handleRead_of_connected (l := l₁) (i := e.ud) (by rw [hslot]; exact hstatus) env k
  rw [← hevent, hslot] at hspec
  rw [hstep] at hspec
  exact ⟨hspec.1, hspec.2.imp (fun h => ⟨h.1, k, h.2⟩) (fun h => ⟨_, k, h⟩)⟩

/-- What `onData` leaves. -/
theorem netStep_of_onData {k : Resume} (hpc : l.pc = .onData i k)
    (hstatus : (l.slot i).status = .connected) (hstep : l.netStep env = some l') :
    l'.slot = update l.slot i { l.slot i with readBuffer := env.handled.1 } ∧
    (env.handled.2 = true ∧ l'.pc = .resume k ∨
      env.handled.2 = false ∧ l'.pc = .closing i .self k) := by
  rw [netStep, hpc] at hstep
  dsimp only at hstep
  cases hhandled : env.handled.2 with
  | true =>
    rw [hhandled, if_pos rfl, Option.some.injEq] at hstep
    subst hstep
    exact ⟨rfl, .inl ⟨rfl, rfl⟩⟩
  | false =>
    rw [hhandled, if_neg Bool.false_ne_true, Option.some.injEq] at hstep
    subst hstep
    rw [forceClose, if_pos]
    · exact ⟨closeFd_slot _ _, .inr ⟨rfl, rfl⟩⟩
    · apply inUse_of_connected
      simp only [update_self]
      exact hstatus

/-- What `forceClose` leaves. -/
theorem netStep_of_closing {closeType : CloseType} {k : Resume}
    (hpc : l.pc = .closing i closeType k) (hstep : l.netStep env = some l') :
    l'.slot = update l.slot i { l.slot i with
      fd := none, status := .idle, readBuffer := none, writeBuffer := [] } ∧
    l'.pc = .resume k := by
  rw [netStep, hpc, Option.some.injEq] at hstep
  subst hstep
  exact ⟨rfl, rfl⟩

end SocketLoop

/-! ## What is shown -/

namespace PooledLoop

variable {D : Option Nat → StableDecoder UInt8 (List UInt8)}
  {Ok : Option Nat → List UInt8 → Prop} {parser : Option Nat → IoBuffer → Packet}
  {p q : PooledLoop} {l : SocketLoop} {env : SocketLoop.Env} {i : Nat}

/-- What the bytes say that the connection of a slot has read. -/
def drained (D : Option Nat → StableDecoder UInt8 (List UInt8)) (p : PooledLoop) (i : Nat) :
    Drained UInt8 (List UInt8) :=
  (D (p.loop.slot i).handler).drain (p.received i)

/-- The handler of the slot has been shown the front of what the bytes say, and all of it when
the slot is not being served; then the buffer holds the rest. -/
structure Shows (D : Option Nat → StableDecoder UInt8 (List UInt8)) (p : PooledLoop) (i : Nat) :
    Prop where
  shown : p.shown i <+: (p.drained D i).packets
  exact : p.loop.pc.serves ≠ some i → p.drained D i = ⟨p.shown i, false, p.pool.held i⟩

/-- The slot has read, and `onData` comes next. -/
structure Pending (D : Option Nat → StableDecoder UInt8 (List UInt8))
    (Ok : Option Nat → List UInt8 → Prop) (p : PooledLoop) (i : Nat) : Prop where
  connected : (p.loop.slot i).status = .connected
  readBuffer : p.pool.readBuffer i ≠ none
  ok : Ok (p.loop.slot i).handler (p.pool.held i)
  agrees : (p.drained D i).Agrees
    (((D (p.loop.slot i).handler).drain (p.pool.held i)).prepend (p.shown i))

/-- What holds of every run. -/
structure Inv (D : Option Nat → StableDecoder UInt8 (List UInt8))
    (Ok : Option Nat → List UInt8 → Prop) (p : PooledLoop) : Prop where
  sound : p.loop.Sound
  owned : p.pool.Owned
  /-- the buffers of the loop are those of the pool -/
  mirror : ∀ i, (p.loop.slot i).readBuffer = p.pool.buffer i
  connected : ∀ i, p.pool.readBuffer i ≠ none → (p.loop.slot i).status = .connected
  shows : ∀ i, (p.loop.slot i).status = .connected → Shows D p i
  pending : ∀ i k, p.loop.pc = .onData i k → Pending D Ok p i

theorem received_goTo (h : (p.loop.slot i).status = .connected) (l : SocketLoop) :
    (p.goTo l).received i = p.received i := if_pos h

theorem shown_goTo (h : (p.loop.slot i).status = .connected) (l : SocketLoop) :
    (p.goTo l).shown i = p.shown i := if_pos h

/-- Nothing changes for the slot. -/
theorem Shows.congr (h : Shows D p i)
    (hhandler : (q.loop.slot i).handler = (p.loop.slot i).handler)
    (hreceived : q.received i = p.received i) (hshown : q.shown i = p.shown i)
    (hheld : q.pool.held i = p.pool.held i)
    (hpc : q.loop.pc.serves ≠ some i → p.loop.pc.serves ≠ some i) : Shows D q i := by
  have hdrained : q.drained D i = p.drained D i := by
    rw [drained, drained, hhandler, hreceived]
  refine ⟨?_, fun hserves => ?_⟩
  · rw [hdrained, hshown]
    exact h.shown
  · rw [hdrained, hshown, hheld]
    exact h.exact (hpc hserves)

/-- A connection that has just been made. -/
theorem shows_fresh (hempty : ∀ k, (D k).decode [] = .less) (hreceived : p.received i = [])
    (hshown : p.shown i = []) (hheld : p.pool.held i = []) : Shows D p i := by
  have hdrained : p.drained D i = ⟨[], false, []⟩ := by
    rw [drained, hreceived]
    exact StableDecoder.drain_of_less _ (hempty _)
  refine ⟨?_, fun _ => ?_⟩
  · rw [hshown]
    exact List.nil_prefix
  · rw [hdrained, hshown, hheld]

/-- What more bytes add to what is shown. -/
theorem Shows.append (h : Shows D p i) (hserves : p.loop.pc.serves ≠ some i)
    (bs : List UInt8) : ((D (p.loop.slot i).handler).drain (p.received i ++ bs)).Agrees
      (((D (p.loop.slot i).handler).drain (p.pool.held i ++ bs)).prepend (p.shown i)) := by
  have hexact := h.exact hserves
  have happend := (D (p.loop.slot i).handler).drain_append (p.received i) bs
  rw [drained] at hexact
  rw [hexact] at happend
  exact happend

/-- A step that does not read. -/
theorem Inv.unread (h : p.Inv D Ok) (hempty : ∀ k, (D k).decode [] = .less)
    (hsound : l.Sound) (hquiet : p.loop.Unread l) : (p.goTo l).Inv D Ok := by
  refine ⟨hsound, h.owned, fun i => (hquiet.readBuffer i).trans (h.mirror i),
    fun i hi => (hquiet.connected i (h.connected i hi)).1, fun i _ => ?_, fun i k hpc => ?_⟩
  · by_cases hstatus : (p.loop.slot i).status = .connected
    · refine (h.shows i hstatus).congr (hquiet.connected i hstatus).2 (received_goTo hstatus l)
        (shown_goTo hstatus l) rfl fun hserves => ?_
      rcases hquiet.pc with hsame | ⟨hnone, -⟩
      · exact hsame ▸ hserves
      · rw [hnone]
        exact Option.some_ne_none i |>.symm
    · have hnone : p.pool.readBuffer i = none := by
        by_contra hsome
        exact hstatus (h.connected i hsome)
      exact shows_fresh hempty (if_neg hstatus) (if_neg hstatus) (ReadPool.held_of_none hnone)
  · rcases hquiet.pc with hsame | ⟨-, hnone⟩
    · obtain ⟨hstatus, hbuffer, hok, hagrees⟩ := h.pending i k (hsame.symm.trans hpc)
      obtain ⟨hstatus', hhandler⟩ := hquiet.connected i hstatus
      refine ⟨hstatus', hbuffer, ?_, ?_⟩
      · show Ok (l.slot i).handler _
        rw [hhandler]
        exact hok
      · rw [drained, received_goTo hstatus, shown_goTo hstatus]
        show ((D (l.slot i).handler).drain _).Agrees (((D (l.slot i).handler).drain _).prepend _)
        rw [hhandler]
        exact hagrees
    · exact absurd hpc (hnone i k)

/-- The step serves the slot `i`, and leaves the others alone. -/
structure Serves (p q : PooledLoop) (i : Nat) : Prop where
  sound : q.loop.Sound
  owned : q.pool.Owned
  pool : ReadPool.SameBut i p.pool q.pool
  slot : ∀ j, j ≠ i → q.loop.slot j = p.loop.slot j
  records : ∀ j, j ≠ i → (p.loop.slot j).status = .connected →
    q.received j = p.received j ∧ q.shown j = p.shown j
  pc : ∀ j, j ≠ i → p.loop.pc.serves ≠ some j
  mirror : (q.loop.slot i).readBuffer = q.pool.buffer i

/-- A step that serves the slot `i`. -/
theorem Inv.served (h : p.Inv D Ok) (hq : Serves p q i)
    (hconnected : q.pool.readBuffer i ≠ none → (q.loop.slot i).status = .connected)
    (hshows : (q.loop.slot i).status = .connected → Shows D q i)
    (hpending : ∀ j k, q.loop.pc = .onData j k → j = i ∧ Pending D Ok q i) : q.Inv D Ok := by
  refine ⟨hq.sound, hq.owned, fun j => ?_, fun j hj => ?_, fun j hj => ?_, fun j k hj => ?_⟩
  · by_cases hji : j = i
    · exact hji ▸ hq.mirror
    · rw [hq.slot j hji, (hq.pool j hji).2]
      exact h.mirror j
  · by_cases hji : j = i
    · subst hji
      exact hconnected hj
    · rw [(hq.pool j hji).1] at hj
      rw [hq.slot j hji]
      exact h.connected j hj
  · by_cases hji : j = i
    · subst hji
      exact hshows hj
    · rw [hq.slot j hji] at hj
      obtain ⟨hreceived, hshown⟩ := hq.records j hji hj
      exact (h.shows j hj).congr (by rw [hq.slot j hji]) hreceived hshown
        (hq.pool.held_eq hji) fun _ => hq.pc j hji
  · obtain ⟨rfl, hpend⟩ := hpending j k hj
    exact hpend

/-! ### Reading -/

/-- The slot has read the bytes, and `onData` or the end of `forceClose` comes next. -/
structure HasRead (p q : PooledLoop) (i : Nat) (bs : List UInt8) : Prop where
  status : (q.loop.slot i).status = .connected
  handler : (q.loop.slot i).handler = (p.loop.slot i).handler
  received : q.received i = p.received i ++ bs
  shown : q.shown i = p.shown i
  held : q.pool.held i = p.pool.held i ++ bs
  readBuffer : q.pool.readBuffer i ≠ none
  pc : (∃ k, q.loop.pc = .onData i k) ∨ ∃ closeType k, q.loop.pc = .closing i closeType k

/-- What `handleRead` leaves up to `onData`. -/
theorem Inv.hasRead (h : p.Inv D Ok) (hadmits : p.loop.Admits (.net env))
    (hreads : p.loop.reads = some i)
    (hsize : (p.pool.held i ++ bytesRead env.reads).length < 2 ^ 31)
    (hstep : p.handleRead i env = some q) :
    Serves p q i ∧ HasRead p q i (bytesRead env.reads) := by
  obtain ⟨e, rest, hat, -, hstatus, -⟩ := SocketLoop.reads_eq_some hreads
  obtain ⟨node, pool, hacquire, howned, hnode, hcontents, hbuffer, hsame⟩ := h.owned.acquire i
  rw [PooledLoop.handleRead, hacquire, Option.bind_some] at hstep
  obtain ⟨l, hl, rfl⟩ := Option.map_eq_some_iff.mp hstep
  have hsound : l.Sound := h.sound.step (a := .net { env with pooled := pool.pool.object node })
    ⟨hadmits.reserve, hadmits.connect⟩ hl
  obtain ⟨hslot, hpc⟩ := SocketLoop.netStep_of_reads hreads hl
  rw [h.mirror i, hbuffer] at hslot hpc
  obtain ⟨hread, hall, -⟩ := readLoop_spec env.reads _ (howned.readBuffer i node hnode)
    (by rw [hcontents, ← List.length_append]; exact hsize)
  obtain ⟨hstored, hsame', hstore⟩ := howned.store hnode hread
  have hserves : ∀ j, p.loop.pc.serves ≠ some j := by
    rw [hat.pc]
    exact fun j hj => by cases hj
  have hself : l.slot i = { p.loop.slot i with
      readBuffer := some (readLoop env.reads (pool.pool.object node)).1 } := by
    rw [hslot, update_self]
  constructor
  · refine ⟨hsound, hstored, hsame.trans hsame', fun j hj => ?_, fun j hj hjs => ?_,
      fun j _ => hserves j, ?_⟩
    · show l.slot j = _
      rw [hslot, update_of_ne hj]
    · exact ⟨(update_of_ne hj ..).trans (received_goTo hjs l), shown_goTo hjs l⟩
    · show (l.slot i).readBuffer = _
      rw [hself, hstore]
  · refine ⟨(congrArg Socket.status hself).trans hstatus, (congrArg Socket.handler hself).trans rfl,
      (update_self ..).trans (congrArg (· ++ _) (received_goTo hstatus l)),
      shown_goTo hstatus l, ?_, fun hnone => ?_, hpc.imp And.right id⟩
    · rw [ReadPool.held, hstore]
      exact hall.trans (congrArg (· ++ _) hcontents)
    · rw [ReadPool.buffer, hnone] at hstore
      cases hstore

/-- `handleRead` up to `onData`. -/
theorem Inv.handleRead (h : p.Inv D Ok) (hadmits : p.loop.Admits (.net env))
    (hreads : p.loop.reads = some i)
    (hfed : Ok (p.loop.slot i).handler (p.pool.held i ++ bytesRead env.reads) ∧
      (p.pool.held i ++ bytesRead env.reads).length < 2 ^ 31)
    (hstep : p.handleRead i env = some q) : q.Inv D Ok := by
  obtain ⟨e, rest, hat, -, hstatus, -⟩ := SocketLoop.reads_eq_some hreads
  obtain ⟨hserves, hread⟩ := h.hasRead hadmits hreads hfed.2 hstep
  have hidle : p.loop.pc.serves ≠ some i := by
    rw [hat.pc]
    exact fun hi => by cases hi
  -- what the connection has read now says what was shown, and what the buffer says
  have hdrained : (q.drained D i).Agrees
      (((D (q.loop.slot i).handler).drain (q.pool.held i)).prepend (q.shown i)) := by
    rw [drained, hread.handler, hread.received, hread.shown, hread.held]
    exact (h.shows i hstatus).append hidle (bytesRead env.reads)
  refine h.served hserves (fun _ => hread.status) (fun _ => ⟨?_, fun hi => ?_⟩)
    (fun j k hj => ?_)
  · rw [hdrained.1]
    exact List.prefix_append _ _
  · rcases hread.pc with ⟨k, hk⟩ | ⟨closeType, k, hk⟩ <;> rw [hk] at hi <;> exact absurd rfl hi
  · rcases hread.pc with ⟨k', hk⟩ | ⟨closeType, k', hk⟩
    · rw [hk] at hj
      injection hj with hji
      refine ⟨hji.symm, hread.status, hread.readBuffer, ?_, hdrained⟩
      rw [hread.handler, hread.held]
      exact hfed.1
    · rw [hk] at hj
      cases hj

/-! ### Handling the data -/

/-- The handler of the slot has been shown more packets and left the bytes, and the thread goes
on, or closes the slot when the bytes are rejected. -/
structure HasShown (p q : PooledLoop) (i : Nat) (r : Drained UInt8 (List UInt8)) : Prop where
  status : (q.loop.slot i).status = .connected
  handler : (q.loop.slot i).handler = (p.loop.slot i).handler
  received : q.received i = p.received i
  shown : q.shown i = p.shown i ++ r.packets
  held : q.pool.held i = r.rest
  pc : r.rejected = false ∧ (∃ k, q.loop.pc = .resume k) ∨ ∃ k, q.loop.pc = .closing i .self k

/-- What `onData` leaves: it has shown what the bytes of the buffer say. -/
theorem Inv.hasShown (h : p.Inv D Ok) (hparses : ∀ k, Parses (parser k) (D k) (Ok k))
    (hadmits : p.loop.Admits (.net env)) {k : Resume} (hpc : p.loop.pc = .onData i k)
    (hstep : p.onData parser i env = some q) :
    Serves p q i ∧ HasShown p q i ((D (p.loop.slot i).handler).drain (p.pool.held i)) := by
  obtain ⟨hstatus, hbuffer, hok, -⟩ := h.pending i k hpc
  obtain ⟨node, hnode⟩ := Option.ne_none_iff_exists'.mp hbuffer
  have hheld := ReadPool.held_of_node hnode
  rw [hheld] at hok ⊢
  rw [PooledLoop.onData, hnode, Option.bind_some] at hstep
  dsimp only at hstep
  obtain ⟨hpackets, hresult, hrest, hlast⟩ := onDataWith_refines (hparses _)
    (fun _ h => IoBuffer.ReadBuffer.wf h) (fun _ _ h hk => h.readN hk)
    (h.owned.readBuffer i node hnode) hok (Nat.lt_succ_self _)
  generalize onDataWith (parser (p.loop.slot i).handler) _ (p.pool.pool.object node) = r
    at hstep hpackets hresult hrest hlast
  obtain ⟨l, hl, rfl⟩ := Option.map_eq_some_iff.mp hstep
  have hsound : l.Sound := h.sound.step
    (a := .net { env with handled := (some r.buffer, decide (r.result ≠ some false)) })
    ⟨hadmits.reserve, hadmits.connect⟩ hl
  obtain ⟨hslot, hresume⟩ := SocketLoop.netStep_of_onData hpc hstatus hl
  obtain ⟨hstored, hsame, hstore⟩ := h.owned.store hnode hlast
  have hself : l.slot i = { p.loop.slot i with readBuffer := some r.buffer } := by
    rw [hslot, update_self]
  constructor
  · refine ⟨hsound, hstored, hsame, fun j hj => ?_, fun j hj hjs => ?_, fun j hj => ?_, ?_⟩
    · show l.slot j = _
      rw [hslot, update_of_ne hj]
    · exact ⟨received_goTo hjs l, (update_of_ne hj ..).trans (shown_goTo hjs l)⟩
    · rw [hpc]
      exact fun hi => hj (Option.some.inj hi).symm
    · show (l.slot i).readBuffer = _
      rw [hself, hstore]
  · refine ⟨(congrArg Socket.status hself).trans hstatus, (congrArg Socket.handler hself).trans rfl,
      received_goTo hstatus l,
      (update_self ..).trans (congrArg₂ (· ++ ·) (shown_goTo hstatus l) hpackets), ?_, ?_⟩
    · rw [ReadPool.held, hstore]
      exact hrest
    · rcases hresume with ⟨hhandled, hk⟩ | ⟨-, hk⟩
      · have hnot := of_decide_eq_true hhandled
        rw [hresult] at hnot
        exact .inl ⟨by simpa using hnot, k, hk⟩
      · exact .inr ⟨k, hk⟩

/-- `onData`. -/
theorem Inv.onData (h : p.Inv D Ok) (hparses : ∀ k, Parses (parser k) (D k) (Ok k))
    (hadmits : p.loop.Admits (.net env)) {k : Resume} (hpc : p.loop.pc = .onData i k)
    (hstep : p.onData parser i env = some q) : q.Inv D Ok := by
  obtain ⟨-, -, -, hagrees⟩ := h.pending i k hpc
  obtain ⟨hserves, hshown⟩ := h.hasShown hparses hadmits hpc hstep
  have hdrained : q.drained D i = p.drained D i := by
    rw [drained, drained, hshown.handler, hshown.received]
  rw [← hdrained] at hagrees
  obtain ⟨hmore, hrejected, hleft⟩ := hagrees
  rw [Drained.prepend_packets, ← hshown.shown] at hmore
  refine h.served hserves (fun _ => hshown.status) (fun _ => ⟨?_, fun hi => ?_⟩)
    (fun j k' hj => ?_)
  · exact hmore ▸ List.prefix_refl (q.shown i)
  · -- the loop goes on with the slot open, so the bytes were not rejected
    rcases hshown.pc with ⟨hkept, -⟩ | ⟨k', hk⟩
    · rw [Drained.prepend_rejected, hkept] at hrejected
      rw [Drained.prepend_rest, ← hshown.held] at hleft
      rw [← hleft hrejected, ← hmore, ← hrejected]
    · rw [hk] at hi
      exact absurd rfl hi
  · rcases hshown.pc with ⟨-, k'', hk⟩ | ⟨k'', hk⟩ <;> rw [hk] at hj <;> cases hj

/-! ### Closing, and the step -/

/-- The end of `forceClose`. -/
theorem Inv.closing (h : p.Inv D Ok) (hsound : l.Sound)
    {closeType : CloseType} {k : Resume} (hpc : p.loop.pc = .closing i closeType k)
    (hstep : p.loop.netStep env = some l) :
    Inv D Ok { p.goTo l with pool := p.pool.release i } := by
  obtain ⟨howned, hsame, hnone⟩ := h.owned.release i
  obtain ⟨hslot, hresume⟩ := SocketLoop.netStep_of_closing hpc hstep
  have hself : l.slot i = { p.loop.slot i with
      fd := none, status := .idle, readBuffer := none, writeBuffer := [] } := by
    rw [hslot, update_self]
  have hidle : (l.slot i).status ≠ .connected := by
    rw [hself]
    exact SocketStatus.noConfusion
  refine h.served ⟨hsound, howned, hsame, fun j hj => ?_, fun j hj hjs => ?_, fun j hj => ?_, ?_⟩
    (fun hsome => absurd hnone hsome) (fun hi => absurd hi hidle) (fun j k' hj => ?_)
  · show l.slot j = _
    rw [hslot, update_of_ne hj]
  · exact ⟨received_goTo hjs l, shown_goTo hjs l⟩
  · rw [hpc]
    exact fun hi => hj (Option.some.inj hi).symm
  · show (l.slot i).readBuffer = _
    rw [hself, ReadPool.buffer, hnone]
    rfl
  · have hj : l.pc = .onData j k' := hj
    rw [hresume] at hj
    cases hj

/-- A step of the loop's thread. -/
theorem Inv.netStep (h : p.Inv D Ok) (hparses : ∀ k, Parses (parser k) (D k) (Ok k))
    (hempty : ∀ k, (D k).decode [] = .less) (hfed : p.Fed Ok (.net env))
    (hstep : p.netStep parser env = some q) : q.Inv D Ok := by
  obtain ⟨hadmits, hread⟩ := hfed
  unfold PooledLoop.netStep at hstep
  split at hstep
  case h_1 hpc => exact h.onData hparses hadmits hpc hstep
  case h_2 hpc =>
    obtain ⟨l, hl, rfl⟩ := Option.map_eq_some_iff.mp hstep
    exact h.closing (h.sound.step hadmits hl) hpc hl
  case h_3 hdata hclosing =>
    have hserves : p.loop.pc.serves = none := by
      cases hpc : p.loop.pc with
      | onData i k => exact absurd hpc (hdata i k)
      | closing i closeType k => exact absurd hpc (hclosing i closeType k)
      | _ => rfl
    split at hstep
    case h_1 i hreads => exact h.handleRead hadmits hreads (hread i hreads) hstep
    case h_2 hreads =>
      obtain ⟨l, hl, rfl⟩ := Option.map_eq_some_iff.mp hstep
      exact h.unread hempty (h.sound.step hadmits hl)
        ((SocketLoop.netStep_cases hl).unread h.sound hadmits hreads hserves)

/-- A step of a caller. -/
theorem Inv.caller (h : p.Inv D Ok) (hempty : ∀ k, (D k).decode [] = .less)
    {a : SocketLoop.Action} (hcaller : ∀ env, a ≠ .net env) (hadmits : p.loop.Admits a)
    (hstep : (p.loop.step a).map p.goTo = some q) : q.Inv D Ok := by
  obtain ⟨l, hl, rfl⟩ := Option.map_eq_some_iff.mp hstep
  exact h.unread hempty (h.sound.step hadmits hl)
    ((SocketLoop.step_cases hl).unread h.sound hcaller)

theorem Inv.step (h : p.Inv D Ok) (hparses : ∀ k, Parses (parser k) (D k) (Ok k))
    (hempty : ∀ k, (D k).decode [] = .less) {a : SocketLoop.Action} (hfed : p.Fed Ok a)
    (hstep : p.step parser a = some q) : q.Inv D Ok := by
  cases a with
  | net env => exact h.netStep hparses hempty hfed hstep
  | _ => exact h.caller hempty (fun env ha => by cases ha) hfed.1 hstep

theorem inv_new (maxSocket efd : Nat) : (new maxSocket efd).Inv D Ok := by
  have hslot : ∀ i, ((new maxSocket efd).loop.slot i).status ≠ .connected ∧
      ((new maxSocket efd).loop.slot i).readBuffer = none := by
    intro i
    by_cases hi : i = 0
    · simp [hi, new, SocketLoop.new]
    · simp [new, SocketLoop.new, update_of_ne hi]
  exact ⟨SocketLoop.sound_new maxSocket efd, ReadPool.owned_new, fun i => (hslot i).2,
    fun _ hi => absurd rfl hi, fun i hi => absurd hi (hslot i).1, fun i k hi => by cases hi⟩

/-! ## Runs -/

/-- The loop takes a step of its own. -/
theorem loop_step {a : SocketLoop.Action} (hadmits : p.loop.Admits a)
    (hstep : p.step parser a = some q) :
    ∃ a', p.loop.Admits a' ∧ p.loop.step a' = some q.loop := by
  have hnet : ∀ {env' : SocketLoop.Env} {f : SocketLoop → PooledLoop}, (∀ l, (f l).loop = l) →
      p.loop.Admits (.net env') → (p.loop.netStep env').map f = some q →
      ∃ a', p.loop.Admits a' ∧ p.loop.step a' = some q.loop := by
    intro env' f hf hadmits hmap
    obtain ⟨l, hl, rfl⟩ := Option.map_eq_some_iff.mp hmap
    exact ⟨.net env', hadmits, hl.trans (congrArg some (hf l).symm)⟩
  cases a with
  | net env =>
    have hother : ∀ pooled handled,
        p.loop.Admits (.net { env with pooled := pooled, handled := handled }) :=
      fun _ _ => ⟨hadmits.reserve, hadmits.connect⟩
    change p.netStep parser env = some q at hstep
    unfold PooledLoop.netStep at hstep
    split at hstep
    · obtain ⟨node, -, hmap⟩ := Option.bind_eq_some_iff.mp hstep
      exact hnet (fun _ => rfl) (hother _ _) hmap
    · exact hnet (fun _ => rfl) hadmits hstep
    · split at hstep
      · obtain ⟨⟨node, pool⟩, -, hmap⟩ := Option.bind_eq_some_iff.mp hstep
        exact hnet (fun _ => rfl) (hother _ _) hmap
      · exact hnet (fun _ => rfl) hadmits hstep
  | _ =>
    simp only [PooledLoop.step, Option.map_eq_some_iff] at hstep
    obtain ⟨l, hl, rfl⟩ := hstep
    exact ⟨_, hadmits, hl⟩

/-- **Read buffers are private.**  In every run that pulls no slot away and reads what is well
formed the loop alone goes through a run of its own with the buffers of the pool; no two slots
have one buffer, and a free buffer is empty; and what the handler of a connection has been
shown is what the bytes say that this connection has read, with the rest in its buffer, up to
the data at hand. -/
theorem read_buffers_private (parser : Option Nat → IoBuffer → Packet)
    (D : Option Nat → StableDecoder UInt8 (List UInt8)) (Ok : Option Nat → List UInt8 → Prop)
    (hparses : ∀ k, Parses (parser k) (D k) (Ok k)) (hempty : ∀ k, (D k).decode [] = .less)
    (maxSocket efd : Nat) (p : PooledLoop)
    (h : Runs (step parser) (Fed Ok) (new maxSocket efd) p) :
    Runs SocketLoop.step SocketLoop.Admits (.new maxSocket efd) p.loop ∧
    (∀ i, (p.loop.slot i).readBuffer = p.pool.buffer i) ∧
    (∀ i j node, p.pool.readBuffer i = some node → p.pool.readBuffer j = some node → i = j) ∧
    (∀ node ∈ p.pool.pool.freeNode, (p.pool.pool.object node).contents = [] ∧
      ∀ i, p.pool.readBuffer i ≠ some node) ∧
    ∀ i, (p.loop.slot i).status = .connected →
      p.shown i <+: ((D (p.loop.slot i).handler).drain (p.received i)).packets ∧
      (p.loop.pc.serves ≠ some i → (D (p.loop.slot i).handler).drain (p.received i) =
        ⟨p.shown i, false, p.pool.held i⟩) := by
  have hinv : p.Inv D Ok :=
    h.invariant (fun _ _ _ hp hfed hstep => hp.step hparses hempty hfed hstep)
      (inv_new maxSocket efd)
  have hloop : Runs SocketLoop.step SocketLoop.Admits (.new maxSocket efd) p.loop :=
    h.project loop fun _ _ _ hfed hstep => .inr (loop_step hfed.1 hstep)
  obtain ⟨hone, hfree⟩ := hinv.owned.apart
  exact ⟨hloop, hinv.mirror, hone, hfree,
    fun i hi => ⟨(hinv.shows i hi).shown, (hinv.shows i hi).exact⟩⟩

instance (l : SocketLoop) (i : Nat) : Decidable (l.Unreserved i) :=
  match h : l.call (l.occupant i) with
  | some (.reserved op) => .isFalse fun hfree => hfree op h
  | some (.published _) => .isTrue fun _ hop => by rw [h] at hop; cases hop
  | none => .isTrue fun _ hop => by rw [h] at hop; cases hop

instance (l : SocketLoop) (a : SocketLoop.Action) : Decidable (l.Admits a) :=
  decidable_of_iff ((∀ i ∈ l.picks a, l.pc.fails ≠ some i) ∧ ∀ i ∈ l.connects a,
    (l.slot i).fd = none ∧ (l.slot i).id = i ∧ l.Unreserved i)
    ⟨fun h => ⟨h.1, h.2⟩, fun h => ⟨h.reserve, h.connect⟩⟩

instance (p : PooledLoop) : (a : SocketLoop.Action) → Decidable (Fed (fun _ => HeadersOk) p a)
  | .net _ => inferInstanceAs (Decidable (_ ∧ ∀ i ∈ _, _))
  | .reserve _ | .publish _ | .push _ | .send .. | .close .. | .terminate =>
      inferInstanceAs (Decidable (_ ∧ True))

instance (l : SocketLoop) (i : Nat) : Decidable (l.Unreserved i) :=
  match h : l.call (l.occupant i) with
  | some (.reserved op) => .isFalse fun hfree => hfree op h
  | some (.published _) => .isTrue fun _ hop => by rw [h] at hop; cases hop
  | none => .isTrue fun _ hop => by rw [h] at hop; cases hop

instance (l : SocketLoop) (a : SocketLoop.Action) : Decidable (l.Admits a) :=
  decidable_of_iff ((∀ i ∈ l.picks a, l.pc.fails ≠ some i) ∧ ∀ i ∈ l.connects a,
    (l.slot i).fd = none ∧ (l.slot i).id = i ∧ l.Unreserved i)
    ⟨fun h => ⟨h.1, h.2⟩, fun h => ⟨h.reserve, h.connect⟩⟩

instance (p : PooledLoop) : (a : SocketLoop.Action) → Decidable (Fed (fun _ => HeadersOk) p a)
  | .net _ => inferInstanceAs (Decidable (_ ∧ ∀ i ∈ _, _))
  | .reserve _ | .publish _ | .push _ | .send .. | .close .. | .terminate =>
      inferInstanceAs (Decidable (_ ∧ True))

/-- Two connections read in turn, and one is closed in the middle of a frame. -/
theorem read_buffers_private_two : ∃ p : PooledLoop, p.shown 3 = [[66]] ∧
    Runs SocketLoop.step SocketLoop.Admits (.new 4 3) p.loop ∧
    p.shown 3 <+: (PacketProtocolLen.lenDecoder.drain (p.received 3)).packets := by
  have hrun : ∃ p, Runs (step fun _ => PacketProtocolLen.decode) (Fed fun _ => HeadersOk)
      (new 4 3) p ∧
      decide ((p.loop.slot 3).status = .connected ∧ p.shown 3 = [[66]]) = true :=
    exists_runs_of_schedule _
      [.reserve (.listen 5 4), .publish ⟨1, 1⟩, .push ⟨1, 1⟩,
        .net { ready := [(3, true, false)] }, .net {}, .net {}, .net {}, .net {}, .net {}, .net {},
        .net { ready := [(4, true, false)] }, .net {}, .net { accept := .accepted 5 }, .net {},
        .net { accept := .accepted 6 }, .net {}, .net {}, .net {}, .net {},
        .net { ready := [(5, true, false), (6, true, false)] },
        .net { reads := [.data 0 [0, 0, 5, 65, 0, 0]] }, .net {},
        .net { reads := [.data 0 [0, 0]] }, .net {}, .net {}, .net {},
        .net { ready := [(5, true, false), (6, true, false)] }, .net { reads := [.eof] },
        .net {}, .net { reads := [.data 5 [66]] }, .net {}] _ (by decide +kernel)
  obtain ⟨p, hrun, hp⟩ := hrun
  obtain ⟨hstatus, hshown⟩ := of_decide_eq_true hp
  obtain ⟨hloop, -, -, -, hall⟩ := read_buffers_private (fun _ => PacketProtocolLen.decode)
    (fun _ => PacketProtocolLen.lenDecoder) (fun _ => HeadersOk)
    (fun _ => PacketProtocolLen.parses) (fun _ => rfl) 4 3 p hrun
  exact ⟨p, hshown, hloop, (hall 3 hstatus).1⟩

end PooledLoop

end StormNet.Net
