/-
  Net/Ownership.lean --- who owns the buffers of the Send commands.

  The loop's buffers are values; here they get their addresses.  `Owned` runs the loop
  beside a record of where each buffer put into a Send command is: in `m_queue` or in the
  hands of `sendSocket`, in the `writeBuffer` of a slot, or deleted.  The record follows
  the `push_back`s and `delete`s of `sendSocket`, `handleWrite` and `forceClose`; no step
  of the loop looks at it.

  `sendSocket` returns without its buffer when the id names no connected slot: this buffer
  is in nobody's hands.  Every other way through keeps the ledger.
-/
import StormNet.Foundation.Ledger
import StormNet.Foundation.Transition
import StormNet.Net.LoopStep

set_option autoImplicit false

namespace StormNet.Net

open StormNet.Foundation
open Function (update update_self update_of_ne)

/-- The address of a buffer. -/
abbrev Ptr := Nat

/-! ## The source, with addresses -/

/-- The loop of `handleWrite` over `writeBuffer`: what is left, and the buffers deleted. -/
def drainLoop : List WriteResult → List (Ptr × IoBuffer) → List (Ptr × IoBuffer) × List Ptr
  | _, [] => ([], [])
  | results, (p, buffer) :: queue =>
      if buffer.getSize = 0 then ((p, buffer) :: queue, [])
      else
        match results with
        | [] => ((p, buffer) :: queue, [])
        | .again :: _ => ((p, buffer) :: queue, [])
        | .intr :: rest => drainLoop rest ((p, buffer) :: queue)
        | .error :: _ => ((p, buffer) :: queue, [])
        | .room n :: rest =>
            let sendSize := min (n + 1) buffer.getSize
            let buffer' := buffer.readN sendSize
            if buffer'.getSize = 0 then
              let (left, deleted) := drainLoop rest queue
              (left, p :: deleted)
            else drainLoop rest ((p, buffer') :: queue)

/-- What `sendSocket` does with the buffer of its command. -/
inductive Fate where
  /-- it returns -/
  | forgotten
  /-- `push_back` -/
  | queued
  /-- `delete` -/
  | deleted
  /-- `delete` behind `forceClose` -/
  | closed
  deriving DecidableEq, Repr

/-- `sendSocket`, behind the lookup of the slot `s`. -/
def fate (s : Socket) (buffer : IoBuffer) (results : List WriteResult) : Fate :=
  if s.status ≠ .connected then .forgotten
  else if s.writeBuffer ≠ [] then .queued
  else
    match (sendLoop results buffer).2.2 with
    | .drained => .deleted
    | .blocked => .queued
    | .close => .closed

/-- Without the addresses the loop is the one of `handleWrite`. -/
theorem drainLoop_buffers (results : List WriteResult) (queue : List (Ptr × IoBuffer)) :
    (drainLoop results queue).1.map Prod.snd = (writeLoop results (queue.map Prod.snd)).1 := by
  induction results generalizing queue with
  | nil =>
    cases queue with
    | nil => rfl
    | cons pb queue =>
      rw [drainLoop, List.map_cons, writeLoop]
      split <;> rfl
  | cons r rest ih =>
    cases queue with
    | nil => cases r <;> rfl
    | cons pb queue =>
      rw [List.map_cons]
      unfold drainLoop writeLoop
      split
      · rfl
      · cases r with
        | again => rfl
        | intr => exact ih (pb :: queue)
        | error => rfl
        | room n =>
          dsimp only
          split
          · exact ih queue
          · exact ih ((pb.1, _) :: queue)

/-- Every buffer is left or deleted. -/
theorem drainLoop_ptrs (results : List WriteResult) (queue : List (Ptr × IoBuffer)) :
    (drainLoop results queue).2 ++ (drainLoop results queue).1.map Prod.fst =
      queue.map Prod.fst := by
  induction results generalizing queue with
  | nil =>
    cases queue with
    | nil => rfl
    | cons pb queue =>
      rw [drainLoop]
      split <;> rfl
  | cons r rest ih =>
    cases queue with
    | nil => cases r <;> rfl
    | cons pb queue =>
      unfold drainLoop
      split
      · rfl
      · cases r with
        | again => rfl
        | intr => exact ih (pb :: queue)
        | error => rfl
        | room n =>
          dsimp only
          split
          · exact congrArg (pb.1 :: ·) (ih queue)
          · exact ih ((pb.1, _) :: queue)

/-- A queue grows by the buffer if it is pushed, and `forceClose` follows if it says so. -/
theorem sendSocket_fate (s : Socket) (poll : SocketPoller) (buffer : IoBuffer)
    (results : List WriteResult) :
    (sendSocket s poll buffer results).socket.writeBuffer.length =
      s.writeBuffer.length + (if fate s buffer results = .queued then 1 else 0) ∧
    ((sendSocket s poll buffer results).needClose = true ↔ fate s buffer results = .closed) := by
  unfold sendSocket fate
  split
  · simp
  · split
    · simp
    · generalize sendLoop results buffer = r
      obtain ⟨left, written, ending⟩ := r
      cases ending <;> simp

/-- The command carries a buffer. -/
def SocketCmd.carries (cmd : SocketCmd) : Bool :=
  match cmd.type with
  | .send _ => true
  | _ => false

namespace SocketLoop

/-- The slot that `runOnce` is about to call `handleWrite` for. -/
def writes (l : SocketLoop) : Option Nat :=
  match l.pc, l.event with
  | .resume (.write i _), _ => some i
  | .resume .event, e :: _ =>
      if (l.slot e.ud).type = .normal ∧ (l.slot e.ud).status ≠ .connecting ∧
        e.read = false ∧ e.write = true then some e.ud else none
  | _, _ => none

/-- The id of the Send command that the step handles. -/
def sends (l : SocketLoop) : Action → Option Int
  | .net _ =>
      match l.pc with
      | .running ⟨.send _, id, _⟩ => some id
      | _ => none
  | _ => none

/-- The id of the Send command names a connected slot. -/
def Delivers (l : SocketLoop) (a : Action) : Prop :=
  ∀ id ∈ l.sends a, ∃ i ∈ l.getSocket id, (l.slot i).status = .connected

instance (l : SocketLoop) (a : Action) : Decidable (l.Delivers a) :=
  inferInstanceAs (Decidable (∀ id ∈ l.sends a, ∃ i ∈ l.getSocket id, _))

/-! ### What the steps do to the queues -/

section Queues

variable {l l' : SocketLoop} {env : Env} {i : Nat}

theorem handleWrite_writeBuffer (s : Socket) (poll : SocketPoller)
    (results : List WriteResult) : (Net.handleWrite s poll results).socket.writeBuffer =
      if s.status ≠ .connected then s.writeBuffer
      else (writeLoop results s.writeBuffer).1 := by
  unfold Net.handleWrite
  split
  · rfl
  · generalize writeLoop results s.writeBuffer = r
    obtain ⟨left, written, ending⟩ := r
    cases ending <;> rfl

theorem writeReply_slot (l : SocketLoop) (i : Nat) (reply : WriteReply)
    (targets : List (Option Conn)) (k : Resume) :
    (l.writeReply i reply targets k).slot = update l.slot i reply.socket := by
  dsimp only [writeReply]
  split
  · rw [forceClose_slot]
  · rfl

/-- A reply ends in `forceClose`, or goes on. -/
theorem writeReply_pc {reply : WriteReply} {targets : List (Option Conn)} {k : Resume}
    {P : Prop} [Decidable P] (hstatus : reply.socket.status = .connected)
    (hneed : reply.needClose = true ↔ P) : (l.writeReply i reply targets k).pc =
      if P then .closing i .peer k else .resume k := by
  dsimp only [writeReply]
  by_cases hP : P
  · rw [if_pos (hneed.mpr hP), if_pos hP, forceClose, if_pos]
    apply inUse_of_connected
    simpa only [update_self] using hstatus
  · rw [if_neg (mt hneed.mp hP), if_neg hP]

/-- The step calls `handleWrite` where `writes` says so. -/
theorem slot_of_writes (h : l.netStep env = some l') (hwrites : l.writes = some i) :
    l'.slot = update l.slot i (Net.handleWrite (l.slot i) l.poll env.writes).socket := by
  unfold writes at hwrites
  split at hwrites
  · rename_i j target hpc
    obtain rfl := Option.some.inj hwrites
    simp only [netStep, hpc, Option.some.injEq] at h
    rw [← h, handleWrite, writeReply_slot]
    split <;> rfl
  · rename_i e rest hpc hevent
    split at hwrites
    · rename_i hcond
      obtain ⟨htype, hstatus, hread, hwrite⟩ := hcond
      obtain rfl := Option.some.inj hwrites
      simp only [netStep, hpc, hevent, handleEvent, htype, if_neg hstatus, hread, hwrite,
        Bool.false_eq_true, if_false, if_true, Option.some.injEq] at h
      rw [← h, handleWrite, writeReply_slot]
      split <;> rfl
    · cases hwrites
  · cases hwrites

theorem writes_eq {rest : List SocketEvent} (h : l.Writes i rest) : l.writes = some i := by
  rcases h with ⟨e, hat, rfl, hstatus, hread, hwrite⟩ | ⟨target, hpc, -⟩
  · simp [writes, hat.pc, hat.event, hat.type, hstatus, hread, hwrite]
  · simp [writes, hpc]

/-- Elsewhere the queues stay. -/
theorem NetStep.writeBuffer_eq (h : NetStep l env l') (hwrites : l.writes = none)
    (hsends : l.sends (.net env) = none) (hcloses : l.pc.closes = none) (i : Nat) :
    (l'.slot i).writeBuffer = (l.slot i).writeBuffer := by
  cases h with
  | wrote j rest applied backlog hw hneed | writeClosed j rest applied backlog hw hneed =>
    rw [writes_eq hw] at hwrites
    cases hwrites
  | sent id target buffer j applied backlog hpc => simp [sends, hpc] at hsends
  | sendClosed id target buffer j applied backlog hpc => simp [sends, hpc] at hsends
  | cleared j closeType k hpc =>
    rw [hpc] at hcloses
    cases hcloses
  | connected | read | connectDone | connectInProgress | accepted | dataOver | idled =>
    apply field_update Socket.writeBuffer
    rfl
  | readClosed | dataClosed =>
    rw [closeFd_slot]
    apply field_update Socket.writeBuffer
    rfl
  | refused | closed | sweepClosed => rw [closeFd_slot]
  | _ => rfl

/-- A Send command for a slot. -/
theorem slot_of_sends {buffer : IoBuffer} {id : Int} {target : Option Conn}
    (h : l.netStep env = some l') (hpc : l.pc = .running ⟨.send buffer, id, target⟩)
    (hi : l.getSocket id = some i) :
    l'.slot = update l.slot i
      (Net.sendSocket (l.slot i) l.poll buffer env.writes).socket ∧
    l'.pc = if fate (l.slot i) buffer env.writes = .closed then .closing i .peer .command
      else .resume .command := by
  simp only [netStep, hpc, handleOneCmd, sendSocket, hi, Option.some.injEq] at h
  split at h
  · rename_i hstatus
    simp [← h, Net.sendSocket, fate, hstatus]
  · rename_i hstatus
    rw [← h, writeReply_slot]
    refine ⟨rfl, writeReply_pc ?_ (sendSocket_fate _ _ _ _).2⟩
    rw [(follows_sendSocket _ _ _ _).socket]
    exact not_not.mp hstatus

end Queues

end SocketLoop

/-! ## The record -/

/-- A loop with its outgoing buffers. -/
structure Owned where
  loop : SocketLoop
  /-- the buffers put into commands so far -/
  next : Ptr
  /-- the buffers of `m_queue`, for the Send commands in it -/
  queue : List (Option Ptr)
  /-- `buffer` in `sendSocket` -/
  hand : Option Ptr
  /-- the `writeBuffer`s -/
  held : Nat → List Ptr
  /-- the buffers deleted -/
  released : List Ptr
  /-- the buffers that nobody will delete -/
  forgotten : List Ptr

/-- Where a buffer can be. -/
inductive Place where
  /-- a queued Send command, or the one at hand -/
  | command
  /-- the `writeBuffer` of a slot -/
  | socket (i : Nat)
  | released
  | forgotten
  deriving DecidableEq, Repr

namespace Owned

open SocketLoop

/-- The buffers in a place. -/
def places (w : Owned) : Place → List Ptr
  | .command => w.hand.toList ++ w.queue.filterMap id
  | .socket i => w.held i
  | .released => w.released
  | .forgotten => w.forgotten

/-- `handleWrite` on the slot `i`. -/
def handleWrite (w : Owned) (i : Nat) (env : Env) : Owned :=
  if (w.loop.slot i).status ≠ .connected then w
  else
    let (left, deleted) := drainLoop env.writes ((w.held i).zip (w.loop.slot i).writeBuffer)
    { w with held := update w.held i (left.map Prod.fst), released := deleted ++ w.released }

/-- The buffer at hand is left behind. -/
def forget (w : Owned) : Owned :=
  { w with hand := none, forgotten := w.hand.toList ++ w.forgotten }

/-- `delete buffer`. -/
def delete (w : Owned) : Owned :=
  { w with hand := none, released := w.hand.toList ++ w.released }

/-- `s->writeBuffer.push_back(buffer)`. -/
def pushBack (w : Owned) (i : Nat) : Owned :=
  { w with hand := none, held := update w.held i (w.held i ++ w.hand.toList) }

/-- `sendSocket`, up to a `forceClose`. -/
def sendSocket (w : Owned) (id : Int) (buffer : IoBuffer) (env : Env) : Owned :=
  match w.loop.getSocket id with
  | none => w.forget
  | some i =>
      match fate (w.loop.slot i) buffer env.writes with
      | .forgotten => w.forget
      | .queued => w.pushBack i
      | .deleted => w.delete
      | .closed => w

/-- `forceClose` behind the callback, and the `delete` of `sendSocket` behind it. -/
def clear (w : Owned) (i : Nat) : Owned :=
  delete { w with held := update w.held i [], released := w.held i ++ w.released }

/-- `pop_front` in `handleCmd`. -/
def popFront (w : Owned) : Owned :=
  match w.queue with
  | [] => w
  | p :: rest => { w with queue := rest, hand := p }

/-- What the step of the loop does with the buffers. -/
def handled (w : Owned) : Action → Owned
  | .send _ _ _ => { w with next := w.next + 1, queue := w.queue ++ [some w.next] }
  | .push _ | .close _ _ _ | .terminate => { w with queue := w.queue ++ [none] }
  | .net env =>
      match w.loop.pc with
      | .running ⟨.send buffer, id, _⟩ => w.sendSocket id buffer env
      | .closing i _ _ => w.clear i
      | .resume .command => w.popFront
      | _ => w.loop.writes.elim w (w.handleWrite · env)
  | _ => w

def step (w : Owned) (a : Action) : Option Owned :=
  (w.loop.step a).map (fun l' => { w.handled a with loop := l' })

/-- Behind the constructor. -/
def new (maxSocket efd : Nat) : Owned :=
  ⟨SocketLoop.new maxSocket efd, 0, [], none, fun _ => [], [], []⟩

/-- The buffers issued are each in one place, and the record follows the loop. -/
structure Inv (w : Owned) : Prop where
  conserved : Conserved w.places (· < w.next)
  /-- a command carries a buffer if it is a Send command -/
  queue : w.queue.map Option.isSome = w.loop.queue.map SocketCmd.carries
  held : ∀ i, (w.held i).length = (w.loop.slot i).writeBuffer.length
  running : ∀ buffer id target, w.loop.pc = .running ⟨.send buffer, id, target⟩ →
    w.hand.isSome
  hand : w.hand.isSome →
    (∃ buffer id target, w.loop.pc = .running ⟨.send buffer, id, target⟩) ∨
    ∃ i, w.loop.pc = .closing i .peer .command

section Inv

variable {w w' : Owned} {l l' : SocketLoop} {a : Action} {env : Env} {i : Nat}

theorem inv_new (maxSocket efd : Nat) : (new maxSocket efd).Inv where
  conserved := by
    apply Conserved.empty
    · intro p
      cases p <;> rfl
    · exact Nat.not_lt_zero
  queue := rfl
  held := by
    intro i
    by_cases hi : i = 0
    · subst hi
      simp [new, SocketLoop.new]
    · simp [new, SocketLoop.new, update_of_ne hi]
  running := by
    intro buffer id target hpc
    cases hpc
  hand := by
    intro h
    cases h

/-! ### What the loop's thread does to the record -/

theorem Inv.hand_eq_none (h : w.Inv) (hsends : w.loop.sends (.net env) = none)
    (hcloses : w.loop.pc.closes = none) : w.hand = none := by
  rw [← Option.not_isSome_iff_eq_none]
  intro hsome
  rcases h.hand hsome with ⟨buffer, id, target, hpc⟩ | ⟨i, hpc⟩
  · simp [sends, hpc] at hsends
  · simp [hpc, Pc.closes] at hcloses

/-- Between two commands `sendSocket` has nothing at hand. -/
theorem inv_of_idle (hconserved : Conserved w.places (· < w.next))
    (hqueue : w.queue.map Option.isSome = w.loop.queue.map SocketCmd.carries)
    (hheld : ∀ i, (w.held i).length = (w.loop.slot i).writeBuffer.length)
    (hruns : w.loop.pc.runs = none) (hhand : w.hand = none) : w.Inv := by
  refine ⟨hconserved, hqueue, hheld, ?_, ?_⟩
  · intro buffer id target hpc
    rw [hpc] at hruns
    cases hruns
  · intro hsome
    rw [hhand] at hsome
    cases hsome

/-- A step that no buffer takes part in. -/
theorem Inv.quiet (h : w.Inv) (hnet : NetStep w.loop env l') (hwrites : w.loop.writes = none)
    (hsends : w.loop.sends (.net env) = none) (hcloses : w.loop.pc.closes = none)
    (hcommand : w.loop.pc ≠ .resume .command) : Inv { w with loop := l' } := by
  rcases hnet.queue_cases with ⟨hqueue, hruns⟩ | ⟨cmd, hpc, -⟩
  · apply inv_of_idle
    · exact h.conserved
    · simpa only [hqueue] using h.queue
    · intro i
      simpa only [hnet.writeBuffer_eq hwrites hsends hcloses] using h.held i
    · exact hruns
    · exact h.hand_eq_none hsends hcloses
  · exact absurd hpc hcommand

/-- `handleWrite` moves the buffers it has written out to the deleted ones. -/
theorem Inv.conserved_handleWrite (h : w.Inv) (i : Nat) (env : Env) :
    Conserved (w.handleWrite i env).places (· < w.next) ∧
    ∀ j, ((w.handleWrite i env).held j).length = (update w.loop.slot i
      (Net.handleWrite (w.loop.slot i) w.loop.poll env.writes).socket j).writeBuffer.length := by
  have hself := handleWrite_writeBuffer (w.loop.slot i) w.loop.poll env.writes
  unfold Owned.handleWrite
  by_cases hstatus : (w.loop.slot i).status ≠ .connected
  · rw [if_pos hstatus] at hself ⊢
    refine ⟨h.conserved, ?_⟩
    intro j
    rw [field_update Socket.writeBuffer hself]
    exact h.held j
  · rw [if_neg hstatus] at hself ⊢
    have hbuffers := drainLoop_buffers env.writes
      ((w.held i).zip (w.loop.slot i).writeBuffer)
    have hptrs := drainLoop_ptrs env.writes ((w.held i).zip (w.loop.slot i).writeBuffer)
    rw [List.map_snd_zip (Nat.le_of_eq (h.held i).symm)] at hbuffers
    rw [List.map_fst_zip (Nat.le_of_eq (h.held i))] at hptrs
    revert hbuffers hptrs
    generalize drainLoop env.writes ((w.held i).zip (w.loop.slot i).writeBuffer) = r
    obtain ⟨left, deleted⟩ := r
    intro hbuffers hptrs
    refine ⟨?_, ?_⟩
    · refine h.conserved.move (p := .socket i) (q := .released) Place.noConfusion ?_
        (.refl (deleted ++ w.released)) ?_
      · simp only [places, update_self, hptrs, List.Perm.refl]
      · intro r hr hr'
        cases r with
        | socket j =>
          have hji : j ≠ i := fun hji => hr (congrArg Place.socket hji)
          simp only [places, update_of_ne hji]
        | released => exact absurd rfl hr'
        | _ => rfl
    · intro j
      by_cases hji : j = i
      · subst hji
        simp only [update_self, hself, ← hbuffers, List.length_map]
      · simp only [update_of_ne hji]
        exact h.held j

theorem Inv.handleWrite (h : w.Inv) (hl : w.loop.netStep env = some l')
    (hwrites : w.loop.writes = some i) (hsends : w.loop.sends (.net env) = none)
    (hcloses : w.loop.pc.closes = none) (hcommand : w.loop.pc ≠ .resume .command) :
    Inv { w.handleWrite i env with loop := l' } := by
  obtain ⟨hconserved, hheld⟩ := h.conserved_handleWrite i env
  have hrest : (w.handleWrite i env).next = w.next ∧ (w.handleWrite i env).queue = w.queue ∧
      (w.handleWrite i env).hand = w.hand := by
    unfold Owned.handleWrite
    split
    · exact ⟨rfl, rfl, rfl⟩
    · exact ⟨rfl, rfl, rfl⟩
  obtain ⟨hnext, hqueue', hhand⟩ := hrest
  rcases (netStep_cases hl).queue_cases with ⟨hqueue, hruns⟩ | ⟨cmd, hpc, -⟩
  · apply inv_of_idle
    · simp only [hnext]
      exact hconserved
    · simpa only [hqueue, hqueue'] using h.queue
    · simpa only [slot_of_writes hl hwrites] using hheld
    · exact hruns
    · exact hhand.trans (h.hand_eq_none hsends hcloses)
  · exact absurd hpc hcommand

section HandOver

theorem Inv.conserved_forget (h : w.Inv) : Conserved w.forget.places (· < w.next) := by
  refine h.conserved.move (p := .command) (q := .forgotten) Place.noConfusion (.refl _)
    (.refl _) ?_
  intro r hr hr'
  cases r <;> first | rfl | contradiction

theorem conserved_delete (h : Conserved w.places (· < w.next)) :
    Conserved w.delete.places (· < w.next) := by
  refine h.move (p := .command) (q := .released) Place.noConfusion (.refl _) (.refl _) ?_
  intro r hr hr'
  cases r <;> first | rfl | contradiction

theorem Inv.conserved_pushBack (h : w.Inv) (i : Nat) :
    Conserved (w.pushBack i).places (· < w.next) := by
  refine h.conserved.move (p := .command) (q := .socket i) Place.noConfusion (.refl _) ?_ ?_
  · simp only [places, pushBack, update_self]
    exact List.perm_append_comm
  · intro r hr hr'
    cases r with
    | command => exact absurd rfl hr
    | socket j =>
      have hji : j ≠ i := fun hji => hr' (congrArg Place.socket hji)
      simp only [places, pushBack, update_of_ne hji]
    | _ => rfl

theorem Inv.conserved_clear (h : w.Inv) (i : Nat) :
    Conserved (w.clear i).places (· < w.next) := by
  apply conserved_delete
  refine h.conserved.move (p := .socket i) (q := .released) Place.noConfusion ?_ (.refl _) ?_
  · simp only [places, update_self, List.append_nil, List.Perm.refl]
  · intro r hr hr'
    cases r with
    | socket j =>
      have hji : j ≠ i := fun hji => hr (congrArg Place.socket hji)
      simp only [places, update_of_ne hji]
    | released => exact absurd rfl hr'
    | _ => rfl

end HandOver

/-- `sendSocket` disposes of the buffer at hand. -/
theorem Inv.sendSocket (h : w.Inv) {buffer : IoBuffer} {id : Int} {target : Option Conn}
    (hl : w.loop.netStep env = some l')
    (hpc : w.loop.pc = .running ⟨.send buffer, id, target⟩) :
    Inv { w.sendSocket id buffer env with loop := l' } := by
  have hqueue : w.queue.map Option.isSome = l'.queue.map SocketCmd.carries := by
    rcases (netStep_cases hl).queue_cases with ⟨hqueue, -⟩ | ⟨cmd, hpc', -⟩
    · rw [hqueue]
      exact h.queue
    · rw [hpc] at hpc'
      cases hpc'
  unfold Owned.sendSocket
  cases hi : w.loop.getSocket id with
  | none =>
    simp only [SocketLoop.netStep, hpc, handleOneCmd, SocketLoop.sendSocket, hi,
      Option.some.injEq] at hl
    apply inv_of_idle
    · exact h.conserved_forget
    · exact hqueue
    · rw [← hl]
      exact h.held
    · rw [← hl]
      rfl
    · rfl
  | some i =>
    obtain ⟨hslot, hpc'⟩ := slot_of_sends hl hpc hi
    have hlength := (sendSocket_fate (w.loop.slot i) w.loop.poll buffer env.writes).1
    have hheld : fate (w.loop.slot i) buffer env.writes ≠ .queued → ∀ j,
        (w.held j).length = (l'.slot j).writeBuffer.length := by
      intro hfate j
      rw [if_neg hfate, Nat.add_zero] at hlength
      rw [hslot]
      exact (h.held j).trans (field_update (fun s => s.writeBuffer.length) hlength j).symm
    dsimp only
    cases hfate : fate (w.loop.slot i) buffer env.writes with
    | forgotten =>
      apply inv_of_idle
      · exact h.conserved_forget
      · exact hqueue
      · exact hheld (by simp [hfate])
      · simp only [hpc', hfate, Pc.runs, reduceCtorEq, if_false]
      · rfl
    | deleted =>
      apply inv_of_idle
      · have hdelete := conserved_delete h.conserved
        exact hdelete
      · exact hqueue
      · exact hheld (by simp [hfate])
      · simp only [hpc', hfate, Pc.runs, reduceCtorEq, if_false]
      · rfl
    | queued =>
      apply inv_of_idle
      · exact h.conserved_pushBack i
      · exact hqueue
      · intro j
        have hone : w.hand.toList.length = 1 := by
          rw [Option.length_toList, if_pos (h.running buffer id target hpc)]
        simp only [pushBack, hslot]
        by_cases hji : j = i
        · rw [if_pos hfate] at hlength
          rw [hji, update_self, update_self, hlength, List.length_append, h.held i, hone]
        · rw [update_of_ne hji, update_of_ne hji]
          exact h.held j
      · simp only [hpc', hfate, Pc.runs, reduceCtorEq, if_false]
      · rfl
    | closed =>
      refine { h with queue := hqueue, held := hheld (by simp [hfate]), running := ?_, hand := ?_ }
      · intro buffer' id' target' heq
        simp [hpc', hfate] at heq
      · intro _
        exact .inr ⟨i, by simp only [hpc', hfate, if_true]⟩

/-- `forceClose` deletes what the slot holds, and `sendSocket` its own buffer behind it. -/
theorem Inv.clear (h : w.Inv) {closeType : CloseType} {k : Resume}
    (hpc : w.loop.pc = .closing i closeType k) (hl : w.loop.netStep env = some l') :
    Inv { w.clear i with loop := l' } := by
  simp only [SocketLoop.netStep, hpc, Option.some.injEq] at hl
  rw [← hl]
  apply inv_of_idle
  · exact h.conserved_clear i
  · exact h.queue
  · intro j
    by_cases hji : j = i
    · simp only [hji, Owned.clear, delete, SocketLoop.clear, update_self, List.length_nil]
    · simp only [Owned.clear, delete, SocketLoop.clear, update_of_ne hji]
      exact h.held j
  · rfl
  · rfl

/-- A command comes to hand with its buffer. -/
theorem Inv.popFront (h : w.Inv) (hpc : w.loop.pc = .resume .command)
    (hl : w.loop.netStep env = some l') : Inv { w.popFront with loop := l' } := by
  have hsends : w.loop.sends (.net env) = none := by simp only [sends, hpc]
  have hhand : w.hand = none := h.hand_eq_none hsends (by simp only [hpc, Pc.closes])
  have hqueue := h.queue
  simp only [SocketLoop.netStep, hpc] at hl
  cases hloop : w.loop.queue with
  | nil =>
    rw [hloop, List.map_nil, List.map_eq_nil_iff] at hqueue
    simp only [hloop, Option.some.injEq] at hl
    have hpop : w.popFront = w := by
      unfold Owned.popFront
      rw [hqueue]
    rw [hpop, ← hl]
    apply inv_of_idle
    · exact h.conserved
    · simp only [hqueue, List.map_nil]
    · exact h.held
    · rfl
    · exact hhand
  | cons cmd rest =>
    rw [hloop, List.map_cons, List.map_eq_cons_iff] at hqueue
    obtain ⟨p, ps, hps, hp, hrest⟩ := hqueue
    simp only [hloop, Option.some.injEq] at hl
    have hpop : w.popFront = { w with queue := ps, hand := p } := by
      unfold Owned.popFront
      rw [hps]
    rw [hpop, ← hl]
    refine ⟨?_, hrest, h.held, ?_, ?_⟩
    · apply h.conserved.reorder
      intro r
      cases r with
      | command => cases p <;> simp [places, hhand, hps]
      | _ => exact .refl _
    · intro buffer id target heq
      obtain rfl := Pc.running.inj heq
      exact hp
    · intro hsome
      left
      obtain ⟨type, id, target⟩ := cmd
      cases type with
      | send buffer => exact ⟨buffer, id, target, rfl⟩
      | _ =>
        have hsome : p.isSome = true := hsome
        rw [hp] at hsome
        cases hsome

/-- The loop's thread keeps the record. -/
theorem Inv.net (h : w.Inv) (hl : w.loop.netStep env = some l') :
    Inv { w.handled (.net env) with loop := l' } := by
  have hplain : w.loop.sends (.net env) = none → w.loop.pc.closes = none →
      w.loop.pc ≠ .resume .command →
      Inv { w.loop.writes.elim w (w.handleWrite · env) with loop := l' } := by
    intro hsends hcloses hcommand
    cases hwrites : w.loop.writes with
    | none => exact h.quiet (netStep_cases hl) hwrites hsends hcloses hcommand
    | some i => exact h.handleWrite hl hwrites hsends hcloses hcommand
  unfold handled
  cases hpc : w.loop.pc with
  | running cmd =>
    obtain ⟨type, id, target⟩ := cmd
    cases type with
    | send buffer => exact h.sendSocket hl hpc
    | _ => exact hplain (by simp [sends, hpc]) (by simp [hpc, Pc.closes]) (by simp [hpc])
  | closing i closeType k => exact h.clear hpc hl
  | resume k =>
    cases k with
    | command => exact h.popFront hpc hl
    | _ => exact hplain (by simp [sends, hpc]) (by simp [hpc, Pc.closes]) (by simp [hpc])
  | _ => exact hplain (by simp [sends, hpc]) (by simp [hpc, Pc.closes]) (by simp [hpc])

/-- `send` puts a new buffer into a command. -/
theorem Inv.send (h : w.Inv) {cmd : SocketCmd} (hcmd : cmd.carries = true) : Inv { w with
    loop := { w.loop with queue := w.loop.queue ++ [cmd] }
    next := w.next + 1
    queue := w.queue ++ [some w.next] } := by
  refine { h with conserved := ?_, queue := ?_ }
  · apply h.conserved.issue (p := .command) (x := w.next) (Nat.lt_irrefl _)
    · intro y
      exact Nat.lt_succ_iff_lt_or_eq.trans or_comm
    · simp only [places, List.filterMap_append, ← List.append_assoc]
      exact List.perm_append_singleton _ _
    · intro r hr
      cases r <;> first | rfl | contradiction
  · simp only [List.map_append, h.queue, List.map_cons, List.map_nil, hcmd, Option.isSome_some]

/-- Another command carries no buffer. -/
theorem Inv.queued (h : w.Inv) {cmd : SocketCmd} (hcmd : cmd.carries = false)
    {call : Conn → Option Call} : Inv { w with
      loop := { w.loop with call := call, queue := w.loop.queue ++ [cmd] }
      queue := w.queue ++ [none] } := by
  refine { h with conserved := ?_, queue := ?_ }
  · apply h.conserved.reorder
    intro r
    cases r with
    | command => simp [places]
    | _ => exact .refl _
  · simp only [List.map_append, h.queue, List.map_cons, List.map_nil, hcmd, Option.isSome_none]

/-- Every step keeps the record. -/
theorem Inv.step (h : w.Inv) (hstep : w.step a = some w') : w'.Inv := by
  obtain ⟨l', hl, rfl⟩ := Option.map_eq_some_iff.mp hstep
  cases step_cases hl with
  | turned => exact { h with }
  | reserved op i allocId hpicks hidle hhash hfd =>
    refine { h with held := ?_ }
    intro j
    have hkept : (update w.loop.slot i
        { w.loop.slot i with id := i, fd := none, status := .reserse } j).writeBuffer =
        (w.loop.slot j).writeBuffer := field_update Socket.writeBuffer (by rfl) j
    exact (h.held j).trans (congrArg List.length hkept.symm)
  | published c op hc =>
    refine { h with held := ?_ }
    intro j
    have hkept : (update w.loop.slot c.slot (op.fill (w.loop.slot c.slot)) j).writeBuffer =
        (w.loop.slot j).writeBuffer := field_update Socket.writeBuffer (by cases op <;> rfl) j
    exact (h.held j).trans (congrArg List.length hkept.symm)
  | pushed c op hc =>
    apply h.queued
    cases op <;> rfl
  | issued a cmd hcmd =>
    cases a with
    | send id target buffer =>
      cases hcmd
      exact h.send rfl
    | close id target closeType =>
      cases hcmd
      exact h.queued rfl
    | terminate =>
      cases hcmd
      exact h.queued rfl
    | _ => cases hcmd
  | net env l' hnet => exact h.net hl

/-! ### Buffers left behind -/

theorem forgotten_handleWrite (w : Owned) (i : Nat) (env : Env) :
    (w.handleWrite i env).forgotten = w.forgotten := by
  unfold Owned.handleWrite
  split <;> rfl

theorem forgotten_popFront (w : Owned) : w.popFront.forgotten = w.forgotten := by
  unfold Owned.popFront
  split <;> rfl

/-- `sendSocket` returns without its buffer exactly where the id names no connected slot. -/
theorem sendSocket_cases (w : Owned) (id : Int) (buffer : IoBuffer) (env : Env) :
    (∃ i ∈ w.loop.getSocket id, (w.loop.slot i).status = .connected) ∧
      (w.sendSocket id buffer env).forgotten = w.forgotten ∨
    ¬ (∃ i ∈ w.loop.getSocket id, (w.loop.slot i).status = .connected) ∧
      w.sendSocket id buffer env = w.forget := by
  unfold Owned.sendSocket
  cases hi : w.loop.getSocket id with
  | none => exact .inr ⟨by simp, rfl⟩
  | some i =>
    by_cases hstatus : (w.loop.slot i).status = .connected
    · refine .inl ⟨⟨i, rfl, hstatus⟩, ?_⟩
      have hfate : fate (w.loop.slot i) buffer env.writes ≠ .forgotten := by
        unfold fate
        rw [if_neg (not_not.mpr hstatus)]
        split
        · exact Fate.noConfusion
        · split <;> exact Fate.noConfusion
      dsimp only
      split
      · contradiction
      · rfl
      · rfl
      · rfl
    · refine .inr ⟨?_, ?_⟩
      · rintro ⟨j, hj, hconnected⟩
        cases hj
        exact hstatus hconnected
      · simp only [fate, if_pos hstatus]

/-- A step leaves a buffer behind only where it handles a Send command that does not
deliver. -/
theorem handled_cases (w : Owned) (a : Action) :
    (w.loop.Delivers a ∧ (w.handled a).forgotten = w.forgotten) ∨
    (¬ w.loop.Delivers a ∧ w.handled a = w.forget ∧
      ∃ buffer id target, w.loop.pc = .running ⟨.send buffer, id, target⟩) := by
  have hnone : w.loop.sends a = none → (w.handled a).forgotten = w.forgotten →
      w.loop.Delivers a ∧ (w.handled a).forgotten = w.forgotten := by
    intro hsends hforgotten
    refine ⟨?_, hforgotten⟩
    intro id hid
    rw [hsends] at hid
    cases hid
  cases a with
  | net env =>
    have hplain : (w.loop.writes.elim w (w.handleWrite · env)).forgotten = w.forgotten := by
      cases w.loop.writes with
      | none => rfl
      | some i => exact forgotten_handleWrite w i env
    cases hpc : w.loop.pc with
    | running cmd =>
      obtain ⟨type, id, target⟩ := cmd
      cases type with
      | send buffer =>
        have hsends : ∀ P : Int → Prop, (∀ id' ∈ w.loop.sends (.net env), P id') ↔ P id := by
          intro P
          simp [sends, hpc]
        have hhandled : w.handled (.net env) = w.sendSocket id buffer env := by
          simp only [handled, hpc]
        rw [hhandled, Delivers, hsends]
        rcases w.sendSocket_cases id buffer env with hcase | ⟨hnot, hforget⟩
        · exact .inl hcase
        · exact .inr ⟨hnot, hforget, buffer, id, target, rfl⟩
      | _ => exact .inl (hnone (by simp only [sends, hpc]) (by simp only [handled, hpc, hplain]))
    | resume k =>
      refine .inl (hnone (by simp only [sends, hpc]) ?_)
      simp only [handled, hpc]
      cases k with
      | command => exact w.forgotten_popFront
      | _ => exact hplain
    | closing i closeType k =>
      refine .inl (hnone (by simp only [sends, hpc]) ?_)
      simp only [handled, hpc]
      rfl
    | _ => exact .inl (hnone (by simp only [sends, hpc]) (by simp only [handled, hpc, hplain]))
  | _ => exact .inl (hnone rfl rfl)

/-- What is left behind stays behind. -/
theorem Inv.stays (h : w.Inv) {p : Ptr} (hp : p ∈ w.forgotten)
    (hrun : Runs Owned.step (fun _ _ => True) w w') : w'.Inv ∧ p ∈ w'.forgotten := by
  refine hrun.invariant (I := fun x => x.Inv ∧ p ∈ x.forgotten) ?_ ⟨h, hp⟩
  rintro x a y ⟨hx, hpx⟩ - hstep
  refine ⟨hx.step hstep, ?_⟩
  obtain ⟨l', -, rfl⟩ := Option.map_eq_some_iff.mp hstep
  rcases x.handled_cases a with ⟨-, hsame⟩ | ⟨-, hforget, -⟩
  · exact hsame ▸ hpx
  · rw [hforget]
    exact List.mem_append_right _ hpx

/-- A Send command that does not deliver leaves its buffer behind. -/
theorem Inv.leaks (h : w.Inv) (hdelivers : ¬ w.loop.Delivers a) (hstep : w.step a = some w') :
    ∃ p < w'.next, p ∈ w'.forgotten := by
  have hinv := h.step hstep
  obtain ⟨l', -, rfl⟩ := Option.map_eq_some_iff.mp hstep
  rcases w.handled_cases a with ⟨hdel, -⟩ | ⟨-, hforget, buffer, id, target, hpc⟩
  · exact absurd hdel hdelivers
  · obtain ⟨p, hp⟩ := Option.isSome_iff_exists.mp (h.running buffer id target hpc)
    have hmem : p ∈ (w.handled a).forgotten := by
      rw [hforget]
      simp [forget, hp]
    exact ⟨p, (hinv.conserved.placed p).mpr ⟨.forgotten, hmem⟩, hmem⟩

/-- The buffer is in a Send command, in one `writeBuffer`, or deleted. -/
def OneOwner (w : Owned) (p : Ptr) : Prop := ∃! r, r ≠ Place.forgotten ∧ p ∈ w.places r

theorem Inv.not_oneOwner (h : w.Inv) {p : Ptr} (hp : p ∈ w.forgotten) : ¬ w.OneOwner p := by
  rintro ⟨r, ⟨hne, hr⟩, -⟩
  exact hne (h.conserved.apart r .forgotten p hr hp)

theorem Inv.oneOwner (h : w.Inv) (hnil : w.forgotten = []) {p : Ptr} (hp : p < w.next) :
    w.OneOwner p := by
  obtain ⟨r, hr, honly⟩ := h.conserved.existsUnique hp
  refine ⟨r, ⟨?_, hr⟩, fun q hq => honly q hq.2⟩
  rintro rfl
  have hr : p ∈ w.forgotten := hr
  rw [hnil] at hr
  cases hr

end Inv

/-! ## Runs -/

/-- **Every outgoing buffer has one owner and is deleted at most once, as long as every Send
command that is handled names a connected slot**; behind `sendSocket` no buffer is left at
hand.  The buffer of a Send command that does not has no owner ever after. -/
theorem every_buffer_has_one_owner (maxSocket efd : Nat) {w : Owned}
    (h : Runs step (fun w a => w.loop.Delivers a) (new maxSocket efd) w) :
    ((∀ p < w.next, w.OneOwner p) ∧ (∀ r, (w.places r).Nodup) ∧
      (w.hand.isSome →
        (∃ buffer id target, w.loop.pc = .running ⟨.send buffer, id, target⟩) ∨
        ∃ i, w.loop.pc = .closing i .peer .command)) ∧
    ∀ a w', w.step a = some w' → ¬ w.loop.Delivers a →
      ∃ p < w'.next, ∀ w'', Runs step (fun _ _ => True) w' w'' → ¬ w''.OneOwner p := by
  have hinv : w.Inv ∧ w.forgotten = [] := by
    refine h.invariant (I := fun x => x.Inv ∧ x.forgotten = []) ?_ ⟨inv_new maxSocket efd, rfl⟩
    rintro x a y ⟨hx, hnil⟩ hdelivers hstep
    refine ⟨hx.step hstep, ?_⟩
    obtain ⟨l', -, rfl⟩ := Option.map_eq_some_iff.mp hstep
    rcases x.handled_cases a with ⟨-, hsame⟩ | ⟨hnot, -⟩
    · exact hsame.trans hnil
    · exact absurd hdelivers hnot
  obtain ⟨hinv, hnil⟩ := hinv
  refine ⟨⟨?_, hinv.conserved.nodup, hinv.hand⟩, ?_⟩
  · intro p hp
    exact hinv.oneOwner hnil hp
  · intro a w' hstep hdelivers
    obtain ⟨p, hp, hmem⟩ := hinv.leaks hdelivers hstep
    refine ⟨p, hp, ?_⟩
    intro w'' hrun
    obtain ⟨hinv'', hmem''⟩ := (hinv.step hstep).stays hmem hrun
    exact hinv''.not_oneOwner hmem''

/-- The first byte of a buffer is written at once, and the rest waits in the slot. -/
theorem every_buffer_has_one_owner_of_one : ∃ w,
    Runs step (fun w a => w.loop.Delivers a) (new 2 3) w ∧ 0 ∈ w.held 1 ∧ w.OneOwner 0 := by
  have hexec : ∃ w, Runs step (fun w a => w.loop.Delivers a) (new 2 3) w ∧
      decide (0 ∈ w.held 1 ∧ 0 < w.next) = true :=
    exists_runs_of_schedule (new 2 3) [.reserve (.connect 5), .publish ⟨1, 1⟩, .push ⟨1, 1⟩,
      .net { ready := [(3, true, false)] }, .net {}, .net {}, .net { connect := .done 4 },
      .net {}, .send 1 (some ⟨1, 1⟩) (IoBuffer.ofBytes [7, 8]), .net {},
      .net { writes := [.room 0] }] _ (by decide)
  obtain ⟨w, hw, hboth⟩ := hexec
  obtain ⟨hheld, hnext⟩ := of_decide_eq_true hboth
  exact ⟨w, hw, hheld, (every_buffer_has_one_owner 2 3 hw).1.1 0 hnext⟩

/-- The connection is closed when the Send command for it is handled: its buffer has no
owner. -/
theorem reply_to_closed : ∃ w, Runs step (fun _ _ => True) (new 2 3) w ∧
    w.loop.pc = .resume .command ∧ 0 < w.next ∧ ¬ w.OneOwner 0 := by
  have hexec : ∃ w, Runs step (fun _ _ => True) (new 2 3) w ∧
      decide (w.loop.pc = .resume .command ∧ 0 < w.next ∧ 0 ∈ w.forgotten) = true :=
    exists_runs_of_schedule (new 2 3) [.reserve (.connect 5), .publish ⟨1, 1⟩, .push ⟨1, 1⟩,
      .net { ready := [(3, true, false)] }, .net {}, .net {}, .net { connect := .done 4 },
      .net {}, .close 1 (some ⟨1, 1⟩) .self,
      .send 1 (some ⟨1, 1⟩) (IoBuffer.ofBytes [7, 8]), .net {}, .net {}, .net {}, .net {},
      .net {}] _ (by decide)
  obtain ⟨w, hw, hall⟩ := hexec
  obtain ⟨hpc, hnext, hmem⟩ := of_decide_eq_true hall
  have hinv : w.Inv := by
    apply hw.invariant _ (inv_new 2 3)
    intro x a y hx _ hstep
    exact hx.step hstep
  exact ⟨w, hw, hpc, hnext, hinv.not_oneOwner hmem⟩

/-- The record restricts no run. -/
theorem runs_loop_iff {maxSocket efd : Nat} {l : SocketLoop} :
    Runs SocketLoop.step (fun _ _ => True) (SocketLoop.new maxSocket efd) l ↔
      ∃ w, Runs step (fun _ _ => True) (new maxSocket efd) w ∧ w.loop = l := by
  apply Runs.recorded_iff (G := fun _ _ => True) (x := new maxSocket efd) loop
  intro w a
  rw [step, Option.map_map]
  exact Option.map_id'

end Owned

end StormNet.Net
