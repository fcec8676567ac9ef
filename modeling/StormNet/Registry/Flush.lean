/-
  Registry/Flush.lean --- `flushNewServiceToDB` and `flushUpdateServiceToDB` of
  `storm_registry/ServiceManager.cpp`, statement by statement.

  Both swap their queue out under its lock, unlock, and run one statement for each endpoint
  inside one `try`; the first exception leaves the loop.  The net thread queues endpoints at
  any point behind the unlock: those queued while a statement is under way are given beside
  the place of the statement.
-/
import StormNet.Registry.ServiceManager

set_option autoImplicit false

namespace StormNet.Registry

open StormNet.Util (Str)

/-- A flush under way. -/
structure Flush where
  rows : List Row
  /-- `m_newServices` or `m_updateServices` -/
  queue : List EndPoint
  /-- the endpoints whose statement has succeeded -/
  done : List EndPoint

namespace Flush

open ServiceManager (written)

/-- `addNewService` and `addUpdateService`, from the other thread. -/
def add (f : Flush) (eps : List EndPoint) : Flush := { f with queue := f.queue ++ eps }

/-- A statement that succeeds. -/
def write (statement : List Row → EndPoint → List Row) (f : Flush) (ep : EndPoint) : Flush :=
  { f with rows := statement f.rows ep, done := f.done ++ [ep] }

/-- The loop over the endpoints swapped out.  With `statements` of `some n` the statement
behind the next `n` raises an exception; `queued i` is queued while statement `i` is under
way, or behind the last one. -/
def loop (statement : List Row → EndPoint → List Row) :
    Option Nat → (Nat → List EndPoint) → List EndPoint → Flush → Flush
  | _, queued, [], f => f.add (queued 0)
  | some 0, queued, _ :: _, f => f.add (queued 0)
  | some (n + 1), queued, ep :: eps, f =>
      loop statement (some n) (fun i => queued (i + 1)) eps ((f.add (queued 0)).write statement ep)
  | none, queued, ep :: eps, f =>
      loop statement none (fun i => queued (i + 1)) eps ((f.add (queued 0)).write statement ep)

variable {statement : List Row → EndPoint → List Row} {statements : Option Nat}
  {queued : Nat → List EndPoint} {eps : List EndPoint}

/-- What is queued from the swap to the end of the loop. -/
def meanwhile (statements : Option Nat) (queued : Nat → List EndPoint) (eps : List EndPoint) :
    List EndPoint :=
  (List.range ((written statements eps).length + 1)).flatMap queued

/-- The endpoints from the statement that raises on. -/
def unwritten : Option Nat → List EndPoint → List EndPoint
  | none, _ => []
  | some n, eps => eps.drop n

theorem meanwhile_cons (ep : EndPoint) {rest : Option Nat}
    (h : written statements (ep :: eps) = ep :: written rest eps) :
    meanwhile statements queued (ep :: eps) =
      queued 0 ++ meanwhile rest (fun i => queued (i + 1)) eps := by
  rw [meanwhile, h, List.length_cons, List.range_succ_eq_map, List.flatMap_cons,
    List.flatMap_map, meanwhile]

/-- What a loop leaves behind. -/
theorem loop_eq (statement : List Row → EndPoint → List Row) (statements : Option Nat)
    (queued : Nat → List EndPoint) (eps : List EndPoint) (f : Flush) :
    loop statement statements queued eps f =
      { rows := (written statements eps).foldl statement f.rows
        queue := f.queue ++ meanwhile statements queued eps
        done := f.done ++ written statements eps } := by
  induction eps generalizing statements queued f with
  | nil =>
    cases statements <;> simp [loop, add, written, meanwhile]
  | cons ep eps ih =>
    cases statements with
    | none =>
      have hwritten : written none (ep :: eps) = ep :: written none eps := rfl
      rw [loop, ih, meanwhile_cons ep hwritten, hwritten]
      simp [add, write]
    | some n =>
      cases n with
      | zero => simp [loop, add, written, meanwhile]
      | succ n =>
        have hwritten : written (some (n + 1)) (ep :: eps) = ep :: written (some n) eps := rfl
        rw [loop, ih, meanwhile_cons ep hwritten, hwritten]
        simp [add, write]

theorem written_append_unwritten (statements : Option Nat) (eps : List EndPoint) :
    written statements eps ++ unwritten statements eps = eps := by
  cases statements with
  | none => exact List.append_nil eps
  | some n => exact List.take_append_drop n eps

/-- Of what has been swapped out, only what no statement has written can be lost. -/
theorem forall_mem_iff_unwritten {β : Type} (statements : Option Nat) {eps : List EndPoint}
    (label : EndPoint → β) (kept : List β)
    (h : ∀ ep ∈ written statements eps, label ep ∈ kept) :
    (∀ ep ∈ eps, label ep ∈ kept) ↔ ∀ ep ∈ unwritten statements eps, label ep ∈ kept := by
  conv_lhs => rw [← written_append_unwritten statements eps]
  rw [List.forall_mem_append, and_iff_right h]

end Flush

namespace Store

open ServiceManager (written)
open Flush (loop meanwhile unwritten)

/-- The row that an insert adds. -/
def insertRow (columnDefault : Option UInt32) (rows : List Row) (ep : EndPoint) : List Row :=
  rows ++ [insertedRow columnDefault ep]

/-- `flushNewServiceToDB`, with what is queued meanwhile. -/
def newFlush (columnDefault : Option UInt32) (s : Store) (statements : Option Nat)
    (queued : Nat → List EndPoint) : Flush :=
  loop (insertRow columnDefault) statements queued s.manager.newServices ⟨s.rows, [], []⟩

/-- `flushUpdateServiceToDB`, with what is queued meanwhile. -/
def updateFlush (s : Store) (statements : Option Nat) (queued : Nat → List EndPoint) : Flush :=
  loop updateRows statements queued s.manager.updateServices ⟨s.rows, [], []⟩

variable {s : Store} {statements : Option Nat} {queued : Nat → List EndPoint}

theorem foldl_insertRow (columnDefault : Option UInt32) (eps : List EndPoint) (rows : List Row) :
    eps.foldl (insertRow columnDefault) rows = rows ++ eps.map (insertedRow columnDefault) := by
  induction eps generalizing rows with
  | nil => simp
  | cons ep eps ih => rw [List.foldl_cons, ih, insertRow, List.append_assoc]; rfl

@[simp] theorem meanwhile_nothing (statements : Option Nat) (eps : List EndPoint) :
    meanwhile statements (fun _ => []) eps = [] := by
  simp [meanwhile]

/-- With nothing queued meanwhile a flush is one step. -/
theorem flushNewServiceToDB_eq (columnDefault : Option UInt32) (s : Store)
    (statements : Option Nat) :
    s.flushNewServiceToDB columnDefault statements =
      { manager := { s.manager with
          newServices := (s.newFlush columnDefault statements (fun _ => [])).queue }
        rows := (s.newFlush columnDefault statements (fun _ => [])).rows } := by
  rw [newFlush, Flush.loop_eq, foldl_insertRow, meanwhile_nothing]
  rfl

theorem flushUpdateServiceToDB_eq (s : Store) (statements : Option Nat) :
    s.flushUpdateServiceToDB statements =
      { manager := { s.manager with
          updateServices := (s.updateFlush statements (fun _ => [])).queue }
        rows := (s.updateFlush statements (fun _ => [])).rows } := by
  rw [updateFlush, Flush.loop_eq, meanwhile_nothing]
  rfl

/-! ## What a flush keeps -/

/-- The address and the time that an update writes. -/
def beatOf (ep : EndPoint) : Str × UInt32 × UInt32 := (ep.ip, ep.port, ep.heartBeatTime)

/-- Each endpoint swapped out of `m_newServices` has a row or is queued. -/
def KeepsNew (s : Store) (f : Flush) : Prop :=
  ∀ ep ∈ s.manager.newServices, ep.toId ∈ f.rows.map (·.toId) ++ f.queue.map (·.toId)

/-- Each endpoint swapped out of `m_updateServices` has been written or is queued. -/
def KeepsUpdates (s : Store) (f : Flush) : Prop :=
  ∀ ep ∈ s.manager.updateServices, beatOf ep ∈ f.done.map beatOf ++ f.queue.map beatOf

/-- An endpoint without a row from the failing insert on stands in front of it as well, or is
queued again meanwhile. -/
def RepeatsNew (s : Store) (statements : Option Nat) (queued : Nat → List EndPoint) : Prop :=
  ∀ ep ∈ unwritten statements s.manager.newServices,
    ep.toId ∈ s.rows.map (·.toId) ∨
      ep.toId ∈ (written statements s.manager.newServices).map (·.toId) ∨
      ep.toId ∈ (meanwhile statements queued s.manager.newServices).map (·.toId)

/-- An endpoint from the failing update on stands in front of it with the same time, or is
queued again with it meanwhile. -/
def RepeatsUpdates (s : Store) (statements : Option Nat) (queued : Nat → List EndPoint) : Prop :=
  ∀ ep ∈ unwritten statements s.manager.updateServices,
    beatOf ep ∈ (written statements s.manager.updateServices).map beatOf ∨
      beatOf ep ∈ (meanwhile statements queued s.manager.updateServices).map beatOf

/-- The ids in the table and in the queue behind a flush. -/
theorem mem_newFlush {columnDefault : Option UInt32} {i : Id} :
    i ∈ (s.newFlush columnDefault statements queued).rows.map (·.toId) ++
        (s.newFlush columnDefault statements queued).queue.map (·.toId) ↔
      i ∈ s.rows.map (·.toId) ∨
        i ∈ (written statements s.manager.newServices).map (·.toId) ∨
        i ∈ (meanwhile statements queued s.manager.newServices).map (·.toId) := by
  rw [newFlush, Flush.loop_eq, foldl_insertRow]
  simp only [List.nil_append, List.map_append, List.map_map, List.mem_append, or_assoc]
  rfl

theorem mem_updateFlush {b : Str × UInt32 × UInt32} :
    b ∈ (s.updateFlush statements queued).done.map beatOf ++
        (s.updateFlush statements queued).queue.map beatOf ↔
      b ∈ (written statements s.manager.updateServices).map beatOf ∨
        b ∈ (meanwhile statements queued s.manager.updateServices).map beatOf := by
  rw [updateFlush, Flush.loop_eq, List.nil_append, List.nil_append, List.mem_append]

theorem keepsNew_iff (columnDefault : Option UInt32) (s : Store) (statements : Option Nat)
    (queued : Nat → List EndPoint) : s.KeepsNew (s.newFlush columnDefault statements queued) ↔
      s.RepeatsNew statements queued := by
  rw [KeepsNew, Flush.forall_mem_iff_unwritten statements (fun ep => ep.toId)]
  · simp only [mem_newFlush]
    rfl
  · intro ep hep
    exact mem_newFlush.mpr (Or.inr (Or.inl (List.mem_map_of_mem hep)))

theorem keepsUpdates_iff (s : Store) (statements : Option Nat) (queued : Nat → List EndPoint) :
    s.KeepsUpdates (s.updateFlush statements queued) ↔ s.RepeatsUpdates statements queued := by
  rw [KeepsUpdates, Flush.forall_mem_iff_unwritten statements beatOf]
  · simp only [mem_updateFlush]
    rfl
  · intro ep hep
    exact mem_updateFlush.mpr (Or.inl (List.mem_map_of_mem hep))

/-- **A flush keeps what was queued if and only if what it has not written is a repeat**,
whatever statement fails and whatever is queued meanwhile. -/
theorem queued_kept_iff (columnDefault : Option UInt32) (s : Store) (statements : Option Nat)
    (queued : Nat → List EndPoint) :
    (s.KeepsNew (s.newFlush columnDefault statements queued) ↔
        s.RepeatsNew statements queued) ∧
      (s.KeepsUpdates (s.updateFlush statements queued) ↔
        s.RepeatsUpdates statements queued) :=
  ⟨keepsNew_iff columnDefault s statements queued, keepsUpdates_iff s statements queued⟩

/-- An endpoint with a heartbeat at 7. -/
def beatenAt (ip : String) : EndPoint :=
  ⟨⟨⟨"a".toList, "b".toList, "c".toList, []⟩, ip.toList, 80⟩, 7, true⟩

/-- Two new endpoints wait for their rows and two of the table for their times. -/
def twoQueued : Store where
  manager :=
    { (start [] 0 0).manager with
      newServices := [beatenAt "10.0.0.1", beatenAt "10.0.0.2"]
      updateServices := [beatenAt "10.0.0.3", beatenAt "10.0.0.4"] }
  rows := [⟨(beatenAt "10.0.0.3").toId, some 1⟩, ⟨(beatenAt "10.0.0.4").toId, some 1⟩]

/-- The second statement of a flush raises an exception. -/
theorem dropped_by_second_statement :
    ¬ twoQueued.KeepsNew (twoQueued.newFlush none (some 1) (fun _ => [])) ∧
      ¬ twoQueued.KeepsUpdates (twoQueued.updateFlush (some 1) (fun _ => [])) := by
  unfold KeepsNew KeepsUpdates
  decide

end Store

end StormNet.Registry
