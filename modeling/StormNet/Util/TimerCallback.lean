/-
  Util/TimerCallback.lean --- `Timer::update` with callbacks that call the timer themselves.

  An update stops inside each callback, where `addTimer` and `delTimer` may be called any
  number of times, and goes on when the callback returns.  A node that is deleted keeps its
  number, so that a later use of it can be told: behind one, the run does not go on.
-/
import StormNet.Foundation.Transition
import StormNet.Util.Timer

set_option autoImplicit false

namespace StormNet.Util

open StormNet.Foundation
open Function (update)

namespace Timer

/-- The pairs that the loop of `delTimer` looks at. -/
def lookedAt (t : Timer) (id : UInt32) : List (UInt64 × Nat) → List (UInt64 × Nat)
  | [] => []
  | e :: rest => if (t.node e.2).id = id then [e] else e :: t.lookedAt id rest

/-- The nodes that `delTimer` reads. -/
def nodesRead (t : Timer) (id : UInt32) : List Nat :=
  match t.search id with
  | none => []
  | some ref =>
      ref :: (t.lookedAt id (t.equalRange (t.node ref).expire)).map (·.2)

/-- The node that `delTimer` deletes. -/
def nodeDeleted (t : Timer) (id : UInt32) : List Nat :=
  if (t.delTimer id).2 then (t.search id).toList else []

/-- `addSecondTimer`: the product is one of 32 bits. -/
def addSecondTimer (t : Timer) (nowMs : UInt64) (sec : UInt32) (repeats : Bool) :
    Timer × UInt32 :=
  t.addTimer nowMs (sec * 1000).toUInt64 repeats

/-- The pairs behind the one at the iterator. -/
def behind (nodes : List (UInt64 × Nat)) (it : UInt64 × Nat) : List (UInt64 × Nat) :=
  (nodes.dropWhile (fun e => e ≠ it)).tail

end Timer

/-- Where the code is: outside `update`, inside the callback of the node at the iterator, or
behind the use of a deleted node. -/
inductive Place where
  | outside
  | callback (ms : UInt64) (it : UInt64 × Nat) (newNodes : List (UInt64 × Nat))
  | undefined
  deriving DecidableEq, Repr

/-- What has happened. -/
inductive TimerEvent where
  /-- a callback has been run, by an update to `ms` -/
  | fired (ms : UInt64) (ref : Nat) (id : UInt32)
  /-- `delTimer` has been called, when `created` nodes had been created; whether the timer was
  still to fire, and what was returned -/
  | deleted (id : UInt32) (created : Nat) (scheduled found : Bool)
  deriving DecidableEq, Repr

/-- A timer, where its code is, the nodes that have been deleted, and what has happened. -/
structure TimerRun where
  timer : Timer
  place : Place
  deleted : List Nat
  trace : List TimerEvent

namespace TimerRun

def start : TimerRun := ⟨.new, .outside, [], []⟩

/-- The nodes that wait to be inserted again. -/
def newNodes (w : TimerRun) : List (UInt64 × Nat) :=
  match w.place with
  | .callback _ _ newNodes => newNodes
  | _ => []

/-- The nodes whose callback is still to be run, by this update or a later one. -/
def pending (w : TimerRun) : List (UInt64 × Nat) :=
  match w.place with
  | .outside => w.timer.nodes
  | .callback _ it newNodes =>
      (if (w.timer.node it.2).repeats then w.timer.nodes else w.timer.nodes.erase it) ++ newNodes
  | .undefined => []

def scheduled (w : TimerRun) (id : UInt32) : Bool :=
  w.pending.any (fun e => (w.timer.node e.2).id = id)

/-- The second loop of `update`. -/
def finish (w : TimerRun) (newNodes : List (UInt64 × Nat)) : TimerRun :=
  { w with
    timer := { w.timer with nodes := newNodes.foldl Timer.insert w.timer.nodes }
    place := .outside }

/-- The test of the first loop of `update`, with the iterator at the front of `rest`, and the
call of the callback. -/
def enter (w : TimerRun) (ms : UInt64) (newNodes : List (UInt64 × Nat)) :
    List (UInt64 × Nat) → TimerRun
  | [] => w.finish newNodes
  | it :: _ =>
      if it.2 ∈ w.deleted then { w with place := .undefined }
      else if ms < (w.timer.node it.2).expire then w.finish newNodes
      else { w with
        place := .callback ms it newNodes
        trace := w.trace ++ [.fired ms it.2 (w.timer.node it.2).id] }

/-- The first loop of `update` behind a callback. -/
def leave (w : TimerRun) (ms : UInt64) (it : UInt64 × Nat) (newNodes : List (UInt64 × Nat)) :
    TimerRun :=
  let s := Timer.fire ms ⟨w.timer, newNodes, []⟩ it.2 (w.timer.nodes.erase it)
  let deleted := if (w.timer.node it.2).repeats then w.deleted else it.2 :: w.deleted
  enter { w with timer := s.timer, deleted := deleted } ms s.newNodes
    (Timer.behind w.timer.nodes it)

inductive Action where
  | addTimer (nowMs ms : UInt64) (repeats : Bool)
  | addSecondTimer (nowMs : UInt64) (sec : UInt32) (repeats : Bool)
  | delTimer (id : UInt32)
  | update (ms : UInt64)
  /-- the callback returns -/
  | back
  deriving DecidableEq, Repr

def step (w : TimerRun) : Action → Option TimerRun
  | .addTimer nowMs ms repeats =>
      if w.place = .undefined then none
      else some { w with timer := (w.timer.addTimer nowMs ms repeats).1 }
  | .addSecondTimer nowMs sec repeats =>
      if w.place = .undefined then none
      else some { w with timer := (w.timer.addSecondTimer nowMs sec repeats).1 }
  | .delTimer id =>
      if w.place = .undefined then none
      else if ∃ ref ∈ w.timer.nodesRead id, ref ∈ w.deleted then
        some { w with place := .undefined }
      else some { w with
        timer := (w.timer.delTimer id).1
        deleted := w.timer.nodeDeleted id ++ w.deleted
        trace := w.trace ++
          [.deleted id w.timer.created (w.scheduled id) (w.timer.delTimer id).2] }
  | .update ms =>
      if w.place = .outside then some (w.enter ms [] w.timer.nodes) else none
  | .back =>
      match w.place with
      | .callback ms it newNodes =>
          if it.2 ∈ w.deleted then some { w with place := .undefined }
          else some (w.leave ms it newNodes)
      | _ => none

/-! ## What a run should do -/

/-- A timer runs its callback behind a call of `delTimer` for it. -/
def Revives : TimerEvent → TimerEvent → Prop
  | .deleted id created _ _, .fired _ ref i => i = id ∧ ref < created
  | _, _ => False

/-- `delTimer` has not found a timer that was still to fire. -/
def Missed : TimerEvent → Prop
  | .deleted _ _ scheduled found => scheduled = true ∧ found = false
  | .fired _ _ _ => False

/-- Every call of `delTimer` has found its timer if that was still to fire. -/
def Answered (trace : List TimerEvent) : Prop := ∀ x ∈ trace, ¬ Missed x

/-- No timer has fired behind a call of `delTimer` for it. -/
def Silent (trace : List TimerEvent) : Prop := trace.Pairwise (fun x y => ¬ Revives x y)

/-- No deleted node has been used, and the calls of `delTimer` have done what they are for. -/
structure Safe (w : TimerRun) : Prop where
  defined : w.place ≠ .undefined
  answered : Answered w.trace
  silent : Silent w.trace

/-- The id that a new timer gets is not in use. -/
def Fresh (w : TimerRun) : Action → Prop
  | .addTimer _ _ _ | .addSecondTimer _ _ _ => w.timer.search w.timer.id = none
  | .delTimer _ | .update _ | .back => True

/-- The node whose callback is running, and those that wait to be inserted again. -/
def busy (w : TimerRun) : List (UInt64 × Nat) :=
  match w.place with
  | .callback _ it newNodes => it :: newNodes
  | _ => []

/-- A callback deletes neither its own timer nor one that waits to be inserted again. -/
def Careful (w : TimerRun) : Action → Prop
  | .delTimer id => ∀ e ∈ w.busy, (w.timer.node e.2).id ≠ id
  | .addTimer _ _ _ | .addSecondTimer _ _ _ | .update _ | .back => True

instance (w : TimerRun) (a : Action) : Decidable (w.Fresh a) :=
  match a with
  | .addTimer _ _ _ | .addSecondTimer _ _ _ =>
      inferInstanceAs (Decidable (w.timer.search w.timer.id = none))
  | .delTimer _ | .update _ | .back => inferInstanceAs (Decidable True)

instance (w : TimerRun) (a : Action) : Decidable (w.Careful a) :=
  match a with
  | .delTimer id => inferInstanceAs (Decidable (∀ e ∈ w.busy, (w.timer.node e.2).id ≠ id))
  | .addTimer _ _ _ | .addSecondTimer _ _ _ | .update _ | .back =>
      inferInstanceAs (Decidable True)

end TimerRun

/-! ## The maps while an update is under way -/

namespace Timer

variable {t : Timer} {l newNodes nodes : List (UInt64 × Nat)} {deleted : List Nat}
  {e : UInt64 × Nat} {id : UInt32} {ref : Nat}

theorem id_update_moved (node : Nat → TimerNode) (moving ref : Nat) (ms : UInt64) :
    (update node moving ((node moving).moved ms) ref).id = (node ref).id := by
  rw [Function.update_apply]
  split
  · rename_i heq
    rw [heq]
    rfl
  · rfl

/-- A node that gets another time. -/
theorem Tied.move (h : t.Tied (e :: l) deleted) (ms : UInt64) :
    Tied { t with nodes := nodes, node := update t.node e.2 ((t.node e.2).moved ms) }
      ((ms + (t.node e.2).duration, e.2) :: l) deleted := by
  constructor
  case search =>
    intro id ref
    show t.search id = some ref ↔ _
    rw [h.search, id_update_moved]
    rfl
  case keyed =>
    intro d hd
    rcases List.mem_cons.mp hd with rfl | hd
    · show _ = (update t.node e.2 ((t.node e.2).moved ms) e.2).expire
      rw [Function.update_self]
      rfl
    · show d.1 = (update t.node e.2 ((t.node e.2).moved ms) d.2).expire
      rw [Function.update_of_ne (h.ne_head d hd)]
      exact h.keyed d (List.mem_cons_of_mem e hd)
  case once => exact h.once
  case created =>
    intro d hd
    rcases List.mem_cons.mp hd with rfl | hd
    · exact h.created e List.mem_cons_self
    · exact h.created d (List.mem_cons_of_mem e hd)
  case alive =>
    intro d hd
    rcases List.mem_cons.mp hd with rfl | hd
    · exact h.alive e List.mem_cons_self
    · exact h.alive d (List.mem_cons_of_mem e hd)

/-! ## `delTimer` in a callback -/

/-- What `delTimer` does while some nodes wait to be inserted: it finds a node of `m_nodes`
only. -/
theorem Tied.delTimer_cases (h : t.Tied (t.nodes ++ newNodes) deleted) (id : UInt32) :
    (∃ e ∈ t.nodes, (t.node e.2).id = id ∧ t.nodeDeleted id = [e.2] ∧
      t.delTimer id =
        ({ t with nodes := t.nodes.erase e, search := update t.search id none }, true)) ∨
    ((∀ e ∈ t.nodes, (t.node e.2).id ≠ id) ∧ t.nodeDeleted id = [] ∧
      t.delTimer id = (t, false)) := by
  by_cases hlisted : ∃ e ∈ t.nodes, (t.node e.2).id = id
  · obtain ⟨e, he, hid⟩ := hlisted
    have hboth : e ∈ t.nodes ++ newNodes := List.mem_append_left _ he
    have hsearch : t.search id = some e.2 := hid ▸ h.search_of_mem hboth
    have honly : ∀ d ∈ t.nodes, (t.node d.2).id = id → d = e :=
      fun d hd hsame => h.same (List.mem_append_left _ hd) hboth (hsame.trans hid.symm)
    have hfind := find?_equalRange he (h.keyed e hboth) hid honly
    have hdel : t.delTimer id =
        ({ t with nodes := t.nodes.erase e, search := update t.search id none }, true) := by
      unfold delTimer
      simp only [hsearch, hfind]
    refine .inl ⟨e, he, hid, ?_, hdel⟩
    rw [nodeDeleted, hdel, if_pos rfl, hsearch]
    rfl
  · have hnot : ∀ e ∈ t.nodes, (t.node e.2).id ≠ id := fun e he hid => hlisted ⟨e, he, hid⟩
    have hdel : t.delTimer id = (t, false) := by
      cases hsearch : t.search id with
      | none => exact delTimer_of_dead hsearch
      | some ref =>
        have hfind : (t.equalRange (t.node ref).expire).find?
            (fun e => (t.node e.2).id = id) = none := by
          rw [List.find?_eq_none]
          intro e he hid
          exact hnot e (List.mem_of_mem_filter he) (of_decide_eq_true hid)
        unfold delTimer
        simp only [hsearch, hfind]
    refine .inr ⟨hnot, ?_, hdel⟩
    rw [nodeDeleted, hdel]
    rfl

theorem mem_of_mem_lookedAt (h : e ∈ t.lookedAt id l) : e ∈ l := by
  induction l with
  | nil => exact h
  | cons d l ih =>
    rw [lookedAt] at h
    split at h
    · rw [List.mem_singleton.mp h]
      exact List.mem_cons_self
    · rcases List.mem_cons.mp h with rfl | hrest
      · exact List.mem_cons_self
      · exact List.mem_cons_of_mem d (ih hrest)

/-- `delTimer` reads no deleted node. -/
theorem Tied.nodesRead (h : t.Tied (t.nodes ++ newNodes) deleted) (id : UInt32) :
    ¬ ∃ ref ∈ t.nodesRead id, ref ∈ deleted := by
  intro hread
  obtain ⟨ref, hmem, hdeleted⟩ := hread
  unfold Timer.nodesRead at hmem
  split at hmem
  · cases hmem
  · rename_i first hsearch
    rcases List.mem_cons.mp hmem with rfl | hlooked
    · obtain ⟨e, he, rfl⟩ := List.mem_map.mp ((h.search id ref).mp hsearch).1
      exact h.alive e he hdeleted
    · obtain ⟨e, he, rfl⟩ := List.mem_map.mp hlooked
      have hnodes : e ∈ t.nodes := List.mem_of_mem_filter (mem_of_mem_lookedAt he)
      exact h.alive e (List.mem_append_left _ hnodes) hdeleted

theorem mem_behind {it : UInt64 × Nat} (h : e ∈ behind nodes it) : e ∈ nodes.erase it := by
  induction nodes with
  | nil => cases h
  | cons d nodes ih =>
    unfold behind at h ih
    by_cases hd : d = it
    · rw [List.dropWhile_cons_of_neg (by simp [hd])] at h
      rw [hd, List.erase_cons_head]
      exact h
    · rw [List.dropWhile_cons_of_pos (by simp [hd])] at h
      rw [List.erase_cons_tail (by simpa using hd)]
      exact List.mem_cons_of_mem d (ih h)

end Timer

/-! ## What every call keeps -/

namespace TimerRun

variable {w v : TimerRun} {newNodes rest : List (UInt64 × Nat)} {it : UInt64 × Nat}
  {ms : UInt64} {id : UInt32}

/-- `newNodes` wait to be inserted; a timer that `delTimer` has been called for is not among
those to fire, if every call has been answered. -/
structure Kept (w : TimerRun) (newNodes : List (UInt64 × Nat)) : Prop where
  tied : w.timer.Tied (w.timer.nodes ++ newNodes) w.deleted
  sorted : w.timer.nodes.Pairwise (fun a b => a.1.toNat ≤ b.1.toNat)
  deleted : ∀ ref ∈ w.deleted, ref < w.timer.created
  counted : ∀ id created scheduled found, .deleted id created scheduled found ∈ w.trace →
    created ≤ w.timer.created
  cancelled : Answered w.trace → ∀ x ∈ w.trace, ∀ e ∈ w.timer.nodes ++ newNodes,
    ∀ ms, ¬ Revives x (.fired ms e.2 (w.timer.node e.2).id)

/-- The node at the iterator is in `m_nodes` unless its callback has deleted it. -/
structure Sound (w : TimerRun) : Prop where
  kept : w.place ≠ .undefined → w.Kept w.newNodes
  running : ∀ ms it newNodes, w.place = .callback ms it newNodes →
    it ∈ w.timer.nodes ∨ it.2 ∈ w.deleted

/-- Safe, and the callback under way has not deleted its own timer. -/
structure Intact (w : TimerRun) : Prop where
  safe : w.Safe
  running : ∀ ms it newNodes, w.place = .callback ms it newNodes → it.2 ∉ w.deleted

theorem answered_append {trace : List TimerEvent} {x : TimerEvent} :
    Answered (trace ++ [x]) ↔ Answered trace ∧ ¬ Missed x := by
  unfold Answered
  rw [List.forall_mem_append, List.forall_mem_singleton]

theorem silent_append {trace : List TimerEvent} {x : TimerEvent} :
    Silent (trace ++ [x]) ↔ Silent trace ∧ ∀ y ∈ trace, ¬ Revives y x := by
  unfold Silent
  rw [List.pairwise_append]
  simp

theorem silent_deleted {trace : List TimerEvent} {created : Nat} {scheduled found : Bool} :
    Silent (trace ++ [.deleted id created scheduled found]) ↔ Silent trace := by
  rw [silent_append]
  refine and_iff_left ?_
  intro x _ hrevives
  cases x with
  | fired _ _ _ => exact hrevives
  | deleted _ _ _ _ => exact hrevives

/-- Where no callback has deleted its own timer, the trace says it all. -/
theorem intact_iff (hdefined : w.place ≠ .undefined)
    (halive : ∀ ms it newNodes, w.place = .callback ms it newNodes → it.2 ∉ w.deleted) :
    w.Intact ↔ Answered w.trace ∧ Silent w.trace := by
  constructor
  · intro h
    exact ⟨h.safe.answered, h.safe.silent⟩
  · intro h
    exact ⟨⟨hdefined, h.1, h.2⟩, halive⟩

theorem defined_of_outside (h : w.place = .outside) : w.place ≠ .undefined := by
  rw [h]
  exact Place.noConfusion

theorem defined_of_callback (h : w.place = .callback ms it newNodes) :
    w.place ≠ .undefined := by
  rw [h]
  exact Place.noConfusion

/-- What a step does. -/
inductive Steps (w : TimerRun) : Action → TimerRun → Prop
  | addTimer (nowMs ms : UInt64) (repeats : Bool) (hplace : w.place ≠ .undefined) :
      Steps w (.addTimer nowMs ms repeats)
        { w with timer := (w.timer.addTimer nowMs ms repeats).1 }
  | addSecondTimer (nowMs : UInt64) (sec : UInt32) (repeats : Bool)
      (hplace : w.place ≠ .undefined) : Steps w (.addSecondTimer nowMs sec repeats)
        { w with timer := (w.timer.addTimer nowMs (sec * 1000).toUInt64 repeats).1 }
  | dangling (id : UInt32) (hplace : w.place ≠ .undefined)
      (hread : ∃ ref ∈ w.timer.nodesRead id, ref ∈ w.deleted) :
      Steps w (.delTimer id) { w with place := .undefined }
  | delTimer (id : UInt32) (hplace : w.place ≠ .undefined) :
      Steps w (.delTimer id) { w with
        timer := (w.timer.delTimer id).1
        deleted := w.timer.nodeDeleted id ++ w.deleted
        trace := w.trace ++
          [.deleted id w.timer.created (w.scheduled id) (w.timer.delTimer id).2] }
  | update (ms : UInt64) (hplace : w.place = .outside) :
      Steps w (.update ms) (w.enter ms [] w.timer.nodes)
  | own (ms : UInt64) (it : UInt64 × Nat) (newNodes : List (UInt64 × Nat))
      (hplace : w.place = .callback ms it newNodes) (hdeleted : it.2 ∈ w.deleted) :
      Steps w .back { w with place := .undefined }
  | back (ms : UInt64) (it : UInt64 × Nat) (newNodes : List (UInt64 × Nat))
      (hplace : w.place = .callback ms it newNodes) (halive : it.2 ∉ w.deleted) :
      Steps w .back (w.leave ms it newNodes)

theorem steps_of_step {a : Action} (h : w.step a = some v) : Steps w a v := by
  cases a with
  | addTimer nowMs ms repeats =>
    rw [step] at h
    split at h
    · cases h
    · rename_i hplace
      cases h
      exact .addTimer nowMs ms repeats hplace
  | addSecondTimer nowMs sec repeats =>
    rw [step] at h
    split at h
    · cases h
    · rename_i hplace
      cases h
      exact .addSecondTimer nowMs sec repeats hplace
  | delTimer id =>
    rw [step] at h
    split at h
    · cases h
    · rename_i hplace
      split at h
      · rename_i hread
        cases h
        exact .dangling id hplace hread
      · cases h
        exact .delTimer id hplace
  | update ms =>
    rw [step] at h
    split at h
    · rename_i hplace
      cases h
      exact .update ms hplace
    · cases h
  | back =>
    rw [step] at h
    split at h
    · rename_i ms it newNodes hplace
      split at h
      · rename_i hdeleted
        cases h
        exact .own ms it newNodes hplace hdeleted
      · rename_i halive
        cases h
        exact .back ms it newNodes hplace halive
    · cases h

/-! ## The sweep -/

theorem Kept.finish (h : w.Kept newNodes) : (w.finish newNodes).Kept [] := by
  have hperm : (w.timer.nodes ++ newNodes).Perm
      ((newNodes.foldl Timer.insert w.timer.nodes) ++ []) := by
    rw [List.append_nil]
    exact (foldl_insertBehind_perm newNodes w.timer.nodes).symm
  have htied := h.tied.perm hperm
  refine ⟨⟨htied.search, htied.keyed, htied.once, htied.created, htied.alive⟩,
    pairwise_foldl_insertBehind h.sorted newNodes, h.deleted, h.counted, ?_⟩
  intro hanswered x hx e he
  exact h.cancelled hanswered x hx e (hperm.mem_iff.mpr he)

/-- The test of the loop, in front of nodes of `m_nodes`. -/
theorem Kept.enter (h : w.Kept newNodes) (hrest : ∀ e ∈ rest, e ∈ w.timer.nodes) (ms : UInt64) :
    (w.enter ms newNodes rest).Sound ∧
      ((w.enter ms newNodes rest).Intact ↔ Answered w.trace ∧ Silent w.trace) := by
  have hfinish : (w.finish newNodes).Sound ∧
      ((w.finish newNodes).Intact ↔ Answered w.trace ∧ Silent w.trace) := by
    exact ⟨⟨fun _ => h.finish, fun _ _ _ hplace => (nomatch hplace)⟩,
      intact_iff Place.noConfusion (fun _ _ _ hplace => (nomatch hplace))⟩
  cases rest with
  | nil => exact hfinish
  | cons it rest =>
    have hit : it ∈ w.timer.nodes := hrest it List.mem_cons_self
    have halive : it.2 ∉ w.deleted := h.tied.alive it (List.mem_append_left _ hit)
    rw [TimerRun.enter, if_neg halive]
    split
    · exact hfinish
    · refine ⟨⟨fun _ => ⟨h.tied, h.sorted, h.deleted, ?_, ?_⟩, ?_⟩, ?_⟩
      · intro id created scheduled found hmem
        rcases List.mem_append.mp hmem with hold | hnew
        · exact h.counted id created scheduled found hold
        · cases List.mem_singleton.mp hnew
      · intro hanswered x hx e he
        rcases List.mem_append.mp hx with hold | hnew
        · exact h.cancelled (answered_append.mp hanswered).1 x hold e he
        · rw [List.mem_singleton.mp hnew]
          exact fun _ hrevives => hrevives
      · intro _ _ _ hplace
        cases hplace
        exact .inl hit
      · have hrunning : ∀ ms' it' waiting, Place.callback ms it newNodes =
            .callback ms' it' waiting → it'.2 ∉ w.deleted := by
          intro _ _ _ hsame
          cases hsame
          exact halive
        refine (intact_iff Place.noConfusion hrunning).trans ?_
        rw [answered_append, silent_append]
        constructor
        · intro hboth
          exact ⟨hboth.1.1, hboth.2.1⟩
        · intro hboth
          refine ⟨⟨hboth.1, fun hmissed => hmissed⟩, hboth.2, ?_⟩
          intro x hx
          exact h.cancelled hboth.1 x hx it (List.mem_append_left _ hit) ms

/-- Behind a callback that has not deleted its own timer. -/
theorem Kept.leave (h : w.Kept newNodes) (hit : it ∈ w.timer.nodes) (ms : UInt64) :
    (w.leave ms it newNodes).Sound ∧
      ((w.leave ms it newNodes).Intact ↔ Answered w.trace ∧ Silent w.trace) := by
  have hfront : (w.timer.nodes ++ newNodes).Perm (it :: (w.timer.nodes.erase it ++ newNodes)) :=
    (List.perm_cons_erase hit).append_right newNodes
  have htied := h.tied.perm hfront
  have hcancelled : ∀ d ∈ it :: (w.timer.nodes.erase it ++ newNodes), Answered w.trace →
      ∀ x ∈ w.trace, ∀ ms, ¬ Revives x (.fired ms d.2 (w.timer.node d.2).id) :=
    fun d hd hanswered x hx => h.cancelled hanswered x hx d (hfront.mem_iff.mpr hd)
  have hcreated := h.tied.created it (List.mem_append_left _ hit)
  have hsorted := h.sorted.sublist (List.erase_sublist : (w.timer.nodes.erase it).Sublist _)
  have hbehind : ∀ e ∈ Timer.behind w.timer.nodes it, e ∈ w.timer.nodes.erase it :=
    fun e he => Timer.mem_behind he
  rw [TimerRun.leave]
  cases hrepeats : (w.timer.node it.2).repeats with
  | true =>
    have hlast : ((ms + (w.timer.node it.2).duration, it.2) ::
        (w.timer.nodes.erase it ++ newNodes)).Perm
        (w.timer.nodes.erase it ++ (newNodes ++ [(ms + (w.timer.node it.2).duration, it.2)])) := by
      rw [← List.append_assoc]
      exact (List.perm_append_singleton _ _).symm
    simp only [Timer.fire, hrepeats, if_true]
    apply Kept.enter _ hbehind
    refine ⟨(htied.move ms).perm hlast, hsorted, h.deleted, h.counted, ?_⟩
    intro hanswered x hx e he ms'
    show ¬ Revives x (.fired ms' e.2
      (update w.timer.node it.2 ((w.timer.node it.2).moved ms) e.2).id)
    rw [Timer.id_update_moved]
    rcases List.mem_cons.mp (hlast.mem_iff.mpr he) with rfl | hmem
    · exact hcancelled it List.mem_cons_self hanswered x hx ms'
    · exact hcancelled e (List.mem_cons_of_mem it hmem) hanswered x hx ms'
  | false =>
    simp only [Timer.fire, hrepeats, Bool.false_eq_true, if_false]
    apply Kept.enter _ hbehind
    refine ⟨htied.drop, hsorted, ?_, h.counted, ?_⟩
    · intro ref hmem
      rcases List.mem_cons.mp hmem with rfl | hold
      · exact hcreated
      · exact h.deleted ref hold
    · intro hanswered x hx e he
      exact hcancelled e (List.mem_cons_of_mem it he) hanswered x hx

/-! ## The calls -/

/-- `addTimer` and `addSecondTimer`. -/
theorem Kept.addTimer (h : w.Kept newNodes) (hfresh : w.timer.search w.timer.id = none)
    (nowMs ms : UInt64) (repeats : Bool) :
    Kept { w with timer := (w.timer.addTimer nowMs ms repeats).1 } newNodes := by
  have hperm : ((nowMs + ms, w.timer.created) :: (w.timer.nodes ++ newNodes)).Perm
      ((w.timer.addTimer nowMs ms repeats).1.nodes ++ newNodes) :=
    (insertBehind_perm w.timer.nodes _).symm.append_right newNodes
  refine ⟨(h.tied.addTimer h.deleted hfresh nowMs ms repeats).perm hperm,
    pairwise_insertBehind h.sorted _, ?_, ?_, ?_⟩
  · exact fun ref hmem => Nat.lt_succ_of_lt (h.deleted ref hmem)
  · intro id created scheduled found hmem
    exact Nat.le_succ_of_le (h.counted id created scheduled found hmem)
  · intro hanswered x hx e he ms'
    rcases List.mem_cons.mp (hperm.mem_iff.mpr he) with rfl | hold
    · -- the new node has not been created when `delTimer` was called
      cases x with
      | fired _ _ _ => exact fun hrevives => hrevives
      | deleted id created scheduled found =>
        intro hrevives
        exact Nat.not_lt.mpr (h.counted id created scheduled found hx) hrevives.2
    · have hne : e.2 ≠ w.timer.created := Nat.ne_of_lt (h.tied.created e hold)
      show ¬ Revives x (.fired ms' e.2 (update w.timer.node w.timer.created
        ⟨w.timer.id, nowMs + ms, ms, repeats⟩ e.2).id)
      rw [Function.update_of_ne hne]
      exact h.cancelled hanswered x hx e hold ms'

theorem Sound.setTimer (h : w.Sound) (hplace : w.place ≠ .undefined)
    (hfresh : w.timer.search w.timer.id = none) (nowMs ms : UInt64) (repeats : Bool) :
    Sound { w with timer := (w.timer.addTimer nowMs ms repeats).1 } := by
  refine ⟨fun _ => (h.kept hplace).addTimer hfresh nowMs ms repeats, ?_⟩
  intro ms' it newNodes hcallback
  rcases h.running ms' it newNodes hcallback with hmem | hdeleted
  · exact .inl (Timer.mem_insert.mpr (.inr hmem))
  · exact .inr hdeleted

/-- A timer is still to fire if it waits in one of the two places. -/
theorem scheduled_of_newNodes {e : UInt64 × Nat} (he : e ∈ w.newNodes)
    (hid : (w.timer.node e.2).id = id) : w.scheduled id = true := by
  refine List.any_eq_true.mpr ⟨e, ?_, decide_eq_true hid⟩
  unfold newNodes at he
  unfold pending
  split at he
  · rename_i hplace
    rw [hplace]
    exact List.mem_append_right _ he
  · cases he

theorem not_scheduled (hnodes : ∀ e ∈ w.timer.nodes, (w.timer.node e.2).id ≠ id)
    (hnew : ∀ e ∈ w.newNodes, (w.timer.node e.2).id ≠ id) : w.scheduled id = false := by
  have hall : ∀ e ∈ w.pending, (w.timer.node e.2).id ≠ id := by
    intro e he
    unfold pending at he
    split at he
    · exact hnodes e he
    · rename_i it waiting hplace
      have hwait : w.newNodes = waiting := by rw [newNodes, hplace]
      rcases List.mem_append.mp he with hmem | hmem
      · refine hnodes e ?_
        split at hmem
        · exact hmem
        · exact List.mem_of_mem_erase hmem
      · exact hnew e (hwait ▸ hmem)
    · cases he
  rw [scheduled, List.any_eq_false]
  intro e he hid
  exact hall e he (of_decide_eq_true hid)

theorem Kept.counted_append (h : w.Kept newNodes) (scheduled found : Bool) :
    ∀ i n s f, .deleted i n s f ∈ w.trace ++ [.deleted id w.timer.created scheduled found] →
      n ≤ w.timer.created := by
  intro i n s f hmem
  rcases List.mem_append.mp hmem with hold | hnew
  · exact h.counted i n s f hold
  · cases List.mem_singleton.mp hnew
    exact Nat.le_refl _

theorem newNodes_of_callback (hplace : w.place = .callback ms it newNodes) :
    w.newNodes = newNodes := by
  rw [TimerRun.newNodes, hplace]

theorem mem_busy {e : UInt64 × Nat} : e ∈ w.busy ↔
    ∃ ms it newNodes, w.place = .callback ms it newNodes ∧ e ∈ it :: newNodes := by
  unfold busy
  split
  · rename_i ms it newNodes hplace
    constructor
    · exact fun he => ⟨ms, it, newNodes, hplace, he⟩
    · intro hsome
      obtain ⟨ms', it', waiting, hsame, he⟩ := hsome
      rw [hplace] at hsame
      cases hsame
      exact he
  · rename_i hnot
    constructor
    · exact fun he => (nomatch he)
    · intro hsome
      obtain ⟨ms, it, newNodes, hplace, -⟩ := hsome
      exact absurd hplace (hnot ms it newNodes)

/-- While the callback's own timer is there, a busy node is the one at the iterator, which is in
`m_nodes`, or it waits in `newNodes`. -/
theorem Sound.busy_cases (h : w.Sound)
    (halive : ∀ ms it newNodes, w.place = .callback ms it newNodes → it.2 ∉ w.deleted)
    {d : UInt64 × Nat} (hd : d ∈ w.busy) :
    (∃ ms newNodes, w.place = .callback ms d newNodes ∧ d ∈ w.timer.nodes) ∨ d ∈ w.newNodes := by
  obtain ⟨ms, it, newNodes, hplace, hd⟩ := mem_busy.mp hd
  rcases List.mem_cons.mp hd with rfl | hmem
  · exact .inl ⟨ms, newNodes, hplace,
      (h.running ms d newNodes hplace).resolve_right (halive ms d newNodes hplace)⟩
  · rw [newNodes_of_callback hplace]
    exact .inr hmem

/-- `delTimer` of a node of `m_nodes`. -/
def delFound (w : TimerRun) (id : UInt32) (e : UInt64 × Nat) : TimerRun :=
  { w with
    timer := { w.timer with
      nodes := w.timer.nodes.erase e
      search := update w.timer.search id none }
    deleted := e.2 :: w.deleted
    trace := w.trace ++ [.deleted id w.timer.created (w.scheduled id) true] }

/-- `delTimer` of an id that `m_nodes` does not have. -/
def delMissed (w : TimerRun) (id : UInt32) : TimerRun :=
  { w with trace := w.trace ++ [.deleted id w.timer.created (w.scheduled id) false] }

section DelTimer

variable {e : UInt64 × Nat}

theorem Kept.delFound (h : w.Kept newNodes) (he : e ∈ w.timer.nodes)
    (hid : (w.timer.node e.2).id = id) : (w.delFound id e).Kept newNodes := by
  have hfront : (w.timer.nodes ++ newNodes).Perm (e :: (w.timer.nodes.erase e ++ newNodes)) :=
    (List.perm_cons_erase he).append_right newNodes
  have htied := h.tied.perm hfront
  refine ⟨hid ▸ htied.drop, h.sorted.sublist List.erase_sublist, ?_,
    h.counted_append (w.scheduled id) true, ?_⟩
  · intro ref hmem
    rcases List.mem_cons.mp hmem with rfl | hold
    · exact h.tied.created e (List.mem_append_left _ he)
    · exact h.deleted ref hold
  · intro hanswered x hx d hd ms'
    rcases List.mem_append.mp hx with hold | hnew
    · exact h.cancelled (answered_append.mp hanswered).1 x hold d
        (hfront.mem_iff.mpr (List.mem_cons_of_mem e hd)) ms'
    · -- the node that had the id is gone
      rw [List.mem_singleton.mp hnew]
      intro hrevives
      have hsame := htied.same (List.mem_cons_of_mem e hd) List.mem_cons_self
        (hrevives.1.trans hid.symm)
      exact htied.ne_head d hd (congrArg Prod.snd hsame)

theorem Sound.delFound (h : w.Sound) (hplace : w.place ≠ .undefined) (he : e ∈ w.timer.nodes)
    (hid : (w.timer.node e.2).id = id) : (w.delFound id e).Sound := by
  refine ⟨fun _ => (h.kept hplace).delFound he hid, ?_⟩
  intro ms it newNodes hcallback
  rcases h.running ms it newNodes hcallback with hmem | hold
  · by_cases heq : it = e
    · exact .inr (heq ▸ List.mem_cons_self)
    · exact .inl ((List.mem_erase_of_ne heq).mpr hmem)
  · exact .inr (List.mem_cons_of_mem _ hold)

/-- Deleting a node of `m_nodes` is safe unless it is the one at the iterator. -/
theorem Sound.delFound_intact (h : w.Sound) (hplace : w.place ≠ .undefined)
    (he : e ∈ w.timer.nodes) (hid : (w.timer.node e.2).id = id) :
    (w.delFound id e).Intact ↔ w.Intact ∧ w.Careful (.delTimer id) := by
  have hkept := h.kept hplace
  have hboth : e ∈ w.timer.nodes ++ w.newNodes := List.mem_append_left _ he
  constructor
  · intro hintact
    have hold : w.Intact := by
      refine ⟨⟨hplace, (answered_append.mp hintact.safe.answered).1,
        (silent_append.mp hintact.safe.silent).1⟩, ?_⟩
      intro ms it newNodes hcallback hmem
      exact hintact.running ms it newNodes hcallback (List.mem_cons_of_mem _ hmem)
    refine ⟨hold, ?_⟩
    intro d hd hsame
    rcases h.busy_cases hold.running hd with ⟨ms, newNodes, hcallback, hmem⟩ | hmem
    · have heq : d = e :=
        hkept.tied.same (List.mem_append_left _ hmem) hboth (hsame.trans hid.symm)
      exact hintact.running ms d newNodes hcallback (heq ▸ List.mem_cons_self)
    · have heq : d = e :=
        hkept.tied.same (List.mem_append_right _ hmem) hboth (hsame.trans hid.symm)
      have htied := hkept.tied.perm ((List.perm_cons_erase he).append_right w.newNodes)
      exact htied.ne_head d (List.mem_append_right _ hmem) (congrArg Prod.snd heq)
  · intro hpair
    obtain ⟨hintact, hcareful⟩ := hpair
    refine ⟨⟨hplace, ?_, ?_⟩, ?_⟩
    · exact answered_append.mpr ⟨hintact.safe.answered, fun hmissed => nomatch hmissed.2⟩
    · exact silent_deleted.mpr hintact.safe.silent
    · intro ms it newNodes hcallback hmem
      rcases List.mem_cons.mp hmem with heq | hold
      · refine hcareful it (mem_busy.mpr ⟨ms, it, newNodes, hcallback, List.mem_cons_self⟩) ?_
        rw [heq]
        exact hid
      · exact hintact.running ms it newNodes hcallback hold

variable (hnodes : ∀ e ∈ w.timer.nodes, (w.timer.node e.2).id ≠ id)
include hnodes

theorem Sound.delMissed (h : w.Sound) (hplace : w.place ≠ .undefined) :
    (w.delMissed id).Sound := by
  have hkept := h.kept hplace
  refine ⟨fun _ => ⟨hkept.tied, hkept.sorted, hkept.deleted,
    hkept.counted_append (w.scheduled id) false, ?_⟩, h.running⟩
  intro hanswered x hx d hd ms'
  obtain ⟨hold, hlast⟩ := answered_append.mp hanswered
  rcases List.mem_append.mp hx with hmem | hnew
  · exact hkept.cancelled hold x hmem d hd ms'
  · rw [List.mem_singleton.mp hnew]
    intro hrevives
    rcases List.mem_append.mp hd with hd | hd
    · exact hnodes d hd hrevives.1
    · exact hlast ⟨scheduled_of_newNodes hd hrevives.1, rfl⟩

/-- Missing an id is safe unless its node waits to be inserted again. -/
theorem Sound.delMissed_intact (h : w.Sound) (hplace : w.place ≠ .undefined) :
    (w.delMissed id).Intact ↔ w.Intact ∧ w.Careful (.delTimer id) := by
  constructor
  · intro hintact
    obtain ⟨hold, hlast⟩ := answered_append.mp hintact.safe.answered
    refine ⟨⟨⟨hplace, hold, (silent_append.mp hintact.safe.silent).1⟩, hintact.running⟩, ?_⟩
    intro d hd hsame
    rcases h.busy_cases hintact.running hd with ⟨ms, newNodes, -, hmem⟩ | hmem
    · exact hnodes d hmem hsame
    · exact hlast ⟨scheduled_of_newNodes hmem hsame, rfl⟩
  · intro hpair
    obtain ⟨hintact, hcareful⟩ := hpair
    have hnot : w.scheduled id = false := by
      refine not_scheduled hnodes ?_
      intro d hd
      cases hcallback : w.place with
      | callback ms it newNodes =>
        rw [newNodes_of_callback hcallback] at hd
        exact hcareful d (mem_busy.mpr ⟨ms, it, newNodes, hcallback, List.mem_cons_of_mem it hd⟩)
      | outside | undefined =>
        rw [TimerRun.newNodes, hcallback] at hd
        cases hd
    refine ⟨⟨hplace, ?_, ?_⟩, hintact.running⟩
    · refine answered_append.mpr ⟨hintact.safe.answered, fun hmissed => ?_⟩
      rw [hnot] at hmissed
      exact nomatch hmissed.1
    · exact silent_deleted.mpr hintact.safe.silent

end DelTimer

/-- `update` is called. -/
theorem Sound.update (h : w.Sound) (hplace : w.place = .outside) (ms : UInt64) :
    (w.enter ms [] w.timer.nodes).Sound ∧
      ((w.enter ms [] w.timer.nodes).Intact ↔ w.Intact) := by
  have hkept : w.Kept [] := by
    have hnone : w.newNodes = [] := by rw [TimerRun.newNodes, hplace]
    rw [← hnone]
    exact h.kept (defined_of_outside hplace)
  have hno : ∀ ms it newNodes, w.place = .callback ms it newNodes → it.2 ∉ w.deleted := by
    intro _ _ _ hcallback
    rw [hplace] at hcallback
    cases hcallback
  obtain ⟨hsound, hintact⟩ := hkept.enter (fun _ he => he) ms
  rw [hintact, intact_iff (defined_of_outside hplace) hno]
  exact ⟨hsound, Iff.rfl⟩

/-- A callback that has not deleted its own timer returns. -/
theorem Sound.back (h : w.Sound) (hplace : w.place = .callback ms it newNodes)
    (halive : it.2 ∉ w.deleted) : (w.leave ms it newNodes).Sound ∧
      ((w.leave ms it newNodes).Intact ↔ w.Intact) := by
  have hkept : w.Kept newNodes := by
    rw [← newNodes_of_callback hplace]
    exact h.kept (defined_of_callback hplace)
  have hown : ∀ ms it newNodes, w.place = .callback ms it newNodes → it.2 ∉ w.deleted := by
    intro _ _ _ hcallback
    rw [hplace] at hcallback
    cases hcallback
    exact halive
  have hit := (h.running ms it newNodes hplace).resolve_right halive
  obtain ⟨hsound, hintact⟩ := hkept.leave hit ms
  rw [hintact, intact_iff (defined_of_callback hplace) hown]
  exact ⟨hsound, Iff.rfl⟩

/-- What one call does in a state that is sound. -/
theorem Sound.step (h : w.Sound) {a : Action} (hfresh : w.Fresh a) (hstep : w.step a = some v) :
    v.Sound ∧ (v.Intact ↔ w.Intact ∧ w.Careful a) := by
  have htimer : ∀ t : Timer, ({ w with timer := t } : TimerRun).Intact ↔ w.Intact :=
    fun t => ⟨fun hi => ⟨⟨hi.safe.defined, hi.safe.answered, hi.safe.silent⟩, hi.running⟩,
      fun hi => ⟨⟨hi.safe.defined, hi.safe.answered, hi.safe.silent⟩, hi.running⟩⟩
  cases steps_of_step hstep with
  | addTimer nowMs ms repeats hplace =>
    exact ⟨h.setTimer hplace hfresh nowMs ms repeats,
      (htimer _).trans (and_iff_left trivial).symm⟩
  | addSecondTimer nowMs sec repeats hplace =>
    exact ⟨h.setTimer hplace hfresh nowMs (sec * 1000).toUInt64 repeats,
      (htimer _).trans (and_iff_left trivial).symm⟩
  | dangling id hplace hread => exact absurd hread ((h.kept hplace).tied.nodesRead id)
  | delTimer id hplace =>
    obtain ⟨e, he, hid, hdeleted, hdel⟩ | ⟨hnodes, hdeleted, hdel⟩ :=
      (h.kept hplace).tied.delTimer_cases id
    · rw [hdeleted, hdel]
      exact ⟨h.delFound hplace he hid, h.delFound_intact hplace he hid⟩
    · rw [hdeleted, hdel]
      exact ⟨h.delMissed hnodes hplace, h.delMissed_intact hnodes hplace⟩
  | update ms hplace =>
    obtain ⟨hsound, hintact⟩ := h.update hplace ms
    exact ⟨hsound, hintact.trans (and_iff_left trivial).symm⟩
  | own ms it newNodes hplace hdeleted =>
    refine ⟨⟨fun hne => absurd rfl hne, fun _ _ _ heq => nomatch heq⟩, ?_⟩
    refine iff_of_false (fun hi => hi.safe.defined rfl) ?_
    exact fun hboth => hboth.1.running ms it newNodes hplace hdeleted
  | back ms it newNodes hplace halive =>
    obtain ⟨hsound, hintact⟩ := h.back hplace halive
    exact ⟨hsound, hintact.trans (and_iff_left trivial).symm⟩

/-! ## Runs -/

theorem Sound.start : Sound start := by
  refine ⟨fun _ => ⟨⟨?_, ?_, ?_, ?_, ?_⟩, .nil, ?_, ?_, ?_⟩, fun _ _ _ heq => nomatch heq⟩
  · intro id ref
    exact iff_of_false (fun hsome => nomatch hsome) (fun hboth => nomatch hboth.1)
  · exact fun _ he => nomatch he
  · exact List.nodup_nil
  · exact fun _ he => nomatch he
  · exact fun _ he => nomatch he
  · exact fun _ he => nomatch he
  · exact fun _ _ _ _ he => nomatch he
  · exact fun _ _ he => nomatch he

theorem Intact.start : Intact start :=
  ⟨⟨fun heq => (nomatch heq), fun _ he => (nomatch he), List.Pairwise.nil⟩,
    fun _ _ _ heq => (nomatch heq)⟩

/-- **Callbacks that call the timer**, over every list of calls in which no new timer takes an id
that is in use: a run whose callbacks neither delete their own timer nor one that waits to be
inserted again is safe, and where it ends outside of a callback, no other run is. -/
theorem safe_iff_careful (calls : List Action) (w : TimerRun)
    (hfresh : Meets step Fresh start calls)
    (hrun : execute step (fun _ _ => true) start calls = some w) :
    (Meets step Careful start calls → w.Safe) ∧
      ((∀ ms it newNodes, w.place ≠ .callback ms it newNodes) →
        (w.Safe ↔ Meets step Careful start calls)) := by
  obtain ⟨-, hiff⟩ := hfresh.guard_iff (I := Sound) (P := Intact) (G := Careful)
    (fun _ _ _ h hf hs => (h.step hf hs).1) (fun _ _ _ h hf hs => (h.step hf hs).2)
    Sound.start hrun
  have hsafe : Meets step Careful start calls → w.Safe :=
    fun hcareful => (hiff.mpr ⟨Intact.start, hcareful⟩).safe
  refine ⟨hsafe, ?_⟩
  intro hdone
  refine ⟨?_, hsafe⟩
  intro hs
  refine (hiff.mp ⟨hs, ?_⟩).2
  intro ms it newNodes hplace
  exact absurd hplace (hdone ms it newNodes)

/-- A repeating timer deletes one that is not reached and sets one, which deletes it. -/
def carefulCalls : List Action :=
  [.addTimer 0 10 true, .addTimer 0 20 false, .addTimer 0 100 false, .update 30, .delTimer 2,
    .addTimer 30 5 false, .back, .delTimer 2, .back, .delTimer 1, .update 40, .delTimer 0, .back]

theorem safe_iff_careful_of_calls :
    ∃ w, execute step (fun _ _ => true) start carefulCalls = some w ∧ w.Safe := by
  have hruns : (execute step (fun _ _ => true) start carefulCalls).isSome = true := by decide
  obtain ⟨w, hw⟩ := Option.isSome_iff_exists.mp hruns
  exact ⟨w, hw, (safe_iff_careful carefulCalls w (by decide) hw).1 (by decide)⟩

/-- A callback that deletes its own timer, and one that deletes a repeating timer whose callback
has run in the same update. -/
def ownDeleted : List Action := [.addTimer 0 10 false, .update 10, .delTimer 0, .back]

def movedDeleted : List Action :=
  [.addTimer 0 10 true, .addTimer 0 20 false, .update 30, .back, .delTimer 0, .back, .update 40]

/-- The node is used behind its deletion; `delTimer` does not find the timer, which fires again. -/
theorem deletes_in_callbacks :
    (∃ w, execute step (fun s a => decide (s.Fresh a)) start ownDeleted = some w ∧
      w.place = .undefined ∧ ¬ w.Safe) ∧
    ∃ w, execute step (fun s a => decide (s.Fresh a)) start movedDeleted = some w ∧
      w.trace = [.fired 30 0 0, .fired 30 1 1, .deleted 0 2 true false, .fired 40 0 0] ∧
      ¬ w.Safe := by
  have hown : (execute step (fun s a => decide (s.Fresh a)) start ownDeleted).map (·.place) =
      some .undefined := by decide
  have hmoved : (execute step (fun s a => decide (s.Fresh a)) start movedDeleted).map (·.trace) =
      some [.fired 30 0 0, .fired 30 1 1, .deleted 0 2 true false, .fired 40 0 0] := by decide
  obtain ⟨w, hw, hplace⟩ := Option.map_eq_some_iff.mp hown
  obtain ⟨v, hv, htrace⟩ := Option.map_eq_some_iff.mp hmoved
  refine ⟨⟨w, hw, hplace, fun hsafe => hsafe.defined hplace⟩, v, hv, htrace, ?_⟩
  intro hsafe
  have hmem : TimerEvent.deleted 0 2 true false ∈ v.trace := by
    rw [htrace]
    decide
  exact hsafe.answered _ hmem ⟨rfl, rfl⟩

end TimerRun

end StormNet.Util
