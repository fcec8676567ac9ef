/-
  Util/LockQueue.lean --- `LockQueue` of `util/util_thread.h`, used by any number of threads.

  What a call does with the notifier's mutex is one step of it.  A `pop_front` that waits
  gives the mutex up, so that what is behind the wait is a step of its own.  `signal` wakes at
  least one of the threads that wait, if there is one; a wait may also end for no reason, and
  that of `timedwait` when its time is up.
-/
import Mathlib.Data.List.Basic
import StormNet.Foundation.Linear

set_option autoImplicit false

namespace StormNet.Util

open StormNet.Foundation

/-! ## One thread -/

/-- The calls of a `LockQueue<T>`. -/
inductive QueueCall (α : Type) where
  | popFront
  | pushBack (t : α)
  | swap (l : List α)
  | size
  | empty
  | wakeup

/-- What a call gives back. -/
inductive QueueResult (α : Type) where
  /-- `true` and the element, or `false` -/
  | popped (t : Option α)
  /-- the list behind a swap -/
  | swapped (l : List α)
  | size (n : UInt32)
  | empty (b : Bool)
  | nothing

/-- The call of the only thread, on the list of the queue. -/
def QueueCall.apply {α : Type} (list : List α) : QueueCall α → QueueResult α × List α
  | .popFront =>
      match list with
      | [] => (.popped none, [])
      | t :: list => (.popped (some t), list)
  | .pushBack t => (.nothing, list ++ [t])
  | .swap l => (.swapped list, l)
  | .size => (.size (UInt32.ofNat list.length), list)
  | .empty => (.empty list.isEmpty, list)
  | .wakeup => (.nothing, list)

/-! ## Any number of threads -/

/-- A `LockQueue<T>`; `θ` are the threads. -/
structure LockQueue (θ α : Type) where
  /-- `m_list` -/
  list : List α
  /-- in `wait` or `timedwait` -/
  waiting : List θ
  /-- behind the wait, before the second test of `pop_front` -/
  woken : List θ
  /-- the calls that have taken effect, with their threads and results -/
  done : List ((θ × QueueCall α) × QueueResult α)

namespace LockQueue

variable {θ α : Type}

inductive Action (θ α : Type) where
  | popFront (thread : θ) (ms : Int)
  /-- `signal` wakes those in `wakes` that wait -/
  | pushBack (thread : θ) (t : α) (wakes : List θ)
  | swap (thread : θ) (l : List α)
  | size (thread : θ)
  | empty (thread : θ)
  | wakeup (thread : θ)
  /-- the wait of the thread ends without a signal -/
  | wake (thread : θ)
  /-- the thread has the mutex again -/
  | resume (thread : θ)

def new : LockQueue θ α := ⟨[], [], [], []⟩

/-- The thread is in no call. -/
def Free (q : LockQueue θ α) (thread : θ) : Prop := thread ∉ q.waiting ∧ thread ∉ q.woken

instance [DecidableEq θ] (q : LockQueue θ α) (thread : θ) : Decidable (q.Free thread) :=
  inferInstanceAs (Decidable (_ ∧ _))

/-- The call takes effect on the list, and returns. -/
def call (q : LockQueue θ α) (thread : θ) (c : QueueCall α) : LockQueue θ α :=
  { q with
    list := (c.apply q.list).2
    done := q.done ++ [((thread, c), (c.apply q.list).1)] }

/-- `signal` and `broadcast`. -/
def notify (q : LockQueue θ α) (wakes : θ → Bool) : LockQueue θ α :=
  { q with
    waiting := q.waiting.filter fun thread => !wakes thread
    woken := q.woken ++ q.waiting.filter wakes }

/-- `pop_front`, up to the wait. -/
def popFront (q : LockQueue θ α) (thread : θ) (ms : Int) : LockQueue θ α :=
  if q.list.isEmpty then
    if ms = 0 then q.call thread .popFront
    else { q with waiting := q.waiting ++ [thread] }
  else q.call thread .popFront

def step [DecidableEq θ] (q : LockQueue θ α) : Action θ α → Option (LockQueue θ α)
  | .popFront thread ms => if q.Free thread then some (q.popFront thread ms) else none
  | .pushBack thread t wakes =>
      if q.Free thread ∧ (q.waiting = [] ∨ ∃ w ∈ wakes, w ∈ q.waiting) then
        some ((q.call thread (.pushBack t)).notify fun w => w ∈ wakes)
      else none
  | .swap thread l => if q.Free thread then some (q.call thread (.swap l)) else none
  | .size thread => if q.Free thread then some (q.call thread .size) else none
  | .empty thread => if q.Free thread then some (q.call thread .empty) else none
  | .wakeup thread =>
      if q.Free thread then some ((q.call thread .wakeup).notify fun _ => true) else none
  | .wake thread =>
      if thread ∈ q.waiting then
        some { q with waiting := q.waiting.erase thread, woken := q.woken ++ [thread] }
      else none
  | .resume thread =>
      if thread ∈ q.woken then
        some ({ q with woken := q.woken.erase thread }.call thread .popFront)
      else none

/-! ## In the order of the calls -/

/-- What a call puts into the queue. -/
def given (done : List ((θ × QueueCall α) × QueueResult α)) : List α :=
  done.flatMap fun d =>
    match d.1.2 with
    | .pushBack t => [t]
    | .swap l => l
    | _ => []

/-- What a call takes out of it. -/
def taken (done : List ((θ × QueueCall α) × QueueResult α)) : List α :=
  done.flatMap fun d =>
    match d.2 with
    | .popped t => t.toList
    | .swapped l => l
    | _ => []

/-- The queue of one thread, whatever threads call. -/
def sequential (list : List α) (c : θ × QueueCall α) : QueueResult α × List α := c.2.apply list

variable {q q' : LockQueue θ α} {a : Action θ α}

/-- A step takes effect as one call, or the thread begins or ends to wait. -/
theorem effect_of_step [DecidableEq θ] (h : q.step a = some q') :
    (q'.list = q.list ∧ q'.done = q.done) ∨
      ∃ c r, sequential q.list c = (r, q'.list) ∧ q'.done = q.done ++ [(c, r)] := by
  have hcall : ∀ thread c, ∃ o r, sequential q.list o = (r, (q.call thread c).list) ∧
      (q.call thread c).done = q.done ++ [(o, r)] :=
    fun thread c => ⟨(thread, c), (c.apply q.list).1, rfl, rfl⟩
  cases a with
  | popFront thread ms =>
    obtain ⟨-, ⟨⟩⟩ := Option.ite_none_right_eq_some.mp h
    unfold popFront
    split
    · split
      · exact .inr (hcall thread .popFront)
      · exact .inl ⟨rfl, rfl⟩
    · exact .inr (hcall thread .popFront)
  | pushBack thread t wakes =>
    obtain ⟨-, ⟨⟩⟩ := Option.ite_none_right_eq_some.mp h
    exact .inr (hcall thread (.pushBack t))
  | swap thread l =>
    obtain ⟨-, ⟨⟩⟩ := Option.ite_none_right_eq_some.mp h
    exact .inr (hcall thread (.swap l))
  | size thread =>
    obtain ⟨-, ⟨⟩⟩ := Option.ite_none_right_eq_some.mp h
    exact .inr (hcall thread .size)
  | empty thread =>
    obtain ⟨-, ⟨⟩⟩ := Option.ite_none_right_eq_some.mp h
    exact .inr (hcall thread .empty)
  | wakeup thread =>
    obtain ⟨-, ⟨⟩⟩ := Option.ite_none_right_eq_some.mp h
    exact .inr (hcall thread .wakeup)
  | wake thread =>
    obtain ⟨-, ⟨⟩⟩ := Option.ite_none_right_eq_some.mp h
    exact .inl ⟨rfl, rfl⟩
  | resume thread =>
    obtain ⟨-, ⟨⟩⟩ := Option.ite_none_right_eq_some.mp h
    exact .inr (hcall thread .popFront)

/-- What one call gives and takes. -/
theorem given_eq_concat {done : List ((θ × QueueCall α) × QueueResult α)} {list : List α}
    (c : θ × QueueCall α) (h : given done = taken done ++ list) :
    given (done ++ [(c, (sequential list c).1)]) =
      taken (done ++ [(c, (sequential list c).1)]) ++ (sequential list c).2 := by
  have hgiven : ∀ d, given (done ++ [d]) = given done ++ given [d] := fun _ => List.flatMap_append
  have htaken : ∀ d, taken (done ++ [d]) = taken done ++ taken [d] := fun _ => List.flatMap_append
  rw [hgiven, htaken, h, List.append_assoc, List.append_assoc]
  congr 1
  obtain ⟨thread, c⟩ := c
  cases c with
  | popFront => cases list <;> simp [given, taken, sequential, QueueCall.apply]
  | pushBack _ | swap _ | size | empty | wakeup =>
    simp [given, taken, sequential, QueueCall.apply]

/-- **Any number of threads see one queue.**  The results are those of the calls one behind
the other, a `pop_front` that gives `false` met an empty list, and what has been taken out is
what was put in first, in its order.  A call is recorded with its result at its last hold of the
mutex, so the first half says how the record is made; the second half is about the list. -/
theorem linearizable [DecidableEq θ] (q : LockQueue θ α) (h : Runs step (fun _ _ => True) new q) :
    Linear sequential [] q.done q.list ∧ given q.done = taken q.done ++ q.list := by
  have hlinear : Linear sequential [] q.done q.list :=
    linear_of_runs (·.list) (·.done) (fun _ _ _ _ hstep => effect_of_step hstep) rfl h
  refine ⟨hlinear, ?_⟩
  exact hlinear.invariant (I := fun done list => given done = taken done ++ list)
    (fun done list c hdone => given_eq_concat c hdone) rfl

/-! ## Waiting -/

/-- A list that is swapped in is empty. -/
def Drains (_ : LockQueue θ α) : Action θ α → Prop
  | .swap _ l => l = []
  | _ => True

/-- A thread is in one wait; and while one waits, as many have been woken as there are
elements. -/
structure Awake (q : LockQueue θ α) : Prop where
  nodup : (q.waiting ++ q.woken).Nodup
  enough : q.waiting ≠ [] → q.list.length ≤ q.woken.length

theorem nodup_notify (h : (q.waiting ++ q.woken).Nodup) (wakes : θ → Bool) :
    ((q.notify wakes).waiting ++ (q.notify wakes).woken).Nodup := by
  have hsplit : (q.waiting.filter wakes ++ (q.notify wakes).waiting).Perm q.waiting :=
    List.filter_append_perm wakes q.waiting
  have hperm : ((q.notify wakes).waiting ++ (q.woken ++ q.waiting.filter wakes)).Perm
      (q.waiting ++ q.woken) := by
    rw [← List.append_assoc]
    refine List.perm_append_comm.trans ?_
    rw [← List.append_assoc]
    exact hsplit.append_right _
  exact hperm.nodup_iff.mpr h

/-- A signal of one more element wakes a thread that waits. -/
theorem Awake.notify (h : q.Awake) {list : List α} {wakes : θ → Bool}
    (hwakes : q.waiting = [] ∨ ∃ w ∈ q.waiting, wakes w = true)
    (hlist : list.length ≤ q.list.length + 1) :
    Awake ({ q with list := list }.notify wakes) where
  nodup := nodup_notify h.nodup wakes
  enough hwaiting := by
    rcases hwakes with hnone | ⟨w, hw, hwake⟩
    · refine absurd ?_ hwaiting
      show q.waiting.filter _ = []
      rw [hnone, List.filter_nil]
    · have henough := h.enough (List.ne_nil_of_mem hw)
      have hone : 0 < (q.waiting.filter wakes).length :=
        List.length_pos_of_mem (List.mem_filter.mpr ⟨hw, hwake⟩)
      show list.length ≤ (q.woken ++ q.waiting.filter wakes).length
      rw [List.length_append]
      omega

/-- Without a signal the list has grown no longer. -/
theorem Awake.call (h : q.Awake) (thread : θ) (c : QueueCall α)
    (hlist : (c.apply q.list).2.length ≤ q.list.length) : (q.call thread c).Awake where
  nodup := h.nodup
  enough hwaiting := Nat.le_trans hlist (h.enough hwaiting)

theorem length_popFront (list : List α) :
    (QueueCall.popFront.apply list).2.length = list.length - 1 := by
  cases list <;> rfl

theorem Awake.step [DecidableEq θ] (h : q.Awake) (hdrains : q.Drains a)
    (hstep : q.step a = some q') : q'.Awake := by
  cases a with
  | popFront thread ms =>
    obtain ⟨hfree, ⟨⟩⟩ := Option.ite_none_right_eq_some.mp hstep
    have hpop := h.call thread .popFront (by rw [length_popFront]; omega)
    unfold LockQueue.popFront
    split
    · rename_i hempty
      split
      · exact hpop
      · refine ⟨?_, fun _ => ?_⟩
        · show ((q.waiting ++ [thread]) ++ q.woken).Nodup
          rw [List.append_assoc, List.singleton_append]
          refine List.perm_middle.nodup_iff.mpr (List.nodup_cons.mpr ⟨?_, h.nodup⟩)
          rw [List.mem_append, not_or]
          exact hfree
        · show q.list.length ≤ _
          rw [List.isEmpty_iff.mp hempty]
          exact Nat.zero_le _
    · exact hpop
  | pushBack thread t wakes =>
    obtain ⟨⟨-, hwakes⟩, ⟨⟩⟩ := Option.ite_none_right_eq_some.mp hstep
    have hcall : Awake ({ q with list := q.list ++ [t] }.notify fun w => w ∈ wakes) := by
      refine h.notify (hwakes.imp_right ?_) (Nat.le_of_eq (List.length_append ..))
      rintro ⟨w, hw, hwaiting⟩
      exact ⟨w, hwaiting, decide_eq_true hw⟩
    exact ⟨hcall.nodup, hcall.enough⟩
  | swap thread l =>
    obtain ⟨-, ⟨⟩⟩ := Option.ite_none_right_eq_some.mp hstep
    obtain rfl : l = [] := hdrains
    exact h.call thread (.swap []) (Nat.zero_le _)
  | size thread =>
    obtain ⟨-, ⟨⟩⟩ := Option.ite_none_right_eq_some.mp hstep
    exact h.call thread .size (Nat.le_refl _)
  | empty thread =>
    obtain ⟨-, ⟨⟩⟩ := Option.ite_none_right_eq_some.mp hstep
    exact h.call thread .empty (Nat.le_refl _)
  | wakeup thread =>
    obtain ⟨-, ⟨⟩⟩ := Option.ite_none_right_eq_some.mp hstep
    refine ⟨nodup_notify h.nodup _, fun hwaiting => absurd ?_ hwaiting⟩
    show q.waiting.filter _ = []
    simp
  | wake thread =>
    obtain ⟨hthread, ⟨⟩⟩ := Option.ite_none_right_eq_some.mp hstep
    refine ⟨?_, fun _ => ?_⟩
    · show (q.waiting.erase thread ++ (q.woken ++ [thread])).Nodup
      rw [← List.append_assoc]
      have hmove : (q.waiting.erase thread ++ q.woken ++ [thread]).Perm
          ([thread] ++ (q.waiting.erase thread ++ q.woken)) := List.perm_append_comm
      have hperm := (List.perm_cons_erase hthread).symm.append_right q.woken
      exact (hmove.trans hperm).nodup_iff.mpr h.nodup
    · show q.list.length ≤ (q.woken ++ [thread]).length
      rw [List.length_append]
      exact Nat.le_add_right_of_le (h.enough (List.ne_nil_of_mem hthread))
  | resume thread =>
    obtain ⟨hthread, ⟨⟩⟩ := Option.ite_none_right_eq_some.mp hstep
    refine ⟨?_, fun hwaiting => ?_⟩
    · exact h.nodup.sublist (List.Sublist.append_left List.erase_sublist _)
    · show (QueueCall.popFront.apply q.list).2.length ≤ (q.woken.erase thread).length
      have henough := h.enough hwaiting
      rw [length_popFront, List.length_erase_of_mem hthread]
      omega

/-- **No wakeup is lost.**  While a thread waits there are as many threads behind their wait
as there are elements in the queue; the one of them that has the mutex next takes the first. -/
theorem no_lost_wakeup [DecidableEq θ] (q : LockQueue θ α) (h : Runs step Drains new q) :
    (q.waiting ++ q.woken).Nodup ∧ (q.waiting ≠ [] → q.list.length ≤ q.woken.length) ∧
    ∀ thread ∈ q.woken, ∃ q', q.step (.resume thread) = some q' ∧
      q'.done = q.done ++ [((thread, .popFront), .popped q.list.head?)] := by
  have hawake : q.Awake := h.invariant (fun _ _ _ hq hdrains hstep => hq.step hdrains hstep)
    ⟨List.nodup_nil, fun hwaiting => absurd rfl hwaiting⟩
  refine ⟨hawake.nodup, hawake.enough, fun thread hthread => ?_⟩
  refine ⟨_, if_pos hthread, ?_⟩
  cases q.list <;> simp [call, QueueCall.apply]

/-- Thread 1 is signalled for 5, which thread 3 takes; thread 2 is signalled for 6. -/
theorem barging_run : ∃ q : LockQueue Nat Nat, Runs step Drains new q ∧
    q.list = [6] ∧ q.waiting = [4] := by
  have hrun : ∃ q : LockQueue Nat Nat, Runs step Drains new q ∧
      decide (q.list = [6] ∧ q.waiting = [4]) = true :=
    exists_runs_of_execute (g := fun _ a => match a with | .swap _ l => l.isEmpty | _ => true)
      (fun _ a hg => by cases a <;> simp_all [Drains])
      [.popFront 1 (-1), .popFront 2 (-1), .popFront 4 (-1), .pushBack 0 5 [1], .popFront 3 0,
        .pushBack 0 6 [2]] _ (by decide)
  obtain ⟨q, hrun, hend⟩ := hrun
  exact ⟨q, hrun, of_decide_eq_true hend⟩

theorem linearizable_barging : ∃ q : LockQueue Nat Nat,
    given q.done = taken q.done ++ [6] ∧ Linear sequential [] q.done [6] := by
  obtain ⟨q, hrun, hlist, -⟩ := barging_run
  obtain ⟨hlinear, hgiven⟩ := linearizable q (hrun.mono fun _ _ _ => trivial)
  rw [hlist] at hlinear hgiven
  exact ⟨q, hgiven, hlinear⟩

theorem no_lost_wakeup_barging : ∃ q : LockQueue Nat Nat, q.list = [6] ∧ q.waiting = [4] ∧
    q.list.length ≤ q.woken.length := by
  obtain ⟨q, hrun, hlist, hwaiting⟩ := barging_run
  refine ⟨q, hlist, hwaiting, (no_lost_wakeup q hrun).2.1 ?_⟩
  rw [hwaiting]
  exact List.cons_ne_nil _ _

end LockQueue

end StormNet.Util
