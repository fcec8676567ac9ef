/-
  Util/TimeQueue.lean --- `TimeList` as a keyed timeout queue.

  The queue is the list of the live keys with the time of their last `add`, in the order of
  these adds.  Every key waits equally long, so with a clock that does not go back and
  deadlines that do not wrap around the list is sorted by deadline and the sweep of `timeout`
  may stop at the first entry that is not due.
-/
import StormNet.Foundation.Machine
import StormNet.Foundation.Sweep
import StormNet.Util.TimeList

set_option autoImplicit false

namespace StormNet.Util

open StormNet.Foundation

/-- What the template parameter `TimeType` is used as: numbers with a wrapping addition. -/
class TimeType (T : Type) extends Add T, LE T where
  toNat : T → Nat
  le_iff : ∀ a b : T, a ≤ b ↔ toNat a ≤ toNat b

instance : TimeType UInt32 where
  toNat := UInt32.toNat
  le_iff _ _ := UInt32.le_iff_toNat_le

instance : TimeType UInt64 where
  toNat := UInt64.toNat
  le_iff _ _ := UInt64.le_iff_toNat_le

variable {K T : Type}

namespace TimeList

/-- A call of the class. -/
inductive Op (K T : Type) where
  | add (key : K) (now : T)
  | del (key : K)
  | timeout (now : T)
  deriving DecidableEq, Repr

/-- The reading of the clock a call is given. -/
def Op.clock : Op K T → Option T
  | .add _ now => some now
  | .del _ => none
  | .timeout now => some now

/-! ## The sweep -/

section Sweep

variable [DecidableEq K]

/-- The loop of `timeout`, with the keys it passes to the callback. -/
def sweep [LE T] [DecidableLE T] (now : T) : Nat → TimeList K T → List K × TimeList K T
  | 0, t => ([], t)
  | n + 1, t =>
      match t.due now with
      | none => ([], t)
      | some key => (key :: (sweep now n t.eraseFront).1, (sweep now n t.eraseFront).2)

/-- `timeout`: each turn erases an entry, so there are at most `m_list.size()` of them. -/
def timeout [LE T] [DecidableLE T] (t : TimeList K T) (now : T) : List K × TimeList K T :=
  sweep now t.size t

/-- One call, with the keys it passes to the callback. -/
def perform [Add T] [LE T] [DecidableLE T] (t : TimeList K T) : Op K T → TimeList K T × List K
  | .add key now => (t.add key now, [])
  | .del key => (t.del key, [])
  | .timeout now => ((t.timeout now).2, (t.timeout now).1)

end Sweep

end TimeList

/-! ## The queue -/

/-- The live keys with the time of their last add, in the order of these adds. -/
abbrev Pending (K T : Type) := List (K × T)

namespace Pending

open TimeList (Op)

/-- The deadline of an entry is at most `now`. -/
def isDue [Add T] [LE T] [DecidableLE T] (wait now : T) (e : K × T) : Bool := e.2 + wait ≤ now

variable [DecidableEq K]

def without (q : Pending K T) (key : K) : Pending K T := q.filter (fun e => e.1 ≠ key)

/-- What a call does to the queue, and the keys that time out. -/
def perform [Add T] [LE T] [DecidableLE T] (wait : T) (q : Pending K T) :
    Op K T → Pending K T × List K
  | .add key now => (q.without key ++ [(key, now)], [])
  | .del key => (q.without key, [])
  | .timeout now => (q.filter (fun e => !isDue wait now e), (q.filter (isDue wait now)).map (·.1))

end Pending

namespace TimeList

variable [DecidableEq K]

/-- The keys and deadlines of `m_list`, in order. -/
def entries (t : TimeList K T) : List (K × T) := t.val.list.map (fun d => (d.key, d.time))

/-- The hash map and the list are in one-to-one correspondence. -/
structure OneToOne (t : TimeList K T) : Prop where
  keys : t.keys.Nodup
  nodes : (t.val.list.map ListData.node).Nodup
  lookup : ∀ key node,
    t.val.map.lookup key = some node ↔ ∃ d ∈ t.val.list, d.key = key ∧ d.node = node

theorem oneToOne (t : TimeList K T) : t.OneToOne where
  keys := t.nodup_keys
  nodes := t.property.nodup
  lookup key node := by
    constructor
    · exact t.property.listed key node
    · intro h
      obtain ⟨d, hd, rfl, rfl⟩ := h
      exact t.property.mapped d hd

/-! ## The operations on the entries -/

/-- Erasing the node of a key erases the entries of the key. -/
theorem eraseNode_eq (t : TimeList K T) {key : K} {node : Nat}
    (h : t.val.map.lookup key = some node) :
    Raw.eraseNode t.val.list node = t.val.list.filter (fun d => d.key ≠ key) := by
  apply List.filter_congr
  intro d hd
  have hmem := t.property.mem_eraseNode_iff h (d := d)
  rw [Raw.mem_eraseNode, and_congr_right_iff] at hmem
  simpa [not_iff_not] using hmem hd

theorem filter_eq_list (t : TimeList K T) {key : K} (h : t.val.map.lookup key = none) :
    t.val.list.filter (fun d => d.key ≠ key) = t.val.list := by
  rw [List.filter_eq_self]
  intro d hd
  simpa using t.property.key_ne_of_lookup_none h hd

theorem entries_without (t : TimeList K T) (key : K) :
    (t.val.list.filter (fun d => d.key ≠ key)).map (fun d => (d.key, d.time)) =
      t.entries.filter (fun e => e.1 ≠ key) := by
  rw [entries, List.filter_map]
  rfl

theorem entries_add [Add T] (t : TimeList K T) (key : K) (now : T) :
    (t.add key now).entries =
      t.entries.filter (fun e => e.1 ≠ key) ++ [(key, now + t.val.timeout)] := by
  have hlist : (t.add key now).val.list = t.val.list.filter (fun d => d.key ≠ key) ++
      [⟨t.val.next, key, now + t.val.timeout⟩] := by
    show (t.val.add key now).list = _
    unfold Raw.add
    cases hlookup : t.val.map.lookup key with
    | some node => rw [← t.eraseNode_eq hlookup]
    | none => rw [t.filter_eq_list hlookup]
  rw [entries, hlist, List.map_append, entries_without]
  rfl

theorem entries_del (t : TimeList K T) (key : K) :
    (t.del key).entries = t.entries.filter (fun e => e.1 ≠ key) := by
  have hlist : (t.del key).val.list = t.val.list.filter (fun d => d.key ≠ key) := by
    show (t.val.del key).list = _
    unfold Raw.del
    cases hlookup : t.val.map.lookup key with
    | some node => rw [← t.eraseNode_eq hlookup]
    | none => rw [t.filter_eq_list hlookup]
  rw [entries, hlist, entries_without]

theorem length_entries (t : TimeList K T) : t.entries.length = t.size := List.length_map _

theorem map_fst_entries (t : TimeList K T) : t.entries.map (·.1) = t.keys := by
  rw [entries, List.map_map, keys]
  rfl

theorem timeout_eraseFront (t : TimeList K T) : t.eraseFront.val.timeout = t.val.timeout := by
  show t.val.eraseFront.timeout = t.val.timeout
  unfold Raw.eraseFront
  split <;> rfl

theorem timeout_del (t : TimeList K T) (key : K) : (t.del key).val.timeout = t.val.timeout := by
  show (t.val.del key).timeout = _
  unfold Raw.del
  split <;> rfl

theorem entries_eraseFront (t : TimeList K T) : t.eraseFront.entries = t.entries.tail := by
  show t.val.eraseFront.list.map _ = (t.val.list.map _).tail
  unfold Raw.eraseFront
  split
  · rename_i hnil
    rw [hnil]
    rfl
  · rename_i d rest hcons
    rw [hcons]
    rfl

/-- What a turn of the loop sees at the front. -/
theorem due_of_entries [LE T] [DecidableLE T] {t : TimeList K T} {e : K × T}
    {rest : List (K × T)} (h : t.entries = e :: rest) (now : T) :
    t.due now = if e.2 ≤ now then some e.1 else none := by
  obtain ⟨d, _, hlist, rfl, -⟩ := List.map_eq_cons_iff.mp h
  rw [due, hlist]

/-- A sweep passes the entries up to the first that is not due. -/
theorem sweep_spec [LE T] [DecidableLE T] (now : T) (n : Nat) (t : TimeList K T)
    (h : t.entries.length = n) :
    (sweep now n t).1 = (t.entries.takeWhile (fun e => e.2 ≤ now)).map (·.1) ∧
      (sweep now n t).2.entries = t.entries.dropWhile (fun e => e.2 ≤ now) ∧
      (sweep now n t).2.val.timeout = t.val.timeout := by
  induction n generalizing t with
  | zero =>
    rw [List.length_eq_zero_iff.mp h]
    exact ⟨rfl, List.length_eq_zero_iff.mp h, rfl⟩
  | succ n ih =>
    obtain ⟨e, rest, hentries⟩ := List.exists_cons_of_length_eq_add_one h
    have hfront : t.eraseFront.entries = rest := by
      rw [entries_eraseFront, hentries, List.tail_cons]
    have hlength : t.eraseFront.entries.length = n := by
      rw [hfront]
      rw [hentries, List.length_cons] at h
      exact Nat.succ.inj h
    obtain ⟨hcalls, hleft, hwait⟩ := ih t.eraseFront hlength
    rw [sweep, due_of_entries hentries, hentries]
    by_cases hdue : e.2 ≤ now
    · rw [if_pos hdue, List.takeWhile_cons_of_pos (by simpa using hdue),
        List.dropWhile_cons_of_pos (by simpa using hdue), List.map_cons, ← hfront]
      exact ⟨congrArg _ hcalls, hleft, hwait.trans t.timeout_eraseFront⟩
    · rw [if_neg hdue, List.takeWhile_cons_of_neg (by simpa using hdue),
        List.dropWhile_cons_of_neg (by simpa using hdue)]
      exact ⟨rfl, hentries, rfl⟩

/-! ## The refinement -/

/-- `now + wait` does not wrap around. -/
def Fits [TimeType T] (wait now : T) : Prop :=
  TimeType.toNat (now + wait) = TimeType.toNat now + TimeType.toNat wait

/-- `t` is the queue `q`: one entry for each key, with the time of its last add and `wait`
added, in order. -/
structure Implements [Add T] (wait : T) (t : TimeList K T) (q : Pending K T) : Prop where
  oneToOne : t.OneToOne
  entries : t.entries = q.map (fun e => (e.1, e.2 + wait))
  keys : (q.map (·.1)).Nodup
  size : t.size = q.length

/-- The calls still to come continue a queue: its times do not decrease, up to those of the
calls, and fit. -/
structure Continues [TimeType T] (wait : T) (t : TimeList K T) (q : Pending K T)
    (ops : List (Op K T)) : Prop where
  timeout : t.val.timeout = wait
  entries : t.entries = q.map (fun e => (e.1, e.2 + wait))
  sorted : q.Pairwise (fun a b => TimeType.toNat a.2 ≤ TimeType.toNat b.2)
  fits : ∀ e ∈ q, Fits wait e.2
  past : ∀ e ∈ q, ∀ now ∈ ops.filterMap Op.clock, TimeType.toNat e.2 ≤ TimeType.toNat now
  clock : (ops.filterMap Op.clock).Pairwise (· ≤ ·)
  adds : ∀ key now, Op.add key now ∈ ops → Fits wait now

section Refinement

variable [TimeType T] {wait : T} {t : TimeList K T} {q : Pending K T} {op : Op K T}
  {ops : List (Op K T)}

/-- A queue cut down to some of its entries, with the calls behind the next. -/
theorem Continues.sublist (h : Continues wait t q (op :: ops)) {t' : TimeList K T}
    {q' : Pending K T} (hq : q'.Sublist q) (htimeout : t'.val.timeout = t.val.timeout)
    (hentries : t'.entries = q'.map (fun e => (e.1, e.2 + wait))) : Continues wait t' q' ops where
  timeout := htimeout.trans h.timeout
  entries := hentries
  sorted := h.sorted.sublist hq
  fits e he := h.fits e (hq.subset he)
  past e he now hnow := by
    refine h.past e (hq.subset he) now ?_
    rw [List.filterMap_cons]
    split
    · exact hnow
    · exact List.mem_cons_of_mem _ hnow
  clock := by
    have hclock := h.clock
    rw [List.filterMap_cons] at hclock
    split at hclock
    · exact hclock
    · exact hclock.of_cons
  adds key now hmem := h.adds key now (List.mem_cons_of_mem _ hmem)

theorem map_without (q : Pending K T) (key : K) :
    (q.without key).map (fun e => (e.1, e.2 + wait)) =
      (q.map (fun e => (e.1, e.2 + wait))).filter (fun e => e.1 ≠ key) := by
  rw [List.filter_map]
  rfl

theorem Continues.without (h : Continues wait t q (op :: ops)) (key : K) :
    Continues wait (t.del key) (q.without key) ops := by
  refine h.sublist List.filter_sublist (timeout_del t key) ?_
  rw [entries_del, h.entries, map_without]

theorem Continues.add {key : K} {now : T} (h : Continues wait t q (.add key now :: ops)) :
    Continues wait (t.add key now) (q.without key ++ [(key, now)]) ops := by
  have hpast : ∀ e ∈ q, TimeType.toNat e.2 ≤ TimeType.toNat now :=
    fun e he => h.past e he now List.mem_cons_self
  have hclock : ∀ later ∈ ops.filterMap Op.clock, now ≤ later := by
    have hclock : (now :: ops.filterMap Op.clock).Pairwise (· ≤ ·) := h.clock
    exact (List.pairwise_cons.mp hclock).1
  have hrest := h.without key
  constructor
  case timeout => exact h.timeout
  case entries =>
    rw [entries_add, h.entries, h.timeout, List.map_append, map_without]
    rfl
  case sorted =>
    refine List.pairwise_append.mpr ⟨hrest.sorted, List.pairwise_singleton _ _, ?_⟩
    intro e he last hlast
    rw [List.mem_singleton.mp hlast]
    exact hpast e (List.mem_of_mem_filter he)
  case fits =>
    intro e he
    rcases List.mem_append.mp he with hold | hnew
    · exact hrest.fits e hold
    · rw [List.mem_singleton.mp hnew]
      exact h.adds key now List.mem_cons_self
  case past =>
    intro e he later hlater
    rcases List.mem_append.mp he with hold | hnew
    · exact hrest.past e hold later hlater
    · rw [List.mem_singleton.mp hnew]
      exact (TimeType.le_iff now later).mp (hclock later hlater)
  case clock => exact hrest.clock
  case adds => exact hrest.adds

/-- In a sorted queue whose times fit, an entry in front of one that is due is due. -/
theorem Continues.dueInFront [DecidableLE T] (h : Continues wait t q ops) (now : T) :
    q.Pairwise (fun a b => Pending.isDue wait now b = true → Pending.isDue wait now a = true) := by
  apply h.sorted.imp_of_mem
  intro a b ha hb hab hdue
  have hdue : TimeType.toNat (b.2 + wait) ≤ TimeType.toNat now :=
    (TimeType.le_iff _ _).mp (of_decide_eq_true hdue)
  apply decide_eq_true
  rw [TimeType.le_iff]
  calc TimeType.toNat (a.2 + wait) = TimeType.toNat a.2 + TimeType.toNat wait := h.fits a ha
    _ ≤ TimeType.toNat b.2 + TimeType.toNat wait := Nat.add_le_add_right hab _
    _ = TimeType.toNat (b.2 + wait) := (h.fits b hb).symm
    _ ≤ TimeType.toNat now := hdue

theorem Continues.timeout_call [DecidableLE T] {now : T}
    (h : Continues wait t q (.timeout now :: ops)) :
    Continues wait (t.timeout now).2 (q.filter (fun e => !Pending.isDue wait now e)) ops ∧
      (t.timeout now).1 = (q.filter (Pending.isDue wait now)).map (·.1) := by
  have hsorted := h.dueInFront now
  obtain ⟨hcalls, hleft, hwait⟩ := sweep_spec now t.size t t.length_entries
  rw [h.entries, List.takeWhile_map] at hcalls
  rw [h.entries, List.dropWhile_map] at hleft
  constructor
  · refine h.sublist List.filter_sublist hwait ?_
    rw [← dropWhile_eq_filter hsorted]
    exact hleft
  · rw [← takeWhile_eq_filter hsorted]
    refine hcalls.trans ?_
    rw [List.map_map]
    rfl

theorem Continues.perform [DecidableLE T] (h : Continues wait t q (op :: ops)) :
    Continues wait (t.perform op).1 (q.perform wait op).1 ops ∧
      (t.perform op).2 = (q.perform wait op).2 := by
  cases op with
  | add key now => exact ⟨h.add, rfl⟩
  | del key => exact ⟨h.without key, rfl⟩
  | timeout now => exact h.timeout_call

theorem Continues.implements (h : Continues wait t q ops) : t.Implements wait q where
  oneToOne := t.oneToOne
  entries := h.entries
  keys := by
    have hkeys := t.nodup_keys
    rw [← map_fst_entries, h.entries, List.map_map] at hkeys
    exact hkeys
  size := by rw [← length_entries, h.entries, List.length_map]

/-- **A `TimeList` is its queue**: behind every sequence of calls its tables hold exactly the
live keys with their deadlines, and each call has passed to the callback what the queue
gives up. -/
theorem implements_pending [DecidableLE T] (wait : T) (ops : List (Op K T))
    (hclock : (ops.filterMap Op.clock).Pairwise (· ≤ ·))
    (hfits : ∀ key now, Op.add key now ∈ ops → Fits wait now) :
    (answers perform (new wait : TimeList K T) ops).1.Implements wait
        (answers (Pending.perform wait) [] ops).1 ∧
      (answers perform (new wait : TimeList K T) ops).2 =
        (answers (Pending.perform wait) [] ops).2 := by
  have hstart : Continues wait (new wait : TimeList K T) [] ops :=
    ⟨rfl, rfl, .nil, by simp, by simp, hclock, hfits⟩
  obtain ⟨hend, hanswers⟩ :=
    answers_simulates (R := Continues wait) (fun _ _ _ _ h => h.perform) hstart
  exact ⟨hend.implements, hanswers⟩

/-- A key is added again behind another one, so both time out in the order of their last
adds; a third is deleted. -/
def readded : List (Op UInt32 UInt64) :=
  [.add 1 100, .add 2 105, .add 3 105, .add 1 107, .timeout 110, .del 3, .timeout 115,
    .timeout 117, .add 1 120]

theorem implements_pending_readded :
    (answers perform (new 10 : TimeList UInt32 UInt64) readded).2 =
        [[], [], [], [], [], [], [2], [1], []] ∧
      (answers perform (new 10 : TimeList UInt32 UInt64) readded).1.Implements 10
        (answers (Pending.perform 10) [] readded).1 := by
  have hfits : ∀ key now, Op.add key now ∈ readded → Fits 10 now := by
    intro key now hadd
    simp only [readded, List.mem_cons, Op.add.injEq, List.not_mem_nil, or_false, false_or,
      reduceCtorEq] at hadd
    rcases hadd with ⟨-, rfl⟩ | ⟨-, rfl⟩ | ⟨-, rfl⟩ | ⟨-, rfl⟩ | ⟨-, rfl⟩ <;> rfl
  obtain ⟨hend, hanswers⟩ := implements_pending 10 readded (by decide) hfits
  exact ⟨hanswers.trans (by decide), hend⟩

end Refinement

end TimeList

end StormNet.Util
