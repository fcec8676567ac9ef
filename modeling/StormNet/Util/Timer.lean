/-
  Util/Timer.lean --- `Timer` of `util/util_timer.cpp`.

  A `TimerNode*` is the number of the node among all ever created.  `m_nodes` is the list of
  its pairs in the order of the multimap, where an insertion goes behind the equal keys;
  `m_search` is the function of its entries.  `update` sweeps the front of `m_nodes`, where
  every turn erases the pair it is at, and inserts the nodes that repeat behind the sweep.
-/
import Mathlib.Data.List.Nodup
import Mathlib.Logic.Function.Basic
import StormNet.Foundation.Machine
import StormNet.Foundation.Sweep

set_option autoImplicit false

namespace StormNet.Util

open StormNet.Foundation
open Function (update)

/-- `Timer::TimerNode`, without its callback. -/
structure TimerNode where
  id : UInt32
  expire : UInt64
  duration : UInt64
  repeats : Bool
  deriving DecidableEq, Repr

/-- `node->expire = ms + node->duration`. -/
def TimerNode.moved (ms : UInt64) (node : TimerNode) : TimerNode :=
  { node with expire := ms + node.duration }

/-- `Timer`. -/
structure Timer where
  /-- `m_nodes` -/
  nodes : List (UInt64 × Nat)
  /-- `m_search` -/
  search : UInt32 → Option Nat
  /-- `m_id` -/
  id : UInt32
  /-- the node behind a pointer -/
  node : Nat → TimerNode
  /-- how many nodes have been created -/
  created : Nat

namespace Timer

/-- `Timer::Timer`. -/
def new : Timer := ⟨[], fun _ => none, 0, fun _ => ⟨0, 0, 0, false⟩, 0⟩

/-- `m_nodes.insert`. -/
def insert (nodes : List (UInt64 × Nat)) (e : UInt64 × Nat) : List (UInt64 × Nat) :=
  insertBehind (fun e => e.1.toNat) nodes e

/-- `addTimer`, with its reading of the clock; also the id it returns. -/
def addTimer (t : Timer) (nowMs ms : UInt64) (repeats : Bool) : Timer × UInt32 :=
  ({ nodes := insert t.nodes (nowMs + ms, t.created)
     search := update t.search t.id (some t.created)
     id := t.id + 1
     node := update t.node t.created ⟨t.id, nowMs + ms, ms, repeats⟩
     created := t.created + 1 }, t.id)

/-- `m_nodes.equal_range`. -/
def equalRange (t : Timer) (expire : UInt64) : List (UInt64 × Nat) :=
  t.nodes.filter (fun e => e.1 = expire)

/-- `delTimer`, with what it returns. -/
def delTimer (t : Timer) (id : UInt32) : Timer × Bool :=
  match t.search id with
  | none => (t, false)
  | some ref =>
      match (t.equalRange (t.node ref).expire).find? (fun e => (t.node e.2).id = id) with
      | none => (t, false)
      | some e =>
          ({ t with nodes := t.nodes.erase e, search := update t.search id none }, true)

/-- `update` under way: `newNodes`, and the ids whose callback has run. -/
structure Sweep where
  timer : Timer
  newNodes : List (UInt64 × Nat)
  fired : List UInt32

/-- A turn behind the callback of a node; `rest` is behind it in `m_nodes`. -/
def fire (ms : UInt64) (w : Sweep) (ref : Nat) (rest : List (UInt64 × Nat)) : Sweep :=
  if (w.timer.node ref).repeats then
    { timer := { w.timer with
        nodes := rest
        node := update w.timer.node ref ((w.timer.node ref).moved ms) }
      newNodes := w.newNodes ++ [(((w.timer.node ref).moved ms).expire, ref)]
      fired := w.fired ++ [(w.timer.node ref).id] }
  else
    { timer := { w.timer with
        nodes := rest
        search := update w.timer.search (w.timer.node ref).id none }
      newNodes := w.newNodes
      fired := w.fired ++ [(w.timer.node ref).id] }

/-- The first loop of `update`, over what is left of `m_nodes`. -/
def sweep (ms : UInt64) : List (UInt64 × Nat) → Sweep → Sweep
  | [], w => w
  | e :: rest, w =>
      if ms < (w.timer.node e.2).expire then w else sweep ms rest (fire ms w e.2 rest)

/-- `update`, with the ids whose callback it runs. -/
def updateTo (t : Timer) (ms : UInt64) : Timer × List UInt32 :=
  let w := sweep ms t.nodes ⟨t, [], []⟩
  ({ w.timer with nodes := w.newNodes.foldl insert w.timer.nodes }, w.fired)

/-- A call of the class. -/
inductive Op where
  | addTimer (nowMs ms : UInt64) (repeats : Bool)
  | delTimer (id : UInt32)
  | update (ms : UInt64)
  deriving DecidableEq, Repr

/-- What a call returns, or the ids whose callback it runs. -/
inductive Answer where
  | id (id : UInt32)
  | found (found : Bool)
  | fired (ids : List UInt32)
  deriving DecidableEq, Repr

def perform (t : Timer) : Op → Timer × Answer
  | .addTimer nowMs ms repeats =>
      ((t.addTimer nowMs ms repeats).1, .id (t.addTimer nowMs ms repeats).2)
  | .delTimer id => ((t.delTimer id).1, .found (t.delTimer id).2)
  | .update ms => ((t.updateTo ms).1, .fired (t.updateTo ms).2)

end Timer

/-! ## The alarms -/

/-- What a timer has been set to. -/
structure Alarm where
  expire : UInt64
  duration : UInt64
  repeats : Bool
  deriving DecidableEq, Repr

/-- What is left of an alarm behind an update to `ms`. -/
def Alarm.after (ms : UInt64) (a : Alarm) : Option Alarm :=
  if a.expire ≤ ms then
    if a.repeats then some { a with expire := ms + a.duration } else none
  else some a

/-- The live timers by their ids, and how many have been created. -/
structure Alarms where
  created : Nat
  live : UInt32 → Option Alarm

namespace Alarms

open Timer (Op Answer)

def none : Alarms := ⟨0, fun _ => .none⟩

/-- What a call does to the alarms. -/
def perform (a : Alarms) : Op → Alarms
  | .addTimer nowMs ms repeats =>
      { created := a.created + 1
        live := update a.live (.ofNat a.created) (some ⟨nowMs + ms, ms, repeats⟩) }
  | .delTimer id => { a with live := update a.live id .none }
  | .update ms => { a with live := fun id => (a.live id).bind (Alarm.after ms) }

/-- `ids` are the timers that are due at `ms`, each once, in non-decreasing order of the
times at which they expire. -/
structure Due (a : Alarms) (ms : UInt64) (ids : List UInt32) : Prop where
  once : ids.Nodup
  due : ∀ id, id ∈ ids ↔ ∃ alarm, a.live id = some alarm ∧ alarm.expire ≤ ms
  sorted : ids.Pairwise (fun i j =>
    ∀ x y, a.live i = some x → a.live j = some y → x.expire ≤ y.expire)

/-- What a call may answer. -/
def Allows (a : Alarms) : Op → Answer → Prop
  | .addTimer _ _ _, .id id => id = .ofNat a.created
  | .delTimer id, .found found => found = (a.live id).isSome
  | .update ms, .fired ids => a.Due ms ids
  | _, _ => False

end Alarms

/-! ## The two maps -/

namespace Timer

/-- `m_nodes` and `m_search` hold the same nodes, each once, under its time and its id. -/
structure Consistent (t : Timer) : Prop where
  same : ∀ ref, ref ∈ t.nodes.map (·.2) ↔ ∃ id, t.search id = some ref
  keyed : ∀ e ∈ t.nodes, e.1 = (t.node e.2).expire
  found : ∀ id ref, t.search id = some ref → (t.node ref).id = id
  once : (t.nodes.map (·.2)).Nodup
  sorted : t.nodes.Pairwise (fun a b => a.1.toNat ≤ b.1.toNat)
  numbered : ∀ id ref, t.search id = some ref → id.toNat = ref ∧ ref < t.created
  id : t.id = .ofNat t.created

/-- `m_search` has the nodes of `l` under their ids, and none of them is deleted. -/
structure Tied (t : Timer) (l : List (UInt64 × Nat)) (deleted : List Nat) : Prop where
  search : ∀ id ref, t.search id = some ref ↔ ref ∈ l.map (·.2) ∧ (t.node ref).id = id
  keyed : ∀ e ∈ l, e.1 = (t.node e.2).expire
  once : (l.map (·.2)).Nodup
  created : ∀ e ∈ l, e.2 < t.created
  alive : ∀ e ∈ l, e.2 ∉ deleted

def alarmOf (node : TimerNode) : Alarm := ⟨node.expire, node.duration, node.repeats⟩

/-- The alarms a timer stands for. -/
def alarms (t : Timer) : Alarms where
  created := t.created
  live id := (t.search id).map (fun ref => alarmOf (t.node ref))

@[simp] theorem live_alarms (t : Timer) (id : UInt32) :
    t.alarms.live id = (t.search id).map (fun ref => alarmOf (t.node ref)) := rfl

variable {t : Timer} {id : UInt32} {ref : Nat} {ms : UInt64}

theorem Consistent.new : Consistent new where
  same ref := by simp [Timer.new]
  keyed e he := by cases he
  found id ref h := by cases h
  once := List.nodup_nil
  sorted := .nil
  numbered id ref h := by cases h
  id := rfl

/-- The node of an entry is found under its id. -/
theorem Consistent.search_of_mem (h : t.Consistent) {e : UInt64 × Nat} (he : e ∈ t.nodes) :
    t.search (t.node e.2).id = some e.2 := by
  obtain ⟨id, hid⟩ := (h.same e.2).mp (List.mem_map_of_mem he)
  rwa [h.found id e.2 hid]

theorem Consistent.mem_of_search (h : t.Consistent) (hid : t.search id = some ref) :
    ((t.node ref).expire, ref) ∈ t.nodes := by
  obtain ⟨e, he, rfl⟩ := List.mem_map.mp ((h.same ref).mpr ⟨id, hid⟩)
  rwa [← h.keyed e he]

theorem Consistent.lt_of_mem (h : t.Consistent) {e : UInt64 × Nat} (he : e ∈ t.nodes) :
    e.2 < t.created :=
  (h.numbered _ _ (h.search_of_mem he)).2

section Tied

variable {l nodes : List (UInt64 × Nat)} {deleted : List Nat} {e : UInt64 × Nat}

theorem Tied.perm (h : t.Tied l deleted) {l' : List (UInt64 × Nat)} (hperm : l.Perm l') :
    t.Tied l' deleted where
  search id ref := by rw [h.search, (hperm.map _).mem_iff]
  keyed e he := h.keyed e (hperm.mem_iff.mpr he)
  once := (hperm.map _).nodup_iff.mp h.once
  created e he := h.created e (hperm.mem_iff.mpr he)
  alive e he := h.alive e (hperm.mem_iff.mpr he)

theorem Tied.search_of_mem (h : t.Tied l deleted) (he : e ∈ l) :
    t.search (t.node e.2).id = some e.2 :=
  (h.search _ _).mpr ⟨List.mem_map_of_mem he, rfl⟩

/-- No two nodes have one id. -/
theorem Tied.same (h : t.Tied l deleted) {d : UInt64 × Nat} (hd : d ∈ l) (he : e ∈ l)
    (hid : (t.node d.2).id = (t.node e.2).id) : d = e := by
  have hsearch := h.search_of_mem hd
  rw [hid, h.search_of_mem he, Option.some.injEq] at hsearch
  exact List.inj_on_of_nodup_map h.once hd he hsearch.symm

/-- A new node under an id that is not in use. -/
theorem Tied.addTimer (h : t.Tied l deleted) (hdeleted : ∀ ref ∈ deleted, ref < t.created)
    (hfresh : t.search t.id = none) (nowMs ms : UInt64) (repeats : Bool) :
    (t.addTimer nowMs ms repeats).1.Tied ((nowMs + ms, t.created) :: l) deleted := by
  have hnode : ∀ ref, ref ≠ t.created → (t.addTimer nowMs ms repeats).1.node ref = t.node ref :=
    fun ref hne => Function.update_of_ne hne _ _
  have hnew : (t.addTimer nowMs ms repeats).1.node t.created = ⟨t.id, nowMs + ms, ms, repeats⟩ :=
    Function.update_self _ _ _
  have hold : ∀ e ∈ l, e.2 ≠ t.created := fun e he => Nat.ne_of_lt (h.created e he)
  have hnot : t.created ∉ l.map (·.2) := by
    intro hmem
    obtain ⟨e, he, heq⟩ := List.mem_map.mp hmem
    exact hold e he heq
  constructor
  case search =>
    intro id ref
    show update t.search t.id (some t.created) id = some ref ↔ _
    rw [Function.update_apply, List.map_cons, List.mem_cons]
    by_cases href : ref = t.created
    · rw [href, hnew]
      by_cases hid : id = t.id
      · rw [if_pos hid]
        exact iff_of_true rfl ⟨.inl rfl, hid.symm⟩
      · rw [if_neg hid, h.search]
        exact iff_of_false (fun hboth => hnot hboth.1) (fun hboth => hid hboth.2.symm)
    · rw [hnode ref href, or_iff_right href, ← h.search]
      by_cases hid : id = t.id
      · rw [if_pos hid, hid, hfresh, Option.some.injEq]
        exact iff_of_false (fun heq => href heq.symm) (fun hnone => nomatch hnone)
      · rw [if_neg hid]
  case keyed =>
    intro e he
    rcases List.mem_cons.mp he with rfl | he
    · rw [hnew]
    · rw [hnode e.2 (hold e he)]
      exact h.keyed e he
  case once => exact List.nodup_cons.mpr ⟨hnot, h.once⟩
  case created =>
    intro e he
    rcases List.mem_cons.mp he with rfl | he
    · exact Nat.lt_succ_self _
    · exact Nat.lt_succ_of_lt (h.created e he)
  case alive =>
    intro e he
    rcases List.mem_cons.mp he with rfl | he
    · exact fun hmem => Nat.lt_irrefl _ (hdeleted _ hmem)
    · exact h.alive e he

theorem Tied.ne_head (h : t.Tied (e :: l) deleted) : ∀ d ∈ l, d.2 ≠ e.2 := by
  intro d hd heq
  have hmem : d.2 ∈ l.map (·.2) := List.mem_map_of_mem hd
  rw [heq] at hmem
  exact (List.nodup_cons.mp h.once).1 hmem

/-- A node that is taken out and deleted. -/
theorem Tied.drop (h : t.Tied (e :: l) deleted) :
    Tied { t with nodes := nodes, search := update t.search (t.node e.2).id none } l
      (e.2 :: deleted) := by
  constructor
  case search =>
    intro id ref
    show update t.search (t.node e.2).id none id = some ref ↔
      ref ∈ l.map (·.2) ∧ (t.node ref).id = id
    rw [Function.update_apply]
    by_cases hid : id = (t.node e.2).id
    · rw [if_pos hid]
      refine iff_of_false (fun hnone => nomatch hnone) ?_
      intro hboth
      obtain ⟨d, hd, rfl⟩ := List.mem_map.mp hboth.1
      have hsame := h.same (List.mem_cons_of_mem e hd) List.mem_cons_self (hboth.2.trans hid)
      exact h.ne_head d hd (congrArg Prod.snd hsame)
    · rw [if_neg hid, h.search, List.map_cons, List.mem_cons]
      apply and_congr_left
      intro hnode
      refine or_iff_right ?_
      intro href
      exact hid (href ▸ hnode.symm)
  case keyed => exact fun d hd => h.keyed d (List.mem_cons_of_mem e hd)
  case once => exact (List.nodup_cons.mp h.once).2
  case created => exact fun d hd => h.created d (List.mem_cons_of_mem e hd)
  case alive =>
    intro d hd
    rw [List.mem_cons, not_or]
    exact ⟨h.ne_head d hd, h.alive d (List.mem_cons_of_mem e hd)⟩

/-- The two maps of a timer that is consistent. -/
theorem Consistent.tied (h : t.Consistent) : t.Tied t.nodes [] where
  search id ref := by
    rw [h.same]
    constructor
    · intro hid
      exact ⟨⟨id, hid⟩, h.found id ref hid⟩
    · intro hboth
      obtain ⟨⟨i, hi⟩, hid⟩ := hboth
      rwa [← hid, h.found i ref hi]
  keyed := h.keyed
  once := h.once
  created e he := h.lt_of_mem he
  alive _ _ := List.not_mem_nil

theorem Tied.consistent (h : t.Tied t.nodes deleted)
    (hsorted : t.nodes.Pairwise (fun a b => a.1.toNat ≤ b.1.toNat))
    (hnumbered : ∀ id ref, t.search id = some ref → id.toNat = ref ∧ ref < t.created)
    (hid : t.id = .ofNat t.created) : t.Consistent where
  same ref := by
    constructor
    · intro hmem
      exact ⟨(t.node ref).id, (h.search _ _).mpr ⟨hmem, rfl⟩⟩
    · intro hsome
      obtain ⟨id, hsearch⟩ := hsome
      exact ((h.search id ref).mp hsearch).1
  keyed := h.keyed
  found id ref hsearch := ((h.search id ref).mp hsearch).2
  once := h.once
  sorted := hsorted
  numbered := hnumbered
  id := hid

end Tied

/-! ## Setting a timer -/

theorem mem_insert {nodes : List (UInt64 × Nat)} {e d : UInt64 × Nat} :
    d ∈ insert nodes e ↔ d = e ∨ d ∈ nodes := by
  rw [insert, (insertBehind_perm nodes e).mem_iff, List.mem_cons]

/-- A new timer gets an id and a node that no live one has. -/
theorem Consistent.fresh (h : t.Consistent) (hfew : t.created < UInt32.size)
    (hsearch : t.search id = some ref) : id ≠ t.id ∧ ref ≠ t.created := by
  obtain ⟨hnumber, hlt⟩ := h.numbered id ref hsearch
  refine ⟨?_, Nat.ne_of_lt hlt⟩
  intro heq
  rw [heq, h.id, UInt32.toNat_ofNat_of_lt' hfew] at hnumber
  omega

theorem Consistent.search_addTimer (h : t.Consistent) (hfew : t.created < UInt32.size)
    (nowMs ms : UInt64) (repeats : Bool) :
    (t.addTimer nowMs ms repeats).1.search id = some ref ↔
      id = t.id ∧ ref = t.created ∨ t.search id = some ref := by
  show update t.search t.id (some t.created) id = some ref ↔ _
  rw [Function.update_apply]
  split
  · rename_i hid
    rw [Option.some.injEq]
    constructor
    · exact fun heq => .inl ⟨hid, heq.symm⟩
    · intro hor
      rcases hor with hnew | hold
      · exact hnew.2.symm
      · exact absurd hid (h.fresh hfew hold).1
  · rename_i hid
    exact (or_iff_right (fun hnew => hid hnew.1)).symm

theorem Consistent.addTimer (h : t.Consistent) (hfew : t.created < UInt32.size)
    (nowMs ms : UInt64) (repeats : Bool) : (t.addTimer nowMs ms repeats).1.Consistent := by
  have hunused : t.search t.id = none := by
    rw [Option.eq_none_iff_forall_ne_some]
    intro ref hsome
    exact (h.fresh hfew hsome).1 rfl
  have hperm : ((nowMs + ms, t.created) :: t.nodes).Perm (t.addTimer nowMs ms repeats).1.nodes :=
    (insertBehind_perm t.nodes _).symm
  have htied := (h.tied.addTimer (fun _ hmem => absurd hmem List.not_mem_nil) hunused nowMs ms
    repeats).perm hperm
  refine htied.consistent (pairwise_insertBehind h.sorted _) ?_ ?_
  · intro id ref hid
    show id.toNat = ref ∧ ref < t.created + 1
    rcases (h.search_addTimer hfew nowMs ms repeats).mp hid with ⟨rfl, rfl⟩ | hold
    · rw [h.id, UInt32.toNat_ofNat_of_lt' hfew]
      exact ⟨rfl, Nat.lt_succ_self _⟩
    · obtain ⟨hnumber, hlt⟩ := h.numbered id ref hold
      exact ⟨hnumber, Nat.lt_succ_of_lt hlt⟩
  · show t.id + 1 = .ofNat (t.created + 1)
    rw [h.id, UInt32.ofNat_add]
    rfl

theorem Consistent.alarms_addTimer (h : t.Consistent) (hfew : t.created < UInt32.size)
    (nowMs ms : UInt64) (repeats : Bool) : (t.addTimer nowMs ms repeats).1.alarms =
      t.alarms.perform (.addTimer nowMs ms repeats) := by
  have hlive : (t.addTimer nowMs ms repeats).1.alarms.live =
      update t.alarms.live t.id (some ⟨nowMs + ms, ms, repeats⟩) := by
    funext id
    show (update t.search t.id (some t.created) id).map (fun ref => alarmOf
      (update t.node t.created ⟨t.id, nowMs + ms, ms, repeats⟩ ref)) = _
    rw [Function.update_apply, Function.update_apply]
    split
    · rw [Option.map_some, Function.update_self]
      rfl
    · apply Option.map_congr
      intro ref hsearch
      rw [Function.update_of_ne (h.fresh hfew hsearch).2]
  rw [Alarms.perform, ← show t.id = .ofNat t.alarms.created from h.id, ← hlive]
  rfl

/-! ## Deleting a timer -/

/-- The search among the equal keys finds the node of an id that no other has. -/
theorem find?_equalRange {e : UInt64 × Nat} (he : e ∈ t.nodes)
    (hkey : e.1 = (t.node e.2).expire) (hid : (t.node e.2).id = id)
    (honly : ∀ d ∈ t.nodes, (t.node d.2).id = id → d = e) :
    (t.equalRange (t.node e.2).expire).find? (fun d => (t.node d.2).id = id) = some e := by
  have hmem : e ∈ t.equalRange (t.node e.2).expire :=
    List.mem_filter.mpr ⟨he, decide_eq_true hkey⟩
  cases hfind : (t.equalRange (t.node e.2).expire).find? (fun d => (t.node d.2).id = id) with
  | none =>
    have hnot := List.find?_eq_none.mp hfind e hmem
    exact absurd (decide_eq_true hid) hnot
  | some d =>
    have hd : d ∈ t.nodes := (List.mem_filter.mp (List.mem_of_find?_eq_some hfind)).1
    have hsame : (t.node d.2).id = id := by
      simpa using List.find?_some hfind
    rw [honly d hd hsame]

/-- It is the node that `m_search` has. -/
theorem Consistent.find?_equalRange (h : t.Consistent) (hid : t.search id = some ref) :
    (t.equalRange (t.node ref).expire).find? (fun e => (t.node e.2).id = id) =
      some ((t.node ref).expire, ref) := by
  have hmem := h.mem_of_search hid
  refine Timer.find?_equalRange hmem rfl (h.found id ref hid) ?_
  intro d hd hsame
  have hsearch := h.search_of_mem hd
  rw [hsame, hid, Option.some.injEq] at hsearch
  exact List.inj_on_of_nodup_map h.once hd hmem hsearch.symm

theorem Consistent.delTimer_of_live (h : t.Consistent) (hid : t.search id = some ref) :
    t.delTimer id = ({ t with
      nodes := t.nodes.erase ((t.node ref).expire, ref)
      search := update t.search id none }, true) := by
  unfold Timer.delTimer
  simp only [hid, h.find?_equalRange hid]

theorem delTimer_of_dead (hid : t.search id = none) : t.delTimer id = (t, false) := by
  unfold Timer.delTimer
  simp only [hid]

/-- The two maps less one node. -/
theorem Consistent.delTimer (h : t.Consistent) (id : UInt32) : (t.delTimer id).1.Consistent := by
  cases hid : t.search id with
  | none =>
    rw [delTimer_of_dead hid]
    exact h
  | some ref =>
    rw [h.delTimer_of_live hid]
    have hfront := h.tied.perm (List.perm_cons_erase (h.mem_of_search hid))
    have hdrop : Tied { t with
        nodes := t.nodes.erase ((t.node ref).expire, ref)
        search := update t.search id none } (t.nodes.erase ((t.node ref).expire, ref)) [ref] :=
      h.found id ref hid ▸ hfront.drop
    refine hdrop.consistent (h.sorted.sublist List.erase_sublist) ?_ h.id
    intro i r hi
    have hi : update t.search id none i = some r := hi
    rw [Function.update_apply] at hi
    split at hi
    · cases hi
    · exact h.numbered i r hi

theorem Consistent.alarms_delTimer (h : t.Consistent) (id : UInt32) :
    (t.delTimer id).1.alarms = t.alarms.perform (.delTimer id) ∧
      (t.delTimer id).2 = (t.alarms.live id).isSome := by
  cases hid : t.search id with
  | none =>
    have hdead : t.alarms.live id = none := by rw [live_alarms, hid, Option.map_none]
    rw [delTimer_of_dead hid, hdead, Alarms.perform, Function.update_eq_self_iff.mpr hdead.symm]
    exact ⟨rfl, rfl⟩
  | some ref =>
    have hlive : t.alarms.live id = some (alarmOf (t.node ref)) := by
      rw [live_alarms, hid, Option.map_some]
    rw [h.delTimer_of_live hid, hlive]
    refine ⟨?_, rfl⟩
    have hupdate : (fun i => (update t.search id none i).map (fun ref => alarmOf (t.node ref))) =
        update t.alarms.live id none := by
      funext i
      rw [Function.update_apply, Function.update_apply]
      split <;> rfl
    rw [Alarms.perform, ← hupdate]
    rfl

/-! ## An update -/

/-- `!(ms < e.first)`. -/
def isDue (ms : UInt64) (e : UInt64 × Nat) : Bool := e.1 ≤ ms

/-- What a sweep over the due pairs `passed` leaves of the nodes and of `m_search`. -/
structure Swept (ms : UInt64) (passed rest : List (UInt64 × Nat)) (w v : Sweep) : Prop where
  nodes : v.timer.nodes = rest
  id : v.timer.id = w.timer.id
  created : v.timer.created = w.timer.created
  fired : v.fired = w.fired ++ passed.map (fun e => (w.timer.node e.2).id)
  newNodes : v.newNodes = w.newNodes ++ (passed.filter (fun e => (w.timer.node e.2).repeats)).map
    (fun e => (ms + (w.timer.node e.2).duration, e.2))
  node : ∀ ref, v.timer.node ref =
    if ref ∈ passed.map (·.2) ∧ (w.timer.node ref).repeats = true then
      (w.timer.node ref).moved ms
    else w.timer.node ref
  search : ∀ id, v.timer.search id =
    if ∃ e ∈ passed, (w.timer.node e.2).repeats = false ∧ (w.timer.node e.2).id = id then none
    else w.timer.search id

theorem Swept.refl (ms : UInt64) (w : Sweep) : Swept ms [] w.timer.nodes w w where
  nodes := rfl
  id := rfl
  created := rfl
  fired := (List.append_nil _).symm
  newNodes := (List.append_nil _).symm
  node ref := by simp
  search id := by simp

section Fire

variable (ms : UInt64) (w : Sweep) (ref : Nat) (behind : List (UInt64 × Nat))

@[simp] theorem id_fire : (fire ms w ref behind).timer.id = w.timer.id := by
  unfold fire
  split <;> rfl

@[simp] theorem created_fire : (fire ms w ref behind).timer.created = w.timer.created := by
  unfold fire
  split <;> rfl

@[simp] theorem nodes_fire : (fire ms w ref behind).timer.nodes = behind := by
  unfold fire
  split <;> rfl

theorem fired_fire :
    (fire ms w ref behind).fired = w.fired ++ [(w.timer.node ref).id] := by
  unfold fire
  split <;> rfl

theorem newNodes_fire : (fire ms w ref behind).newNodes = w.newNodes ++
    if (w.timer.node ref).repeats then [(ms + (w.timer.node ref).duration, ref)] else [] := by
  unfold fire
  split
  · rfl
  · exact (List.append_nil _).symm

theorem node_fire (r : Nat) : (fire ms w ref behind).timer.node r =
    if r = ref ∧ (w.timer.node r).repeats = true then (w.timer.node r).moved ms
    else w.timer.node r := by
  unfold fire
  split
  · rename_i hrepeats
    show update w.timer.node ref _ r = _
    rw [Function.update_apply]
    split
    · rename_i heq
      subst heq
      exact (if_pos ⟨rfl, hrepeats⟩).symm
    · rename_i hne
      rw [if_neg]
      exact fun h => hne h.1
  · rename_i hrepeats
    rw [if_neg]
    exact fun h => hrepeats (h.1 ▸ h.2)

theorem search_fire (id : UInt32) : (fire ms w ref behind).timer.search id =
    if (w.timer.node ref).repeats = false ∧ (w.timer.node ref).id = id then none
    else w.timer.search id := by
  unfold fire
  split
  · rename_i hrepeats
    rw [if_neg]
    simp [hrepeats]
  · rename_i hrepeats
    show update w.timer.search _ none id = _
    rw [Function.update_apply]
    refine if_congr ?_ rfl rfl
    simp [hrepeats, eq_comm]

end Fire

/-- One more turn in front. -/
theorem Swept.cons {w v : Sweep} {e : UInt64 × Nat} {passed rest behind : List (UInt64 × Nat)}
    (hfresh : e.2 ∉ passed.map (·.2)) (h : Swept ms passed rest (fire ms w e.2 behind) v) :
    Swept ms (e :: passed) rest w v := by
  have hsame : ∀ d ∈ passed, (fire ms w e.2 behind).timer.node d.2 = w.timer.node d.2 := by
    intro d hd
    rw [node_fire, if_neg]
    intro heq
    exact hfresh (heq.1 ▸ List.mem_map_of_mem hd)
  constructor
  case nodes => exact h.nodes
  case id => rw [h.id, id_fire]
  case created => rw [h.created, created_fire]
  case fired =>
    have hids := List.map_congr_left (fun d hd => congrArg TimerNode.id (hsame d hd))
    rw [h.fired, fired_fire, hids, List.append_assoc, List.map_cons, List.singleton_append]
  case newNodes =>
    have hrepeats := List.filter_congr (fun d hd => congrArg TimerNode.repeats (hsame d hd))
    have hmoved : ∀ d ∈ passed.filter (fun d => (w.timer.node d.2).repeats),
        (ms + ((fire ms w e.2 behind).timer.node d.2).duration, d.2) =
          (ms + (w.timer.node d.2).duration, d.2) :=
      fun d hd => by rw [hsame d (List.mem_of_mem_filter hd)]
    rw [h.newNodes, newNodes_fire, hrepeats, List.map_congr_left hmoved, List.filter_cons,
      List.append_assoc]
    split <;> rfl
  case node =>
    intro ref
    rw [h.node]
    by_cases hmem : ref ∈ passed.map (·.2)
    · obtain ⟨d, hd, rfl⟩ := List.mem_map.mp hmem
      rw [hsame d hd]
      simp only [hmem, List.map_cons, List.mem_cons, or_true]
    · rw [if_neg (fun hboth => hmem hboth.1), node_fire]
      simp only [hmem, List.map_cons, List.mem_cons, or_false]
  case search =>
    intro id
    rw [h.search, search_fire]
    have hpassed : (∃ d ∈ passed, ((fire ms w e.2 behind).timer.node d.2).repeats = false ∧
        ((fire ms w e.2 behind).timer.node d.2).id = id) ↔
        ∃ d ∈ passed, (w.timer.node d.2).repeats = false ∧ (w.timer.node d.2).id = id :=
      exists_congr fun d => and_congr_right fun hd => by rw [hsame d hd]
    simp only [hpassed, List.mem_cons, exists_eq_or_imp]
    split
    · rename_i hlater
      rw [if_pos (Or.inr hlater)]
    · rename_i hnot
      simp only [hnot, or_false]

/-- A sweep passes the pairs up to the first that is not due. -/
theorem swept_sweep (l : List (UInt64 × Nat)) (w : Sweep) (hnodes : w.timer.nodes = l)
    (hkeyed : ∀ e ∈ l, e.1 = (w.timer.node e.2).expire) (honce : (l.map (·.2)).Nodup) :
    Swept ms (l.takeWhile (isDue ms)) (l.dropWhile (isDue ms)) w (sweep ms l w) := by
  induction l generalizing w with
  | nil =>
    have hrefl := Swept.refl ms w
    rwa [hnodes] at hrefl
  | cons e rest ih =>
    obtain ⟨hfresh, honce⟩ : e.2 ∉ rest.map (·.2) ∧ (rest.map (·.2)).Nodup :=
      List.nodup_cons.mp honce
    have hkey := hkeyed e List.mem_cons_self
    rw [sweep, ← hkey]
    split
    · rename_i hlater
      have hnot : ¬ isDue ms e = true := by
        rw [isDue, decide_eq_true_eq, UInt64.not_le]
        exact hlater
      have hrefl := Swept.refl ms w
      rw [List.takeWhile_cons_of_neg hnot, List.dropWhile_cons_of_neg hnot]
      rwa [hnodes] at hrefl
    · rename_i hdue
      have hdue : isDue ms e = true := decide_eq_true (UInt64.not_lt.mp hdue)
      rw [List.takeWhile_cons_of_pos hdue, List.dropWhile_cons_of_pos hdue]
      refine Swept.cons ?_ (ih (fire ms w e.2 rest) (nodes_fire ms w e.2 rest) ?_ honce)
      · intro hmem
        exact hfresh ((List.takeWhile_prefix (isDue ms)).sublist.map _ |>.subset hmem)
      · intro d hd
        rw [node_fire, if_neg]
        · exact hkeyed d (List.mem_cons_of_mem _ hd)
        · intro heq
          exact hfresh (heq.1 ▸ List.mem_map_of_mem hd)

/-- A node that is due and does not repeat. -/
def Ends (t : Timer) (ms : UInt64) (ref : Nat) : Prop :=
  (t.node ref).expire ≤ ms ∧ (t.node ref).repeats = false

/-- The pairs that `update` runs, and those that it does not come to. -/
def dueNodes (t : Timer) (ms : UInt64) : List (UInt64 × Nat) := t.nodes.filter (isDue ms)

def laterNodes (t : Timer) (ms : UInt64) : List (UInt64 × Nat) :=
  t.nodes.filter (fun e => !isDue ms e)

theorem Consistent.swept (h : t.Consistent) (ms : UInt64) :
    Swept ms (t.dueNodes ms) (t.laterNodes ms) ⟨t, [], []⟩ (sweep ms t.nodes ⟨t, [], []⟩) := by
  have hsorted : t.nodes.Pairwise (fun a b => isDue ms b = true → isDue ms a = true) := by
    apply h.sorted.imp
    intro a b hab hdue
    have hdue : b.1 ≤ ms := of_decide_eq_true hdue
    exact decide_eq_true (UInt64.le_trans (UInt64.le_iff_toNat_le.mpr hab) hdue)
  rw [dueNodes, laterNodes, ← takeWhile_eq_filter hsorted, ← dropWhile_eq_filter hsorted]
  exact swept_sweep t.nodes ⟨t, [], []⟩ rfl h.keyed h.once

theorem Consistent.mem_dueNodes (h : t.Consistent) {e : UInt64 × Nat} :
    e ∈ t.dueNodes ms ↔ e ∈ t.nodes ∧ (t.node e.2).expire ≤ ms := by
  rw [dueNodes, List.mem_filter]
  apply and_congr_right
  intro he
  rw [isDue, decide_eq_true_eq, h.keyed e he]

theorem Consistent.mem_laterNodes (h : t.Consistent) {e : UInt64 × Nat} :
    e ∈ t.laterNodes ms ↔ e ∈ t.nodes ∧ ¬ (t.node e.2).expire ≤ ms := by
  rw [laterNodes, List.mem_filter]
  apply and_congr_right
  intro he
  rw [isDue, Bool.not_eq_true', decide_eq_false_iff_not, h.keyed e he]

/-- The nodes that repeat, under their new times. -/
def movedNodes (t : Timer) (ms : UInt64) : List (UInt64 × Nat) :=
  ((t.dueNodes ms).filter (fun e => (t.node e.2).repeats)).map
    (fun e => (ms + (t.node e.2).duration, e.2))

theorem Consistent.nodes_updateTo (h : t.Consistent) (ms : UInt64) :
    (t.updateTo ms).1.nodes = (t.movedNodes ms).foldl insert (t.laterNodes ms) := by
  obtain ⟨hnodes, -, -, -, hnew, -, -⟩ := h.swept ms
  show (sweep ms t.nodes ⟨t, [], []⟩).newNodes.foldl insert
    (sweep ms t.nodes ⟨t, [], []⟩).timer.nodes = _
  rw [hnodes, hnew]
  rfl

theorem Consistent.fired_updateTo (h : t.Consistent) (ms : UInt64) :
    (t.updateTo ms).2 = (t.dueNodes ms).map (fun e => (t.node e.2).id) :=
  (h.swept ms).fired

/-- A node of a live timer behind an update. -/
theorem Consistent.node_updateTo (h : t.Consistent) (hid : t.search id = some ref) :
    (t.updateTo ms).1.node ref =
      if (t.node ref).expire ≤ ms ∧ (t.node ref).repeats = true then (t.node ref).moved ms
      else t.node ref := by
  refine ((h.swept ms).node ref).trans (if_congr (and_congr_left fun _ => ?_) rfl rfl)
  constructor
  · intro hmem
    obtain ⟨e, he, rfl⟩ := List.mem_map.mp hmem
    exact (h.mem_dueNodes.mp he).2
  · intro hdue
    exact List.mem_map.mpr ⟨_, h.mem_dueNodes.mpr ⟨h.mem_of_search hid, hdue⟩, rfl⟩

theorem Consistent.search_updateTo (h : t.Consistent) :
    (t.updateTo ms).1.search id = some ref ↔ t.search id = some ref ∧ ¬ t.Ends ms ref := by
  have hsearch : (t.updateTo ms).1.search id =
      if ∃ e ∈ t.dueNodes ms, (t.node e.2).repeats = false ∧ (t.node e.2).id = id then none
      else t.search id := (h.swept ms).search id
  rw [hsearch]
  split
  · rename_i hends
    obtain ⟨e, he, hrepeats, rfl⟩ := hends
    obtain ⟨he, hdue⟩ := h.mem_dueNodes.mp he
    rw [h.search_of_mem he]
    constructor
    · intro hnone
      cases hnone
    · intro hlive
      obtain ⟨heq, hnot⟩ := hlive
      rw [← Option.some.inj heq] at hnot
      exact absurd ⟨hdue, hrepeats⟩ hnot
  · rename_i hnot
    refine (and_iff_left_of_imp ?_).symm
    intro hid hends
    have hmem := h.mem_dueNodes.mpr ⟨h.mem_of_search hid, hends.1⟩
    exact hnot ⟨_, hmem, hends.2, h.found id ref hid⟩

theorem Consistent.nodes_updateTo_perm (h : t.Consistent) (ms : UInt64) :
    (t.updateTo ms).1.nodes.Perm (t.laterNodes ms ++ t.movedNodes ms) := by
  rw [h.nodes_updateTo]
  exact foldl_insertBehind_perm _ _

theorem Consistent.mem_nodes_updateTo (h : t.Consistent) {e : UInt64 × Nat} :
    e ∈ (t.updateTo ms).1.nodes ↔ e ∈ t.laterNodes ms ∨ e ∈ t.movedNodes ms := by
  rw [(h.nodes_updateTo_perm ms).mem_iff, List.mem_append]

theorem mem_movedNodes {e : UInt64 × Nat} : e ∈ t.movedNodes ms ↔
    ∃ d ∈ t.dueNodes ms, (t.node d.2).repeats = true ∧
      e = (ms + (t.node d.2).duration, d.2) := by
  simp only [movedNodes, List.mem_map, List.mem_filter, and_assoc, eq_comm]

/-- An update takes the nodes that end out of `m_nodes`. -/
theorem Consistent.mem_refs_updateTo (h : t.Consistent) :
    ref ∈ (t.updateTo ms).1.nodes.map (·.2) ↔
      ref ∈ t.nodes.map (·.2) ∧ ¬ t.Ends ms ref := by
  simp only [List.mem_map, h.mem_nodes_updateTo, h.mem_laterNodes, mem_movedNodes,
    h.mem_dueNodes, Ends]
  constructor
  · intro hmem
    obtain ⟨e, ⟨he, hlater⟩ | ⟨d, ⟨hd, -⟩, hrepeats, rfl⟩, rfl⟩ := hmem
    · exact ⟨⟨e, he, rfl⟩, fun hends => hlater hends.1⟩
    · refine ⟨⟨d, hd, rfl⟩, fun hends => ?_⟩
      rw [hrepeats] at hends
      cases hends.2
  · intro hmem
    obtain ⟨⟨e, he, rfl⟩, hnot⟩ := hmem
    by_cases hdue : (t.node e.2).expire ≤ ms
    · have hrepeats : (t.node e.2).repeats = true := by
        cases hvalue : (t.node e.2).repeats with
        | true => rfl
        | false => exact absurd ⟨hdue, hvalue⟩ hnot
      exact ⟨_, .inr ⟨e, ⟨he, hdue⟩, hrepeats, rfl⟩, rfl⟩
    · exact ⟨e, .inl ⟨he, hdue⟩, rfl⟩

theorem Consistent.once_updateTo (h : t.Consistent) (ms : UInt64) :
    ((t.updateTo ms).1.nodes.map (·.2)).Nodup := by
  have hmoved : (t.movedNodes ms).map (·.2) =
      ((t.dueNodes ms).filter (fun e => (t.node e.2).repeats)).map (·.2) := by
    rw [movedNodes, List.map_map]
    rfl
  have hall : (t.dueNodes ms ++ t.laterNodes ms).Perm t.nodes := List.filter_append_perm _ _
  have hsub : ((t.dueNodes ms).filter (fun e => (t.node e.2).repeats) ++ t.laterNodes ms).Sublist
      (t.dueNodes ms ++ t.laterNodes ms) := List.filter_sublist.append_right _
  rw [((h.nodes_updateTo_perm ms).map _).nodup_iff, List.map_append, hmoved, ← List.map_append,
    (List.perm_append_comm.map _).nodup_iff]
  exact (((hall.map _).nodup_iff).mpr h.once).sublist (hsub.map _)

theorem Consistent.updateTo (h : t.Consistent) (ms : UInt64) :
    (t.updateTo ms).1.Consistent := by
  constructor
  case same =>
    intro ref
    rw [h.mem_refs_updateTo, h.same]
    simp only [h.search_updateTo, exists_and_right]
  case keyed =>
    intro e he
    rcases h.mem_nodes_updateTo.mp he with hlater | hmoved
    · obtain ⟨he, hlater⟩ := h.mem_laterNodes.mp hlater
      rw [h.node_updateTo (h.search_of_mem he), if_neg (fun hdue => hlater hdue.1)]
      exact h.keyed e he
    · obtain ⟨d, hd, hrepeats, rfl⟩ := mem_movedNodes.mp hmoved
      obtain ⟨hd, hdue⟩ := h.mem_dueNodes.mp hd
      rw [h.node_updateTo (h.search_of_mem hd), if_pos ⟨hdue, hrepeats⟩]
      rfl
  case found =>
    intro id ref hid
    obtain ⟨hid, -⟩ := h.search_updateTo.mp hid
    rw [h.node_updateTo hid, ← h.found id ref hid]
    split <;> rfl
  case once => exact h.once_updateTo ms
  case sorted =>
    rw [h.nodes_updateTo]
    exact pairwise_foldl_insertBehind (h.sorted.sublist List.filter_sublist) _
  case numbered =>
    intro id ref hid
    obtain ⟨hnumber, hlt⟩ := h.numbered id ref (h.search_updateTo.mp hid).1
    rw [show (t.updateTo ms).1.created = t.created from (h.swept ms).created]
    exact ⟨hnumber, hlt⟩
  case id => exact (h.swept ms).id.trans (h.id.trans (congrArg _ (h.swept ms).created.symm))

theorem Consistent.alarms_updateTo (h : t.Consistent) (ms : UInt64) :
    (t.updateTo ms).1.alarms = t.alarms.perform (.update ms) := by
  have hlive : (t.updateTo ms).1.alarms.live =
      fun id => (t.alarms.live id).bind (Alarm.after ms) := by
    funext id
    rw [live_alarms, live_alarms]
    cases hid : t.search id with
    | none =>
      have hnone : (t.updateTo ms).1.search id = none := by
        rw [Option.eq_none_iff_forall_ne_some]
        intro ref hsome
        rw [(h.search_updateTo.mp hsome).1] at hid
        cases hid
      rw [hnone]
      rfl
    | some ref =>
      rw [Option.map_some, Option.bind_some]
      by_cases hends : t.Ends ms ref
      · have hnone : (t.updateTo ms).1.search id = none := by
          rw [Option.eq_none_iff_forall_ne_some]
          intro r hsome
          obtain ⟨hr, hnot⟩ := h.search_updateTo.mp hsome
          rw [hid, Option.some.injEq] at hr
          exact hnot (hr ▸ hends)
        rw [hnone, Option.map_none]
        simp [Alarm.after, alarmOf, hends.1, hends.2]
      · rw [h.search_updateTo.mpr ⟨hid, hends⟩, Option.map_some, h.node_updateTo hid]
        unfold Alarm.after alarmOf
        by_cases hdue : (t.node ref).expire ≤ ms
        · have hrepeats : (t.node ref).repeats = true := by
            cases hvalue : (t.node ref).repeats with
            | true => rfl
            | false => exact absurd ⟨hdue, hvalue⟩ hends
          rw [if_pos ⟨hdue, hrepeats⟩, if_pos hdue, if_pos hrepeats]
          rfl
        · rw [if_neg (fun hboth => hdue hboth.1), if_neg hdue]
  have hcreated : (t.updateTo ms).1.created = t.created := (h.swept ms).created
  rw [Alarms.perform, ← hlive]
  rw [alarms, hcreated]
  rfl

theorem Consistent.due_updateTo (h : t.Consistent) (ms : UInt64) :
    t.alarms.Due ms (t.updateTo ms).2 := by
  have hids : ∀ e ∈ t.dueNodes ms, t.search (t.node e.2).id = some e.2 :=
    fun e he => h.search_of_mem (h.mem_dueNodes.mp he).1
  have honce : ((t.dueNodes ms).map (·.2)).Nodup := h.once.sublist (List.filter_sublist.map _)
  rw [h.fired_updateTo]
  constructor
  case once =>
    refine List.Nodup.map_on ?_ (List.Nodup.of_map _ honce)
    intro d hd e he heq
    have hsame := hids d hd
    rw [heq, hids e he, Option.some.injEq] at hsame
    exact List.inj_on_of_nodup_map honce hd he hsame.symm
  case due =>
    intro id
    rw [List.mem_map]
    constructor
    · intro hmem
      obtain ⟨e, he, rfl⟩ := hmem
      refine ⟨alarmOf (t.node e.2), ?_, (h.mem_dueNodes.mp he).2⟩
      rw [live_alarms, hids e he, Option.map_some]
    · intro hlive
      obtain ⟨alarm, hlive, hdue⟩ := hlive
      obtain ⟨ref, hid, rfl⟩ := Option.map_eq_some_iff.mp hlive
      exact ⟨_, h.mem_dueNodes.mpr ⟨h.mem_of_search hid, hdue⟩, h.found id ref hid⟩
  case sorted =>
    have hsorted : (t.dueNodes ms).Pairwise (fun a b => a.1.toNat ≤ b.1.toNat) :=
      h.sorted.sublist List.filter_sublist
    rw [List.pairwise_map]
    apply hsorted.imp_of_mem
    intro d e hd he hle x y hx hy
    rw [live_alarms, hids d hd, Option.map_some, Option.some.injEq] at hx
    rw [live_alarms, hids e he, Option.map_some, Option.some.injEq] at hy
    rw [← hx, ← hy]
    show (t.node d.2).expire ≤ (t.node e.2).expire
    rw [← h.keyed d (h.mem_dueNodes.mp hd).1, ← h.keyed e (h.mem_dueNodes.mp he).1]
    exact UInt64.le_iff_toNat_le.mpr hle

/-! ## Sequences of calls -/

/-- How many timers the calls create. -/
def creates : List Op → Nat
  | [] => 0
  | .addTimer _ _ _ :: ops => creates ops + 1
  | .delTimer _ :: ops => creates ops
  | .update _ :: ops => creates ops

/-- `t` stands for the alarms `a`, and the calls still to come do not use up the ids. -/
structure Tracks (t : Timer) (a : Alarms) (ops : List Op) : Prop where
  consistent : t.Consistent
  alarms : t.alarms = a
  few : a.created + creates ops < UInt32.size

variable {a : Alarms} {op : Op} {ops : List Op}

theorem Tracks.perform (h : Tracks t a (op :: ops)) :
    Tracks (t.perform op).1 (a.perform op) ops ∧ a.Allows op (t.perform op).2 := by
  obtain ⟨hconsistent, rfl, hfew⟩ := h
  cases op with
  | addTimer nowMs ms repeats =>
    have hcreated : t.created < UInt32.size :=
      Nat.lt_of_le_of_lt (Nat.le_add_right _ _) hfew
    refine ⟨⟨hconsistent.addTimer hcreated nowMs ms repeats,
      hconsistent.alarms_addTimer hcreated nowMs ms repeats, ?_⟩, hconsistent.id⟩
    simp only [Alarms.perform, creates] at hfew ⊢
    omega
  | delTimer id =>
    obtain ⟨halarms, hfound⟩ := hconsistent.alarms_delTimer id
    exact ⟨⟨hconsistent.delTimer id, halarms, hfew⟩, hfound⟩
  | update ms =>
    exact ⟨⟨hconsistent.updateTo ms, hconsistent.alarms_updateTo ms, hfew⟩,
      hconsistent.due_updateTo ms⟩

/-- A timer that is no longer live, and whose id has been given out. -/
structure Gone (id : UInt32) (a : Alarms) : Prop where
  dead : a.live id = none
  used : id.toNat < a.created

/-- No call brings it back. -/
theorem Gone.perform (h : Gone id a) (hfew : a.created < UInt32.size) (op : Op) :
    Gone id (a.perform op) := by
  cases op with
  | addTimer nowMs ms repeats =>
    refine ⟨?_, Nat.lt_succ_of_lt h.used⟩
    have hne : id ≠ .ofNat a.created := by
      intro heq
      have hused := h.used
      rw [heq, UInt32.toNat_ofNat_of_lt' hfew] at hused
      exact Nat.lt_irrefl _ hused
    exact (Function.update_of_ne hne _ _).trans h.dead
  | delTimer i =>
    refine ⟨?_, h.used⟩
    show update a.live i none id = none
    rw [Function.update_apply, h.dead, ite_self]
  | update ms =>
    refine ⟨?_, h.used⟩
    show (a.live id).bind (Alarm.after ms) = none
    rw [h.dead, Option.bind_none]

theorem Gone.not_mem (h : Gone id a) {ids : List UInt32} (hdue : a.Due ms ids) : id ∉ ids := by
  intro hmem
  obtain ⟨alarm, hlive, -⟩ := (hdue.due id).mp hmem
  rw [h.dead] at hlive
  cases hlive

/-- A timer that is gone never fires. -/
theorem never_fires (h : Tracks t a ops) (hgone : Gone id a) :
    ∀ ids, Answer.fired ids ∈ (answers perform t ops).2 → id ∉ ids := by
  have hstep : ∀ t a op ops, Tracks t a (op :: ops) ∧ Gone id a →
      (Tracks (t.perform op).1 (a.perform op) ops ∧ Gone id (a.perform op)) ∧
        ∀ ids, (t.perform op).2 = .fired ids → id ∉ ids := by
    intro t a op ops hboth
    obtain ⟨htracks, hgone⟩ := hboth
    obtain ⟨hnext, hallows⟩ := htracks.perform
    have hcreated : a.created < UInt32.size :=
      Nat.lt_of_le_of_lt (Nat.le_add_right _ _) htracks.few
    refine ⟨⟨hnext, hgone.perform hcreated op⟩, ?_⟩
    intro ids hfired
    cases op with
    | update ms =>
      rw [hfired] at hallows
      exact hgone.not_mem hallows
    | addTimer nowMs ms repeats => cases hfired
    | delTimer i => cases hfired
  have hfollows : Follows Alarms.perform (fun _ _ answer => ∀ ids, answer = .fired ids → id ∉ ids)
      a ops (answers perform t ops).2 :=
    (follows_answers (R := fun t a ops => Tracks t a ops ∧ Gone id a) hstep ⟨h, hgone⟩).2
  intro ids hmem
  exact hfollows.forall_mem (P := fun answer => ∀ ids, answer = .fired ids → id ∉ ids)
    (fun _ _ _ h => h) _ hmem ids rfl

/-- A timer that `delTimer` finds is gone. -/
theorem Tracks.gone_delTimer (h : Tracks t a (.delTimer id :: ops))
    (hfound : (t.delTimer id).2 = true) : Gone id (a.perform (.delTimer id)) := by
  obtain ⟨hconsistent, rfl, -⟩ := h
  rw [(hconsistent.alarms_delTimer id).2, live_alarms, Option.isSome_map] at hfound
  obtain ⟨ref, hid⟩ := Option.isSome_iff_exists.mp hfound
  obtain ⟨hnumber, hlt⟩ := hconsistent.numbered id ref hid
  exact ⟨Function.update_self _ _ _, hnumber ▸ hlt⟩

/-- **A timer fires what is due and only that**, over every sequence of calls that creates
fewer than 2^32 timers. -/
theorem fires_what_is_due (ops : List Op) (hfew : creates ops < UInt32.size) :
    (answers perform new ops).1.Consistent ∧
      (answers perform new ops).1.alarms = ops.foldl Alarms.perform .none ∧
      Follows Alarms.perform Alarms.Allows .none ops (answers perform new ops).2 ∧
      ∀ before id after, ops = before ++ .delTimer id :: after →
        ((answers perform new before).1.delTimer id).2 = true →
        ∀ ids, .fired ids ∈ (answers perform ((answers perform new before).1.delTimer id).1
          after).2 → id ∉ ids := by
  have hstart : Tracks new .none ops := by
    refine ⟨.new, rfl, ?_⟩
    show 0 + creates ops < UInt32.size
    rwa [Nat.zero_add]
  obtain ⟨hend, hfollows⟩ := follows_answers (R := Tracks) (fun _ _ _ _ h => h.perform) hstart
  refine ⟨hend.consistent, hend.alarms, hfollows, ?_⟩
  intro before id after hops hfound
  have hbefore : Tracks new .none (before ++ .delTimer id :: after) := hops ▸ hstart
  have hstep : ∀ t a op rest, Tracks t a (op :: rest ++ .delTimer id :: after) →
      Tracks (t.perform op).1 (a.perform op) (rest ++ .delTimer id :: after) ∧
        a.Allows op (t.perform op).2 :=
    fun t a op rest h => Tracks.perform h
  obtain ⟨htracks, -⟩ := follows_answers
    (R := fun t a rest => Tracks t a (rest ++ .delTimer id :: after)) hstep hbefore
  exact never_fires htracks.perform.1 (htracks.gone_delTimer hfound)

/-- A repeating timer with no delay, two timers at one time and one that is deleted. -/
def fourTimers : List Op :=
  [.addTimer 100 0 true, .addTimer 100 20 false, .addTimer 110 10 false, .addTimer 110 50 true,
    .update 120, .delTimer 3, .delTimer 1, .update 200]

theorem fires_what_is_due_of_four :
    (answers perform new fourTimers).2 =
        [.id 0, .id 1, .id 2, .id 3, .fired [0, 1, 2], .found true, .found false, .fired [0]] ∧
      (answers perform new fourTimers).1.Consistent :=
  ⟨by decide, (fires_what_is_due fourTimers (by decide)).1⟩

end Timer

end StormNet.Util
