/-
  Net/AcceptLoop.lean --- A whole call of `handleAccept` of `net/socket_loop.cpp`.

  `SocketLoop` takes the call one turn of `getNewSocket` at a time.  Here it is one function
  of what each `accept()` does, down to its return, over the statuses of the slots.

  The listening fd is registered with `EPOLLET`: what is pending when the call returns is
  reported again only if a connection has arrived since the event at hand.
-/
import Mathlib.Data.List.Basic
import StormNet.Net.SocketLoop

set_option autoImplicit false

namespace StormNet.Net

open StormNet.Foundation
open Function (update update_self update_of_ne)

/-! ## `getNewSocket` -/

/-- `m_maxSocket`, `m_allocId`, and which slots are not `Idle`. -/
structure SlotTable where
  maxSocket : Nat
  allocId : Nat
  busy : Nat → Bool

namespace SlotTable

/-- One turn of the loop of `getNewSocket`. -/
def turn (t : SlotTable) : SlotTable × Option Nat :=
  let id := SocketLoop.nextId t.allocId
  let i := id % t.maxSocket
  if t.busy i then ({ t with allocId := id }, none)
  else ({ t with allocId := id, busy := update t.busy i true }, some i)

/-- What callers of `connect` and `listen` do to the table with `n` turns of theirs. -/
def others : Nat → SlotTable → SlotTable
  | 0, t => t
  | n + 1, t => others n t.turn.1

/-- The loop of `getNewSocket` with `n` turns left; the callers have `between n` turns in
front of the next one. -/
def search (between : Nat → Nat) : Nat → SlotTable → SlotTable × Option Nat
  | 0, t => (t, none)
  | n + 1, t =>
      match (others (between n) t).turn with
      | (t', some i) => (t', some i)
      | (t', none) => search between n t'

/-- How many turns the loop has: `i` runs up to `(int32_t)m_maxSocket`. -/
def maxTurns (t : SlotTable) : Nat := if t.maxSocket < 2 ^ 31 then t.maxSocket else 0

/-- `getNewSocket`. -/
def getNewSocket (between : Nat → Nat) (t : SlotTable) : SlotTable × Option Nat :=
  search between t.maxTurns t

/-- The table in front of the `k`-th call of `getNewSocket`. -/
def before (between : Nat → Nat → Nat) (t : SlotTable) : Nat → SlotTable
  | 0 => t
  | k + 1 => (getNewSocket (between k) (before between t k)).1

/-- The calls of `getNewSocket` that find a slot, out of the next `n`, before the first that
does not. -/
def slotsFrom (between : Nat → Nat → Nat) (t : SlotTable) : Nat → Nat → Nat
  | _, 0 => 0
  | k, n + 1 =>
      if (getNewSocket (between k) (before between t k)).2.isSome then
        slotsFrom between t (k + 1) n + 1
      else 0

/-- How many connections `getNewSocket` finds a slot for. -/
def slots (between : Nat → Nat → Nat) (t : SlotTable) : Nat :=
  slotsFrom between t 0 t.maxSocket

/-- The slots in use. -/
def used (t : SlotTable) : Nat := (List.range t.maxSocket).countP t.busy

section Tables

variable {t : SlotTable} {between : Nat → Nat} {many : Nat → Nat → Nat}

@[simp] theorem maxSocket_turn (t : SlotTable) : t.turn.1.maxSocket = t.maxSocket := by
  simp only [turn]
  split <;> rfl

@[simp] theorem maxSocket_others (n : Nat) (t : SlotTable) :
    (others n t).maxSocket = t.maxSocket := by
  induction n generalizing t with
  | zero => rfl
  | succ n ih => rw [others, ih, maxSocket_turn]

/-- A turn that finds nothing leaves the slots alone, one that finds a slot takes it. -/
theorem turn_cases (t : SlotTable) :
    t.turn.2 = none ∧ t.turn.1.busy = t.busy ∨
      ∃ i, t.turn.2 = some i ∧ t.busy i = false ∧ t.turn.1.busy = update t.busy i true ∧
        i = SocketLoop.nextId t.allocId % t.maxSocket := by
  simp only [turn]
  split
  · exact .inl ⟨rfl, rfl⟩
  · rename_i hidle
    exact .inr ⟨_, rfl, by simpa using hidle, rfl, rfl⟩

theorem countP_update {busy : Nat → Bool} {i n : Nat} (hi : i < n) (hidle : busy i = false) :
    (List.range n).countP (update busy i true) = (List.range n).countP busy + 1 := by
  induction n with
  | zero => omega
  | succ n ih =>
    rw [List.range_succ, List.countP_append, List.countP_append, List.countP_singleton,
      List.countP_singleton]
    by_cases hin : i = n
    · subst hin
      have hsame : (List.range i).countP (update busy i true) = (List.range i).countP busy := by
        refine List.countP_congr (fun k hk => ?_)
        rw [update_of_ne (by have := List.mem_range.mp hk; omega)]
      rw [hsame, update_self, hidle]
      rfl
    · rw [ih (by omega), update_of_ne (by omega)]
      omega

/-- A turn uses one slot more, or as many. -/
theorem used_turn (t : SlotTable) :
    t.used ≤ t.turn.1.used ∧ ∀ i, t.turn.2 = some i → 0 < t.maxSocket → t.used < t.turn.1.used := by
  unfold used
  rw [maxSocket_turn]
  rcases t.turn_cases with ⟨hnone, hbusy⟩ | ⟨i, hsome, hidle, hbusy, hi⟩
  · rw [hbusy, hnone]
    exact ⟨le_refl _, fun i hi => by simp at hi⟩
  · rw [hbusy]
    by_cases hmax : 0 < t.maxSocket
    · have hlt : i < t.maxSocket := by
        rw [hi]
        exact Nat.mod_lt _ hmax
      rw [countP_update hlt hidle]
      exact ⟨by omega, fun _ _ _ => by omega⟩
    · have hzero : t.maxSocket = 0 := by omega
      rw [hzero]
      exact ⟨le_refl _, fun _ _ h => by omega⟩

theorem used_others (n : Nat) (t : SlotTable) : t.used ≤ (others n t).used := by
  induction n generalizing t with
  | zero => exact le_refl _
  | succ n ih => exact Nat.le_trans t.used_turn.1 (ih t.turn.1)

theorem used_le (t : SlotTable) : t.used ≤ t.maxSocket := by
  have hlen := List.countP_le_length (p := t.busy) (l := List.range t.maxSocket)
  rwa [List.length_range] at hlen

@[simp] theorem maxSocket_search (n : Nat) (t : SlotTable) :
    (search between n t).1.maxSocket = t.maxSocket := by
  induction n generalizing t with
  | zero => rfl
  | succ n ih =>
    have hturn := maxSocket_turn (others (between n) t)
    rw [maxSocket_others] at hturn
    rw [search]
    split
    · rename_i hresult
      rw [← hturn, hresult]
    · rename_i hresult
      rw [ih, ← hturn, hresult]

/-- A search that finds a slot uses it. -/
theorem used_search {n : Nat} (hmax : 0 < t.maxSocket) :
    t.used ≤ (search between n t).1.used ∧
      ((search between n t).2.isSome → t.used < (search between n t).1.used) := by
  induction n generalizing t with
  | zero => exact ⟨le_refl _, fun h => by simp [search] at h⟩
  | succ n ih =>
    have hothers := used_others (between n) t
    obtain ⟨hle, hlt⟩ := used_turn (others (between n) t)
    rw [maxSocket_others] at hlt
    have hmax' := maxSocket_turn (others (between n) t)
    rw [maxSocket_others] at hmax'
    rw [search]
    split
    · rename_i t' i hresult
      rw [hresult] at hle hlt
      have hlt' := hlt i rfl hmax
      exact ⟨by omega, fun _ => by omega⟩
    · rename_i t' hresult
      rw [hresult] at hle hmax'
      dsimp only at hle hmax'
      obtain ⟨ihle, ihlt⟩ := ih (t := t') (by omega)
      exact ⟨by omega, fun h => by have := ihlt h; omega⟩

@[simp] theorem maxSocket_before (k : Nat) : (before many t k).maxSocket = t.maxSocket := by
  induction k with
  | zero => rfl
  | succ k ih => rw [before, getNewSocket, maxSocket_search, ih]

theorem pos_of_found {between : Nat → Nat} (h : (getNewSocket between t).2.isSome) :
    0 < t.maxSocket := by
  by_contra hzero
  have hturns : t.maxTurns = 0 := by
    unfold maxTurns
    split <;> omega
  simp [getNewSocket, hturns, search] at h

/-- Each slot found is one more in use. -/
theorem le_used_before {k : Nat}
    (h : ∀ j < k, (getNewSocket (many j) (before many t j)).2.isSome) :
    k ≤ (before many t k).used := by
  induction k with
  | zero => exact Nat.zero_le _
  | succ k ih =>
    have hk := ih (fun j hj => h j (by omega))
    have hfound := h k (by omega)
    have hlt := (used_search (pos_of_found hfound)).2 hfound
    rw [before]
    exact Nat.lt_of_le_of_lt hk hlt

theorem slotsFrom_spec (many : Nat → Nat → Nat) (t : SlotTable) (k n : Nat) :
    slotsFrom many t k n ≤ n ∧
    (∀ j, k ≤ j → j < k + slotsFrom many t k n →
      (getNewSocket (many j) (before many t j)).2.isSome) ∧
    (slotsFrom many t k n < n →
      (getNewSocket (many (k + slotsFrom many t k n))
        (before many t (k + slotsFrom many t k n))).2 = none) := by
  induction n generalizing k with
  | zero =>
    refine ⟨le_refl _, fun j hj hlt => ?_, fun h => by omega⟩
    rw [slotsFrom] at hlt
    omega
  | succ n ih =>
    rw [slotsFrom]
    split
    · rename_i hfound
      obtain ⟨hle, hsome, hnone⟩ := ih (k + 1)
      have hadd : k + (slotsFrom many t (k + 1) n + 1) = k + 1 + slotsFrom many t (k + 1) n := by
        omega
      refine ⟨by omega, fun j hj hlt => ?_, fun hlt => ?_⟩
      · rcases Nat.eq_or_lt_of_le hj with hjk | hjk
        · rw [← hjk]
          exact hfound
        · exact hsome j hjk (by omega)
      · rw [hadd]
        exact hnone (by omega)
    · rename_i hnot
      refine ⟨Nat.zero_le _, fun j hj hlt => by omega, fun _ => ?_⟩
      exact Option.not_isSome_iff_eq_none.mp hnot

/-- The connections up to `slots` find a slot. -/
theorem found_of_lt_slots {k : Nat} (h : k < slots many t) :
    (getNewSocket (many k) (before many t k)).2.isSome :=
  (slotsFrom_spec many t 0 t.maxSocket).2.1 k (Nat.zero_le k) (by rw [Nat.zero_add]; exact h)

/-- The next one does not. -/
theorem none_at_slots (many : Nat → Nat → Nat) (t : SlotTable) :
    (getNewSocket (many (slots many t)) (before many t (slots many t))).2 = none := by
  obtain ⟨hle, hsome, hnone⟩ := slotsFrom_spec many t 0 t.maxSocket
  rw [Nat.zero_add] at hsome hnone
  rcases Nat.eq_or_lt_of_le hle with hall | hlt
  · -- all of them are taken
    rw [← Option.not_isSome_iff_eq_none]
    intro hfound
    have hused : slots many t + 1 ≤ (before many t (slots many t + 1)).used := by
      refine le_used_before (fun j hj => ?_)
      rcases Nat.eq_or_lt_of_le (Nat.le_of_lt_succ hj) with hjk | hjk
      · rw [hjk]
        exact hfound
      · exact found_of_lt_slots hjk
    have hbound := used_le (before many t (slots many t + 1))
    rw [maxSocket_before] at hbound
    have hslots : slots many t = t.maxSocket := hall
    omega
  · exact hnone hlt

end Tables

end SlotTable

/-! ## `handleAccept` -/

/-- What an `accept()` does. -/
inductive AcceptOutcome where
  | connection
  /-- `EAGAIN` -/
  | again
  /-- `EMFILE` or `ENFILE` -/
  | exhausted
  /-- another error -/
  | error
  deriving DecidableEq, Repr

/-- An `accept()`, and what happens up to the next one. -/
structure Round where
  outcome : AcceptOutcome
  /-- connections that arrive -/
  arrived : Nat
  /-- whether some fd is closed -/
  closed : Bool

/-- What a call of `handleAccept` meets. -/
structure AcceptEnv where
  round : Nat → Round
  /-- the turns of the callers of `connect` and `listen` within each `getNewSocket` -/
  between : Nat → Nat → Nat

/-- A call of `handleAccept`. -/
structure Acceptor where
  table : SlotTable
  /-- the calls of `getNewSocket` so far -/
  searches : Nat
  /-- connections that wait for an `accept()` -/
  pending : Nat
  /-- whether one has arrived since the event was reported -/
  edge : Bool
  /-- the last `accept()`, once the call has returned -/
  returned : Option AcceptOutcome

namespace Acceptor

/-- What arrives behind an `accept()`. -/
def arrive (a : Acceptor) (n : Nat) : Acceptor :=
  { a with pending := a.pending + n, edge := a.edge || decide (0 < n) }

/-- A turn of the loop of `handleAccept`. -/
def turn (between : Nat → Nat → Nat) (a : Acceptor) (r : Round) : Acceptor :=
  match r.outcome with
  | .again => { a with returned := some .again }.arrive r.arrived
  | .exhausted | .error => a.arrive r.arrived
  | .connection =>
      let a := { a with pending := a.pending - 1, searches := a.searches + 1 }
      match a.table.getNewSocket (between (a.searches - 1)) with
      | (table, some _) => { a with table }.arrive r.arrived
      -- the new fd is closed
      | (table, none) => { a with table, returned := some .connection }.arrive r.arrived

/-- The call behind `n` calls of `accept()`, if it has not returned before. -/
def run (env : AcceptEnv) (a : Acceptor) : Nat → Acceptor
  | 0 => a
  | n + 1 =>
      let a := run env a n
      if a.returned.isSome then a else a.turn env.between (env.round n)

/-- In front of the first `accept()`. -/
def start (table : SlotTable) (pending : Nat) (edge : Bool) : Acceptor :=
  ⟨table, 0, pending, edge, none⟩

/-! ## What the kernel does -/

/-- EAGAIN means that nothing is pending, a connection was pending, and an exhaustion of fds
goes on until one is closed. -/
structure Possible (env : AcceptEnv) (a : Acceptor) : Prop where
  again : ∀ n, (run env a n).returned = none → (env.round n).outcome = .again →
    (run env a n).pending = 0
  connection : ∀ n, (run env a n).returned = none → (env.round n).outcome = .connection →
    0 < (run env a n).pending
  exhausted : ∀ n, (env.round n).outcome = .exhausted → (env.round n).closed = false →
    (env.round (n + 1)).outcome = .exhausted

/-- The call returns, and what is pending then is reported: `accept()` has reported EAGAIN,
nothing is pending, or a connection has arrived since the event. -/
def Honoured (env : AcceptEnv) (a : Acceptor) : Prop :=
  ∃ n outcome, (run env a n).returned = some outcome ∧
    (outcome = .again ∨ (run env a n).pending = 0 ∨ (run env a n).edge = true)

end Acceptor

/-! ## The environment -/

namespace AcceptEnv

/-- The connections out of the first `n` calls of `accept()`. -/
def connections (env : AcceptEnv) : Nat → Nat
  | 0 => 0
  | n + 1 => env.connections n + if (env.round n).outcome = .connection then 1 else 0

/-- The connections that arrive during the first `n`. -/
def arrivals (env : AcceptEnv) : Nat → Nat
  | 0 => 0
  | n + 1 => env.arrivals n + (env.round n).arrived

/-- None of the first `n` calls of `accept()` ends `handleAccept` when there are `slots` slots. -/
def Open (env : AcceptEnv) (slots n : Nat) : Prop :=
  (∀ m < n, (env.round m).outcome ≠ .again) ∧ env.connections n ≤ slots

end AcceptEnv

/-! ## Whole calls -/

namespace Acceptor

variable {env : AcceptEnv} {t : SlotTable} {pending : Nat} {edge : Bool}

/-- The call in front of the `accept()` number `n`, if it is still going on there. -/
def live (env : AcceptEnv) (t : SlotTable) (pending : Nat) (edge : Bool) (n : Nat) : Acceptor where
  table := t.before env.between (env.connections n)
  searches := env.connections n
  pending := pending + env.arrivals n - env.connections n
  edge := edge || decide (0 < env.arrivals n)
  returned := none

theorem arrive_edge (n m : Nat) :
    ((edge || decide (0 < n)) || decide (0 < m)) = (edge || decide (0 < n + m)) := by
  cases edge
  · simp only [Bool.false_or, ← Bool.decide_or, decide_eq_decide]
    omega
  · rfl

theorem open_of_succ {slots n : Nat} (h : env.Open slots (n + 1)) :
    env.Open slots n ∧ (env.round n).outcome ≠ .again ∧
      ((env.round n).outcome = .connection → env.connections n < slots) := by
  obtain ⟨hagain, hconn⟩ := h
  rw [AcceptEnv.connections] at hconn
  refine ⟨⟨fun m hm => hagain m (by omega), by omega⟩, hagain n (by omega), fun hout => ?_⟩
  rw [if_pos hout] at hconn
  omega

/-- The loop goes on over an error. -/
theorem turn_error {n : Nat} (hagain : (env.round n).outcome ≠ .again)
    (hconn : (env.round n).outcome ≠ .connection)
    (hle : env.connections n ≤ pending + env.arrivals n) :
    (live env t pending edge n).turn env.between (env.round n) =
      live env t pending edge (n + 1) := by
  have hlive : (live env t pending edge n).arrive (env.round n).arrived =
      live env t pending edge (n + 1) := by
    simp only [live, arrive, AcceptEnv.connections, if_neg hconn, AcceptEnv.arrivals, Nat.add_zero,
      arrive_edge, Acceptor.mk.injEq, and_true, true_and]
    exact ⟨by omega, rfl⟩
  unfold turn
  cases hout : (env.round n).outcome with
  | again => exact absurd hout hagain
  | connection => exact absurd hout hconn
  | exhausted => exact hlive
  | error => exact hlive

/-- The loop goes on over a connection that finds a slot. -/
theorem turn_connection {n : Nat} (hout : (env.round n).outcome = .connection)
    (hslots : env.connections n < t.slots env.between)
    (hlt : env.connections n < pending + env.arrivals n) :
    (live env t pending edge n).turn env.between (env.round n) =
      live env t pending edge (n + 1) := by
  have hfound := SlotTable.found_of_lt_slots hslots
  obtain ⟨i, hi⟩ := Option.isSome_iff_exists.mp hfound
  have hresult : SlotTable.getNewSocket (env.between (env.connections n))
      (t.before env.between (env.connections n)) =
        (t.before env.between (env.connections n + 1), some i) := by
    rw [SlotTable.before, ← hi]
  unfold turn
  rw [hout]
  simp only [live, Nat.add_sub_cancel, hresult, arrive, AcceptEnv.connections, if_pos hout,
    AcceptEnv.arrivals, arrive_edge, Acceptor.mk.injEq, and_true, true_and]
  exact ⟨by omega, rfl⟩

/-- While the call goes on, its state is what the environment says. -/
theorem run_live (h : Possible env (start t pending edge)) {n : Nat}
    (hopen : env.Open (t.slots env.between) n) :
    run env (start t pending edge) n = live env t pending edge n ∧
      env.connections n ≤ pending + env.arrivals n := by
  induction n with
  | zero =>
    refine ⟨?_, Nat.zero_le _⟩
    simp [run, live, start, AcceptEnv.connections, AcceptEnv.arrivals, SlotTable.before]
  | succ n ih =>
    obtain ⟨hopen', hagain, hslots⟩ := open_of_succ hopen
    obtain ⟨hrun, hle⟩ := ih hopen'
    have hgoes : run env (start t pending edge) (n + 1) =
        (live env t pending edge n).turn env.between (env.round n) := by
      rw [run, hrun]
      rfl
    rw [hgoes, AcceptEnv.connections, AcceptEnv.arrivals]
    by_cases hout : (env.round n).outcome = .connection
    · have hpos := h.connection n (by rw [hrun]; rfl) hout
      rw [hrun] at hpos
      have hlt : env.connections n < pending + env.arrivals n := Nat.lt_of_sub_pos hpos
      rw [turn_connection hout (hslots hout) hlt, if_pos hout]
      exact ⟨rfl, by omega⟩
    · rw [turn_error hagain hout hle, if_neg hout]
      exact ⟨rfl, by omega⟩

/-- Once the call has returned, nothing changes. -/
theorem run_frozen {a : Acceptor} {n m : Nat} (h : (run env a n).returned.isSome) (hnm : n ≤ m) :
    run env a m = run env a n := by
  induction hnm with
  | refl => rfl
  | @step m _ ih =>
    rw [run, ih]
    exact if_pos h

theorem run_eq {a : Acceptor} {n m : Nat} (hn : (run env a n).returned.isSome)
    (hm : (run env a m).returned.isSome) : run env a n = run env a m := by
  rcases Nat.le_total n m with hle | hle
  · exact (run_frozen hn hle).symm
  · exact run_frozen hm hle

/-- An `accept()` that ends the call: EAGAIN, or a connection behind the last slot. -/
theorem ends_of_open {slots n : Nat} (hopen : env.Open slots n)
    (hend : ¬ env.Open slots (n + 1)) :
    (env.round n).outcome = .again ∨
      (env.round n).outcome = .connection ∧ env.connections n = slots := by
  by_contra hgoes
  refine hend ⟨fun m hm => ?_, ?_⟩
  · rcases Nat.eq_or_lt_of_le (Nat.le_of_lt_succ hm) with hmn | hmn
    · rw [hmn]
      exact fun hagain => hgoes (Or.inl hagain)
    · exact hopen.1 m hmn
  · have hle := hopen.2
    rw [AcceptEnv.connections]
    split
    · rename_i hconn
      have hne : env.connections n ≠ slots := fun heq => hgoes (Or.inr ⟨hconn, heq⟩)
      omega
    · omega

/-- Where the call is over, some `accept()` ends it. -/
theorem exists_end {slots n : Nat} (h : ¬ env.Open slots n) :
    ∃ m, env.Open slots m ∧ ¬ env.Open slots (m + 1) := by
  induction n with
  | zero => exact absurd ⟨fun m hm => by omega, Nat.zero_le _⟩ h
  | succ n ih =>
    by_cases hopen : env.Open slots n
    · exact ⟨n, hopen, h⟩
    · exact ih hopen

theorem returned_again (h : Possible env (start t pending edge)) {n : Nat}
    (hopen : env.Open (t.slots env.between) n) (hout : (env.round n).outcome = .again) :
    (run env (start t pending edge) (n + 1)).returned = some .again := by
  rw [run, (run_live h hopen).1]
  show ((live env t pending edge n).turn env.between (env.round n)).returned = some .again
  rw [turn, hout]
  rfl

/-- The call that finds no slot returns with what is pending behind its connection. -/
theorem returned_full (h : Possible env (start t pending edge)) {n : Nat}
    (hopen : env.Open (t.slots env.between) n) (hout : (env.round n).outcome = .connection)
    (hfull : env.connections n = t.slots env.between) :
    (run env (start t pending edge) (n + 1)).returned = some .connection ∧
    ((run env (start t pending edge) (n + 1)).pending = 0 ∨
      (run env (start t pending edge) (n + 1)).edge = true ↔
        pending ≤ t.slots env.between + 1 ∨ edge = true ∨ 0 < env.arrivals (n + 1)) := by
  have hnone := t.none_at_slots env.between
  rw [← hfull] at hnone ⊢
  have hresult : SlotTable.getNewSocket (env.between (env.connections n))
      (t.before env.between (env.connections n)) =
        (t.before env.between (env.connections n + 1), none) := by
    rw [SlotTable.before, ← hnone]
  have hrun : run env (start t pending edge) (n + 1) =
      { live env t pending edge n with
        table := t.before env.between (env.connections n + 1)
        searches := env.connections n + 1
        pending := pending + env.arrivals n - env.connections n - 1 + (env.round n).arrived
        edge := edge || decide (0 < env.arrivals (n + 1))
        returned := some .connection } := by
    rw [run, (run_live h hopen).1]
    show (live env t pending edge n).turn env.between (env.round n) = _
    rw [turn, hout]
    simp only [live, Nat.add_sub_cancel, hresult, arrive, arrive_edge, AcceptEnv.arrivals]
    rfl
  have hpos := h.connection n (by rw [(run_live h hopen).1]; rfl) hout
  rw [(run_live h hopen).1] at hpos
  replace hpos : 0 < pending + env.arrivals n - env.connections n := hpos
  rw [hrun, AcceptEnv.arrivals]
  refine ⟨rfl, ?_⟩
  cases edge with
  | true => simp
  | false =>
    simp only [Bool.or_eq_true, decide_eq_true_eq, Bool.false_eq_true, false_or]
    omega

/-! ## The result -/

/-- **When `handleAccept` honours the edge-triggered contract.**  A call of it returns, with
EAGAIN or a later event for what is still pending, exactly if `accept()` comes to report
EAGAIN or one connection more than there are slots, and, in the second case, at most that one
was pending or another has arrived since the event. -/
theorem accept_honoured_iff (env : AcceptEnv) (t : SlotTable) (pending : Nat) (edge : Bool)
    (h : Possible env (start t pending edge)) :
    Honoured env (start t pending edge) ↔
      (∃ n, (env.round n).outcome = .again ∨
        t.slots env.between < env.connections (n + 1)) ∧
      ∀ n, env.Open (t.slots env.between) n → (env.round n).outcome = .connection →
        env.connections n = t.slots env.between →
        pending ≤ t.slots env.between + 1 ∨ edge = true ∨ 0 < env.arrivals (n + 1) := by
  constructor
  · intro hhonoured
    obtain ⟨k, outcome, hreturned, hreported⟩ := hhonoured
    constructor
    · by_contra hnever
      have hopen : env.Open (t.slots env.between) k := by
        refine ⟨fun m _ hm => hnever ⟨m, Or.inl hm⟩, ?_⟩
        cases k with
        | zero => exact Nat.zero_le _
        | succ m =>
          by_contra hlt
          exact hnever ⟨m, Or.inr (by omega)⟩
      rw [(run_live h hopen).1] at hreturned
      cases hreturned
    · intro n hopen hout hfull
      obtain ⟨hret, hsettled⟩ := returned_full h hopen hout hfull
      have hsame : run env (start t pending edge) (n + 1) = run env (start t pending edge) k :=
        run_eq (by rw [hret]; rfl) (by rw [hreturned]; rfl)
      rw [hsame, hreturned] at hret
      rw [hsame] at hsettled
      cases hret
      rcases hreported with hagain | hlater
      · cases hagain
      · exact hsettled.mp hlater
  · intro hcond
    obtain ⟨⟨k, hk⟩, hfits⟩ := hcond
    have hnot : ¬ env.Open (t.slots env.between) (k + 1) := by
      intro hopen
      rcases hk with hagain | hover
      · exact hopen.1 k (Nat.lt_succ_self k) hagain
      · exact Nat.not_le_of_lt hover hopen.2
    obtain ⟨n, hopen, hend⟩ := exists_end hnot
    rcases ends_of_open hopen hend with hout | ⟨hout, hfull⟩
    · exact ⟨n + 1, .again, returned_again h hopen hout, Or.inl rfl⟩
    · obtain ⟨hret, hsettled⟩ := returned_full h hopen hout hfull
      exact ⟨n + 1, .connection, hret, Or.inr (hsettled.mpr (hfits n hopen hout hfull))⟩

/-- Two slots of which one is free. -/
def oneFree : SlotTable := ⟨2, 0, fun i => decide (i = 0)⟩

/-- One connection, then EAGAIN. -/
def oneConnection : AcceptEnv where
  round n := if n = 0 then ⟨.connection, 0, false⟩ else ⟨.again, 0, false⟩
  between _ _ := 0

theorem run_oneConnection (n : Nat) :
    run oneConnection (start oneFree 1 false) (n + 2) =
      run oneConnection (start oneFree 1 false) 2 :=
  run_frozen (by decide) (by omega)

theorem possible_oneConnection : Possible oneConnection (start oneFree 1 false) where
  again n hrun hout := by
    cases n with
    | zero => cases hout
    | succ n =>
      cases n with
      | zero => decide
      | succ n =>
        rw [run_oneConnection]
        decide
  connection n _ hout := by
    cases n with
    | zero => decide
    | succ n => cases hout
  exhausted n hout _ := by
    cases n with
    | zero => cases hout
    | succ n => cases hout

/-- One connection for one free slot. -/
theorem accept_honoured_iff_of_one :
    Possible oneConnection (start oneFree 1 false) ∧
      Honoured oneConnection (start oneFree 1 false) := by
  refine ⟨possible_oneConnection,
    (accept_honoured_iff oneConnection oneFree 1 false possible_oneConnection).mpr
      ⟨⟨1, Or.inl rfl⟩, fun n _ _ _ => Or.inl ?_⟩⟩
  decide

/-- An exhaustion of fds keeps the call in its loop while no fd is closed. -/
theorem exhausted_forever {a : Acceptor} (h : Possible env a) {n : Nat}
    (hrun : (run env a n).returned = none) (hout : (env.round n).outcome = .exhausted)
    (hclosed : ∀ m, n ≤ m → (env.round m).closed = false) (m : Nat) :
    (run env a (n + m)).returned = none ∧ (env.round (n + m)).outcome = .exhausted := by
  induction m with
  | zero => exact ⟨hrun, hout⟩
  | succ m ih =>
    obtain ⟨hret, hexh⟩ := ih
    refine ⟨?_, h.exhausted (n + m) hexh (hclosed (n + m) (by omega))⟩
    rw [Nat.add_succ, run, hret]
    show ((run env a (n + m)).turn env.between (env.round (n + m))).returned = none
    rw [turn, hexh]
    exact hret

/-- The same outcome of every `accept()`, while nothing arrives and no fd is closed. -/
def constantly (outcome : AcceptOutcome) : AcceptEnv where
  round _ := ⟨outcome, 0, false⟩
  between _ _ := 0

/-- A single slot, taken. -/
def noneFree : SlotTable := ⟨1, 0, fun _ => true⟩

theorem run_constantly (n : Nat) :
    run (constantly .connection) (start noneFree 2 false) (n + 1) =
      run (constantly .connection) (start noneFree 2 false) 1 :=
  run_frozen (by decide) (by omega)

theorem possible_exhausted : Possible (constantly .exhausted) (start oneFree 1 false) where
  again _ _ hout := by cases hout
  connection _ _ hout := by cases hout
  exhausted _ hout _ := hout

theorem possible_connection : Possible (constantly .connection) (start noneFree 2 false) where
  again _ _ hout := by cases hout
  connection n hrun _ := by
    cases n with
    | zero => decide
    | succ n =>
      have hlast : (run (constantly .connection) (start noneFree 2 false) 1).returned =
          some .connection := by decide
      rw [run_constantly, hlast] at hrun
      cases hrun
  exhausted _ hout _ := by cases hout

/-- A pending connection while no fd is left: the call does not return.  Two pending
connections while no slot is left: it returns without a word about the second. -/
theorem accept_contract_broken :
    (Possible (constantly .exhausted) (start oneFree 1 false) ∧
      ∀ n, (run (constantly .exhausted) (start oneFree 1 false) n).returned = none) ∧
    (Possible (constantly .connection) (start noneFree 2 false) ∧
      (∃ n, (run (constantly .connection) (start noneFree 2 false) n).returned.isSome) ∧
      ¬ Honoured (constantly .connection) (start noneFree 2 false)) := by
  refine ⟨⟨possible_exhausted, fun n => ?_⟩, possible_connection, ⟨1, by decide⟩, ?_⟩
  · have hnever := exhausted_forever (n := 0) possible_exhausted rfl rfl (fun _ _ => rfl) n
    rw [Nat.zero_add] at hnever
    exact hnever.1
  · intro hhonoured
    obtain ⟨n, outcome, hret, hreported⟩ := hhonoured
    cases n with
    | zero => cases hret
    | succ n =>
      rw [run_constantly] at hret hreported
      have hlast : (run (constantly .connection) (start noneFree 2 false) 1).returned =
          some .connection := by decide
      rw [hlast] at hret
      cases hret
      revert hreported
      decide

end Acceptor

/-! ## The turns of `SocketLoop` -/

namespace SocketLoop

open Acceptor (start)

variable {l : SocketLoop} {i : Nat}

/-- The slots as `getNewSocket` sees them. -/
def table (l : SocketLoop) : SlotTable :=
  ⟨l.maxSocket, l.allocId, fun i => decide ((l.slot i).status ≠ .idle)⟩

/-- The loop's thread is in `handleAccept` on the slot `i`, and the kernel has fds left. -/
structure Accepting (l : SocketLoop) (i : Nat) : Prop where
  pc : l.pc = .accepting i
  used : (l.slot i).status ≠ .idle
  listening : (l.slot i).fd.any (fun s => (l.files s).any File.listening) = true
  fresh : ∃ bound, ∀ fd, bound ≤ fd → l.files fd = none

/-- The slot of the next turn is taken. -/
theorem tryNewSocket_busy (h : (l.slot (nextId l.allocId % l.maxSocket)).status ≠ .idle) :
    l.tryNewSocket = ({ l with allocId := nextId l.allocId }, none) ∧
      l.table.turn = ({ l.table with allocId := nextId l.allocId }, none) := by
  constructor
  · exact if_pos h
  · exact if_pos (by simpa [table] using h)

/-- It is free. -/
theorem tryNewSocket_free (h : (l.slot (nextId l.allocId % l.maxSocket)).status = .idle) :
    l.tryNewSocket = ({ l with
        allocId := nextId l.allocId
        slot := update l.slot (nextId l.allocId % l.maxSocket)
          { l.slot (nextId l.allocId % l.maxSocket) with
            id := nextId l.allocId % l.maxSocket, fd := none, status := .reserse }
        gen := update l.gen (nextId l.allocId % l.maxSocket)
          (l.gen (nextId l.allocId % l.maxSocket) + 1) },
      some (nextId l.allocId % l.maxSocket)) ∧
      l.table.turn = ({ l.table with
        allocId := nextId l.allocId
        busy := update l.table.busy (nextId l.allocId % l.maxSocket) true },
      some (nextId l.allocId % l.maxSocket)) := by
  constructor
  · exact if_neg (not_not.mpr h)
  · exact if_neg (by simpa [table] using h)

/-- A slot that is no longer idle is busy in the table. -/
theorem busy_update {j : Nat} {s : Socket} (hs : s.status ≠ .idle) :
    (fun k => decide ((update l.slot j s k).status ≠ .idle)) = update l.table.busy j true := by
  funext k
  by_cases hkj : k = j
  · rw [hkj, update_self, update_self]
    exact decide_eq_true hs
  · rw [update_of_ne hkj, update_of_ne hkj]
    rfl

/-- A turn of a caller. -/
theorem Accepting.other (h : l.Accepting i) :
    ∃ l', step l (.reserve (.connect 0)) = some l' ∧ l'.Accepting i ∧
      l'.table = l.table.turn.1 := by
  by_cases hfree : (l.slot (nextId l.allocId % l.maxSocket)).status = .idle
  · obtain ⟨htry, hturn⟩ := tryNewSocket_free hfree
    refine ⟨_, by rw [step, reserve, htry], ?_, ?_⟩
    · have hne : i ≠ nextId l.allocId % l.maxSocket := fun heq => h.used (heq ▸ hfree)
      refine ⟨h.pc, ?_, ?_, h.fresh⟩
      · simpa only [update_of_ne hne] using h.used
      · simpa only [update_of_ne hne] using h.listening
    · rw [hturn]
      simp only [table, SlotTable.mk.injEq, true_and]
      exact busy_update (by simp)
  · obtain ⟨htry, hturn⟩ := tryNewSocket_busy hfree
    refine ⟨{ l with allocId := nextId l.allocId }, by rw [step, reserve, htry],
      ⟨h.pc, h.used, h.listening, h.fresh⟩, ?_⟩
    rw [hturn]
    rfl

/-- The turns of the callers. -/
theorem Accepting.others (h : l.Accepting i) (n : Nat) :
    ∃ l', Runs step (fun _ _ => True) l l' ∧ l'.Accepting i ∧
      l'.table = SlotTable.others n l.table := by
  induction n generalizing l with
  | zero => exact ⟨l, .refl, h, rfl⟩
  | succ n ih =>
    obtain ⟨l₁, hstep, h₁, htable⟩ := h.other
    obtain ⟨l₂, hrun, h₂, htable'⟩ := ih h₁
    refine ⟨l₂, (Runs.single trivial hstep).trans hrun, h₂, ?_⟩
    rw [htable', htable]
    rfl

theorem Accepting.step_net (h : l.Accepting i) (env : Env) :
    step l (.net env) = l.handleAccept i env.accept := by
  rw [step, netStep, h.pc]

/-- A turn of the loop's thread for a connection that has been accepted, with its callback if
it gets the slot. -/
theorem Accepting.turn (h : l.Accepting i) :
    ∃ l', Runs step (fun _ _ => True) l l' ∧ l'.Accepting i ∧ l'.table = l.table.turn.1 := by
  obtain ⟨fd, hfresh⟩ := h.fresh
  have hfd : l.files fd = none := hfresh fd (le_refl fd)
  have hguard : (l.slot i).fd.any (fun s => (l.files s).any File.listening) = true ∧
      (l.files fd).isNone = true := ⟨h.listening, by rw [hfd]; rfl⟩
  by_cases hfree : (l.slot (nextId l.allocId % l.maxSocket)).status = .idle
  · obtain ⟨htry, hturn⟩ := tryNewSocket_free hfree
    have hne : i ≠ nextId l.allocId % l.maxSocket := fun heq => h.used (heq ▸ hfree)
    have haccept := h.step_net { accept := .accepted fd }
    rw [handleAccept, if_pos hguard, htry] at haccept
    refine ⟨_, (Runs.single trivial haccept).tail (a := .net {}) trivial rfl, ⟨rfl, ?_, ?_, ?_⟩, ?_⟩
    · simpa only [update_of_ne hne] using h.used
    · obtain ⟨s, hs, hlisten⟩ := (Option.any_eq_true _ _).mp h.listening
      have hsfd : s ≠ fd := by
        intro heq
        rw [heq, hfd] at hlisten
        cases hlisten
      simp only [update_of_ne hne, hs, Option.any_some, update_of_ne hsfd]
      exact hlisten
    · refine ⟨fd + 1, fun fd' hle => ?_⟩
      have hne' : fd' ≠ fd := by omega
      simpa only [update_of_ne hne'] using hfresh fd' (by omega)
    · rw [hturn]
      simp only [table, SlotTable.mk.injEq, true_and, Function.update_idem]
      exact busy_update (by simp)
  · obtain ⟨htry, hturn⟩ := tryNewSocket_busy hfree
    refine ⟨{ l with allocId := nextId l.allocId }, .single (a := .net { accept := .accepted fd })
      trivial ?_, ⟨h.pc, h.used, h.listening, h.fresh⟩, ?_⟩
    · rw [h.step_net, handleAccept, if_pos hguard, htry]
    · rw [hturn]
      rfl

/-- The loop of `getNewSocket`, and the rest of the turn of `handleAccept` behind it. -/
theorem Accepting.search (h : l.Accepting i) (between : Nat → Nat) (n : Nat) :
    ∃ l', Runs step (fun _ _ => True) l l' ∧ l'.Accepting i ∧
      l'.table = (SlotTable.search between n l.table).1 := by
  induction n generalizing l with
  | zero => exact ⟨l, .refl, h, rfl⟩
  | succ n ih =>
    obtain ⟨l₁, hrun₁, h₁, htable₁⟩ := h.others (between n)
    obtain ⟨l₂, hrun₂, h₂, htable₂⟩ := h₁.turn
    rw [SlotTable.search, ← htable₁]
    split
    · rename_i hresult
      rw [hresult] at htable₂
      exact ⟨l₂, hrun₁.trans hrun₂, h₂, htable₂⟩
    · rename_i hresult
      rw [hresult] at htable₂
      obtain ⟨l₃, hrun₃, h₃, htable₃⟩ := ih h₂
      refine ⟨l₃, hrun₁.trans (hrun₂.trans hrun₃), h₃, ?_⟩
      rw [htable₃, htable₂]

/-- The loop is where the call is. -/
def At (l : SocketLoop) (i : Nat) (a : Acceptor) : Prop :=
  l.table = a.table ∧ (a.returned = none → l.Accepting i) ∧
    (a.returned.isSome → l.pc = .resume .event)

theorem At.going {a : Acceptor} (htable : l.table = a.table) (hret : a.returned = none)
    (h : l.Accepting i) : l.At i a := by
  refine ⟨htable, fun _ => h, fun hsome => ?_⟩
  rw [hret] at hsome
  cases hsome

theorem At.over {a : Acceptor} {outcome : AcceptOutcome} (htable : l.table = a.table)
    (hret : a.returned = some outcome) (h : l.pc = .resume .event) : l.At i a := by
  refine ⟨htable, fun hnone => ?_, fun _ => h⟩
  rw [hret] at hnone
  cases hnone

/-- The loop takes the turn of the call. -/
theorem At.turn {a : Acceptor} (h : l.At i a) (hgoes : a.returned = none)
    (between : Nat → Nat → Nat) (r : Round) :
    ∃ l', Runs step (fun _ _ => True) l l' ∧ l'.At i (a.turn between r) := by
  obtain ⟨htable, hacc, -⟩ := h
  have hacc := hacc hgoes
  rw [Acceptor.turn]
  cases r.outcome with
  | again =>
    refine ⟨{ l with pc := .resume .event }, .single (a := .net { accept := .again }) trivial ?_,
      .over htable rfl rfl⟩
    rw [hacc.step_net]
    rfl
  | exhausted => exact ⟨l, .refl, .going htable hgoes hacc⟩
  | error => exact ⟨l, .refl, .going htable hgoes hacc⟩
  | connection =>
    obtain ⟨l', hrun, hacc', htable'⟩ := hacc.search (between a.searches) l.table.maxTurns
    rw [htable] at htable'
    simp only [Nat.add_sub_cancel]
    split
    · rename_i hresult
      rw [SlotTable.getNewSocket] at hresult
      rw [hresult] at htable'
      exact ⟨l', hrun, .going htable' hgoes hacc'⟩
    · rename_i hresult
      rw [SlotTable.getNewSocket] at hresult
      rw [hresult] at htable'
      refine ⟨{ l' with pc := .resume .event },
        hrun.tail (a := .net { accept := .full }) trivial ?_, .over htable' rfl rfl⟩
      rw [hacc'.step_net]
      rfl

/-- Every whole call is one of the loop's, turn by turn. -/
theorem runs_of_run (h : l.Accepting i) (env : AcceptEnv) (pending : Nat) (edge : Bool) (n : Nat) :
    ∃ l', Runs step (fun _ _ => True) l l' ∧
      l'.At i (Acceptor.run env (start l.table pending edge) n) := by
  induction n with
  | zero => exact ⟨l, .refl, .going rfl rfl h⟩
  | succ n ih =>
    obtain ⟨l₁, hrun, hat⟩ := ih
    rw [Acceptor.run]
    split
    · exact ⟨l₁, hrun, hat⟩
    · rename_i hgoes
      obtain ⟨l₂, hrun', hat'⟩ :=
        hat.turn (Option.not_isSome_iff_eq_none.mp hgoes) env.between (env.round n)
      exact ⟨l₂, hrun.trans hrun', hat'⟩

end SocketLoop

end StormNet.Net
