/-
  Registry/Watch.lean --- the registry against the clock: what `Query` answers while the main
  loop keeps running.

  A step is given the readings of the clock it makes.  `time` is the last one, `began` the one
  at which the last `update` began, `filled` the `m_reloadSec` of the load that the lists come
  from, and `beat` the last turn of `heartBeat` at the address watched; these are records.  The
  table can be read, and the main loop comes back to `update` within `period` seconds.
-/
import StormNet.Registry.Load
import StormNet.Registry.Reload

set_option autoImplicit false

namespace StormNet.Registry

open StormNet.Foundation
open StormNet.Util (Str)
open ServiceManager

/-! ## What is answered -/

/-- `RegistryServiceImp::Query`: the `active_endpoints` of the answer. -/
def Query (m : ServiceManager) (n : Names) : List (Str × UInt32) :=
  ((m.getService n).filter (·.active)).map fun ep => (ep.ip, ep.port)

theorem mem_query {m : ServiceManager} {n : Names} {ip : Str} {port : UInt32} :
    (ip, port) ∈ Query m n ↔
      ∃ ep ∈ m.services (getKey n), ep.active = true ∧ ep.ip = ip ∧ ep.port = port := by
  simp only [Query, getService, List.mem_map, List.mem_filter, Prod.mk.injEq, and_assoc]

/-! ## The moves of the two threads -/

namespace Threads

variable {cfg : RegistryConfig} {columnDefault : Option UInt32} {s t : Threads} {a : Action}

/-- What a step can do, case by case. -/
inductive Move (cfg : RegistryConfig) (columnDefault : Option UInt32) (s : Threads) :
    Action → Threads → Prop
  | fresh {e : Id} {now : UInt32} :
      s.net = .idle → s.manager.isNewService e = true → Move cfg columnDefault s
        (.heartBeat e now) (s.toNet s.manager (.adding (newEndPoint e now)))
  | known {e : Id} {now : UInt32} :
      s.net = .idle → s.manager.isNewService e = false → Move cfg columnDefault s
        (.heartBeat e now) (s.toNet s.manager (.known e))
  | add {ep : EndPoint} {now : UInt32} :
      s.net = .adding ep → Move cfg columnDefault s (.net now)
        (s.toNet (s.manager.addNewService ep) (.pushing ep))
  | push {ep : EndPoint} {now : UInt32} :
      s.net = .pushing ep → Move cfg columnDefault s (.net now)
        (s.toNet { s.manager with services := push s.manager.services ep } .idle)
  | lock {e : Id} {now : UInt32} :
      s.net = .known e → Move cfg columnDefault s (.net now)
        (s.toNet s.manager (.beating e 0))
  | unlock {e : Id} {i : Nat} {now : UInt32} :
      s.net = .beating e i → (s.manager.services e.key)[i]? = none →
      Move cfg columnDefault s (.net now) (s.toNet s.manager .idle)
  | turn {e : Id} {i : Nat} {ep : EndPoint} {now : UInt32} :
      s.net = .beating e i → (s.manager.services e.key)[i]? = some ep →
      Move cfg columnDefault s (.net now)
        (s.toNet (s.manager.beatAt e i now ep) (.beating e (i + 1)))
  | update {now : UInt32} :
      s.main = .idle → Move cfg columnDefault s (.update now)
        (s.toMain s.manager.takeNew s.store.rows (.inserting now s.manager.newServices))
  | load {start : UInt32} :
      s.main = .idle → Move cfg columnDefault s (.loadFromDB start)
        (s.toMain (s.manager.startLoad start) s.store.rows .loading)
  | insert {now : UInt32} {ep : EndPoint} {batch : List EndPoint} {clock : Nat → UInt32} :
      s.main = .inserting now (ep :: batch) → Move cfg columnDefault s (.main clock)
        (s.toMain s.manager (s.store.rows ++ [Store.insertedRow columnDefault ep])
          (.inserting now batch))
  | early {now : UInt32} {clock : Nat → UInt32} :
      s.main = .inserting now [] → Store.updateDue cfg s.manager now = false →
      Move cfg columnDefault s (.main clock) (s.toMain s.manager s.store.rows .idle)
  | flush {now : UInt32} {clock : Nat → UInt32} :
      s.main = .inserting now [] → Store.updateDue cfg s.manager now = true →
      Move cfg columnDefault s (.main clock)
        (s.toMain s.manager.takeUpdates s.store.rows (.refreshing s.manager.updateServices))
  | refresh {ep : EndPoint} {batch : List EndPoint} {clock : Nat → UInt32} :
      s.main = .refreshing (ep :: batch) → Move cfg columnDefault s (.main clock)
        (s.toMain s.manager (Store.updateRows s.store.rows ep) (.refreshing batch))
  | rest {clock : Nat → UInt32} :
      s.main = .refreshing [] → Store.reloadDue cfg s.manager (clock 0) = false →
      Move cfg columnDefault s (.main clock) (s.toMain s.manager s.store.rows .idle)
  | reload {clock : Nat → UInt32} :
      s.main = .refreshing [] → Store.reloadDue cfg s.manager (clock 0) = true →
      Move cfg columnDefault s (.main clock)
        (s.toMain (s.manager.startLoad (clock 1)) s.store.rows .loading)
  | fail {clock : Nat → UInt32} :
      s.main = .loading → s.store.fetched cfg (clock 0) true = none →
      Move cfg columnDefault s (.main clock) (s.toMain s.manager s.store.rows .idle)
  | select {clock : Nat → UInt32} {eps : List EndPoint} :
      s.main = .loading → s.store.fetched cfg (clock 0) true = some eps →
      Move cfg columnDefault s (.main clock) (s.toMain s.manager s.store.rows (.selected eps))
  | swap {clock : Nat → UInt32} {eps : List EndPoint} :
      s.main = .selected eps → Move cfg columnDefault s (.main clock)
        (s.toMain (s.manager.swapServices eps) s.store.rows (.swapped eps))
  | swapStrings {clock : Nat → UInt32} {eps : List EndPoint} :
      s.main = .swapped eps → Move cfg columnDefault s (.main clock)
        (s.toMain (s.manager.swapAllService eps) s.store.rows .idle)

theorem move_netStep {now : UInt32} (h : s.netStep now = some t) :
    Move cfg columnDefault s (.net now) t := by
  unfold netStep at h
  cases hnet : s.net with
  | idle => simp [hnet] at h
  | adding ep =>
    simp only [hnet, Option.some.injEq] at h
    exact h ▸ .add hnet
  | pushing ep =>
    simp only [hnet, Option.some.injEq] at h
    exact h ▸ .push hnet
  | known e =>
    simp only [hnet, Option.some.injEq] at h
    exact h ▸ .lock hnet
  | beating e i =>
    cases hat : (s.manager.services e.key)[i]? with
    | none =>
      simp only [hnet, hat, Option.some.injEq] at h
      exact h ▸ .unlock hnet hat
    | some ep =>
      simp only [hnet, hat, Option.some.injEq] at h
      exact h ▸ .turn hnet hat

theorem move_mainStep {clock : Nat → UInt32} (h : s.mainStep cfg columnDefault clock = some t) :
    Move cfg columnDefault s (.main clock) t := by
  unfold mainStep at h
  cases hmain : s.main with
  | idle => simp [hmain] at h
  | inserting now batch =>
    cases batch with
    | nil =>
      simp only [hmain] at h
      split at h
      · exact Option.some.inj h ▸ .flush hmain ‹_›
      · exact Option.some.inj h ▸ .early hmain (Bool.eq_false_iff.mpr ‹_›)
    | cons ep batch =>
      simp only [hmain, Option.some.injEq] at h
      exact h ▸ .insert hmain
  | refreshing batch =>
    cases batch with
    | nil =>
      simp only [hmain] at h
      split at h
      · exact Option.some.inj h ▸ .reload hmain ‹_›
      · exact Option.some.inj h ▸ .rest hmain (Bool.eq_false_iff.mpr ‹_›)
    | cons ep batch =>
      simp only [hmain, Option.some.injEq] at h
      exact h ▸ .refresh hmain
  | loading =>
    cases hfetched : s.store.fetched cfg (clock 0) true with
    | none =>
      simp only [hmain, hfetched, Option.some.injEq] at h
      exact h ▸ .fail hmain hfetched
    | some eps =>
      simp only [hmain, hfetched, Option.some.injEq] at h
      exact h ▸ .select hmain hfetched
  | selected eps =>
    simp only [hmain] at h
    split at h
    · cases h
    · exact Option.some.inj h ▸ .swap hmain
  | swapped eps =>
    simp only [hmain, Option.some.injEq] at h
    exact h ▸ .swapStrings hmain

/-- The cases are all there is. -/
theorem move_of_step (h : step cfg columnDefault s a = some t) : Move cfg columnDefault s a t := by
  cases a with
  | net now => exact move_netStep h
  | main clock => exact move_mainStep h
  | heartBeat e now =>
    cases hnet : s.net with
    | idle =>
      simp only [step, hnet] at h
      split at h
      · exact Option.some.inj h ▸ .fresh hnet ‹_›
      · exact Option.some.inj h ▸ .known hnet (Bool.eq_false_iff.mpr ‹_›)
    | adding _ | pushing _ | known _ | beating _ _ => simp [step, hnet] at h
  | update now =>
    cases hmain : s.main with
    | idle =>
      simp only [step, hmain, Option.some.injEq] at h
      exact h ▸ .update hmain
    | inserting _ _ | refreshing _ | loading | selected _ | swapped _ => simp [step, hmain] at h
  | loadFromDB start =>
    cases hmain : s.main with
    | idle =>
      simp only [step, hmain, Option.some.injEq] at h
      exact h ▸ .load hmain
    | inserting _ _ | refreshing _ | loading | selected _ | swapped _ => simp [step, hmain] at h

end Threads

/-! ## The clock -/

/-- The first reading of a step. -/
def Action.first : Action → Nat
  | .heartBeat _ now => now.toNat
  | .net now => now.toNat
  | .update now => now.toNat
  | .loadFromDB start => start.toNat
  | .main clock => (clock 0).toNat

/-- The last one. -/
def Action.last : Action → Nat
  | .main clock => (clock 1).toNat
  | a => a.first

/-- The endpoint has the address of `e`. -/
def At (e i : Id) : Prop := i.ip = e.ip ∧ i.port = e.port

instance (e i : Id) : Decidable (At e i) := inferInstanceAs (Decidable (_ ∧ _))

theorem at_iff_of_isAt {e e' : Id} {ep : EndPoint} (hat : isAt e' ep = true) :
    At e ep.toId ↔ At e e' := by
  obtain ⟨hip, hport⟩ := isAt_iff.mp hat
  simp only [At, hip, hport]

/-- The registry with what is recorded of it. -/
structure Watch where
  threads : Threads
  time : Nat
  began : Nat
  filled : Nat
  beat : Nat

namespace Watch

/-- The next step of the net thread is a turn of `heartBeat` at the address. -/
def turns (e : Id) (s : Threads) : Bool :=
  match s.net with
  | .beating e' i =>
      match (s.manager.services e'.key)[i]? with
      | some ep => isAt e' ep && decide (At e e')
      | none => false
  | _ => false

/-- The registry behind `init`, which reads the clock at `start` and `now`. -/
def new (rows : List Row) (start now : UInt32) : Watch where
  threads := .resting (Store.loadFromDB .init (Store.start rows 0 0) start now true)
  time := now.toNat
  began := start.toNat
  filled := start.toNat
  beat := 0

def step (e : Id) (columnDefault : Option UInt32) (w : Watch) (a : Action) : Option Watch :=
  (w.threads.step .init columnDefault a).map fun t =>
    { threads := t
      time := a.last
      began := match a with
        | .update now => now.toNat
        | _ => w.began
      filled := match a with
        | .main _ =>
            match w.threads.main with
            | .selected _ => w.threads.manager.reloadSec.toNat
            | _ => w.filled
        | _ => w.filled
      beat := match a with
        | .net now => if turns e w.threads then now.toNat else w.beat
        | _ => w.beat }

/-- Time goes on, and no further than `period` seconds behind the beginning of `update`. -/
def Prompt (period : Nat) (w : Watch) (a : Action) : Prop :=
  w.time ≤ a.first ∧ a.first ≤ a.last ∧ a.last ≤ w.began + period ∧ a.last + 122 < 2 ^ 32 ∧
    match a with
    | .loadFromDB _ => False
    | _ => True

/-- When the current `update` began, against the loads. -/
def Phase (period reloadSec filled began : Nat) : Main → Prop
  | .idle => filled = reloadSec ∧ began ≤ filled + 58
  | .inserting now _ => filled = reloadSec ∧ began = now.toNat ∧ began ≤ filled + 58 + period
  | .refreshing _ => filled = reloadSec ∧ began ≤ filled + 58 + period
  | .loading => began ≤ reloadSec ∧ began ≤ filled + 58 + period
  | .selected _ => began ≤ reloadSec ∧ began ≤ filled + 58 + period
  | .swapped _ => filled = reloadSec ∧ began ≤ filled

/-- The table can be read. -/
structure Readable (rows : List Row) : Prop where
  filled : rows ≠ []
  times : ∀ row ∈ rows, row.heartBeatTime ≠ none

/-- The clock of a registry whose table can be read. -/
structure Clocked (period : Nat) (w : Watch) : Prop where
  sec : w.threads.manager.updateSec = w.threads.manager.reloadSec
  reloadSec_le : w.threads.manager.reloadSec.toNat ≤ w.time
  filled_le : w.filled ≤ w.time
  began_le : w.began ≤ w.time
  time_le : w.time ≤ w.began + period
  horizon : w.time + 122 < 2 ^ 32
  phase : Phase period w.threads.manager.reloadSec.toNat w.filled w.began w.threads.main
  readable : Readable w.threads.store.rows

variable {e : Id} {columnDefault : Option UInt32} {period : Nat} {w w' : Watch} {a : Action}

theorem Readable.append {rows : List Row} (h : Readable rows) {row : Row}
    (hrow : row.heartBeatTime ≠ none) : Readable (rows ++ [row]) where
  filled := List.append_ne_nil_of_right_ne_nil _ (List.cons_ne_nil _ _)
  times row' hrow' := by
    rcases List.mem_append.mp hrow' with hrow' | hrow'
    · exact h.times row' hrow'
    · rw [List.mem_singleton.mp hrow']
      exact hrow

theorem Readable.update {rows : List Row} (h : Readable rows) (ep : EndPoint) :
    Readable (Store.updateRows rows ep) where
  filled := by
    rw [Store.updateRows, Ne, List.map_eq_nil_iff]
    exact h.filled
  times row hrow := by
    obtain ⟨row', hrow', rfl⟩ := List.mem_map.mp hrow
    split
    · exact Option.some_ne_none _
    · exact h.times row' hrow'

/-- A readable table is loaded. -/
theorem Readable.fetched {s : Store} (h : Readable s.rows) (now : UInt32) :
    s.fetched .init now true ≠ none := by
  rw [Ne, Store.fetched_eq_none_iff, Store.Raises]
  rintro ((hselect | ⟨row, hrow, hnone⟩) | hempty)
  · cases hselect
  · exact h.times row hrow hnone
  · exact h.filled hempty

/-- The net thread leaves the times and the table alone. -/
theorem frame_of_net {s t : Threads} {now : UInt32}
    (h : Threads.Move .init columnDefault s (.net now) t) :
    t.main = s.main ∧ t.store.rows = s.store.rows ∧
      t.manager.updateSec = s.manager.updateSec ∧ t.manager.reloadSec = s.manager.reloadSec := by
  cases h with
  | turn hnet hat =>
    unfold beatAt
    split <;> exact ⟨rfl, rfl, rfl, rfl⟩
  | _ => exact ⟨rfl, rfl, rfl, rfl⟩

theorem updateDue_iff {m : ServiceManager} {now : UInt32} (h : m.updateSec.toNat + 122 < 2 ^ 32) :
    Store.updateDue .init m now = true ↔ m.updateSec.toNat + 2 < now.toNat := by
  have hsum : (m.updateSec + RegistryConfig.init.updateInterval).toNat = m.updateSec.toNat + 2 := by
    rw [UInt32.toNat_add]
    exact Nat.mod_eq_of_lt (by
      show m.updateSec.toNat + 2 < 2 ^ 32
      omega)
  rw [Store.updateDue, decide_eq_true_iff, gt_iff_lt, UInt32.lt_iff_toNat_lt, hsum]

theorem reloadDue_iff {m : ServiceManager} {now : UInt32} (h : m.reloadSec.toNat + 122 < 2 ^ 32) :
    Store.reloadDue .init m now = true ↔ m.reloadSec.toNat + 58 < now.toNat := by
  have hsum : (m.reloadSec + RegistryConfig.init.reloadInterval).toNat =
      m.reloadSec.toNat + 58 := by
    rw [UInt32.toNat_add]
    exact Nat.mod_eq_of_lt (by
      show m.reloadSec.toNat + 58 < 2 ^ 32
      omega)
  rw [Store.reloadDue, decide_eq_true_iff, gt_iff_lt, UInt32.lt_iff_toNat_lt, hsum]

/-- The readings of a step are not before the times of the registry. -/
theorem Clocked.le_last (h : Clocked period w) (hprompt : Prompt period w a) :
    w.filled ≤ a.last ∧ w.threads.manager.reloadSec.toNat ≤ a.last ∧ w.began ≤ a.last := by
  have htime : w.time ≤ a.last := Nat.le_trans hprompt.1 hprompt.2.1
  exact ⟨Nat.le_trans h.filled_le htime, Nat.le_trans h.reloadSec_le htime,
    Nat.le_trans h.began_le htime⟩

/-- The main thread sets both times to the one reading, and leaves the table readable. -/
theorem Clocked.times_main {default : UInt32} {clock : Nat → UInt32} {t : Threads}
    (h : Clocked period w) (hprompt : Prompt period w (.main clock))
    (hmove : Threads.Move .init (some default) w.threads (.main clock) t) :
    t.manager.updateSec = t.manager.reloadSec ∧
      t.manager.reloadSec.toNat ≤ (clock 1).toNat ∧ Readable t.store.rows := by
  have hreload := (h.le_last hprompt).2.1
  cases hmove with
  | insert hmain => exact ⟨h.sec, hreload, h.readable.append (Option.some_ne_none _)⟩
  | refresh hmain => exact ⟨h.sec, hreload, h.readable.update _⟩
  | reload hmain hdue => exact ⟨rfl, Nat.le_refl _, h.readable⟩
  | fail hmain hfetched => exact absurd hfetched (h.readable.fetched _)
  | _ => exact ⟨h.sec, hreload, h.readable⟩

/-- The next phase of the main thread. -/
theorem Clocked.phase_main {default : UInt32} {clock : Nat → UInt32} (h : Clocked period w)
    (hprompt : Prompt period w (.main clock))
    (hstep : w.step e (some default) (.main clock) = some w') :
    Phase period w'.threads.manager.reloadSec.toNat w'.filled w'.began w'.threads.main := by
  obtain ⟨t, ht, rfl⟩ := Option.map_eq_some_iff.mp hstep
  obtain ⟨-, -, hbegan⟩ := h.le_last hprompt
  have hsec := congrArg UInt32.toNat h.sec
  have hreload := h.reloadSec_le
  have hhorizon := h.horizon
  have hphase := h.phase
  cases Threads.move_of_step ht with
  | insert hmain =>
    rw [hmain] at hphase
    simp only [hmain]
    exact hphase
  | early hmain hdue =>
    rw [hmain] at hphase
    obtain ⟨hsame, hnow, -⟩ := hphase
    have hlow := mt (updateDue_iff (by omega)).mpr (Bool.eq_false_iff.mp hdue)
    simp only [hmain]
    exact ⟨hsame, by omega⟩
  | flush hmain hdue =>
    rw [hmain] at hphase
    simp only [hmain]
    exact ⟨hphase.1, hphase.2.2⟩
  | refresh hmain =>
    rw [hmain] at hphase
    simp only [hmain]
    exact hphase
  | rest hmain hdue =>
    rw [hmain] at hphase
    obtain ⟨hsame, -⟩ := hphase
    have hlow := mt (reloadDue_iff (by omega)).mpr (Bool.eq_false_iff.mp hdue)
    have hbefore : w.began ≤ (clock 0).toNat := Nat.le_trans h.began_le hprompt.1
    simp only [hmain]
    exact ⟨hsame, by omega⟩
  | reload hmain hdue =>
    rw [hmain] at hphase
    simp only [hmain]
    exact ⟨hbegan, hphase.2⟩
  | fail hmain hfetched => exact absurd hfetched (h.readable.fetched _)
  | select hmain hfetched =>
    rw [hmain] at hphase
    simp only [hmain]
    exact hphase
  | swap hmain =>
    rw [hmain] at hphase
    simp only [hmain]
    exact ⟨rfl, hphase.1⟩
  | swapStrings hmain =>
    rw [hmain] at hphase
    simp only [hmain]
    exact ⟨hphase.1, Nat.le_add_right_of_le hphase.2⟩

/-- `update` begins. -/
theorem Clocked.phase_update (h : Clocked period w) (hmain : w.threads.main = .idle)
    {now : UInt32} (hprompt : Prompt period w (.update now)) (batch : List EndPoint) :
    Phase period w.threads.manager.reloadSec.toNat w.filled now.toNat (.inserting now batch) := by
  have hphase := h.phase
  rw [hmain] at hphase
  obtain ⟨hsame, hidle⟩ := hphase
  have hlate : now.toNat ≤ w.began + period := hprompt.2.2.1
  exact ⟨hsame, rfl, by omega⟩

theorem Clocked.step {default : UInt32} (h : Clocked period w) (hprompt : Prompt period w a)
    (hstep : w.step e (some default) a = some w') : Clocked period w' := by
  obtain ⟨t, ht, rfl⟩ := Option.map_eq_some_iff.mp hstep
  obtain ⟨hfilled, hreload, hbegan⟩ := h.le_last hprompt
  have hmove := Threads.move_of_step ht
  obtain ⟨-, -, hperiod, hhorizon, hload⟩ := id hprompt
  cases a with
  | heartBeat e' now =>
    cases hmove with
    | fresh _ _ | known _ _ =>
      exact ⟨h.sec, hreload, hfilled, hbegan, hperiod, hhorizon, h.phase, h.readable⟩
  | net now =>
    obtain ⟨hmain, hrows, hupdate, hsame⟩ := frame_of_net hmove
    refine ⟨?_, ?_, hfilled, hbegan, hperiod, hhorizon, ?_, ?_⟩
    · rw [hupdate, hsame, h.sec]
    · rwa [hsame]
    · rw [hsame, hmain]
      exact h.phase
    · rw [hrows]
      exact h.readable
  | update now =>
    cases hmove with
    | update hmain =>
      exact ⟨h.sec, hreload, hfilled, Nat.le_refl _, Nat.le_add_right _ _, hhorizon,
        h.phase_update hmain hprompt _, h.readable⟩
  | loadFromDB start => exact hload.elim
  | main clock =>
    obtain ⟨hsec, hreload', hreadable⟩ := h.times_main hprompt hmove
    refine ⟨hsec, hreload', ?_, hbegan, hperiod, hhorizon, h.phase_main hprompt hstep, hreadable⟩
    -- the lists are filled when a load swaps them
    cases hmain : w.threads.main with
    | selected _ => exact hreload
    | _ => exact hfilled

end Watch

end StormNet.Registry
