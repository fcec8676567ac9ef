/-
  Registry/Detector.lean --- the registry as a failure detector.

  An endpoint that falls silent is in no answer any more once its last heartbeat is
  `activeInterval + reloadInterval` and two periods of the main loop old.  One that is
  registered and keeps beating, with a gap and a period that fit into `activeInterval`, is in
  every answer.
-/
import StormNet.Registry.Watch

set_option autoImplicit false

namespace StormNet.Registry

open StormNet.Foundation
open StormNet.Util (Str)
open ServiceManager

namespace Watch

variable {e : Id} {columnDefault : Option UInt32} {default : UInt32} {last gap period : Nat}
  {w w' : Watch} {a : Action}

/-! ## What a load makes of a row -/

/-- The sum does not wrap around. -/
theorem active_loadRow {now time : UInt32} {row : Row} {ep : EndPoint}
    (hload : loadRow .init now row = some ep) (htime : row.heartBeatTime = some time)
    (hhorizon : time.toNat + 122 < 2 ^ 32) :
    ep.active = true ↔ now.toNat ≤ time.toNat + 122 := by
  have hsum : (time + RegistryConfig.init.activeInterval).toNat = time.toNat + 122 := by
    rw [UInt32.toNat_add]
    exact Nat.mod_eq_of_lt (by
      show time.toNat + 122 < 2 ^ 32
      omega)
  rw [loadRow, htime, Option.map_some, Option.some.injEq] at hload
  rw [← hload, Bool.not_eq_true', decide_eq_false_iff_not, gt_iff_lt, UInt32.lt_iff_toNat_lt, hsum]
  exact Nat.not_lt

/-- Every endpoint loaded comes from a row. -/
theorem row_of_fetched {s : Store} {now : UInt32} {eps : List EndPoint}
    (h : s.fetched .init now true = some eps) {ep : EndPoint} (hep : ep ∈ eps) :
    ∃ row ∈ s.rows, loadRow .init now row = some ep := by
  have hall := Store.forall₂_fetched h
  clear h
  generalize s.rows = rows at hall ⊢
  induction hall with
  | nil => cases hep
  | cons hrow _ ih =>
    rcases List.mem_cons.mp hep with rfl | hep
    · exact ⟨_, List.mem_cons_self, hrow⟩
    · obtain ⟨row, hmem, hload⟩ := ih hep
      exact ⟨row, List.mem_cons_of_mem _ hmem, hload⟩

/-- Every row is loaded. -/
theorem fetched_of_row {s : Store} {now : UInt32} {eps : List EndPoint}
    (h : s.fetched .init now true = some eps) {row : Row} (hrow : row ∈ s.rows) :
    ∃ ep ∈ eps, loadRow .init now row = some ep := by
  have hall := Store.forall₂_fetched h
  clear h
  generalize s.rows = rows at hall hrow
  induction hall with
  | nil => cases hrow
  | cons hload _ ih =>
    rcases List.mem_cons.mp hrow with rfl | hrow
    · exact ⟨_, List.mem_cons_self, hload⟩
    · obtain ⟨ep, hmem, hload⟩ := ih hrow
      exact ⟨ep, List.mem_cons_of_mem _ hmem, hload⟩

/-! ## An endpoint that falls silent -/

/-- The next step of the net thread may write at the address. -/
def Writes (e : Id) (s : Threads) : Prop :=
  match s.net with
  | .pushing ep => At e ep.toId
  | .beating e' _ => At e e'
  | _ => False

/-- Nothing is written at the address of `e` behind `last`. -/
def Quiet (e : Id) (last : Nat) (w : Watch) : Action → Prop
  | .net now => Writes e w.threads → now.toNat ≤ last
  | _ => True

/-- No heartbeat at the address of `e` is younger than `last`, and what was loaded later has
nothing active there. -/
structure Fading (e : Id) (last : Nat) (w : Watch) : Prop where
  rows : ∀ row ∈ w.threads.store.rows, At e row.toId →
    ∀ time, row.heartBeatTime = some time → time.toNat ≤ last
  queue : ∀ ep ∈ w.threads.manager.updateServices, At e ep.toId → ep.heartBeatTime.toNat ≤ last
  batch : ∀ batch, w.threads.main = .refreshing batch →
    ∀ ep ∈ batch, At e ep.toId → ep.heartBeatTime.toNat ≤ last
  lists : last + 122 < w.filled → ∀ key, ∀ ep ∈ w.threads.manager.services key,
    At e ep.toId → ep.active = false
  loaded : ∀ eps, w.threads.main = .selected eps →
    last + 122 < w.threads.manager.reloadSec.toNat → ∀ ep ∈ eps, At e ep.toId → ep.active = false

/-- What is loaded behind `last + 122` has nothing active at the address. -/
theorem inactive_of_fetched {s : Store} {now : UInt32} {eps : List EndPoint}
    (h : s.fetched .init now true = some eps)
    (hrows : ∀ row ∈ s.rows, At e row.toId →
      ∀ time, row.heartBeatTime = some time → time.toNat ≤ last)
    (hlate : last + 122 < now.toNat) (ep : EndPoint) (hep : ep ∈ eps) (hat : At e ep.toId) :
    ep.active = false := by
  obtain ⟨row, hrow, hload⟩ := row_of_fetched h hep
  obtain ⟨time, htime, -⟩ := Option.map_eq_some_iff.mp hload
  rw [toId_loadRow hload] at hat
  have hold := hrows row hrow hat time htime
  have hnow := now.toNat_lt
  rw [Bool.eq_false_iff, Ne, active_loadRow hload htime (by omega)]
  omega

/-- A turn of `heartBeat` that finds its address. -/
theorem beatAt_of_isAt {m : ServiceManager} {e' : Id} {i : Nat} {now : UInt32} {ep : EndPoint}
    (hat : isAt e' ep = true) : m.beatAt e' i now ep = { m with
      services := Function.update m.services e'.key
        ((m.services e'.key).set i (ServiceManager.beat e' now ep))
      updateServices := m.updateServices ++ [ServiceManager.beat e' now ep] } := if_pos hat

namespace Fading

/-- The net thread leaves the table and the main thread alone. -/
theorem ofNet (h : Fading e last w) {now : UInt32} {t : Threads}
    (hmove : Threads.Move .init columnDefault w.threads (.net now) t) (time began turned : Nat)
    (hqueue : ∀ ep ∈ t.manager.updateServices, At e ep.toId → ep.heartBeatTime.toNat ≤ last)
    (hlists : last + 122 < w.filled → ∀ key, ∀ ep ∈ t.manager.services key,
      At e ep.toId → ep.active = false) :
    Fading e last ⟨t, time, began, w.filled, turned⟩ := by
  obtain ⟨hmain, hrows, -, hreload⟩ := frame_of_net hmove
  refine ⟨?_, hqueue, ?_, hlists, ?_⟩
  · rw [hrows]
    exact h.rows
  · rw [hmain]
    exact h.batch
  · rw [hmain, hreload]
    exact h.loaded

/-- Another endpoint is listed. -/
theorem push (h : Fading e last w) (hlate : last + 122 < w.filled) {ep : EndPoint}
    (hnew : At e ep.toId → ep.active = false) (key : Str) :
    ∀ ep' ∈ ServiceManager.push w.threads.manager.services ep key,
      At e ep'.toId → ep'.active = false := by
  intro ep' hep' hat
  rw [ServiceManager.push, Grouping.push_apply] at hep'
  rcases List.mem_append.mp hep' with hep' | hep'
  · exact h.lists hlate key ep' hep' hat
  · split at hep'
    · rw [List.mem_singleton.mp hep'] at hat ⊢
      exact hnew hat
    · cases hep'

/-- A turn of `heartBeat` that finds its address: when it is that of `e`, the turn is not
behind `last`. -/
theorem turn (h : Fading e last w) {e' : Id} {i : Nat} {now : UInt32} {ep : EndPoint}
    (hat : isAt e' ep = true) (hlast : At e e' → now.toNat ≤ last) :
    (∀ ep' ∈ (w.threads.manager.beatAt e' i now ep).updateServices,
      At e ep'.toId → ep'.heartBeatTime.toNat ≤ last) ∧
    (last < now.toNat → last + 122 < w.filled →
      ∀ key, ∀ ep' ∈ (w.threads.manager.beatAt e' i now ep).services key,
        At e ep'.toId → ep'.active = false) := by
  rw [beatAt_of_isAt hat]
  have hhere : At e (ServiceManager.beat e' now ep).toId → now.toNat ≤ last := by
    rw [toId_beat, at_iff_of_isAt hat]
    exact hlast
  have htime : (ServiceManager.beat e' now ep).heartBeatTime = now := by
    rw [ServiceManager.beat, if_pos hat]
  constructor
  · intro ep' hep' hat'
    rcases List.mem_append.mp hep' with hep' | hep'
    · exact h.queue ep' hep' hat'
    · rw [List.mem_singleton.mp hep'] at hat' ⊢
      rw [htime]
      exact hhere hat'
  · intro hbehind hlate key ep' hep' hat'
    simp only [Function.update_apply] at hep'
    split at hep'
    · rcases List.mem_or_eq_of_mem_set hep' with hep' | rfl
      · exact h.lists hlate _ ep' hep' hat'
      · exact absurd (hhere hat') (Nat.not_le.mpr hbehind)
    · exact h.lists hlate key ep' hep' hat'

/-- The net thread writes. -/
theorem net (h : Fading e last w) (hfilled : w.filled ≤ w.time) {now : UInt32}
    (hnow : w.time ≤ now.toNat) (hquiet : Quiet e last w (.net now)) {t : Threads}
    (hmove : Threads.Move .init columnDefault w.threads (.net now) t) {time began turned : Nat} :
    Fading e last ⟨t, time, began, w.filled, turned⟩ := by
  have hframe := h.ofNet hmove time began turned
  cases hmove with
  | add _ | lock _ | unlock _ _ => exact hframe h.queue h.lists
  | push hnet =>
    refine hframe h.queue (fun hlate => h.push hlate (fun hat => ?_))
    have hlast := hquiet (by rw [Writes, hnet]; exact hat)
    omega
  | @turn e' i ep _ hnet hget =>
    have hlast : At e e' → now.toNat ≤ last := fun hat => hquiet (by rw [Writes, hnet]; exact hat)
    by_cases hat : isAt e' ep = true
    · obtain ⟨hqueue, hlists⟩ := h.turn (i := i) hat hlast
      exact hframe hqueue fun hlate => hlists (by omega) hlate
    · have hmanager : w.threads.manager.beatAt e' i now ep = w.threads.manager := if_neg hat
      rw [hmanager] at hframe ⊢
      exact hframe h.queue h.lists

/-- A flush writes an endpoint into the table. -/
theorem rows_updateRows {rows : List Row} {ep : EndPoint}
    (hrows : ∀ row ∈ rows, At e row.toId →
      ∀ time, row.heartBeatTime = some time → time.toNat ≤ last)
    (hep : At e ep.toId → ep.heartBeatTime.toNat ≤ last) :
    ∀ row ∈ Store.updateRows rows ep, At e row.toId →
      ∀ time, row.heartBeatTime = some time → time.toNat ≤ last := by
  intro row hrow hat time htime
  obtain ⟨row', hrow', rfl⟩ := List.mem_map.mp hrow
  split at htime
  · rename_i hsame
    rw [if_pos hsame] at hat
    cases htime
    exact hep ⟨hsame.1 ▸ hat.1, hsame.2 ▸ hat.2⟩
  · rename_i hother
    rw [if_neg hother] at hat
    exact hrows row' hrow' hat time htime

/-- The main thread writes what is in the queue, or what a load has found. -/
theorem main (h : Fading e last w) (hclocked : Clocked period w)
    (hdefault : ∀ time, columnDefault = some time → time.toNat ≤ last) {clock : Nat → UInt32}
    (hnow : w.time ≤ (clock 0).toNat) {t : Threads}
    (hmove : Threads.Move .init columnDefault w.threads (.main clock) t)
    {time began filled turned : Nat}
    (hfilled : filled = match w.threads.main with
      | .selected _ => w.threads.manager.reloadSec.toNat
      | _ => w.filled) :
    Fading e last ⟨t, time, began, filled, turned⟩ := by
  cases hmove with
  | insert hmain =>
    rw [hmain] at hfilled
    refine ⟨?_, h.queue, (fun _ hbatch => by cases hbatch), hfilled ▸ h.lists,
      (fun _ heps => by cases heps)⟩
    intro row hrow hat time' htime
    rcases List.mem_append.mp hrow with hrow | hrow
    · exact h.rows row hrow hat time' htime
    · rw [List.mem_singleton.mp hrow] at htime
      exact hdefault time' htime
  | early hmain _ | rest hmain _ | reload hmain _ | fail hmain _ =>
    rw [hmain] at hfilled
    exact ⟨h.rows, h.queue, (fun _ hbatch => by cases hbatch), hfilled ▸ h.lists,
      (fun _ heps => by cases heps)⟩
  | flush hmain _ =>
    rw [hmain] at hfilled
    refine ⟨h.rows, (fun _ hep => by cases hep), ?_, hfilled ▸ h.lists,
      (fun _ heps => by cases heps)⟩
    intro batch hbatch
    cases hbatch
    exact h.queue
  | @refresh ep batch _ hmain =>
    rw [hmain] at hfilled
    refine ⟨rows_updateRows h.rows (h.batch _ hmain ep List.mem_cons_self), h.queue, ?_,
      hfilled ▸ h.lists, (fun _ heps => by cases heps)⟩
    intro batch' hbatch ep' hep'
    cases hbatch
    exact h.batch _ hmain ep' (List.mem_cons_of_mem _ hep')
  | select hmain hfetched =>
    rw [hmain] at hfilled
    refine ⟨h.rows, h.queue, (fun _ hbatch => by cases hbatch), hfilled ▸ h.lists, ?_⟩
    intro eps heps hlate
    cases heps
    have hreload := hclocked.reloadSec_le
    exact inactive_of_fetched hfetched h.rows (lt_of_lt_of_le hlate (hreload.trans hnow))
  | @swap _ eps hmain =>
    have hload : filled = w.threads.manager.reloadSec.toNat := by
      rw [hfilled, hmain]
    refine ⟨h.rows, h.queue, (fun _ hbatch => by cases hbatch), ?_,
      (fun _ heps => by cases heps)⟩
    intro hlate key ep hep
    rw [show (w.threads.toMain (w.threads.manager.swapServices eps) w.threads.store.rows
        (.swapped eps)).manager.services key = (w.threads.manager.swapServices eps).services key
        from rfl, Store.services_swapServices] at hep
    exact h.loaded eps hmain (hload ▸ hlate) ep (Grouping.mem_group.mp hep).1
  | swapStrings hmain =>
    rw [hmain] at hfilled
    exact ⟨h.rows, h.queue, (fun _ hbatch => by cases hbatch), hfilled ▸ h.lists,
      (fun _ heps => by cases heps)⟩

theorem step (h : Fading e last w) (hclocked : Clocked period w) (hdefault : default.toNat ≤ last)
    (hprompt : Prompt period w a) (hquiet : Quiet e last w a)
    (hstep : w.step e (some default) a = some w') : Fading e last w' := by
  obtain ⟨t, ht, rfl⟩ := Option.map_eq_some_iff.mp hstep
  have hmove := Threads.move_of_step ht
  cases a with
  | heartBeat e' now =>
    cases hmove with
    | fresh _ _ | known _ _ => exact ⟨h.rows, h.queue, h.batch, h.lists, h.loaded⟩
  | net now => exact h.net hclocked.filled_le hprompt.1 hquiet hmove
  | update now =>
    cases hmove with
    | update hmain =>
      exact ⟨h.rows, h.queue, (fun _ hbatch => by cases hbatch), h.lists,
        (fun _ heps => by cases heps)⟩
  | loadFromDB start => exact hprompt.2.2.2.2.elim
  | main clock =>
    refine h.main hclocked (fun time htime => ?_) hprompt.1 hmove rfl
    cases htime
    exact hdefault

end Fading

instance (e : Id) (s : Threads) : Decidable (Writes e s) := by
  unfold Writes
  split <;> infer_instance

instance (e : Id) (last : Nat) (w : Watch) : (a : Action) → Decidable (Quiet e last w a)
  | .net _ => inferInstanceAs (Decidable (_ → _))
  | .heartBeat _ _ | .update _ | .loadFromDB _ | .main _ => inferInstanceAs (Decidable True)

instance (period : Nat) (w : Watch) : (a : Action) → Decidable (Prompt period w a)
  | .loadFromDB _ => inferInstanceAs (Decidable (_ ∧ _ ∧ _ ∧ _ ∧ False))
  | .net _ | .heartBeat _ _ | .update _ | .main _ =>
      inferInstanceAs (Decidable (_ ∧ _ ∧ _ ∧ _ ∧ True))

/-- A row of `e` with the time `t`. -/
def HasBeat (e : Id) (t : Nat) (rows : List Row) : Prop :=
  ∃ row ∈ rows, row.toId = e ∧ ∃ time, row.heartBeatTime = some time ∧ time.toNat = t

/-- The endpoints that a flush has taken and not written yet. -/
def unwritten : Main → List EndPoint
  | .refreshing batch => batch
  | _ => []

/-- The table once both queues are written. -/
def settled (s : Threads) : List Row :=
  s.manager.updateServices.foldl Store.updateRows
    ((unwritten s.main).foldl Store.updateRows s.store.rows)

/-- What the running `update` will find, or has found, of the endpoint. -/
def Found (e : Id) (gap began time : Nat) (rows : List Row) : Main → Prop
  | .refreshing batch =>
      ∃ t, began ≤ t + gap ∧ t ≤ time ∧ HasBeat e t (batch.foldl Store.updateRows rows)
  | .loading => ∃ t, began ≤ t + gap ∧ t ≤ time ∧ HasBeat e t rows
  | .selected eps => ∃ ep ∈ eps, ep.toId = e ∧ ep.active = true
  | _ => True

/-- The endpoint is listed, its last beat is on its way into the table, and no load under way
will miss it. -/
structure Fresh (e : Id) (gap : Nat) (w : Watch) : Prop where
  listed : ∃ ep ∈ w.threads.manager.services e.key, At e ep.toId ∧ ep.active = true
  beat_le : w.beat ≤ w.time
  beaten : HasBeat e w.beat (settled w.threads)
  found : Found e gap w.began w.time w.threads.store.rows w.threads.main

/-- `Prompt`, and the last turn at the address is at most `gap` seconds ago. -/
def Beats (gap period : Nat) (w : Watch) (a : Action) : Prop :=
  Prompt period w a ∧ a.last ≤ w.beat + gap

theorem Found.later {began time time' : Nat} {rows : List Row} {main : Main}
    (h : Found e gap began time rows main) (htime : time ≤ time') :
    Found e gap began time' rows main := by
  cases main with
  | refreshing _ | loading =>
    obtain ⟨t, hgap, hle, hbeat⟩ := h
    exact ⟨t, hgap, hle.trans htime, hbeat⟩
  | selected _ => exact h
  | idle | inserting _ _ | swapped _ => trivial

theorem HasBeat.append {t : Nat} {rows : List Row} (h : HasBeat e t rows) (more : List Row) :
    HasBeat e t (rows ++ more) := by
  obtain ⟨row, hrow, hbeat⟩ := h
  exact ⟨row, List.mem_append_left _ hrow, hbeat⟩

theorem HasBeat.updateRows {t : Nat} {rows : List Row} {ep : EndPoint} (h : HasBeat e t rows)
    (hother : ¬ At e ep.toId) : HasBeat e t (Store.updateRows rows ep) := by
  obtain ⟨row, hrow, rfl, hbeat⟩ := h
  refine ⟨row, List.mem_map.mpr ⟨row, hrow, if_neg ?_⟩, rfl, hbeat⟩
  rintro ⟨hip, hport⟩
  exact hother ⟨hip.symm, hport.symm⟩

/-- The update of an address writes every row of it. -/
theorem hasBeat_updateRows {rows : List Row} {ep : EndPoint} (h : ∃ row ∈ rows, row.toId = e)
    (hat : At e ep.toId) : HasBeat e ep.heartBeatTime.toNat (Store.updateRows rows ep) := by
  obtain ⟨row, hrow, rfl⟩ := h
  exact ⟨{ row with heartBeatTime := some ep.heartBeatTime },
    List.mem_map.mpr ⟨row, hrow, if_pos ⟨hat.1.symm, hat.2.symm⟩⟩, rfl, _, rfl, rfl⟩

theorem foldl_updateRows_append (eps : List EndPoint) (rows more : List Row) :
    eps.foldl Store.updateRows (rows ++ more) =
      eps.foldl Store.updateRows rows ++ eps.foldl Store.updateRows more := by
  induction eps generalizing rows more with
  | nil => rfl
  | cons ep eps ih =>
    have hmap : Store.updateRows (rows ++ more) ep =
        Store.updateRows rows ep ++ Store.updateRows more ep := List.map_append
    rw [List.foldl_cons, hmap, ih, List.foldl_cons, List.foldl_cons]

/-- A turn of `heartBeat` leaves the endpoint in its list. -/
theorem listed_of_set {m : ServiceManager} {e' : Id} {i : Nat} {now : UInt32} {ep : EndPoint}
    (hget : (m.services e'.key)[i]? = some ep)
    (h : ∃ ep ∈ m.services e.key, At e ep.toId ∧ ep.active = true) :
    ∃ ep' ∈ Function.update m.services e'.key
        ((m.services e'.key).set i (ServiceManager.beat e' now ep)) e.key,
      At e ep'.toId ∧ ep'.active = true := by
  obtain ⟨ep₀, hep₀, hat, hactive⟩ := h
  by_cases hkey : e.key = e'.key
  · rw [hkey, Function.update_self]
    rw [hkey] at hep₀
    obtain ⟨j, hj⟩ := List.mem_iff_getElem?.mp hep₀
    by_cases hij : i = j
    · subst hij
      obtain rfl : ep = ep₀ := Option.some.inj (hget.symm.trans hj)
      refine ⟨ServiceManager.beat e' now ep, List.mem_set (List.getElem?_eq_some_iff.mp hget).1 _,
        ?_, ?_⟩
      · rwa [toId_beat]
      · unfold ServiceManager.beat
        split
        · rfl
        · exact hactive
    · exact ⟨ep₀, List.mem_of_getElem? ((List.getElem?_set_ne hij).trans hj), hat, hactive⟩
  · rw [Function.update_of_ne hkey]
    exact ⟨ep₀, hep₀, hat, hactive⟩

namespace Fresh

variable {t : Threads} {time began filled turned : Nat}

/-- A turn of `heartBeat` that finds its address: when it is that of `e`, this beat is now the
last one on its way into the table. -/
theorem beaten_turn (h : Fresh e gap w) {e' : Id} {ep : EndPoint} (hat : isAt e' ep = true)
    (i : Nat) (now : UInt32) (net : Net) :
    HasBeat e (if At e e' then now.toNat else w.beat)
      (settled (w.threads.toNet (w.threads.manager.beatAt e' i now ep) net)) := by
  have hsettled : settled (w.threads.toNet (w.threads.manager.beatAt e' i now ep) net) =
      Store.updateRows (settled w.threads) (ServiceManager.beat e' now ep) := by
    rw [beatAt_of_isAt hat]
    exact List.foldl_append
  have hhere : At e (ServiceManager.beat e' now ep).toId ↔ At e e' := by
    rw [toId_beat, at_iff_of_isAt hat]
  rw [hsettled]
  by_cases hsame : At e e'
  · rw [if_pos hsame]
    have hbeat := hasBeat_updateRows
      (h.beaten.imp fun _ hrow => ⟨hrow.1, hrow.2.1⟩) (hhere.mpr hsame)
    rwa [ServiceManager.beat, if_pos hat] at hbeat ⊢
  · rw [if_neg hsame]
    exact h.beaten.updateRows (mt hhere.mp hsame)

/-- The net thread writes. -/
theorem net (h : Fresh e gap w) {now : UInt32} (hnow : w.time ≤ now.toNat)
    (hmove : Threads.Move .init columnDefault w.threads (.net now) t) :
    Fresh e gap ⟨t, now.toNat, w.began, filled,
      if turns e w.threads then now.toNat else w.beat⟩ := by
  obtain ⟨hmain, hrows, -, -⟩ := frame_of_net hmove
  have hfound : Found e gap w.began now.toNat t.store.rows t.main := by
    rw [hmain, hrows]
    exact h.found.later hnow
  have hquiet : turns e w.threads = false → settled t = settled w.threads →
      (∃ ep ∈ t.manager.services e.key, At e ep.toId ∧ ep.active = true) →
      Fresh e gap ⟨t, now.toNat, w.began, filled,
        if turns e w.threads then now.toNat else w.beat⟩ := by
    intro hturns hsettled hlisted
    rw [hturns]
    refine ⟨hlisted, h.beat_le.trans hnow, ?_, hfound⟩
    rw [hsettled]
    exact h.beaten
  cases hmove with
  | add hnet | lock hnet =>
    have hturns : turns e w.threads = false := by rw [turns, hnet]
    exact hquiet hturns rfl h.listed
  | unlock hnet hget =>
    have hturns : turns e w.threads = false := by
      rw [turns, hnet]
      simp only [hget]
    exact hquiet hturns rfl h.listed
  | @push ep _ hnet =>
    have hturns : turns e w.threads = false := by rw [turns, hnet]
    obtain ⟨ep₀, hep₀, hat₀, hactive₀⟩ := h.listed
    refine hquiet hturns rfl ⟨ep₀, ?_, hat₀, hactive₀⟩
    show ep₀ ∈ push w.threads.manager.services ep e.key
    rw [push, Grouping.push_apply]
    exact List.mem_append_left _ hep₀
  | @turn e' i ep _ hnet hget =>
    have hturns : turns e w.threads = (isAt e' ep && decide (At e e')) := by
      rw [turns, hnet]
      simp only [hget]
    by_cases hat : isAt e' ep = true
    · rw [hturns, hat, Bool.true_and]
      have hbeaten := h.beaten_turn hat i now (.beating e' (i + 1))
      refine ⟨?_, ?_, by simpa only [decide_eq_true_eq] using hbeaten, hfound⟩
      · show ∃ ep' ∈ (w.threads.manager.beatAt e' i now ep).services e.key,
          At e ep'.toId ∧ ep'.active = true
        rw [beatAt_of_isAt hat]
        exact listed_of_set hget h.listed
      · split
        · exact Nat.le_refl _
        · exact h.beat_le.trans hnow
    · have hmanager : w.threads.manager.beatAt e' i now ep = w.threads.manager := if_neg hat
      have hfalse : turns e w.threads = false := by
        rw [hturns, Bool.eq_false_iff.mpr hat, Bool.false_and]
      rw [hmanager] at hquiet ⊢
      exact hquiet hfalse rfl h.listed

/-- A row with a young time is loaded as an active endpoint. -/
theorem found_of_fetched {s : Store} {now : UInt32} {eps : List EndPoint} {t : Nat}
    (h : s.fetched .init now true = some eps) (hbeat : HasBeat e t s.rows)
    (hlate : now.toNat ≤ t + 122) (hhorizon : t + 122 < 2 ^ 32) :
    ∃ ep ∈ eps, ep.toId = e ∧ ep.active = true := by
  obtain ⟨row, hrow, hid, time, htime, rfl⟩ := hbeat
  obtain ⟨ep, hep, hload⟩ := fetched_of_row h hrow
  exact ⟨ep, hep, (toId_loadRow hload).trans hid,
    (active_loadRow hload htime hhorizon).mpr hlate⟩

/-- The main thread goes on. -/
theorem main (h : Fresh e gap w) (hclocked : Clocked period w) (hfit : gap + period ≤ 122)
    {clock : Nat → UInt32} (hbeats : Beats gap period w (.main clock))
    (hmove : Threads.Move .init columnDefault w.threads (.main clock) t) :
    Fresh e gap ⟨t, (clock 1).toNat, w.began, filled, w.beat⟩ := by
  obtain ⟨⟨hfirst, hlast, hperiod, hhorizon, -⟩, hgap⟩ := hbeats
  have hread : w.time ≤ (clock 0).toNat := hfirst
  have hagain : (clock 0).toNat ≤ (clock 1).toNat := hlast
  have hnow : (clock 1).toNat ≤ w.began + period := hperiod
  have hbeat : (clock 1).toNat ≤ w.beat + gap := hgap
  have hbegan := hclocked.began_le
  have htime : w.time ≤ (clock 1).toNat := hread.trans hagain
  have hle : w.beat ≤ (clock 1).toNat := h.beat_le.trans htime
  have hbeaten := h.beaten
  have hfound := h.found
  cases hmove with
  | @insert now ep batch _ hmain =>
    refine ⟨h.listed, hle, ?_, trivial⟩
    rw [settled, hmain] at hbeaten
    show HasBeat e w.beat (w.threads.manager.updateServices.foldl Store.updateRows
      (w.threads.store.rows ++ [Store.insertedRow columnDefault ep]))
    rw [foldl_updateRows_append]
    exact hbeaten.append _
  | early hmain _ | rest hmain _ =>
    refine ⟨h.listed, hle, ?_, trivial⟩
    rwa [settled, hmain] at hbeaten
  | flush hmain _ =>
    rw [settled, hmain] at hbeaten
    have hyoung : w.began ≤ w.beat + gap := by omega
    exact ⟨h.listed, hle, hbeaten, w.beat, hyoung, hle, hbeaten⟩
  | refresh hmain =>
    rw [settled, hmain] at hbeaten
    rw [hmain] at hfound
    obtain ⟨t, hyoung, hold, hrow⟩ := hfound
    exact ⟨h.listed, hle, hbeaten, t, hyoung, hold.trans htime, hrow⟩
  | reload hmain _ =>
    rw [settled, hmain] at hbeaten
    rw [hmain] at hfound
    obtain ⟨t, hyoung, hold, hrow⟩ := hfound
    exact ⟨h.listed, hle, hbeaten, t, hyoung, hold.trans htime, hrow⟩
  | fail hmain hfetched => exact absurd hfetched (hclocked.readable.fetched _)
  | select hmain hfetched =>
    rw [settled, hmain] at hbeaten
    rw [hmain] at hfound
    obtain ⟨t, hyoung, hold, hrow⟩ := hfound
    have hlate : (clock 0).toNat ≤ t + 122 := by omega
    have htop : t + 122 < 2 ^ 32 := by
      have hend : (clock 1).toNat + 122 < 2 ^ 32 := hhorizon
      omega
    have hload := found_of_fetched hfetched hrow hlate htop
    exact ⟨h.listed, hle, hbeaten, hload⟩
  | @swap _ eps hmain =>
    rw [settled, hmain] at hbeaten
    rw [hmain] at hfound
    obtain ⟨ep, hep, hid, hactive⟩ := hfound
    refine ⟨⟨ep, ?_, ?_, hactive⟩, hle, hbeaten, trivial⟩
    · show ep ∈ (w.threads.manager.swapServices eps).services e.key
      rw [Store.services_swapServices, Grouping.mem_group]
      exact ⟨hep, congrArg Id.key hid⟩
    · rw [hid]
      exact ⟨rfl, rfl⟩
  | swapStrings hmain =>
    refine ⟨h.listed, hle, ?_, trivial⟩
    rwa [settled, hmain] at hbeaten

theorem step (h : Fresh e gap w) (hclocked : Clocked period w) (hfit : gap + period ≤ 122)
    (hbeats : Beats gap period w a) (hstep : w.step e (some default) a = some w') :
    Fresh e gap w' := by
  obtain ⟨t, ht, rfl⟩ := Option.map_eq_some_iff.mp hstep
  have hmove := Threads.move_of_step ht
  cases a with
  | heartBeat e' now =>
    have htime : w.time ≤ now.toNat := hbeats.1.1
    cases hmove with
    | fresh _ _ | known _ _ =>
      exact ⟨h.listed, h.beat_le.trans htime, h.beaten, h.found.later htime⟩
  | net now => exact h.net hbeats.1.1 hmove
  | update now =>
    have htime : w.time ≤ now.toNat := hbeats.1.1
    cases hmove with
    | update hmain =>
      have hbeaten := h.beaten
      rw [settled, hmain] at hbeaten
      exact ⟨h.listed, h.beat_le.trans htime, hbeaten, trivial⟩
  | loadFromDB start => exact hbeats.1.2.2.2.2.elim
  | main clock => exact h.main hclocked hfit hbeats hmove

end Fresh

/-- `heartBeat` is at the endpoint, which has a row; the main loop is between two updates. -/
structure Registered (e : Id) (s : Threads) : Prop where
  between : s.main = .idle
  row : ∃ row ∈ s.store.rows, row.toId = e
  turn : ∃ i ep, s.net = .beating e i ∧ (s.manager.services e.key)[i]? = some ep ∧
    isAt e ep = true

theorem Registered.turns {s : Threads} (h : Registered e s) : turns e s = true := by
  obtain ⟨-, -, i, ep, hnet, hget, hat⟩ := h
  rw [Watch.turns, hnet]
  simp only [hget, hat, Bool.true_and, decide_eq_true_iff]
  exact ⟨rfl, rfl⟩

theorem Fresh.answered (h : Fresh e gap w) : (e.ip, e.port) ∈ Query w.threads.manager e.names := by
  obtain ⟨ep, hep, ⟨hip, hport⟩, hactive⟩ := h.listed
  exact mem_query.mpr ⟨ep, hep, hactive, hip, hport⟩

instance (gap period : Nat) (w : Watch) (a : Action) : Decidable (Beats gap period w a) :=
  inferInstanceAs (Decidable (_ ∧ _))

end Watch

end StormNet.Registry
