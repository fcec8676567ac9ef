/-
  Util/TimerSeconds.lean --- when a timer of `addSecondTimer` fires.

  The delay is a product of 32 bits, and the time a sum of 64.  A node that does not repeat
  keeps its time, which `update` compares with its argument in front of the callback.  An
  update whose callbacks call nothing is the `updateTo` of `Timer`.
-/
import StormNet.Util.TimerCallback

set_option autoImplicit false

namespace StormNet.Util.TimerRun

open StormNet.Foundation
open Function (update)

/-- The timer that `addSecondTimer` creates in this state is not run before its seconds are
over, whatever is called behind it. -/
def NeverEarly (w : TimerRun) (nowMs : UInt64) (sec : UInt32) : Prop :=
  ∀ calls v later,
    execute step (fun _ _ => true) w (.addSecondTimer nowMs sec false :: calls) = some v →
    v.trace = w.trace ++ later →
    ∀ ms id, .fired ms w.timer.created id ∈ later → nowMs.toNat + 1000 * sec.toNat ≤ ms.toNat

/-- The product and the sum are those of the numbers. -/
def Exact (nowMs : UInt64) (sec : UInt32) : Prop :=
  1000 * sec.toNat < UInt32.size ∧ nowMs.toNat + 1000 * sec.toNat < UInt64.size

instance (nowMs : UInt64) (sec : UInt32) : Decidable (Exact nowMs sec) :=
  inferInstanceAs (Decidable (_ ∧ _))

/-- The time at which the timer expires. -/
def expireAt (nowMs : UInt64) (sec : UInt32) : UInt64 := nowMs + (sec * 1000).toUInt64

theorem toNat_expireAt (nowMs : UInt64) (sec : UInt32) : (expireAt nowMs sec).toNat =
    (nowMs.toNat + 1000 * sec.toNat % UInt32.size) % UInt64.size := by
  rw [expireAt, UInt64.toNat_add, UInt32.toNat_toUInt64, UInt32.toNat_mul, Nat.mul_comm]
  rfl

theorem expireAt_of_exact {nowMs : UInt64} {sec : UInt32} (h : Exact nowMs sec) :
    (expireAt nowMs sec).toNat = nowMs.toNat + 1000 * sec.toNat := by
  rw [toNat_expireAt, Nat.mod_eq_of_lt h.1, Nat.mod_eq_of_lt h.2]

/-- Where one of the two wraps, the timer expires early. -/
theorem expireAt_lt {nowMs : UInt64} {sec : UInt32} (h : ¬ Exact nowMs sec) :
    (expireAt nowMs sec).toNat < nowMs.toNat + 1000 * sec.toNat := by
  rw [toNat_expireAt]
  rcases Nat.lt_or_ge (1000 * sec.toNat) UInt32.size with hless | hmore
  · have hwraps : UInt64.size ≤ nowMs.toNat + 1000 * sec.toNat :=
      Nat.not_lt.mp (fun hlt => h ⟨hless, hlt⟩)
    rw [Nat.mod_eq_of_lt hless]
    exact Nat.lt_of_lt_of_le (Nat.mod_lt _ (by decide)) hwraps
  · have hproduct : 1000 * sec.toNat % UInt32.size < 1000 * sec.toNat :=
      Nat.lt_of_lt_of_le (Nat.mod_lt _ (by decide)) hmore
    have hsum : (nowMs.toNat + 1000 * sec.toNat % UInt32.size) % UInt64.size ≤
        nowMs.toNat + 1000 * sec.toNat % UInt32.size := Nat.mod_le _ _
    omega

/-! ## Not early -/

variable {w v : TimerRun} {ref : Nat} {time ms : UInt64} {before : List TimerEvent}
  {newNodes rest : List (UInt64 × Nat)}

/-- A node that does not repeat, and has not been run before its time since `before`. -/
structure Waits (ref : Nat) (time : UInt64) (before : List TimerEvent) (w : TimerRun) : Prop where
  created : ref < w.timer.created
  expire : (w.timer.node ref).expire = time
  once : (w.timer.node ref).repeats = false
  trace : ∃ later, w.trace = before ++ later ∧
    ∀ ms id, .fired ms ref id ∈ later → time ≤ ms

theorem Waits.enter (h : Waits ref time before w) (ms : UInt64) :
    Waits ref time before (w.enter ms newNodes rest) := by
  have hfinish : Waits ref time before (w.finish newNodes) :=
    ⟨h.created, h.expire, h.once, h.trace⟩
  unfold TimerRun.enter
  split
  · exact hfinish
  · rename_i it behind
    split
    · exact ⟨h.created, h.expire, h.once, h.trace⟩
    · split
      · exact hfinish
      · rename_i hdue
        refine ⟨h.created, h.expire, h.once, ?_⟩
        obtain ⟨later, htrace, hlater⟩ := h.trace
        refine ⟨later ++ [.fired ms it.2 (w.timer.node it.2).id], ?_, ?_⟩
        · show w.trace ++ _ = _
          rw [htrace, List.append_assoc]
        · intro ms' id hmem
          rcases List.mem_append.mp hmem with hold | hnew
          · exact hlater ms' id hold
          · cases List.mem_singleton.mp hnew
            rw [← h.expire]
            exact UInt64.not_lt.mp hdue

theorem Waits.leave (h : Waits ref time before w) (ms : UInt64) (it : UInt64 × Nat) :
    Waits ref time before (w.leave ms it newNodes) := by
  have hnode : (Timer.fire ms ⟨w.timer, newNodes, []⟩ it.2 (w.timer.nodes.erase it)).timer.node
      ref = w.timer.node ref := by
    rw [Timer.node_fire, if_neg]
    intro hboth
    rw [h.once] at hboth
    cases hboth.2
  rw [TimerRun.leave]
  apply Waits.enter
  refine ⟨?_, ?_, ?_, h.trace⟩
  · rw [Timer.created_fire]
    exact h.created
  · rw [hnode]
    exact h.expire
  · rw [hnode]
    exact h.once

/-- A call keeps the node as it is. -/
theorem Waits.addTimer (h : Waits ref time before w) (nowMs ms : UInt64) (repeats : Bool) :
    Waits ref time before { w with timer := (w.timer.addTimer nowMs ms repeats).1 } := by
  have hnode : (w.timer.addTimer nowMs ms repeats).1.node ref = w.timer.node ref :=
    Function.update_of_ne (Nat.ne_of_lt h.created) _ _
  refine ⟨Nat.lt_succ_of_lt h.created, ?_, ?_, h.trace⟩
  · rw [hnode]
    exact h.expire
  · rw [hnode]
    exact h.once

theorem Waits.delTimer (h : Waits ref time before w) (id : UInt32) (deleted : List Nat)
    (scheduled : Bool) : Waits ref time before { w with
      timer := (w.timer.delTimer id).1
      deleted := deleted
      trace := w.trace ++
        [.deleted id w.timer.created scheduled (w.timer.delTimer id).2] } := by
  have hsame : (w.timer.delTimer id).1.node = w.timer.node ∧
      (w.timer.delTimer id).1.created = w.timer.created := by
    unfold Timer.delTimer
    split
    · exact ⟨rfl, rfl⟩
    · split <;> exact ⟨rfl, rfl⟩
  obtain ⟨later, htrace, hlater⟩ := h.trace
  refine ⟨hsame.2 ▸ h.created, hsame.1 ▸ h.expire, hsame.1 ▸ h.once,
    later ++ [.deleted id w.timer.created scheduled (w.timer.delTimer id).2], ?_, ?_⟩
  · show w.trace ++ _ = _
    rw [htrace, List.append_assoc]
  · intro ms id' hmem
    rcases List.mem_append.mp hmem with hold | hnew
    · exact hlater ms id' hold
    · cases List.mem_singleton.mp hnew

theorem Waits.step (h : Waits ref time before w) {a : Action} (hstep : w.step a = some v) :
    Waits ref time before v := by
  cases steps_of_step hstep with
  | addTimer nowMs ms repeats => exact h.addTimer nowMs ms repeats
  | addSecondTimer nowMs sec repeats => exact h.addTimer nowMs (sec * 1000).toUInt64 repeats
  | dangling id => exact ⟨h.created, h.expire, h.once, h.trace⟩
  | delTimer id => exact h.delTimer id _ _
  | update ms => exact h.enter ms
  | own ms it newNodes => exact ⟨h.created, h.expire, h.once, h.trace⟩
  | back ms it newNodes => exact h.leave ms it

/-- The node that `addSecondTimer` creates. -/
theorem waits_addSecondTimer {nowMs : UInt64} {sec : UInt32}
    (hstep : w.step (.addSecondTimer nowMs sec false) = some v) :
    Waits w.timer.created (expireAt nowMs sec) w.trace v := by
  rw [TimerRun.step] at hstep
  split at hstep
  · cases hstep
  · cases hstep
    have hnode : (w.timer.addSecondTimer nowMs sec false).1.node w.timer.created =
        ⟨w.timer.id, expireAt nowMs sec, (sec * 1000).toUInt64, false⟩ :=
      Function.update_self _ _ _
    refine ⟨Nat.lt_succ_self _, ?_, ?_, [], (List.append_nil _).symm,
      fun _ _ hmem => absurd hmem List.not_mem_nil⟩
    · rw [hnode]
    · rw [hnode]

theorem neverEarly_of_exact {nowMs : UInt64} {sec : UInt32} (h : Exact nowMs sec)
    (w : TimerRun) : w.NeverEarly nowMs sec := by
  intro calls v later hrun hlater ms id hmem
  rw [execute, if_pos rfl] at hrun
  obtain ⟨u, hu, hrest⟩ := Option.bind_eq_some_iff.mp hrun
  have hwaits : Waits w.timer.created (expireAt nowMs sec) w.trace v :=
    invariant_of_execute (I := Waits w.timer.created (expireAt nowMs sec) w.trace)
      (fun _ _ _ hw hs => hw.step hs) (waits_addSecondTimer hu) hrest
  obtain ⟨behind, htrace, hdue⟩ := hwaits.trace
  have hsame : later = behind := List.append_cancel_left (hlater.symm.trans htrace)
  have hle := UInt64.le_iff_toNat_le.mp (hdue ms id (hsame ▸ hmem))
  rwa [expireAt_of_exact h] at hle

/-! ## Callbacks that call nothing -/

/-- The ids that have been run are kept beside the sweep. -/
theorem fire_fired (t : Timer) (fired : List UInt32) (ref : Nat) (behind : List (UInt64 × Nat)) :
    Timer.fire ms ⟨t, newNodes, fired⟩ ref behind =
      { Timer.fire ms ⟨t, newNodes, []⟩ ref behind with fired := fired ++ [(t.node ref).id] } := by
  unfold Timer.fire
  split <;> rfl

theorem behind_cons (it : UInt64 × Nat) (rest : List (UInt64 × Nat)) :
    Timer.behind (it :: rest) it = rest := by
  rw [Timer.behind, List.dropWhile_cons_of_neg (by simp)]
  rfl

/-- The callback of the node in front returns. -/
theorem execute_back {it : UInt64 × Nat} (hplace : w.place = .callback ms it newNodes)
    (halive : it.2 ∉ w.deleted) (hnodes : w.timer.nodes = it :: rest) (calls : List Action) :
    execute step (fun _ _ => true) w (.back :: calls) =
      execute step (fun _ _ => true) (enter { w with
        timer := (Timer.fire ms ⟨w.timer, newNodes, []⟩ it.2 rest).timer
        deleted := if (w.timer.node it.2).repeats then w.deleted else it.2 :: w.deleted }
        ms (Timer.fire ms ⟨w.timer, newNodes, []⟩ it.2 rest).newNodes rest) calls := by
  have hback : w.step .back = some (w.leave ms it newNodes) := by
    rw [TimerRun.step, hplace]
    exact if_neg halive
  rw [execute, if_pos rfl, hback, Option.bind_some, TimerRun.leave, hnodes, behind_cons,
    List.erase_cons_head]

/-- The timer behind the second loop of `update`. -/
def inserted (s : Timer.Sweep) : Timer :=
  { s.timer with nodes := s.newNodes.foldl Timer.insert s.timer.nodes }

/-- The nodes that the first loop of `update` has still to look at. -/
structure Ahead (t : Timer) (deleted : List Nat) (l : List (UInt64 × Nat)) : Prop where
  nodes : t.nodes = l
  alive : ∀ e ∈ l, e.2 ∉ deleted
  keyed : ∀ e ∈ l, e.1 = (t.node e.2).expire
  once : (l.map (·.2)).Nodup

section Ahead

variable {t : Timer} {deleted : List Nat} {it : UInt64 × Nat}

/-- The loop stops at the time a node has in `m_nodes`. -/
theorem Ahead.later_iff (h : Ahead t deleted (it :: rest)) :
    ms < (t.node it.2).expire ↔ ¬ Timer.isDue ms it = true := by
  rw [Timer.isDue, decide_eq_true_eq, UInt64.not_le, h.keyed it List.mem_cons_self]

theorem Ahead.ne_head (h : Ahead t deleted (it :: rest)) : ∀ d ∈ rest, d.2 ≠ it.2 := by
  intro d hd heq
  have hfresh : it.2 ∉ rest.map (·.2) := (List.nodup_cons.mp h.once).1
  have hmem : d.2 ∈ rest.map (·.2) := List.mem_map_of_mem hd
  exact hfresh (heq ▸ hmem)

/-- A turn touches no node behind the one it runs. -/
theorem Ahead.node_fire (h : Ahead t deleted (it :: rest)) : ∀ d ∈ rest,
    (Timer.fire ms ⟨t, newNodes, []⟩ it.2 rest).timer.node d.2 = t.node d.2 := by
  intro d hd
  rw [Timer.node_fire, if_neg]
  exact fun hboth => h.ne_head d hd hboth.1

theorem Ahead.fire (h : Ahead t deleted (it :: rest)) :
    Ahead (Timer.fire ms ⟨t, newNodes, []⟩ it.2 rest).timer
      (if (t.node it.2).repeats then deleted else it.2 :: deleted) rest := by
  refine ⟨Timer.nodes_fire _ _ _ _, ?_, ?_, (List.nodup_cons.mp h.once).2⟩
  · intro d hd
    have hold := h.alive d (List.mem_cons_of_mem it hd)
    split
    · exact hold
    · rw [List.mem_cons, not_or]
      exact ⟨h.ne_head d hd, hold⟩
  · intro d hd
    rw [h.node_fire d hd]
    exact h.keyed d (List.mem_cons_of_mem it hd)

end Ahead

/-- The nodes that are due are run one after the other, and the update ends as `sweep` does. -/
theorem enter_quiet (l : List (UInt64 × Nat)) (ms : UInt64) (w : TimerRun)
    (newNodes : List (UInt64 × Nat)) (fired : List UInt32) (h : Ahead w.timer w.deleted l) :
    ∃ v, execute step (fun _ _ => true) (w.enter ms newNodes l)
        (List.replicate (l.takeWhile (Timer.isDue ms)).length .back) = some v ∧
      v.place = .outside ∧
      v.timer = inserted (Timer.sweep ms l ⟨w.timer, newNodes, fired⟩) ∧
      v.trace = w.trace ++ (l.takeWhile (Timer.isDue ms)).map
        (fun e => .fired ms e.2 (w.timer.node e.2).id) := by
  induction l generalizing w newNodes fired with
  | nil => exact ⟨w.finish newNodes, rfl, rfl, rfl, (List.append_nil _).symm⟩
  | cons it rest ih =>
    have halive := h.alive it List.mem_cons_self
    rw [TimerRun.enter, if_neg halive, Timer.sweep]
    split
    · rename_i hlater
      rw [List.takeWhile_cons_of_neg (h.later_iff.mp hlater)]
      exact ⟨w.finish newNodes, rfl, rfl, rfl, (List.append_nil _).symm⟩
    · rename_i hnot
      have hdue : Timer.isDue ms it = true := not_not.mp (mt h.later_iff.mpr hnot)
      obtain ⟨v, hrun, hplace, htimer, htrace⟩ := ih
        { timer := (Timer.fire ms ⟨w.timer, newNodes, []⟩ it.2 rest).timer
          place := .callback ms it newNodes
          deleted := if (w.timer.node it.2).repeats then w.deleted else it.2 :: w.deleted
          trace := w.trace ++ [.fired ms it.2 (w.timer.node it.2).id] }
        (Timer.fire ms ⟨w.timer, newNodes, []⟩ it.2 rest).newNodes
        (fired ++ [(w.timer.node it.2).id]) h.fire
      refine ⟨v, ?_, hplace, ?_, ?_⟩
      · rw [List.takeWhile_cons_of_pos hdue, List.length_cons, List.replicate_succ]
        have hback := execute_back (w := ⟨w.timer, .callback ms it newNodes, w.deleted,
          w.trace ++ [.fired ms it.2 (w.timer.node it.2).id]⟩) rfl halive h.nodes
        rw [hback]
        exact hrun
      · rw [fire_fired]
        exact htimer
      · have hmap : (rest.takeWhile (Timer.isDue ms)).map (fun e => TimerEvent.fired ms e.2
            ((Timer.fire ms ⟨w.timer, newNodes, []⟩ it.2 rest).timer.node e.2).id) =
            (rest.takeWhile (Timer.isDue ms)).map
              (fun e => .fired ms e.2 (w.timer.node e.2).id) := by
          apply List.map_congr_left
          intro d hd
          rw [h.node_fire d ((List.takeWhile_prefix _).subset hd)]
        rw [htrace, hmap, List.takeWhile_cons_of_pos hdue, List.append_assoc]
        rfl

/-- **An update whose callbacks call nothing** is `updateTo`, and runs the nodes in front that
are due. -/
theorem Sound.execute_quiet (h : w.Sound) (hplace : w.place = .outside) (ms : UInt64) :
    ∃ v, execute TimerRun.step (fun _ _ => true) w (.update ms :: List.replicate
        (w.timer.nodes.takeWhile (Timer.isDue ms)).length .back) = some v ∧
      v.place = .outside ∧ v.timer = (w.timer.updateTo ms).1 ∧
      v.trace = w.trace ++ (w.timer.nodes.takeWhile (Timer.isDue ms)).map
        (fun e => .fired ms e.2 (w.timer.node e.2).id) := by
  have hkept := h.kept (defined_of_outside hplace)
  have hmem : ∀ e ∈ w.timer.nodes, e ∈ w.timer.nodes ++ w.newNodes :=
    fun e he => List.mem_append_left _ he
  have honce : (w.timer.nodes.map (·.2)).Nodup :=
    hkept.tied.once.sublist ((List.sublist_append_left _ _).map _)
  have hahead : Ahead w.timer w.deleted w.timer.nodes :=
    ⟨rfl, fun e he => hkept.tied.alive e (hmem e he),
      fun e he => hkept.tied.keyed e (hmem e he), honce⟩
  obtain ⟨v, hrun, hlast⟩ := enter_quiet w.timer.nodes ms w [] [] hahead
  refine ⟨v, ?_, hlast⟩
  rw [execute, if_pos rfl, TimerRun.step, if_pos hplace, Option.bind_some]
  exact hrun

/-! ## Seconds -/

/-- Where the delay or the time wraps, an update to the time at which the timer expires runs
it. -/
theorem Sound.early (h : w.Sound) (hplace : w.place = .outside)
    (hfresh : w.timer.search w.timer.id = none) {nowMs : UInt64} {sec : UInt32}
    (hwraps : ¬ Exact nowMs sec) : ¬ w.NeverEarly nowMs sec := by
  have hdefined := defined_of_outside hplace
  have hcall : w.step (.addSecondTimer nowMs sec false) =
      some { w with timer := (w.timer.addSecondTimer nowMs sec false).1 } := by
    rw [TimerRun.step, if_neg hdefined]
  have hsound := (h.step (a := .addSecondTimer nowMs sec false) hfresh hcall).1
  obtain ⟨v, hrun, -, -, htrace⟩ := hsound.execute_quiet hplace (expireAt nowMs sec)
  intro hnever
  have hkept := hsound.kept hdefined
  have hmem : (expireAt nowMs sec, w.timer.created) ∈
      (w.timer.addSecondTimer nowMs sec false).1.nodes := Timer.mem_insert.mpr (.inl rfl)
  have hsorted : (w.timer.addSecondTimer nowMs sec false).1.nodes.Pairwise
      (fun a b => Timer.isDue (expireAt nowMs sec) b = true →
        Timer.isDue (expireAt nowMs sec) a = true) := by
    apply hkept.sorted.imp
    intro a b hab hdue
    have hdue : b.1 ≤ expireAt nowMs sec := of_decide_eq_true hdue
    exact decide_eq_true (UInt64.le_trans (UInt64.le_iff_toNat_le.mpr hab) hdue)
  have hfired : TimerEvent.fired (expireAt nowMs sec) w.timer.created w.timer.id ∈
      ((w.timer.addSecondTimer nowMs sec false).1.nodes.takeWhile
        (Timer.isDue (expireAt nowMs sec))).map (fun e => .fired (expireAt nowMs sec) e.2
          ((w.timer.addSecondTimer nowMs sec false).1.node e.2).id) := by
    rw [takeWhile_eq_filter hsorted]
    refine List.mem_map.mpr ⟨_, List.mem_filter.mpr ⟨hmem, decide_eq_true (UInt64.le_refl _)⟩, ?_⟩
    have hnode : (w.timer.addSecondTimer nowMs sec false).1.node w.timer.created =
        ⟨w.timer.id, expireAt nowMs sec, (sec * 1000).toUInt64, false⟩ :=
      Function.update_self _ _ _
    rw [hnode]
  have hle := hnever _ v _ (by rw [execute, if_pos rfl, hcall, Option.bind_some]; exact hrun)
    htrace _ _ hfired
  exact Nat.not_lt.mpr hle (expireAt_lt hwraps)

/-- **A timer given in seconds** never fires early, in whatever state it is created, where the
product and the sum do not wrap; and where one does and no update is under way, some update
runs it early. -/
theorem neverEarly_iff (w : TimerRun) (nowMs : UInt64) (sec : UInt32) :
    (Exact nowMs sec → w.NeverEarly nowMs sec) ∧
      ∀ calls, Meets step Fresh start calls →
        execute step (fun _ _ => true) start calls = some w →
        w.place = .outside → w.timer.search w.timer.id = none →
        (w.NeverEarly nowMs sec ↔ Exact nowMs sec) := by
  refine ⟨fun hexact => neverEarly_of_exact hexact w, ?_⟩
  intro calls hfresh hrun hplace hid
  obtain ⟨hsound, -⟩ := hfresh.guard_iff (I := Sound) (P := Intact) (G := Careful)
    (fun _ _ _ h hf hs => (h.step hf hs).1) (fun _ _ _ h hf hs => (h.step hf hs).2)
    Sound.start hrun
  refine ⟨?_, fun hexact => neverEarly_of_exact hexact w⟩
  intro hnever
  by_contra hwraps
  exact hsound.early hplace hid hwraps hnever

/-- Behind an update with one callback. -/
def oneUpdate : List Action := [.addTimer 0 10 true, .update 20, .back]

theorem neverEarly_iff_of_update :
    ∃ w, execute step (fun _ _ => true) start oneUpdate = some w ∧ w.NeverEarly 20 3 ∧
      ¬ w.NeverEarly 20 4294968 := by
  have hruns : (execute step (fun _ _ => true) start oneUpdate).any
      (fun w => decide (w.place = .outside ∧ w.timer.search w.timer.id = none)) = true := by decide
  obtain ⟨w, hw, hquiet⟩ := (Option.any_eq_true _ _).mp hruns
  obtain ⟨hplace, hid⟩ := of_decide_eq_true hquiet
  refine ⟨w, hw, (neverEarly_iff w 20 3).1 (by decide), fun hnever => ?_⟩
  have hexact := ((neverEarly_iff w 20 4294968).2 oneUpdate (by decide) hw hplace hid).mp hnever
  exact absurd hexact (by decide)

/-- 4294968 seconds are a delay of 704 milliseconds. -/
theorem fires_early : ¬ start.NeverEarly 0 4294968 := by
  intro hnever
  have hfires : (execute step (fun _ _ => true) start
      [.addSecondTimer 0 4294968 false, .update 704]).map (·.trace) = some [.fired 704 0 0] := by
    decide
  obtain ⟨w, hw, htrace⟩ := Option.map_eq_some_iff.mp hfires
  have hle := hnever [.update 704] w [.fired 704 0 0] hw htrace 704 0 (by decide)
  exact absurd hle (by decide)

end StormNet.Util.TimerRun
