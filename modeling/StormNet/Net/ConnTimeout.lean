/-
  Net/ConnTimeout.lean --- whose attempts the entries of `m_connTimeout` stand for.

  `connectSocket` adds an entry under the slot's number when `connect` is under way, and
  `handleConnect` takes it out.  The entry names the slot only, so it outlives its attempt
  when the slot is closed, filled or connected by another way meanwhile.  `Attempts` runs
  the loop beside a numbering of the attempts; no step of the loop looks at it.
-/
import StormNet.Foundation.Transition
import StormNet.Net.SlotNumbers

set_option autoImplicit false

namespace StormNet.Net

open StormNet.Foundation
open StormNet.Util (TimeList)
open Function (update update_self update_of_ne)

/-- The slot whose attempt is over, or was never there. -/
def Pc.settles : Pc → Option Nat
  | .onData i _ => some i
  | .closing i _ _ => some i
  | .failing i => some i
  | _ => none

namespace SocketLoop

/-- `m_connTimeout` without the entry that a turn of its `timeout` is at. -/
def entries (l : SocketLoop) : TimeList Nat Nat :=
  if l.pc.resumes = some .erase then l.connTimeout.eraseFront else l.connTimeout

/-- The slot that the step takes from the attempt in it: a Close command closes it, a
Connect command fails on it or connects it at once, or a caller fills it. -/
def disturbs (l : SocketLoop) : Action → Option Nat
  | .publish c => some c.slot
  | .net env =>
      match l.pc, env.connect with
      | .running ⟨.close _, id, _⟩, _ => l.getSocket id
      | .running ⟨.connect, _, _⟩, .inProgress _ => none
      | .running ⟨.connect, id, _⟩, _ => l.getSocket id
      | _, _ => none
  | _ => none

/-- The step leaves the slots with an entry to their attempts. -/
def Undisturbed (l : SocketLoop) (a : Action) : Prop :=
  ∀ i ∈ l.disturbs a, ¬ l.entries.Live i

instance (l : SocketLoop) (a : Action) : Decidable (l.Undisturbed a) :=
  inferInstanceAs (Decidable (∀ i ∈ l.disturbs a, _))

/-! ## Entries -/

section Entries

variable {l l' : SocketLoop} {a : Action} {env : Env} {i id : Nat}

theorem entries_eq (h : l.pc.resumes ≠ some .erase) : l.entries = l.connTimeout := if_neg h

theorem live_of_entries (h : l.entries.Live id) : l.connTimeout.Live id := by
  unfold entries at h
  split at h
  · exact TimeList.live_of_eraseFront h
  · exact h

theorem forceClose_resumes {closeType : CloseType} {k : Resume} :
    (l.forceClose i closeType k).pc.resumes = some k := by
  unfold forceClose
  split <;> rfl

theorem forceClose_connTimeout {closeType : CloseType} {k : Resume} :
    (l.forceClose i closeType k).connTimeout = l.connTimeout := by
  unfold forceClose
  split
  · exact closeFd_connTimeout _ _
  · rfl

/-- A turn of the sweep keeps its entry to its end. -/
theorem erase_cases (h : l.netStep env = some l') (hk : l.pc.resumes = some .erase) :
    l'.pc.resumes = some .erase ∧ l'.connTimeout = l.connTimeout ∨
    l'.pc = .sweeping ∧ l'.connTimeout = l.connTimeout.eraseFront := by
  cases hpc : l.pc with
  | resume k =>
    obtain rfl : k = .erase := by simpa [hpc, Pc.resumes] using hk
    simp only [netStep, hpc, Option.some.injEq] at h
    exact .inr (by simp [← h])
  | onConnect j k =>
    obtain rfl : k = .erase := by simpa [hpc, Pc.resumes] using hk
    simp only [netStep, hpc, Option.some.injEq] at h
    exact .inl (by simp [← h, Pc.resumes])
  | onData j k =>
    obtain rfl : k = .erase := by simpa [hpc, Pc.resumes] using hk
    simp only [netStep, hpc] at h
    left
    split at h
    · simp [← Option.some.inj h, Pc.resumes]
    · rw [← Option.some.inj h]
      exact ⟨forceClose_resumes, forceClose_connTimeout⟩
  | closing j closeType k =>
    obtain rfl : k = .erase := by simpa [hpc, Pc.resumes] using hk
    simp only [netStep, hpc, Option.some.injEq] at h
    exact .inl (by simp [← h, Pc.resumes, clear])
  | _ => simp [hpc, Pc.resumes] at hk

/-- The slot and the id of the entry of an attempt that the step starts. -/
def starts (l : SocketLoop) : Action → Option (Nat × Nat)
  | .net env =>
      match l.pc, env.connect with
      | .running ⟨.connect, id, _⟩, .inProgress _ => (l.getSocket id).map (·, id.toNat)
      | _, _ => none
  | _ => none

/-- Only an attempt adds an entry. -/
theorem NetStep.live_connTimeout (h : NetStep l env l') (hstarts : l.starts (.net env) = none)
    (hid : l'.connTimeout.Live id) : l.connTimeout.Live id := by
  cases h with
  | connected => exact ((TimeList.live_del _ _ _).mp hid).2
  | refused =>
    rw [closeFd_connTimeout] at hid
    exact ((TimeList.live_del _ _ _).mp hid).2
  | erased => exact TimeList.live_of_eraseFront hid
  | connectInProgress id target i fd hpc hi hresult hfd =>
    simp [starts, hpc, hresult, hi] at hstarts
  | readClosed | writeClosed | sendClosed | closed | sweepClosed | dataClosed =>
    rwa [closeFd_connTimeout] at hid
  | _ => exact hid

theorem live_netStep (h : l.netStep env = some l') (hstarts : l.starts (.net env) = none)
    (hid : l'.entries.Live id) : l.entries.Live id := by
  by_cases hk : l.pc.resumes = some .erase
  · rw [entries, if_pos hk]
    rcases erase_cases h hk with ⟨hk', htable⟩ | ⟨hpc, htable⟩
    · rwa [entries, if_pos hk', htable] at hid
    · rwa [entries, if_neg (by simp [hpc, Pc.resumes]), htable] at hid
  · rw [entries_eq hk]
    exact (netStep_cases h).live_connTimeout hstarts (live_of_entries hid)

end Entries

end SocketLoop

/-! ## Attempts -/

/-- A loop with its attempts numbered. -/
structure Attempts where
  loop : SocketLoop
  /-- the attempts so far -/
  started : Nat
  /-- the attempt in the slot, unless a caller has filled the slot since -/
  inSlot : Nat → Option Nat
  /-- the attempt that added the entry -/
  ofEntry : Nat → Option Nat

namespace Attempts

open SocketLoop

/-- A step of the loop from `w.loop` to `l'`. -/
def record (w : Attempts) (a : Action) (l' : SocketLoop) : Attempts :=
  match a, w.loop.starts a with
  | .publish c, _ => { w with loop := l', inSlot := update w.inSlot c.slot none }
  | _, some (i, id) =>
      { loop := l'
        started := w.started + 1
        inSlot := update w.inSlot i (some w.started)
        ofEntry := update w.ofEntry id (some w.started) }
  | _, none => { w with loop := l' }

def step (w : Attempts) (a : Action) : Option Attempts := (w.loop.step a).map (w.record a)

/-- Behind the constructor. -/
def new (maxSocket efd : Nat) : Attempts :=
  ⟨SocketLoop.new maxSocket efd, 0, fun _ => none, fun _ => none⟩

/-- The slot `i` is Connecting on behalf of the attempt that added the entry of `id`. -/
def Serves (w : Attempts) (i id : Nat) : Prop :=
  (w.loop.slot i).status = .connecting ∧ ∃ n, w.inSlot i = some n ∧ w.ofEntry id = some n

/-- Every entry stands for an attempt under way. -/
def LiveOnly (w : Attempts) : Prop :=
  ∀ id, w.loop.entries.Live id → w.Serves (w.loop.hash id) id

/-- What `connectSocket` and `handleConnect` rely on. -/
structure Inv (w : Attempts) : Prop where
  numbered : w.loop.Numbered
  keys : ∀ id, w.loop.entries.Live id → w.loop.hash id = id
  serves : ∀ id, w.loop.entries.Live id → w.Serves id id
  settles : ∀ i, w.loop.pc.settles = some i → ¬ w.loop.entries.Live i

section Inv

variable {w w' : Attempts} {l' : SocketLoop} {a : Action} {env : Env} {i id : Nat}

theorem record_loop (w : Attempts) (a : Action) (l' : SocketLoop) :
    (w.record a l').loop = l' := by
  unfold record
  split <;> rfl

theorem record_of_starts_none (h : w.loop.starts (.net env) = none) :
    w.record (.net env) l' = { w with loop := l' } := by
  simp only [record, h]

theorem inv_new (maxSocket efd : Nat) : (new maxSocket efd).Inv where
  numbered := numbered_new maxSocket efd
  keys := fun id h => absurd h (TimeList.live_new 3 id)
  serves := fun id h => absurd h (TimeList.live_new 3 id)
  settles := by
    intro i hi
    cases hi

theorem Inv.liveOnly (h : w.Inv) : w.LiveOnly := by
  intro id hid
  rw [h.keys id hid]
  exact h.serves id hid

theorem Inv.connecting (h : w.Inv) (hid : w.loop.entries.Live id) :
    (w.loop.slot id).status = .connecting := (h.serves id hid).1

theorem Inv.not_live (h : w.Inv) (hstatus : (w.loop.slot id).status ≠ .connecting) :
    ¬ w.loop.entries.Live id := fun hid => hstatus (h.connecting hid)

/-- The slot of an event is known by its number. -/
theorem Inv.id_eq (h : w.Inv) (hstatus : (w.loop.slot i).status = .connecting) :
    (w.loop.slot i).id = i := by
  apply And.left
  apply h.numbered.used
  rw [hstatus]
  exact SocketStatus.noConfusion

/-- The status of a slot whose entry stays. -/
theorem Inv.status_net (h : w.Inv) (hun : w.loop.Undisturbed (.net env))
    (hstep : NetStep w.loop env l') (hstarts : w.loop.starts (.net env) = none)
    (hid : w.loop.entries.Live id) (hid' : l'.entries.Live id) :
    (l'.slot id).status = .connecting := by
  have hold := h.connecting hid
  have hset : ∀ j (s : Socket), (j = id → s.status = .connecting) →
      (update w.loop.slot j s id).status = .connecting := by
    intro j s hs
    by_cases hj : id = j
    · rw [hj, update_self]
      exact hs hj.symm
    · rwa [update_of_ne hj]
  have hout : ∀ j, ¬ w.loop.entries.Live j → j ≠ id := fun j hj heq => hj (heq ▸ hid)
  cases hstep with
  | connected e rest applied fd hat hstatus hfd =>
    apply hset
    intro he
    have hlive := live_of_entries hid'
    rw [TimeList.live_del, h.id_eq hstatus] at hlive
    exact absurd he.symm hlive.1
  | read | wrote | sent | dataOver =>
    apply hset
    intro hj
    rw [hj]
    exact hold
  | readClosed | writeClosed | sendClosed | dataClosed =>
    rw [closeFd_slot]
    apply hset
    intro hj
    rw [hj]
    exact hold
  | connectDone cid target j fd hpc hj hresult hfd =>
    apply hset
    intro heq
    refine absurd heq (hout j (hun j ?_))
    simp only [disturbs, hpc, hresult, hj, Option.mem_def]
  | connectInProgress cid target j fd hpc hj hresult hfd =>
    simp [starts, hpc, hresult, hj] at hstarts
  | accepted k j fd allocId hpc hidle hhash hfd =>
    apply hset
    intro heq
    rw [← heq, hidle] at hold
    cases hold
  | cleared j closeType k hpc | idled j hpc =>
    apply hset
    intro heq
    exact absurd heq (hout j (h.settles j (by rw [hpc]; rfl)))
  | refused | closed | sweepClosed =>
    rw [closeFd_slot]
    exact hold
  | _ => exact hold

/-- A slot that is left has no entry. -/
theorem Inv.settles_net (h : w.Inv) (hun : w.loop.Undisturbed (.net env))
    (hnet : w.loop.netStep env = some l') (hstarts : w.loop.starts (.net env) = none)
    (hi : l'.pc.settles = some i) : ¬ l'.entries.Live i := by
  have hkeep : ¬ w.loop.entries.Live i → ¬ l'.entries.Live i :=
    mt (live_netStep hnet hstarts)
  have hconnected : (w.loop.slot i).status = .connected → ¬ l'.entries.Live i := by
    intro hstatus
    apply hkeep
    apply h.not_live
    rw [hstatus]
    exact SocketStatus.noConfusion
  cases netStep_cases hnet with
  | refused e rest applied hat hstatus =>
    cases hi
    intro hlive
    have hdel := live_of_entries hlive
    simp only [closeFd_connTimeout, TimeList.live_del, h.id_eq hstatus] at hdel
    exact hdel.1 rfl
  | read e rest applied k r hat hstatus hk | readClosed e rest applied k r hat hstatus hk =>
    cases hi
    exact hconnected hstatus
  | writeClosed j rest applied backlog hwrites hneed =>
    cases hi
    exact hconnected (status_of_needClose_handleWrite hneed)
  | sendClosed cid target buffer j applied backlog hpc hj hstatus hneed =>
    cases hi
    exact hconnected hstatus
  | closed cid target closeType j applied hpc hj huse =>
    cases hi
    apply hkeep
    apply hun
    simp only [disturbs, hpc, hj, Option.mem_def]
  | connectFailed cid target j hpc hj hresult =>
    cases hi
    apply hkeep
    apply hun
    simp only [disturbs, hpc, hresult, hj, Option.mem_def]
  | dataClosed j k hpc huse =>
    cases hi
    apply hkeep
    apply h.settles
    rw [hpc]
    rfl
  | sweepClosed cid hpc hdue huse =>
    cases hi
    intro hlive
    have hcid : w.loop.entries.Live cid := by
      rw [entries_eq (by simp [hpc, Pc.resumes])]
      exact TimeList.live_of_due hdue
    have hfront := hlive
    simp only [entries, Pc.resumes, if_true, closeFd_connTimeout,
      TimeList.eraseFront_eq_del hdue, TimeList.live_del, h.keys cid hcid] at hfront
    exact hfront.1 rfl
  | acceptAgain j allocId hpc =>
    simp only [hpc, Pc.settles, reduceCtorEq] at hi
  | _ => cases hi

/-- `connectSocket` starts an attempt: the entry of the slot becomes its entry. -/
theorem Inv.started (h : w.Inv) {target : Option Conn} {cid : Int} {fd : Nat}
    (hpc : w.loop.pc = .running ⟨.connect, cid, target⟩) (hi : w.loop.getSocket cid = some i)
    (hresult : env.connect = .inProgress fd) (hnet : w.loop.netStep env = some l') :
    (w.record (.net env) l').Inv := by
  obtain ⟨rfl, hown⟩ := h.numbered.connect hpc hi
  have hnumbered := h.numbered.net (netStep_cases hnet)
  have hloop : w.loop.entries = w.loop.connTimeout := entries_eq (by simp [hpc, Pc.resumes])
  simp only [SocketLoop.netStep, hpc, handleOneCmd, connectSocket, hi, hresult] at hnet
  split at hnet
  · cases hnet
  · obtain rfl := Option.some.inj hnet
    have hrecord : w.loop.starts (.net env) = some (i, i) := by
      simp only [starts, hpc, hresult, hi, Option.map_some, Int.toNat_natCast]
    simp only [record, hrecord]
    refine ⟨hnumbered, ?_, ?_, ?_⟩
    · intro id hid
      simp only [entries, Pc.resumes, Option.some.injEq, reduceCtorEq, if_false,
        TimeList.live_add, Int.toNat_natCast] at hid
      rcases hid with rfl | hid
      · exact hown.2
      · exact h.keys id (hloop ▸ hid)
    · intro id hid
      simp only [entries, Pc.resumes, Option.some.injEq, reduceCtorEq, if_false,
        TimeList.live_add, Int.toNat_natCast] at hid
      by_cases hii : id = i
      · subst hii
        exact ⟨by simp only [update_self], w.started, by simp only [update_self],
          by simp only [update_self]⟩
      · have hserves := h.serves id (hloop ▸ hid.resolve_left hii)
        simpa only [Serves, update_of_ne hii] using hserves
    · intro j hj
      cases hj

/-- The loop's thread keeps the entries right if its commands do. -/
theorem Inv.net (h : w.Inv) (hun : w.loop.Undisturbed (.net env))
    (hnet : w.loop.netStep env = some l') : (w.record (.net env) l').Inv := by
  cases hstarts : w.loop.starts (.net env) with
  | some slot =>
    simp only [starts] at hstarts
    split at hstarts
    · rename_i hpc hresult
      obtain ⟨i, hi, -⟩ := Option.map_eq_some_iff.mp hstarts
      exact h.started hpc hi hresult hnet
    · cases hstarts
  | none =>
    rw [record_of_starts_none hstarts]
    have hstep := netStep_cases hnet
    refine ⟨h.numbered.net hstep, ?_, ?_, ?_⟩
    · intro id hid
      have hkey := h.keys id (live_netStep hnet hstarts hid)
      simpa only [SocketLoop.hash, hstep.maxSocket_eq] using hkey
    · intro id hid
      have hlive := live_netStep hnet hstarts hid
      exact ⟨h.status_net hun hstep hstarts hlive hid, (h.serves id hlive).2⟩
    · intro i hi
      exact h.settles_net hun hnet hstarts hi

/-- A step that is let through keeps the entries right. -/
theorem Inv.step (h : w.Inv) (hun : w.loop.Undisturbed a) (hstep : w.step a = some w') :
    w'.Inv := by
  obtain ⟨l', hl, rfl⟩ := Option.map_eq_some_iff.mp hstep
  have hnumbered := h.numbered.step (step_cases hl)
  cases step_cases hl with
  | turned | pushed => exact { h with numbered := hnumbered }
  | issued a cmd hcmd =>
    have hrecord : w.record a { w.loop with queue := w.loop.queue ++ [cmd] } =
        { w with loop := { w.loop with queue := w.loop.queue ++ [cmd] } } := by
      cases a <;> first | rfl | cases hcmd
    rw [hrecord]
    exact { h with numbered := hnumbered }
  | reserved op i allocId hpicks hidle hhash hfd =>
    refine { h with numbered := hnumbered, serves := ?_ }
    intro id hid
    have hne : id ≠ i := by
      rintro rfl
      have hstatus := h.connecting hid
      rw [hidle] at hstatus
      cases hstatus
    have hserves := h.serves id hid
    simpa only [Serves, record, starts, update_of_ne hne] using hserves
  | published c op hc =>
    refine { h with numbered := hnumbered, serves := ?_ }
    intro id hid
    have hne : id ≠ c.slot := by
      rintro rfl
      exact hun c.slot rfl hid
    have hserves := h.serves id hid
    simpa only [Serves, record, update_of_ne hne] using hserves
  | net env l' hnet => exact h.net hun hl

/-! ## A disturbed attempt -/

/-- An entry without its attempt. -/
theorem not_liveOnly (hid : w.loop.entries.Live i) (hhash : w.loop.hash i = i)
    (hserves : ¬ w.Serves i i) : ¬ w.LiveOnly := by
  intro hlive
  have hi := hlive i hid
  rw [hhash] at hi
  exact hserves hi

/-- The slot of an entry is closed, or its attempt is given up. -/
theorem exists_not_liveOnly
    (hpc : w.loop.pc = .failing i ∨ ∃ closeType, w.loop.pc = .closing i closeType .command)
    (hid : w.loop.connTimeout.Live i) (hhash : w.loop.hash i = i) :
    ∃ w', w.step (.net {}) = some w' ∧ ¬ w'.LiveOnly := by
  have hidle : ∀ s : Socket, s.status = .idle →
      ¬ (update w.loop.slot i s i).status = .connecting := by
    intro s hs hstatus
    rw [update_self, hs] at hstatus
    cases hstatus
  rcases hpc with hpc | ⟨closeType, hpc⟩
  · refine ⟨{ w with loop := { w.loop with
      slot := update w.loop.slot i { w.loop.slot i with status := .idle }
      pc := .resume .command } }, ?_, ?_⟩
    · simp [step, SocketLoop.step, SocketLoop.netStep, record, starts, hpc]
    · exact not_liveOnly hid hhash (fun h => hidle _ rfl h.1)
  · refine ⟨{ w with loop := { w.loop.clear i with pc := .resume .command } }, ?_, ?_⟩
    · simp [step, SocketLoop.step, SocketLoop.netStep, record, starts, hpc]
    · exact not_liveOnly hid hhash (fun h => hidle _ rfl h.1)

/-- A Close command closes the slot of an entry, and the entry stays. -/
theorem disturbed_close {cid : Int} {target : Option Conn} {closeType : CloseType}
    (hpc : w.loop.pc = .running ⟨.close closeType, cid, target⟩)
    (hi : w.loop.getSocket cid = some i) (huse : w.loop.inUse i)
    (hlive : w.loop.connTimeout.Live i) (hhash : w.loop.hash i = i)
    (hl : w.loop.netStep env = some l') :
    ∃ w', (w.record (.net env) l').step (.net {}) = some w' ∧ ¬ w'.LiveOnly := by
  simp only [SocketLoop.netStep, hpc, handleOneCmd, Option.some.injEq] at hl
  rw [closeCmd_of_inUse hi huse] at hl
  have huse' : (w.loop.deliver .command [target] i).inUse i := huse
  rw [forceClose, if_pos huse'] at hl
  rw [record_of_starts_none (by simp [starts, hpc]), ← hl]
  apply exists_not_liveOnly (i := i)
  · exact .inr ⟨closeType, rfl⟩
  · simp only [closeFd_connTimeout]
    exact hlive
  · simp only [SocketLoop.hash, closeFd_maxSocket]
    exact hhash

/-- A Connect command that starts no attempt ends the one in its slot. -/
theorem disturbed_connect {cid : Int} {target : Option Conn}
    (hpc : w.loop.pc = .running ⟨.connect, cid, target⟩) (hi : w.loop.getSocket cid = some i)
    (hresult : ∀ fd, env.connect ≠ .inProgress fd)
    (hlive : w.loop.connTimeout.Live i) (hhash : w.loop.hash i = i)
    (hl : w.loop.netStep env = some l') : ∃ w', (w' = w.record (.net env) l' ∨
      (w.record (.net env) l').step (.net {}) = some w') ∧ ¬ w'.LiveOnly := by
  have hstarts : w.loop.starts (.net env) = none := by
    simp only [starts, hpc]
    split
    · rename_i hprogress
      exact absurd hprogress (hresult _)
    · rfl
  rw [record_of_starts_none hstarts]
  simp only [SocketLoop.netStep, hpc, handleOneCmd, connectSocket, hi] at hl
  split at hl
  · obtain rfl := Option.some.inj hl
    obtain ⟨w', hstep, hw'⟩ := exists_not_liveOnly (i := i)
      (w := { w with loop := { w.loop with pc := .failing i } }) (.inl rfl) hlive hhash
    exact ⟨w', .inr hstep, hw'⟩
  · split at hl
    · cases hl
    · obtain rfl := Option.some.inj hl
      refine ⟨_, .inl rfl, ?_⟩
      apply not_liveOnly (i := i)
      · exact hlive
      · exact hhash
      · rintro ⟨hstatus, -⟩
        simp only [update_self] at hstatus
        cases hstatus
  · rename_i hprogress
    exact absurd hprogress (hresult _)

/-- A disturbed attempt leaves its entry behind, at once or at the next step of the loop's
thread. -/
theorem Inv.disturbed (h : w.Inv) (hun : ¬ w.loop.Undisturbed a) (hstep : w.step a = some w') :
    ∃ w'', (w'' = w' ∨ w'.step (.net {}) = some w'') ∧ ¬ w''.LiveOnly := by
  obtain ⟨l', hl, rfl⟩ := Option.map_eq_some_iff.mp hstep
  simp only [Undisturbed, not_forall, not_not] at hun
  obtain ⟨i, hi, hlive⟩ := hun
  have hhash := h.keys i hlive
  have htable := live_of_entries hlive
  cases a with
  | publish c =>
    obtain rfl : c.slot = i := Option.some.inj hi
    refine ⟨_, .inl rfl, ?_⟩
    cases step_cases hl with
    | published _ op hc =>
      apply not_liveOnly (i := c.slot)
      · exact hlive
      · exact hhash
      · rintro ⟨-, n, hn, -⟩
        simp only [record, update_self] at hn
        cases hn
    | issued _ cmd hcmd => cases hcmd
  | net env =>
    simp only [disturbs] at hi
    split at hi
    · rename_i hpc
      obtain ⟨w'', hnext, hw''⟩ := disturbed_close hpc hi
        (inUse_of_connecting (h.connecting hlive)) htable hhash hl
      exact ⟨w'', .inr hnext, hw''⟩
    · cases hi
    · rename_i hpc hresult
      exact disturbed_connect hpc hi hresult htable hhash hl
    · cases hi
  | _ => cases hi

/-- A turn of the sweep closes the slot of the attempt whose time is up. -/
theorem Inv.swept (h : w.Inv) (hpc : w.loop.pc = .sweeping)
    (hstep : w.step (.net env) = some w') (hi : w'.loop.pc.closes = some i) :
    ∃ id, w.loop.connTimeout.due env.now = some id ∧ w.loop.hash id = i ∧ w.Serves i id := by
  obtain ⟨l', hl, rfl⟩ := Option.map_eq_some_iff.mp hstep
  rw [record_loop] at hi
  have hnet : w.loop.netStep env = some l' := hl
  simp only [SocketLoop.netStep, hpc] at hnet
  split at hnet
  · rw [← Option.some.inj hnet] at hi
    cases hi
  · rename_i id hdue
    have hlive : w.loop.entries.Live id := by
      rw [entries_eq (by simp [hpc, Pc.resumes])]
      exact TimeList.live_of_due hdue
    have hclosed : w.loop.hash id = i := by
      simp only [← Option.some.inj hnet, closeSocket, getSocket_natCast, forceClose] at hi
      split at hi
      · exact Option.some.inj hi
      · cases hi
    refine ⟨id, hdue, hclosed, ?_⟩
    rw [← hclosed, h.keys id hlive]
    exact h.serves id hlive

end Inv

/-! ## Runs -/

/-- **Every entry of `m_connTimeout` stands for an attempt under way, as long as no attempt
is disturbed**, and a sweep then closes only the attempt whose time is up.  The first step
that disturbs an attempt leaves an entry without one. -/
theorem entries_serve (maxSocket efd : Nat) {w : Attempts}
    (h : Runs step (fun w a => w.loop.Undisturbed a) (new maxSocket efd) w) :
    (w.LiveOnly ∧ ∀ env w' i, w.loop.pc = .sweeping → w.step (.net env) = some w' →
      w'.loop.pc.closes = some i → ∃ id, w.loop.connTimeout.due env.now = some id ∧
        w.loop.hash id = i ∧ w.Serves i id) ∧
    ∀ a w', w.step a = some w' → ¬ w.loop.Undisturbed a →
      ∃ w'', (w'' = w' ∨ w'.step (.net {}) = some w'') ∧ ¬ w''.LiveOnly := by
  have hinv : w.Inv := by
    apply h.invariant _ (inv_new maxSocket efd)
    intro x a y hx hun hstep
    exact hx.step hun hstep
  refine ⟨⟨hinv.liveOnly, ?_⟩, ?_⟩
  · intro env w' i hpc hstep hi
    exact hinv.swept hpc hstep hi
  · intro a w' hstep hun
    exact hinv.disturbed hun hstep

/-- An attempt under way has its entry. -/
theorem entries_serve_of_one : ∃ w, Runs step (fun w a => w.loop.Undisturbed a) (new 2 3) w ∧
    w.loop.entries.Live 1 ∧ w.LiveOnly := by
  have hexec : ∃ w, Runs step (fun w a => w.loop.Undisturbed a) (new 2 3) w ∧
      decide (w.loop.entries.Live 1) = true :=
    exists_runs_of_schedule (new 2 3) [.reserve (.connect 5), .publish ⟨1, 1⟩, .push ⟨1, 1⟩,
      .net { ready := [(3, true, false)] }, .net {}, .net {}, .net { connect := .inProgress 4 }]
      _ (by decide)
  obtain ⟨w, hw, hlive⟩ := hexec
  exact ⟨w, hw, of_decide_eq_true hlive, (entries_serve 2 3 hw).1.1⟩

/-- An attempt is closed and the slot goes to another one, which is connected when the time of
the first is up: the sweep closes it. -/
theorem successor_timed_out : ∃ w, Runs step (fun _ _ => True) (new 2 3) w ∧
    ¬ w.LiveOnly ∧ (w.loop.slot 1).status = .connected ∧
    ∃ w', w.step (.net { now := 3 }) = some w' ∧ w'.loop.pc.closes = some 1 := by
  let p : Attempts → Bool := fun w =>
    w.loop.entries.Live 1 ∧ w.loop.hash 1 = 1 ∧ (w.loop.slot 1).status = .connected ∧
      (w.step (.net { now := 3 })).any (fun w' => w'.loop.pc.closes = some 1)
  have hexec : ∃ w, Runs step (fun _ _ => True) (new 2 3) w ∧ p w = true :=
    exists_runs_of_schedule (new 2 3) [.reserve (.connect 5), .publish ⟨1, 1⟩, .push ⟨1, 1⟩,
      .net { ready := [(3, true, false)] }, .net {}, .net {}, .net { connect := .inProgress 4 },
      .close 1 (some ⟨1, 1⟩) .self, .net {}, .net {}, .net {}, .reserve (.connect 6),
      .reserve (.connect 6), .publish ⟨1, 2⟩, .push ⟨1, 2⟩, .net {}, .net { connect := .done 5 },
      .net {}, .net {}, .net {}] p (by decide)
  obtain ⟨w, hw, hp⟩ := hexec
  obtain ⟨hlive, hhash, hstatus, hnext⟩ := of_decide_eq_true hp
  refine ⟨w, hw, ?_, hstatus, ?_⟩
  · apply not_liveOnly hlive hhash
    rintro ⟨hconnecting, -⟩
    rw [hstatus] at hconnecting
    cases hconnecting
  · obtain ⟨w', hstep, hcloses⟩ := (Option.any_eq_true _ _).mp hnext
    exact ⟨w', hstep, of_decide_eq_true hcloses⟩

/-- The record restricts no run. -/
theorem runs_loop_iff {maxSocket efd : Nat} {l : SocketLoop} :
    Runs SocketLoop.step (fun _ _ => True) (SocketLoop.new maxSocket efd) l ↔
      ∃ w, Runs step (fun _ _ => True) (new maxSocket efd) w ∧ w.loop = l := by
  apply Runs.recorded_iff (G := fun _ _ => True) (x := new maxSocket efd) loop
  intro w a
  rw [step, Option.map_map]
  simp only [Function.comp_def, record_loop, Option.map_id']

end Attempts

end StormNet.Net
