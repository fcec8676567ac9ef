/-
  Net/SlotNumbers.lean --- `Socket::id` is the slot's own number.

  `connectSocket` and `handleConnect` go from a slot to its id and back.  This works in
  every run: a slot that has been taken knows its number, and a Connect command carries
  the number of its slot.
-/
import StormNet.Net.LoopStep

set_option autoImplicit false

namespace StormNet.Net

open Function (update update_self update_of_ne forall_update_iff)

namespace SocketLoop

/-- The number `i` is one of a slot, and the slot knows it. -/
def Own (l : SocketLoop) (i : Nat) : Prop := (l.slot i).id = i ∧ l.hash i = i

/-- Whoever is about to connect a slot has the slot's own number. -/
structure Numbered (l : SocketLoop) : Prop where
  used : ∀ i, (l.slot i).status ≠ .idle → l.Own i
  calls : ∀ c, l.call c ≠ none → l.Own c.slot
  commands : ∀ cmd ∈ l.commands, cmd.type = .connect → ∃ i : Nat, cmd.id = i ∧ l.Own i

section Numbered

variable {l l' : SocketLoop} {a : Action} {env : Env} {i : Nat}

theorem numbered_new (maxSocket efd : Nat) : (new maxSocket efd).Numbered where
  used := by
    intro i hi
    by_cases hzero : i = 0
    · subst hzero
      exact ⟨by simp [new], Nat.zero_mod maxSocket⟩
    · refine absurd ?_ hi
      simp only [new, update_of_ne hzero]
  calls := fun _ h => absurd rfl h
  commands := by
    intro cmd hcmd
    cases hcmd

theorem getSocket_natCast (l : SocketLoop) (i : Nat) : l.getSocket i = some (l.hash i) := by
  rw [getSocket, if_neg (by omega), Int.toNat_natCast]

/-- A Connect command is for the slot of its number. -/
theorem Numbered.connect (h : l.Numbered) {id : Int} {target : Option Conn}
    (hpc : l.pc = .running ⟨.connect, id, target⟩) (hi : l.getSocket id = some i) :
    id = i ∧ l.Own i := by
  have hmem : (⟨.connect, id, target⟩ : SocketCmd) ∈ l.commands :=
    mem_commands_of_running hpc
  obtain ⟨j, rfl, hj⟩ := h.commands _ hmem rfl
  rw [getSocket_natCast, hj.2, Option.some.injEq] at hi
  exact hi ▸ ⟨rfl, hj⟩

/-- The loop's thread numbers only the slots it accepts into. -/
theorem NetStep.id_cases (h : NetStep l env l') :
    (l'.slot i).id = (l.slot i).id ∨ (l'.slot i).id = i := by
  cases h with
  | connected | read | wrote | connectDone | connectInProgress | sent | dataOver | cleared
  | idled =>
    left
    apply field_update Socket.id
    rfl
  | readClosed | writeClosed | sendClosed | dataClosed =>
    rw [closeFd_slot]
    left
    apply field_update Socket.id
    rfl
  | refused | closed | sweepClosed =>
    rw [closeFd_slot]
    exact .inl rfl
  | accepted k j =>
    by_cases hij : i = j
    · right
      simp only [hij, update_self]
    · left
      simp only [update_of_ne hij]
  | _ => exact .inl rfl

theorem Own.net (h : l.Own i) (hstep : NetStep l env l') : l'.Own i := by
  refine ⟨?_, ?_⟩
  · rcases hstep.id_cases with hid | hid
    · rw [hid, h.1]
    · exact hid
  · rw [hash, hstep.maxSocket_eq]
    exact h.2

/-- One slot is assigned. -/
theorem Numbered.set (h : l.Numbered) {j : Nat} {s : Socket} (hs : s.status ≠ .idle → l.Own j)
    (hi : (update l.slot j s i).status ≠ .idle) : l.Own i :=
  (forall_update_iff l.slot fun k t => t.status ≠ .idle → l.Own k).mpr
    ⟨hs, fun k _ => h.used k⟩ i hi

theorem Numbered.usedNet (h : l.Numbered) (hstep : NetStep l env l')
    (hi : (l'.slot i).status ≠ .idle) : l.Own i ∨ l'.Own i := by
  cases hstep with
  | connected e rest applied fd hat hstatus hfd =>
    refine .inl (h.set ?_ hi)
    intro _
    apply h.used
    rw [hstatus]
    exact SocketStatus.noConfusion
  | read | wrote | sent | dataOver =>
    refine .inl (h.set ?_ hi)
    exact h.used _
  | readClosed | writeClosed | sendClosed | dataClosed =>
    rw [closeFd_slot] at hi
    refine .inl (h.set ?_ hi)
    exact h.used _
  | connectDone id target j fd hpc hj | connectInProgress id target j fd hpc hj =>
    exact .inl (h.set (fun _ => (h.connect hpc hj).2) hi)
  | accepted k j fd allocId hpc hidle hhash hfd =>
    by_cases hij : i = j
    · subst hij
      exact .inr ⟨by simp only [update_self], hhash⟩
    · simp only [update_of_ne hij] at hi
      exact .inl (h.used i hi)
  | cleared | idled => exact .inl (h.set (absurd rfl) hi)
  | refused | closed | sweepClosed =>
    rw [closeFd_slot] at hi
    exact .inl (h.used i hi)
  | _ => exact .inl (h.used i hi)

/-- The loop's thread keeps the numbers. -/
theorem Numbered.net (h : l.Numbered) (hstep : NetStep l env l') : l'.Numbered := by
  refine ⟨?_, ?_, ?_⟩
  · intro i hi
    rcases h.usedNet hstep hi with hown | hown
    · exact hown.net hstep
    · exact hown
  · intro c hc
    rw [hstep.call_eq] at hc
    exact (h.calls c hc).net hstep
  · intro cmd hcmd htype
    obtain ⟨i, hid, hown⟩ := h.commands cmd (hstep.commands_subset hcmd) htype
    exact ⟨i, hid, hown.net hstep⟩

/-- A slot taken by a caller gets its number. -/
theorem Numbered.reserved (h : l.Numbered) {op : Op} {allocId : Nat} {files : Nat → Option File}
    (hhash : l.hash i = i) : Numbered { l with
      allocId := allocId
      slot := update l.slot i { l.slot i with id := i, fd := none, status := .reserse }
      gen := update l.gen i (l.gen i + 1)
      call := update l.call ⟨i, l.gen i + 1⟩ (some (.reserved op))
      files := files } := by
  have hown : ∀ j, l.Own j → (update l.slot i
      { l.slot i with id := i, fd := none, status := .reserse } j).id = j ∧ l.hash j = j := by
    intro j hj
    by_cases hji : j = i
    · subst hji
      exact ⟨by simp only [update_self], hhash⟩
    · rwa [update_of_ne hji]
  have hself : (update l.slot i
      { l.slot i with id := i, fd := none, status := .reserse } i).id = i ∧ l.hash i = i :=
    ⟨by simp only [update_self], hhash⟩
  refine ⟨?_, ?_, ?_⟩
  · intro j hj
    by_cases hji : j = i
    · exact hji ▸ hself
    · simp only [update_of_ne hji] at hj
      exact hown j (h.used j hj)
  · intro c hc
    by_cases hci : c = ⟨i, l.gen i + 1⟩
    · rw [hci]
      exact hself
    · simp only [update_of_ne hci] at hc
      exact hown _ (h.calls c hc)
  · intro cmd hcmd htype
    obtain ⟨j, hid, hj⟩ := h.commands cmd hcmd htype
    exact ⟨j, hid, hown j hj⟩

theorem Numbered.published (h : l.Numbered) {c : Conn} {op : Op}
    (hc : l.call c = some (.reserved op)) : Numbered { l with
      slot := update l.slot c.slot (op.fill (l.slot c.slot))
      call := update l.call c (some (.published op)) } := by
  have hcall : l.call c ≠ none := by simp [hc]
  have hown : ∀ j, l.Own j →
      (update l.slot c.slot (op.fill (l.slot c.slot)) j).id = j ∧ l.hash j = j := by
    intro j hj
    rw [field_update Socket.id (by cases op <;> rfl)]
    exact hj
  refine ⟨?_, ?_, ?_⟩
  · intro j hj
    exact hown j (h.set (fun _ => h.calls c hcall) hj)
  · intro d hd
    apply hown
    apply h.calls
    by_cases hdc : d = c
    · exact hdc ▸ hcall
    · simpa only [update_of_ne hdc] using hd
  · intro cmd hcmd htype
    obtain ⟨j, hid, hj⟩ := h.commands cmd hcmd htype
    exact ⟨j, hid, hown j hj⟩

/-- A command is queued; if it is to connect a slot, it has the number of the slot. -/
theorem Numbered.queued (h : l.Numbered) {cmd : SocketCmd}
    (hcmd : cmd.type = .connect → ∃ i : Nat, cmd.id = i ∧ l.Own i) :
    Numbered { l with queue := l.queue ++ [cmd] } := by
  refine { h with commands := ?_ }
  rw [commands_queue]
  exact List.forall_mem_append.mpr ⟨h.commands, List.forall_mem_singleton.mpr hcmd⟩

theorem Numbered.step (h : l.Numbered) (hstep : LoopStep l a l') : l'.Numbered := by
  cases hstep with
  | turned => exact { h with }
  | reserved op i allocId hpicks hidle hhash hfd => exact h.reserved hhash
  | published c op hc => exact h.published hc
  | pushed c op hc =>
    have hown : l.Own c.slot := h.calls c (by simp [hc])
    have hqueued : Numbered { l with
        queue := l.queue ++ [⟨op.cmdType, (l.slot c.slot).id, some c⟩] } :=
      h.queued (fun _ => ⟨c.slot, congrArg Int.ofNat hown.1, hown⟩)
    refine { hqueued with calls := ?_ }
    intro d hd
    apply h.calls
    by_cases hdc : d = c
    · simp [hdc, hc]
    · simpa only [update_of_ne hdc] using hd
  | issued a cmd hcmd =>
    refine { h.queued ?_ with }
    intro htype
    cases a <;> cases hcmd <;> cases htype
  | net env l' hnet => exact h.net hnet

end Numbered

end SocketLoop

end StormNet.Net
