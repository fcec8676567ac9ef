/-
  Net/Routing.lean --- what is meant for a connection reaches it, or nobody.

  A slot number is all that commands, events and queued buffers know of their connection,
  so they reach whoever is in the slot.  `applied_to_its_connection`: as long as no slot is
  given away while something still refers to it, and nobody uses the id of a connection
  whose slot has been given away, everything is applied to the connection it is meant for.
-/
import StormNet.Foundation.Transition
import StormNet.Net.LoopInvariant

set_option autoImplicit false

namespace StormNet.Net

open StormNet.Foundation
open Function (update update_self update_of_ne forall_update_iff)

/-- The connection that a Connect command is to open. -/
def SocketCmd.opens (cmd : SocketCmd) : Option Conn :=
  if cmd.type = .connect then cmd.target else none

namespace SocketLoop

/-- Something outside the slot still refers to an occupant of it: a command, an event, a
call of `connect` or `listen`, or the callback of a failed attempt. -/
def Referenced (l : SocketLoop) (i : Nat) : Prop :=
  (∃ c, l.Ref c i) ∨ (∃ c, l.call c ≠ none ∧ c.slot = i) ∨ l.pc.fails = some i

/-- The step gives no slot away that is referred to, and uses no id of a connection whose
slot was given away. -/
structure Careful (l : SocketLoop) (a : Action) : Prop where
  reserve : ∀ i, l.picks a = some i → ¬ l.Referenced i
  issue : ∀ cmd c, a.cmd = some cmd → cmd.target = some c → l.occupant c.slot = c

/-- The connections that the Connect commands still to be handled are to open. -/
def toOpen (l : SocketLoop) : List Conn := l.commands.filterMap SocketCmd.opens

/-- The connection waits for its Connect command to be queued, or handled. -/
def Opening (l : SocketLoop) (c : Conn) : Prop :=
  (∃ handler, l.call c = some (.reserved (.connect handler)) ∨
    l.call c = some (.published (.connect handler))) ∨ c ∈ l.toOpen

/-- Everything on its way refers to the present occupant of its slot. -/
structure Routed (l : SocketLoop) : Prop where
  refs : ∀ c i, l.Ref c i → c = l.occupant i
  backlog : ∀ i c, some c ∈ l.backlog i → c = l.occupant i
  /-- nothing is queued in a slot that can be given away -/
  free : ∀ i, (l.slot i).status = .idle ∨ (l.slot i).status = .reserse → l.backlog i = []
  failing : ∀ i, l.pc.fails = some i → l.backlog i = []
  calls : ∀ c, l.call c ≠ none → l.occupant c.slot = c
  /-- a connection waiting for its Connect command has nothing yet -/
  opening : ∀ c, l.Opening c → l.occupant c.slot = c ∧ (l.slot c.slot).fd = none ∧
    (l.slot c.slot).id = c.slot ∧ l.backlog c.slot = []
  connects : ∀ cmd ∈ l.commands, cmd.type = .connect →
    ∃ c, cmd.target = some c ∧ l.getSocket cmd.id = some c.slot
  /-- each connection is opened once -/
  nodup : l.toOpen.Nodup
  queued : ∀ c ∈ l.toOpen, l.call c = none
  applied : ∀ d ∈ l.applied, d.actual = d.target

section Routed

variable {l l₀ : SocketLoop} {a : Action} {i : Nat}

theorem routed_new (maxSocket efd : Nat) : (new maxSocket efd).Routed where
  refs := by
    rintro c i (⟨cmd, hcmd, -, -⟩ | ⟨e, he, -, -⟩ | ⟨⟨⟩⟩)
    · cases hcmd
    · cases he
  backlog := by
    rintro i c ⟨⟩
  free := fun _ _ => rfl
  failing := by
    rintro i ⟨⟩
  calls := fun _ h => absurd rfl h
  opening := by
    rintro c (⟨handler, ⟨⟨⟩⟩ | ⟨⟨⟩⟩⟩ | ⟨⟨⟩⟩)
  connects := by
    rintro cmd ⟨⟩
  nodup := List.nodup_nil
  queued := by
    rintro c ⟨⟩
  applied := by
    rintro d ⟨⟩

/-- Moving on to a place where no command is at hand. -/
theorem Routed.move (h : l.Routed) {pc : Pc} (hruns : pc.runs = none)
    (hwrite : ∀ i c, pc.resumes = some (.write i (some c)) → c = l.occupant i)
    (hfails : ∀ i, pc.fails = some i → l.backlog i = []) : Routed { l with pc := pc } := by
  have hcommands : commands { l with pc := pc } = l.queue := by
    simp [commands, hruns]
  have hsub : l.queue.Sublist l.commands := List.sublist_append_right _ _
  have hopen : (toOpen { l with pc := pc }).Sublist l.toOpen := by
    rw [toOpen, hcommands]
    exact hsub.filterMap _
  refine { h with refs := ?_, failing := hfails, opening := ?_, connects := ?_, nodup := ?_,
                  queued := ?_ }
  · rintro c i (⟨cmd, hcmd, htarget, hid⟩ | ⟨e, he, htarget, hud⟩ | hresumes)
    · rw [hcommands] at hcmd
      exact h.refs c i (.inl ⟨cmd, hsub.subset hcmd, htarget, hid⟩)
    · exact h.refs c i (.inr (.inl ⟨e, he, htarget, hud⟩))
    · exact hwrite i c hresumes
  · rintro c (hcall | hc)
    · exact h.opening c (.inl hcall)
    · exact h.opening c (.inr (hopen.subset hc))
  · intro cmd hcmd htype
    rw [hcommands] at hcmd
    exact h.connects cmd (hsub.subset hcmd) htype
  · exact h.nodup.sublist hopen
  · intro c hc
    exact h.queued c (hopen.subset hc)

/-- A change of a slot that leaves its fd and its number, and does not free it. -/
theorem Routed.setSlot (h : l.Routed) {s : Socket} (hfd : s.fd = (l.slot i).fd)
    (hid : s.id = (l.slot i).id)
    (hfree : s.status = .idle ∨ s.status = .reserse → l.backlog i = []) :
    Routed { l with slot := update l.slot i s } := by
  refine { h with free := ?_, opening := ?_ }
  · exact (forall_update_iff l.slot fun j t =>
      t.status = .idle ∨ t.status = .reserse → l.backlog j = []).mpr
        ⟨hfree, fun j _ => h.free j⟩
  · intro c hc
    obtain ⟨hocc, hnone, hnumber, hback⟩ := h.opening c hc
    exact ⟨hocc, (field_update Socket.fd hfd _).trans hnone,
      (field_update Socket.id hid _).trans hnumber, hback⟩

/-- A waiting connection is referred to. -/
theorem Routed.referenced (h : l.Routed) {c : Conn} (hc : l.Opening c) :
    l.Referenced c.slot := by
  rcases hc with ⟨handler, hcall | hcall⟩ | hc
  · exact .inr (.inl ⟨c, by simp [hcall], rfl⟩)
  · exact .inr (.inl ⟨c, by simp [hcall], rfl⟩)
  · obtain ⟨cmd, hcmd, hopens⟩ := List.mem_filterMap.mp hc
    unfold SocketCmd.opens at hopens
    split at hopens
    · rename_i htype
      obtain ⟨d, hd, hid⟩ := h.connects cmd hcmd htype
      rw [hopens, Option.some.injEq] at hd
      subst hd
      exact .inl ⟨c, .inl ⟨cmd, hcmd, hopens, hid⟩⟩
    · cases hopens

/-- An idle slot that nothing refers to goes to its next occupant. -/
theorem Routed.take (h : l.Routed) (hidle : (l.slot i).status = .idle)
    (hreferenced : ¬ l.Referenced i) (s : Socket) : Routed { l with
      slot := update l.slot i s
      gen := update l.gen i (l.gen i + 1) } := by
  have hback : l.backlog i = [] := h.free i (.inl hidle)
  have hocc : ∀ j, j ≠ i → (⟨j, update l.gen i (l.gen i + 1) j⟩ : Conn) = l.occupant j := by
    intro j hji
    simp only [update_of_ne hji, occupant]
  have hrefs : ∀ c j, l.Ref c j → c = ⟨j, update l.gen i (l.gen i + 1) j⟩ := by
    intro c j hc
    have hji : j ≠ i := by
      rintro rfl
      exact hreferenced (.inl ⟨c, hc⟩)
    rw [hocc j hji]
    exact h.refs c j hc
  refine { h with refs := hrefs, backlog := ?_, free := ?_, calls := ?_, opening := ?_ }
  · intro j c hc
    have hji : j ≠ i := by
      rintro rfl
      have hc : some c ∈ l.backlog j := hc
      rw [hback] at hc
      cases hc
    exact (h.backlog j c hc).trans (hocc j hji).symm
  · intro j hj
    by_cases hji : j = i
    · exact hji ▸ hback
    · simp only [update_of_ne hji] at hj
      exact h.free j hj
  · intro c hc
    have hci : c.slot ≠ i := fun hci => hreferenced (.inr (.inl ⟨c, hc, hci⟩))
    exact (hocc _ hci).trans (h.calls c hc)
  · intro c hc
    have hci : c.slot ≠ i := fun hci => hreferenced (hci ▸ h.referenced hc)
    obtain ⟨hcocc, hnone, hnumber, hcback⟩ := h.opening c hc
    refine ⟨(hocc _ hci).trans hcocc, ?_, ?_, hcback⟩
    · simpa only [update_of_ne hci] using hnone
    · simpa only [update_of_ne hci] using hnumber

/-- A caller has its slot. -/
theorem Routed.setReserved (h : l.Routed) (c : Conn) (op : Op) (hocc : l.occupant c.slot = c)
    (hfd : (l.slot c.slot).fd = none) (hid : (l.slot c.slot).id = c.slot)
    (hback : l.backlog c.slot = []) (hnew : c ∉ l.toOpen) :
    Routed { l with call := update l.call c (some (.reserved op)) } := by
  refine { h with calls := ?_, opening := ?_, queued := ?_ }
  · intro d hd
    by_cases hdc : d = c
    · exact hdc ▸ hocc
    · simp only [update_of_ne hdc] at hd
      exact h.calls d hd
  · intro d hd
    by_cases hdc : d = c
    · subst hdc
      exact ⟨hocc, hfd, hid, hback⟩
    · refine h.opening d (hd.imp_left ?_)
      rintro ⟨handler, hcall⟩
      simp only [update_of_ne hdc] at hcall
      exact ⟨handler, hcall⟩
  · intro d hd
    have hdc : d ≠ c := by
      rintro rfl
      exact hnew hd
    show update l.call c _ d = none
    rw [update_of_ne hdc]
    exact h.queued d hd

/-- The assignments of a caller to its slot. -/
theorem Routed.publish (h : l.Routed) {c : Conn} {op : Op}
    (hc : l.call c = some (.reserved op)) (hstatus : (l.slot c.slot).status = .reserse) :
    Routed { l with
      slot := update l.slot c.slot (op.fill (l.slot c.slot))
      call := update l.call c (some (.published op)) } := by
  have hnone : l.call c ≠ none := by simp [hc]
  have hocc := h.calls c hnone
  have hback : l.backlog c.slot = [] := h.free _ (.inr hstatus)
  have hqueued : c ∉ l.toOpen := fun hmem => hnone (h.queued c hmem)
  have hcall : ∀ d, update l.call c (some (.published op)) d ≠ none ↔ l.call d ≠ none := by
    intro d
    by_cases hdc : d = c
    · subst hdc
      simp [hc]
    · rw [update_of_ne hdc]
  refine { h with free := ?_, calls := ?_, opening := ?_, queued := ?_ }
  · intro j hj
    by_cases hji : j = c.slot
    · exact hji ▸ hback
    · simp only [update_of_ne hji] at hj
      exact h.free j hj
  · intro d hd
    exact h.calls d ((hcall d).mp hd)
  · intro d hd
    have hd' : l.Opening d ∧ (d = c → ∃ handler, op = .connect handler) := by
      rcases hd with ⟨handler, hcall⟩ | hd
      · by_cases hdc : d = c
        · subst hdc
          simp only [update_self, Option.some.injEq, reduceCtorEq, Call.published.injEq,
            false_or] at hcall
          exact ⟨.inl ⟨handler, .inl (hcall ▸ hc)⟩, fun _ => ⟨handler, hcall⟩⟩
        · simp only [update_of_ne hdc] at hcall
          exact ⟨.inl ⟨handler, hcall⟩, fun heq => absurd heq hdc⟩
      · refine ⟨.inr hd, ?_⟩
        rintro rfl
        exact absurd hd hqueued
    obtain ⟨hdocc, hfd, hid, hdback⟩ := h.opening d hd'.1
    by_cases hds : d.slot = c.slot
    · have hdc : d = c := by
        rw [← hdocc, hds, hocc]
      obtain ⟨handler, rfl⟩ := hd'.2 hdc
      refine ⟨hdocc, ?_, ?_, hdback⟩
      · rw [hds] at hfd ⊢
        simpa only [update_self, Op.fill] using hfd
      · rw [hds] at hid ⊢
        simpa only [update_self, Op.fill] using hid
    · exact ⟨hdocc, by simpa only [update_of_ne hds] using hfd,
        by simpa only [update_of_ne hds] using hid, hdback⟩
  · intro d hd
    have hdc : d ≠ c := by
      rintro rfl
      exact hqueued hd
    show update l.call c _ d = none
    rw [update_of_ne hdc]
    exact h.queued d hd

theorem refs_queue (h : l.Routed) {cmd : SocketCmd}
    (htarget : ∀ c i, cmd.target = some c → l.getSocket cmd.id = some i → c = l.occupant i)
    {c : Conn} (hc : Ref { l with queue := l.queue ++ [cmd] } c i) : c = l.occupant i := by
  rcases hc with ⟨cmd', hcmd', hc, hid⟩ | hc
  · rw [commands_queue] at hcmd'
    rcases List.mem_append.mp hcmd' with hcmd' | hcmd'
    · exact h.refs c i (.inl ⟨cmd', hcmd', hc, hid⟩)
    · rw [List.mem_singleton.mp hcmd'] at hc hid
      exact htarget c i hc hid
  · exact h.refs c i (.inr hc)

/-- A command that opens nothing is queued. -/
theorem Routed.issue (h : l.Routed) {cmd : SocketCmd} (htype : cmd.type ≠ .connect)
    (htarget : ∀ c i, cmd.target = some c → l.getSocket cmd.id = some i → c = l.occupant i) :
    (l.pushCmd cmd).Routed := by
  have hopens : cmd.opens = none := by
    rw [SocketCmd.opens, if_neg htype]
  have hopen : (l.pushCmd cmd).toOpen = l.toOpen := by
    rw [toOpen, pushCmd, commands_queue, List.filterMap_append]
    simp [hopens, toOpen]
  refine { h with refs := fun _ _ => refs_queue h htarget, opening := ?_, connects := ?_,
                  nodup := ?_, queued := ?_ }
  · intro c hc
    apply h.opening c
    rw [Opening, hopen] at hc
    exact hc
  · intro cmd' hcmd' htype'
    rw [pushCmd, commands_queue] at hcmd'
    rcases List.mem_append.mp hcmd' with hcmd' | hcmd'
    · exact h.connects cmd' hcmd' htype'
    · rw [List.mem_singleton.mp hcmd'] at htype'
      exact absurd htype' htype
  · rw [hopen]
    exact h.nodup
  · rw [hopen]
    exact h.queued

/-- A call of `connect` or `listen` is over. -/
theorem Routed.endCall (h : l.Routed) (c : Conn) :
    Routed { l with call := update l.call c none } := by
  have hold : ∀ d v, update l.call c none d = some v → l.call d = some v := by
    intro d v hd
    by_cases hdc : d = c
    · subst hdc
      rw [update_self] at hd
      cases hd
    · rwa [update_of_ne hdc] at hd
  refine { h with calls := ?_, opening := ?_, queued := ?_ }
  · intro d hd
    obtain ⟨v, hv⟩ := Option.ne_none_iff_exists'.mp hd
    exact h.calls d (by simp [hold d v hv])
  · intro d hd
    refine h.opening d (hd.imp_left ?_)
    rintro ⟨handler, hcall⟩
    exact ⟨handler, hcall.imp (hold d _) (hold d _)⟩
  · intro d hd
    show update l.call c none d = none
    by_cases hdc : d = c
    · rw [hdc, update_self]
    · rw [update_of_ne hdc]
      exact h.queued d hd

/-- The Connect command of a call that is over is queued. -/
theorem Routed.queueConnect (h : l.Routed) {c : Conn} {id : Int} (hocc : l.occupant c.slot = c)
    (hfd : (l.slot c.slot).fd = none) (hnumber : (l.slot c.slot).id = c.slot)
    (hback : l.backlog c.slot = []) (hcall : l.call c = none) (hnew : c ∉ l.toOpen)
    (hid : l.getSocket id = some c.slot) : (l.pushCmd ⟨.connect, id, some c⟩).Routed := by
  have hcommands : (l.pushCmd ⟨.connect, id, some c⟩).commands =
      l.commands ++ [⟨.connect, id, some c⟩] := commands_queue _ _
  have hopen : (l.pushCmd ⟨.connect, id, some c⟩).toOpen = l.toOpen ++ [c] := by
    simp [toOpen, hcommands, SocketCmd.opens]
  refine { h with refs := fun _ _ => refs_queue h ?_, opening := ?_, connects := ?_,
                  nodup := ?_, queued := ?_ }
  · rintro d i ⟨⟩ hi
    have hci := hid.symm.trans hi
    rw [Option.some.injEq] at hci
    exact hci ▸ hocc.symm
  · rintro d (hd | hd)
    · exact h.opening d (.inl hd)
    · rw [hopen] at hd
      rcases List.mem_append.mp hd with hd | hd
      · exact h.opening d (.inr hd)
      · rw [List.mem_singleton.mp hd]
        exact ⟨hocc, hfd, hnumber, hback⟩
  · intro cmd hcmd htype
    rw [hcommands] at hcmd
    rcases List.mem_append.mp hcmd with hcmd | hcmd
    · exact h.connects cmd hcmd htype
    · rw [List.mem_singleton.mp hcmd]
      exact ⟨c, rfl, hid⟩
  · rw [hopen]
    exact h.nodup.append (List.nodup_singleton c) (by simpa using hnew)
  · intro d hd
    rw [hopen] at hd
    rcases List.mem_append.mp hd with hd | hd
    · exact h.queued d hd
    · rw [List.mem_singleton.mp hd]
      exact hcall

/-- The command of a call of `connect` or `listen` is queued, and the call is over. -/
theorem Routed.push (h : l.Routed) {c : Conn} {op : Op} (hc : l.call c = some (.published op))
    (hid : l.getSocket (l.slot c.slot).id = some c.slot) : Routed { l with
      call := update l.call c none
      queue := l.queue ++ [⟨op.cmdType, (l.slot c.slot).id, some c⟩] } := by
  have hnone : l.call c ≠ none := by simp [hc]
  have hocc := h.calls c hnone
  have hover := h.endCall c
  cases op with
  | connect handler =>
    obtain ⟨-, hfd, hnumber, hback⟩ := h.opening c (.inl ⟨handler, .inr hc⟩)
    exact hover.queueConnect hocc hfd hnumber hback (update_self _ _ _)
      (fun hmem => hnone (h.queued c hmem)) hid
  | listen handler fd =>
    refine hover.issue (by rintro ⟨⟩) ?_
    rintro d i ⟨⟩ hi
    have hci := hid.symm.trans hi
    rw [Option.some.injEq] at hci
    exact hci ▸ hocc.symm

/-- `connectSocket` runs for a connection that waits for it. -/
theorem Routed.connecting (h : l.Routed) (hconnects : l.connects a = some i) :
    ∃ c, c ∈ l.pc.runs.toList.filterMap SocketCmd.opens ∧ c ∈ l.toOpen ∧ c.slot = i := by
  obtain ⟨id, target, hpc, hid⟩ := connects_eq_some hconnects
  have hmem : (⟨.connect, id, target⟩ : SocketCmd) ∈ l.commands := mem_commands_of_running hpc
  obtain ⟨c, rfl, hc⟩ := h.connects _ hmem rfl
  have hrun : c ∈ l.pc.runs.toList.filterMap SocketCmd.opens := by
    simp [hpc, Pc.runs, SocketCmd.opens]
  refine ⟨c, hrun, ?_, ?_⟩
  · rw [toOpen, commands, List.filterMap_append]
    exact List.mem_append_left _ hrun
  · rw [hid] at hc
    exact (Option.some.inj hc).symm

/-- A careful step pulls no slot away. -/
theorem Careful.admits (hcareful : l.Careful a) (h : l.Routed) : l.Admits a where
  reserve := fun i hpicks hfails => hcareful.reserve i hpicks (.inr (.inr hfails))
  connect := by
    intro i hconnects
    obtain ⟨c, -, hc, rfl⟩ := h.connecting hconnects
    obtain ⟨hocc, hfd, hid, -⟩ := h.opening c (.inr hc)
    refine ⟨hfd, hid, ?_⟩
    intro op hop
    rw [hocc, h.queued c hc] at hop
    cases hop

/-- `connectSocket` gives the slot an fd: nobody else waits for it. -/
theorem Routed.opened (h : l.Routed) (hconnects : l.connects a = some i) (s : Socket)
    (hfree : ¬ (s.status = .idle ∨ s.status = .reserse)) :
    Routed { l with slot := update l.slot i s, pc := .resume .command } := by
  obtain ⟨c, hrun, hc, rfl⟩ := h.connecting hconnects
  have hmoved := @Routed.move _ h (.resume .command) rfl (by rintro i c ⟨⟩) (by rintro i ⟨⟩)
  have hnodup : (l.pc.runs.toList.filterMap SocketCmd.opens ++
      l.queue.filterMap SocketCmd.opens).Nodup := by
    rw [← List.filterMap_append]
    exact h.nodup
  have hother : ∀ d, Opening { l with pc := .resume .command } d → d.slot ≠ c.slot := by
    intro d hd heq
    have hdc : d = c := by
      rw [← (hmoved.opening d hd).1, ← (h.opening c (.inr hc)).1]
      exact congrArg l.occupant heq
    subst hdc
    have hcall : l.call d = none := h.queued d hc
    rcases hd with ⟨handler, hd | hd⟩ | hd
    · exact absurd (hcall.symm.trans hd) (by simp)
    · exact absurd (hcall.symm.trans hd) (by simp)
    · exact (List.disjoint_of_nodup_append hnodup) hrun hd
  refine { hmoved with free := ?_, opening := ?_ }
  · intro j hj
    by_cases hji : j = c.slot
    · subst hji
      simp only [update_self] at hj
      exact absurd hj hfree
    · simp only [update_of_ne hji] at hj
      exact h.free j hj
  · intro d hd
    obtain ⟨hocc, hfd, hid, hback⟩ := hmoved.opening d hd
    have hds := hother d hd
    exact ⟨hocc, by simpa only [update_of_ne hds] using hfd,
      by simpa only [update_of_ne hds] using hid, hback⟩

/-- The next command of the queue is handled. -/
theorem Routed.pop (h : l.Routed) {cmd : SocketCmd} {rest : List SocketCmd}
    (hqueue : l.queue = cmd :: rest) (hpc : l.pc = .resume .command) :
    Routed { l with queue := rest, pc := .running cmd } := by
  have hcommands : commands { l with queue := rest, pc := .running cmd } = l.commands := by
    simp [commands, hpc, hqueue, Pc.runs]
  have hopen : toOpen { l with queue := rest, pc := .running cmd } = l.toOpen := by
    rw [toOpen, toOpen, hcommands]
  refine { h with refs := ?_, failing := ?_, opening := ?_, connects := ?_, nodup := ?_,
                  queued := ?_ }
  · rintro c i (hc | hc | ⟨⟨⟩⟩)
    · rw [hcommands] at hc
      exact h.refs c i (.inl hc)
    · exact h.refs c i (.inr (.inl hc))
  · rintro i ⟨⟩
  · intro c hc
    rw [Opening, hopen] at hc
    exact h.opening c hc
  · rw [hcommands]
    exact h.connects
  · rw [hopen]
    exact h.nodup
  · rw [hopen]
    exact h.queued

/-- A change of what is queued in a slot: nothing is queued where there is no connection. -/
theorem Routed.setBacklog (h : l.Routed) (hsound : l.Sound) {targets : List (Option Conn)}
    (hstatus : (l.slot i).status = .connected ∨ targets ⊆ l.backlog i)
    (htargets : ∀ c, some c ∈ targets → c = l.occupant i) :
    Routed { l with backlog := update l.backlog i targets } := by
  have hnil : (l.slot i).status ≠ .connected → l.backlog i = [] → targets = [] := by
    intro hst hback
    have hsub := hstatus.resolve_left hst
    rw [hback] at hsub
    exact List.subset_nil.mp hsub
  have hempty : ∀ j, (l.slot j).fd = none → l.backlog j = [] →
      update l.backlog i targets j = [] :=
    (forall_update_iff l.backlog fun j queued =>
      (l.slot j).fd = none → l.backlog j = [] → queued = []).mpr
        ⟨fun hnone => hnil (fun hst => hsound.connected i hst hnone), fun _ _ _ hback => hback⟩
  refine { h with backlog := ?_, free := ?_, failing := ?_, opening := ?_ }
  · exact (forall_update_iff l.backlog fun j queued =>
      ∀ c, some c ∈ queued → c = l.occupant j).mpr ⟨htargets, fun j _ => h.backlog j⟩
  · intro j hj
    exact hempty j (hsound.free j hj) (h.free j hj)
  · intro j hj
    exact hempty j (hsound.failing j hj).1 (h.failing j hj)
  · intro c hc
    obtain ⟨hocc, hnone, hid, hback⟩ := h.opening c hc
    exact ⟨hocc, hnone, hid, hempty _ hnone hback⟩

/-- The end of `forceClose`. -/
theorem Routed.cleared (h : l.Routed) {closeType : CloseType} {k : Resume}
    (hpc : l.pc = .closing i closeType k) : Routed { l.clear i with pc := .resume k } := by
  have hmoved := @Routed.move _ h (.resume k) rfl
    (by rintro j c ⟨⟩; exact h.refs c j (.inr (.inr (by rw [hpc]; rfl)))) (by rintro j ⟨⟩)
  refine { hmoved with backlog := ?_, free := ?_, failing := ?_, opening := ?_ }
  · intro j c hc
    by_cases hji : j = i
    · subst hji
      simp only [clear, update_self] at hc
      cases hc
    · simp only [clear, update_of_ne hji] at hc
      exact h.backlog j c hc
  · intro j hj
    by_cases hji : j = i
    · subst hji
      simp only [clear, update_self]
    · simp only [clear, update_of_ne hji] at hj ⊢
      exact h.free j hj
  · rintro j ⟨⟩
  · intro c hc
    obtain ⟨hocc, hnone, hid, hback⟩ := hmoved.opening c hc
    by_cases hci : c.slot = i
    · refine ⟨hocc, ?_, ?_, ?_⟩
      · simp only [clear, hci, update_self]
      · rw [hci] at hid ⊢
        simpa only [clear, update_self] using hid
      · simp only [clear, hci, update_self]
    · exact ⟨hocc, by simpa only [clear, update_of_ne hci] using hnone,
        by simpa only [clear, update_of_ne hci] using hid,
        by simpa only [clear, update_of_ne hci] using hback⟩

/-- A call of `connect` or `listen` takes a slot. -/
theorem Routed.reserve (h : l.Routed) (hidle : (l.slot i).status = .idle)
    (hfree : ¬ l.Referenced i) (op : Op) (allocId : Nat) : Routed { l with
      allocId := allocId
      slot := update l.slot i { l.slot i with id := i, fd := none, status := .reserse }
      gen := update l.gen i (l.gen i + 1)
      call := update l.call ⟨i, l.gen i + 1⟩ (some (.reserved op))
      files := op.opened ⟨i, l.gen i + 1⟩ l.files } := by
  have htaken := h.take hidle hfree { l.slot i with id := i, fd := none, status := .reserse }
  have hnew : (⟨i, l.gen i + 1⟩ : Conn) ∉ l.toOpen := by
    intro hmem
    exact hfree (h.referenced (.inr hmem))
  have hset := htaken.setReserved ⟨i, l.gen i + 1⟩ op (by simp only [occupant, update_self])
    (by simp only [update_self]) (by simp only [update_self]) (h.free i (.inl hidle)) hnew
  exact { hset with }

/-- `handleAccept` takes a slot. -/
theorem Routed.accepted (h : l.Routed) (hidle : (l.slot i).status = .idle)
    (hfree : ¬ l.Referenced i) (s : Socket) (allocId listener : Nat)
    (files : Nat → Option File) : Routed { l with
      allocId := allocId
      slot := update l.slot i s
      gen := update l.gen i (l.gen i + 1)
      files := files
      pc := .onAccept i listener } := by
  have hmoved := @Routed.move _ (h.take hidle hfree s) (.onAccept i listener) rfl
    (by rintro k c ⟨⟩) (by rintro k ⟨⟩)
  exact { hmoved with }

/-- `epoll_wait` reports events of the fds that are registered. -/
theorem Routed.reported (h : l.Routed) (hsound : l.Sound) {events : List SocketEvent}
    (hevents : ∀ e ∈ events, ∃ fd event, l.poll.epoll fd = some event ∧ e.ud = event.ud ∧
      e.target = (l.files fd).map File.owner) : Routed { l with event := events } := by
  refine { h with refs := ?_ }
  rintro c i (hc | ⟨e, he, hc, rfl⟩ | hc)
  · exact h.refs c i (.inl hc)
  · obtain ⟨fd, event, hepoll, hud, htarget⟩ := hevents e he
    obtain ⟨hslot, hcloses⟩ := hsound.registered fd event hepoll
    obtain ⟨f, hf, howner⟩ := hsound.fds _ fd hslot hcloses
    rw [htarget, hf] at hc
    cases hc
    rw [hud]
    exact howner
  · exact h.refs c i (.inr (.inr hc))

/-- An event is done with. -/
theorem Routed.eventDone (h : l.Routed) {rest : List SocketEvent} (hrest : rest ⊆ l.event) :
    Routed { l with event := rest } := by
  refine { h with refs := ?_ }
  rintro c i (hc | ⟨e, he, hc, hud⟩ | hc)
  · exact h.refs c i (.inl hc)
  · exact h.refs c i (.inr (.inl ⟨e, hrest he, hc, hud⟩))
  · exact h.refs c i (.inr (.inr hc))

/-- What is meant for the occupant of the slot is applied to it. -/
theorem Routed.delivered (h : l.Routed) {effect : Effect} {targets : List (Option Conn)}
    (htargets : ∀ c, some c ∈ targets → c = l.occupant i) :
    (l.deliver effect targets i).Routed := by
  refine { h with applied := ?_ }
  intro d hd
  rcases List.mem_append.mp hd with hd | hd
  · obtain ⟨t, ht, hd⟩ := List.mem_filterMap.mp hd
    obtain ⟨c, rfl, rfl⟩ := Option.map_eq_some_iff.mp hd
    exact (htargets c ht).symm
  · exact h.applied d hd

/-- `forceClose` of a slot in use closes its fd. -/
theorem Routed.close (h : l.Routed) (closeType : CloseType) {k : Resume}
    (hk : ∀ j c, k = .write j (some c) → c = l.occupant j) :
    Routed { l.closeFd (l.slot i).fd with pc := .closing i closeType k } := by
  have hmoved := @Routed.move _ h (.closing i closeType k) rfl
    (by rintro j c ⟨⟩; exact hk j c rfl) (by rintro j ⟨⟩)
  cases (l.slot i).fd with
  | none => exact hmoved
  | some fd => exact { hmoved with }

/-- `connectSocket` fails: nobody else waits for its slot. -/
theorem Routed.connectFailed (h : l.Routed) (hconnects : l.connects a = some i) :
    Routed { l with pc := .failing i } := by
  obtain ⟨c, -, hc, rfl⟩ := h.connecting hconnects
  refine h.move rfl (by rintro j d ⟨⟩) ?_
  rintro j ⟨⟩
  exact (h.opening c (.inr hc)).2.2.2

/-- The slot of an attempt that has failed is idle. -/
theorem Routed.idled (h : l.Routed) (hpc : l.pc = .failing i) : Routed { l with
    slot := update l.slot i { l.slot i with status := .idle }, pc := .resume .command } := by
  have hback : l.backlog i = [] := h.failing i (by rw [hpc]; rfl)
  have hset := h.setSlot (s := { l.slot i with status := .idle }) rfl rfl (fun _ => hback)
  exact hset.move rfl (by rintro j c ⟨⟩) (by rintro j ⟨⟩)

/-- A connection is there. -/
theorem Routed.connected (h : l.Routed) {k : Resume}
    (hk : ∀ j c, k = .write j (some c) → c = l.occupant j) : Routed { l with
      slot := update l.slot i { l.slot i with status := .connected }, pc := .onConnect i k } := by
  have hset := h.setSlot (s := { l.slot i with status := .connected }) rfl rfl
    (by rintro (⟨⟨⟩⟩ | ⟨⟨⟩⟩))
  exact hset.move rfl (by rintro j c ⟨⟩; exact hk j c rfl) (by rintro j ⟨⟩)

/-- `onConnect` returns. -/
theorem Routed.returned (h : l.Routed) {k : Resume} (hpc : l.pc = .onConnect i k) :
    Routed { l with pc := .resume k } := by
  refine h.move rfl ?_ (by rintro j ⟨⟩)
  rintro j c ⟨⟩
  exact h.refs c j (.inr (.inr (by rw [hpc]; rfl)))

/-- A careful step keeps the loop routed, change by change.  The references in hand at its
start stay good as well, since it gives none of their slots away. -/
theorem Routed.change {l' : SocketLoop} (hcareful : l₀.Careful a) (hsound : l.Sound)
    (h : l.Routed) (hrefs : ∀ c i, l₀.Ref c i → c = l.occupant i)
    (hchange : Change l₀ a l l') : l'.Routed ∧ ∀ c i, l₀.Ref c i → c = l'.occupant i := by
  have hknown : ∀ k, l₀.Known k → ∀ i c, k = .write i (some c) → c = l.occupant i :=
    fun k hk i c hkey => hrefs c i (hk i c hkey)
  cases hchange with
  | misc => exact ⟨{ h with }, hrefs⟩
  | reserve op i allocId hpicks ha hidle =>
    have hfree := hcareful.reserve i hpicks
    exact ⟨h.reserve hidle hfree op allocId, (h.take hidle hfree (l.slot i)).refs⟩
  | publish _ c op hc => exact ⟨h.publish hc (hsound.reserved c op hc).2.1, hrefs⟩
  | push _ c op hc =>
    obtain ⟨hhash, hid, -⟩ := hsound.calls c (by simp [hc])
    refine ⟨h.push hc ?_, hrefs⟩
    rw [hid]
    simp [getSocket, hhash]
  | issue cmd ha hnames =>
    refine ⟨h.issue ?_ ?_, hrefs⟩
    · intro htype
      cases a <;> cases ha <;> cases htype
    · intro c i hc hi
      have hci := (hnames c hc).1
      rw [hi, Option.some.injEq] at hci
      exact hci ▸ (hcareful.issue cmd c ha hc).symm
  | reported _ events hevents => exact ⟨h.reported hsound hevents, hrefs⟩
  | eventDone _ rest hrest => exact ⟨h.eventDone hrest, hrefs⟩
  | deliver _ effect targets i htargets =>
    exact ⟨h.delivered (fun c hc => (htargets c hc).elim (h.backlog i c) (hrefs c i)), hrefs⟩
  | goto _ pc hfrom hto hruns hk =>
    refine ⟨h.move hruns ?_ (by simp [hto.fails]), hrefs⟩
    intro i c hresumes
    exact hknown _ (hk _ hresumes) i c rfl
  | pop _ cmd rest hqueue hpc => exact ⟨h.pop hqueue hpc, hrefs⟩
  | buffers _ i r w => exact ⟨h.setSlot rfl rfl (h.free i), hrefs⟩
  | rearm _ i fd poll hfd hcloses hpoll => exact ⟨{ h with }, hrefs⟩
  | queued _ i targets hstatus htargets =>
    exact ⟨h.setBacklog hsound hstatus
      (fun c hc => (htargets c hc).elim (h.backlog i c) (hrefs c i)), hrefs⟩
  | close _ i closeType k huse hpc hk =>
    refine ⟨h.close closeType (hknown k hk), ?_⟩
    cases (l.slot i).fd <;> exact hrefs
  | clear i closeType k hpc => exact ⟨h.cleared hpc, hrefs⟩
  | connectFailed i hconnects => exact ⟨h.connectFailed hconnects, hrefs⟩
  | idled i hpc => exact ⟨h.idled hpc, hrefs⟩
  | opened i fd hconnects hfd =>
    have hopened := h.opened hconnects { l.slot i with fd := some fd, status := .connecting }
      (by rintro (⟨⟨⟩⟩ | ⟨⟨⟩⟩))
    exact ⟨{ hopened with }, hrefs⟩
  | connected _ i fd k hpc hstatus hfd hk => exact ⟨h.connected (hknown k hk), hrefs⟩
  | returned _ i k hpc₀ hpc => exact ⟨h.returned hpc, hrefs⟩
  | accepted i j fd s allocId f hpicks hpc hidle =>
    have hfree := hcareful.reserve j hpicks
    exact ⟨h.accepted hidle hfree _ _ _ _, (h.take hidle hfree (l.slot j)).refs⟩

theorem Routed.step {l' : SocketLoop} (h : l.Routed) (hsound : l.Sound)
    (hcareful : l.Careful a) (hstep : l.step a = some l') : l'.Sound ∧ l'.Routed := by
  have hadmits := hcareful.admits h
  have hboth : (l'.Sound ∧ l'.Routed) ∧ ∀ c i, l.Ref c i → c = l'.occupant i := by
    refine invariant_step (I := fun x => (x.Sound ∧ x.Routed) ∧ ∀ c i, l.Ref c i →
      c = x.occupant i) hsound.ids ?_ hstep ⟨⟨hsound, h⟩, h.refs⟩
    intro x y hx hchange
    obtain ⟨⟨hxsound, hxrouted⟩, hxrefs⟩ := hx
    obtain ⟨hrouted, hrefs⟩ := hxrouted.change hcareful hxsound hxrefs hchange
    exact ⟨⟨hxsound.change hadmits hchange, hrouted⟩, hrefs⟩
  exact hboth.1

end Routed

/-! ## Delivery -/

/-- In every run whose steps are careful, every command, event and buffer that was applied
was applied to the connection it was meant for. -/
theorem applied_to_its_connection (maxSocket efd : Nat) {l : SocketLoop}
    (h : Runs step Careful (new maxSocket efd) l) : ∀ d ∈ l.applied, d.actual = d.target := by
  have hboth : l.Sound ∧ l.Routed := by
    refine h.invariant (I := fun x => x.Sound ∧ x.Routed) ?_
      ⟨sound_new maxSocket efd, routed_new maxSocket efd⟩
    intro x a y hx hcareful hstep
    exact hx.2.step hx.1 hcareful hstep
  exact hboth.2.applied

/-- A step that gives no slot away is careful if it uses the id of a present connection. -/
def useOnly (l : SocketLoop) (a : Action) : Bool :=
  (l.picks a).isNone ∧ ∀ cmd ∈ a.cmd, ∀ c ∈ cmd.target, l.occupant c.slot = c

theorem careful_of_useOnly (l : SocketLoop) (a : Action) (h : useOnly l a = true) :
    l.Careful a := by
  obtain ⟨hpicks, hissue⟩ := of_decide_eq_true h
  constructor
  · intro i hi
    rw [hi] at hpicks
    cases hpicks
  · intro cmd c hcmd hc
    exact hissue cmd hcmd c hc

/-- A connection is opened and written to. -/
theorem applied_to_its_connection_of_one : ∃ l, Runs step Careful (new 2 3) l ∧
    (⟨.bytes, ⟨1, 1⟩, ⟨1, 1⟩⟩ : Delivery) ∈ l.applied ∧
    ∀ d ∈ l.applied, d.actual = d.target := by
  have hfirst : (new 2 3).Careful (.reserve (.connect 5)) := by
    refine ⟨?_, by rintro cmd c ⟨⟩⟩
    rintro i hi (⟨c, ⟨cmd, ⟨⟩, -⟩ | ⟨e, ⟨⟩, -⟩ | ⟨⟨⟩⟩⟩ | ⟨c, hc, -⟩ | ⟨⟨⟩⟩)
    exact hc rfl
  have hrun : ((step (new 2 3) (.reserve (.connect 5))).bind (fun l => execute step useOnly l
      [.publish ⟨1, 1⟩, .push ⟨1, 1⟩, .net { ready := [(3, true, false)] }, .net {}, .net {},
        .net { connect := .done 4 }, .net {}, .send 1 (some ⟨1, 1⟩) (IoBuffer.ofBytes [7]),
        .net {}, .net { writes := [.room 0] }])).any
      (fun l => (⟨.bytes, ⟨1, 1⟩, ⟨1, 1⟩⟩ : Delivery) ∈ l.applied) = true := by decide
  obtain ⟨l, hl, hmem⟩ := exists_runs_of_first careful_of_useOnly hfirst _ _ hrun
  exact ⟨l, hl, of_decide_eq_true hmem, applied_to_its_connection 2 3 hl⟩

/-- The first connection of the slot fails, the second one is open when a caller sends with
the id of the first: the bytes go to the second. -/
theorem sent_to_successor : ∃ l, Runs step (fun _ _ => True) (new 2 3) l ∧
    (⟨.bytes, ⟨1, 1⟩, ⟨1, 2⟩⟩ : Delivery) ∈ l.applied := by
  have hrun : (execute step (fun _ _ => true) (new 2 3) [.reserve (.connect 5), .publish ⟨1, 1⟩,
      .push ⟨1, 1⟩, .net { ready := [(3, true, false)] }, .net {}, .net {},
      .net { connect := .failed }, .net {}, .reserve (.connect 6), .reserve (.connect 6),
      .publish ⟨1, 2⟩, .push ⟨1, 2⟩, .net {}, .net { connect := .done 4 }, .net {},
      .send 1 (some ⟨1, 1⟩) (IoBuffer.ofBytes [7]), .net {}, .net { writes := [.room 0] }]).any
      (fun l => (⟨.bytes, ⟨1, 1⟩, ⟨1, 2⟩⟩ : Delivery) ∈ l.applied) = true := by decide
  obtain ⟨l, hl, hmem⟩ := exists_runs_of_execute (fun _ _ _ => trivial) _ _ hrun
  exact ⟨l, hl, of_decide_eq_true hmem⟩

end SocketLoop

end StormNet.Net
