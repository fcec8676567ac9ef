/-
  Framework/ConnectionLists.lean --- the two time lists of a `StormListener` against its
  open connections, and what `maxConnections` bounds.

  `Covered` places every open connection in `m_conList`, in `m_timelist` or behind a
  queued Close command, which a sweep or the refusal queued.  The admission test looks at
  the size of `m_timelist` alone: it bounds the admitted connections as long as these are
  all there.
-/
import StormNet.Framework.ConnectionLife

set_option autoImplicit false

namespace StormNet.Framework

open StormNet.Foundation
open StormNet.Net (CloseType)
open StormNet.Util (TimeList)

namespace StormListener

variable {s t : StormListener}

/-! ## No connection escapes the timeouts -/

/-- A Close command of a sweep for `id` is queued. -/
def Swept (s : StormListener) (id : UInt32) : Prop :=
  (id, .idleTimeout) ∈ s.closes ∨ (id, .timeout) ∈ s.closes

instance (s : StormListener) (id : UInt32) : Decidable (s.Swept id) := instDecidableOr

/-- `onAccept` has refused the connection, and its Close command is queued. -/
def Refused (s : StormListener) (conn : Connection) : Prop :=
  conn ∉ s.admitted ∧ (conn.id, .self) ∈ s.closes

/-- Where the ids of the open connections are. -/
structure Covered (s : StormListener) : Prop where
  distinct : (s.sockets.map Connection.id).Nodup
  covered : ∀ conn ∈ s.sockets,
    s.conList.Live conn.id ∨ s.timelist.Live conn.id ∨ s.Swept conn.id ∨ s.Refused conn
  apart : ∀ id, ¬ (s.conList.Live id ∧ s.timelist.Live id)
  conOpen : ∀ id, s.conList.Live id → ∃ conn ∈ s.sockets, conn.id = id
  timeOpen : ∀ id, s.timelist.Live id → ∃ conn ∈ s.sockets, conn.id = id
  /-- the callback of the turn under way has queued the Close command -/
  conTurn : ∀ now, s.sweep = .conErase now → ∃ id, s.conList.due now = some id ∧ s.Swept id
  timeTurn : ∀ now, s.sweep = .timeErase now → ∃ id, s.timelist.due now = some id ∧ s.Swept id

theorem covered_new (inLoop : Bool) (config : ServiceConfig) : (new inLoop config).Covered := by
  constructor <;> simp [new]

theorem Swept.append {id : UInt32} (h : s.Swept id) (more : List (UInt32 × CloseType)) :
    Swept { s with closes := s.closes ++ more } id :=
  h.imp (List.mem_append_left more) (List.mem_append_left more)

namespace Covered

/-- One open connection has an id. -/
theorem eq_of_id (h : s.Covered) {conn conn' : Connection} (hc : conn ∈ s.sockets)
    (hc' : conn' ∈ s.sockets) (hid : conn.id = conn'.id) : conn = conn' :=
  List.inj_on_of_nodup_map h.distinct hc hc' hid

/-- A Close command is queued behind the others. -/
theorem append (h : s.Covered) (more : List (UInt32 × CloseType)) :
    Covered { s with closes := s.closes ++ more } := by
  refine { h with covered := ?_, conTurn := ?_, timeTurn := ?_ }
  · intro conn hconn
    rcases h.covered conn hconn with hcon | htime | hswept | hrefused
    · exact .inl hcon
    · exact .inr (.inl htime)
    · exact .inr (.inr (.inl (hswept.append more)))
    · exact .inr (.inr (.inr ⟨hrefused.1, List.mem_append_left more hrefused.2⟩))
  · intro now hsweep
    obtain ⟨id, hdue, hswept⟩ := h.conTurn now hsweep
    exact ⟨id, hdue, hswept.append more⟩
  · intro now hsweep
    obtain ⟨id, hdue, hswept⟩ := h.timeTurn now hsweep
    exact ⟨id, hdue, hswept.append more⟩

/-- Deliveries touch neither the lists nor the sockets. -/
theorem deliver (h : s.Covered) (packet : Packet) : (s.deliver packet).Covered := by
  rw [deliver_eq]
  exact { h with }

/-- The net thread moves on in `updateNet`, not behind a callback. -/
theorem setSweep (h : s.Covered) {sweep : Sweep} (hcon : ∀ now, sweep ≠ .conErase now)
    (htime : ∀ now, sweep ≠ .timeErase now) : Covered { s with sweep := sweep } :=
  { h with
    conTurn := fun now hsweep => absurd hsweep (hcon now)
    timeTurn := fun now hsweep => absurd hsweep (htime now) }

/-- A connection is accepted and refused. -/
theorem refuse (h : s.Covered) {conn : Connection} (hnew : conn ∉ s.admitted)
    (hfree : ∀ conn' ∈ s.sockets, conn'.id ≠ conn.id) :
    Covered { s with
      sockets := conn :: s.sockets
      accepted := conn :: s.accepted
      closes := s.closes ++ [(conn.id, .self)] } := by
  have hmore := h.append [(conn.id, .self)]
  refine { hmore with distinct := ?_, covered := ?_, conOpen := ?_, timeOpen := ?_ }
  · rw [List.map_cons, List.nodup_cons]
    refine ⟨fun hin => ?_, h.distinct⟩
    obtain ⟨conn', hconn', hid⟩ := List.mem_map.mp hin
    exact hfree conn' hconn' hid
  · intro conn' hin
    rcases List.mem_cons.mp hin with rfl | hin
    · exact .inr (.inr (.inr ⟨hnew, List.mem_append_right _ List.mem_cons_self⟩))
    · exact hmore.covered conn' hin
  · intro id hlive
    obtain ⟨conn', hin, hid⟩ := h.conOpen id hlive
    exact ⟨conn', List.mem_cons_of_mem _ hin, hid⟩
  · intro id hlive
    obtain ⟨conn', hin, hid⟩ := h.timeOpen id hlive
    exact ⟨conn', List.mem_cons_of_mem _ hin, hid⟩

/-- A connection is accepted and admitted. -/
theorem enter (h : s.Covered) (hidle : s.sweep = .idle) {conn : Connection} {now : UInt32}
    (hfree : ∀ conn' ∈ s.sockets, conn'.id ≠ conn.id) :
    Covered { s with
      sockets := conn :: s.sockets
      accepted := conn :: s.accepted
      admitted := conn :: s.admitted
      conList := s.conList.add conn.id now } := by
  have hnot : ¬ s.timelist.Live conn.id := by
    intro hlive
    obtain ⟨conn', hin, hid⟩ := h.timeOpen conn.id hlive
    exact hfree conn' hin hid
  refine { h with distinct := ?_, covered := ?_, apart := ?_, conOpen := ?_, timeOpen := ?_,
                  conTurn := ?_, timeTurn := ?_ }
  · rw [List.map_cons, List.nodup_cons]
    refine ⟨fun hin => ?_, h.distinct⟩
    obtain ⟨conn', hconn', hid⟩ := List.mem_map.mp hin
    exact hfree conn' hconn' hid
  · intro conn' hin
    rcases List.mem_cons.mp hin with rfl | hin
    · exact .inl ((TimeList.live_add _ _ _ _).mpr (.inl rfl))
    · rcases h.covered conn' hin with hcon | htime | hswept | hrefused
      · exact .inl ((TimeList.live_add _ _ _ _).mpr (.inr hcon))
      · exact .inr (.inl htime)
      · exact .inr (.inr (.inl hswept))
      · have hne : conn' ≠ conn := fun heq => hfree conn' hin (heq ▸ rfl)
        exact .inr (.inr (.inr ⟨by simpa [hne] using hrefused.1, hrefused.2⟩))
  · intro id hboth
    obtain ⟨hcon, htime⟩ := hboth
    rcases (TimeList.live_add _ _ _ _).mp hcon with rfl | hcon
    · exact hnot htime
    · exact h.apart id ⟨hcon, htime⟩
  · intro id hlive
    rcases (TimeList.live_add _ _ _ _).mp hlive with rfl | hlive
    · exact ⟨conn, List.mem_cons_self, rfl⟩
    · obtain ⟨conn', hin, hid⟩ := h.conOpen id hlive
      exact ⟨conn', List.mem_cons_of_mem _ hin, hid⟩
  · intro id hlive
    obtain ⟨conn', hin, hid⟩ := h.timeOpen id hlive
    exact ⟨conn', List.mem_cons_of_mem _ hin, hid⟩
  · intro now' hsweep
    rw [hidle] at hsweep
    cases hsweep
  · intro now' hsweep
    rw [hidle] at hsweep
    cases hsweep

/-- A packet moves the connection to `m_timelist`. -/
theorem packet (h : s.Covered) (hidle : s.sweep = .idle) {conn : Connection} {now : UInt32}
    (hopen : conn ∈ s.sockets) :
    Covered { s with
      conList := s.conList.del conn.id
      timelist := s.timelist.add conn.id now } := by
  refine { h with covered := ?_, apart := ?_, conOpen := ?_, timeOpen := ?_, conTurn := ?_,
                  timeTurn := ?_ }
  · intro conn' hin
    by_cases hid : conn'.id = conn.id
    · exact .inr (.inl ((TimeList.live_add _ _ _ _).mpr (.inl hid)))
    · rcases h.covered conn' hin with hcon | htime | hclosing
      · exact .inl ((TimeList.live_del _ _ _).mpr ⟨hid, hcon⟩)
      · exact .inr (.inl ((TimeList.live_add _ _ _ _).mpr (.inr htime)))
      · exact .inr (.inr hclosing)
  · intro id hboth
    obtain ⟨hne, hcon⟩ := (TimeList.live_del _ _ _).mp hboth.1
    rcases (TimeList.live_add _ _ _ _).mp hboth.2 with hid | htime
    · exact hne hid
    · exact h.apart id ⟨hcon, htime⟩
  · intro id hlive
    exact h.conOpen id ((TimeList.live_del _ _ _).mp hlive).2
  · intro id hlive
    rcases (TimeList.live_add _ _ _ _).mp hlive with rfl | hlive
    · exact ⟨conn, hopen, rfl⟩
    · exact h.timeOpen id hlive
  · intro now' hsweep
    rw [hidle] at hsweep
    cases hsweep
  · intro now' hsweep
    rw [hidle] at hsweep
    cases hsweep

/-- A closed connection leaves both lists.  The command that closes it may be taken from
the queue. -/
theorem close (h : s.Covered) (hidle : s.sweep = .idle) {conn : Connection}
    {closes : List (UInt32 × CloseType)} (hopen : conn ∈ s.sockets)
    (hcloses : ∀ id closeType, id ≠ conn.id → (id, closeType) ∈ s.closes →
      (id, closeType) ∈ closes) :
    Covered { s with
      sockets := s.sockets.erase conn
      conList := s.conList.del conn.id
      timelist := s.timelist.del conn.id
      closes := closes } := by
  have hnodup : s.sockets.Nodup := h.distinct.of_map
  have hother : ∀ conn', conn' ∈ s.sockets.erase conn ↔
      conn'.id ≠ conn.id ∧ conn' ∈ s.sockets := by
    intro conn'
    rw [hnodup.mem_erase_iff]
    constructor
    · intro hin
      exact ⟨fun hid => hin.1 (h.eq_of_id hin.2 hopen hid), hin.2⟩
    · intro hin
      exact ⟨fun heq => hin.1 (heq ▸ rfl), hin.2⟩
  refine { h with distinct := ?_, covered := ?_, apart := ?_, conOpen := ?_, timeOpen := ?_,
                  conTurn := ?_, timeTurn := ?_ }
  · exact h.distinct.sublist (List.erase_sublist.map _)
  · intro conn' hin
    obtain ⟨hid, hin⟩ := (hother conn').mp hin
    rcases h.covered conn' hin with hcon | htime | hswept | hrefused
    · exact .inl ((TimeList.live_del _ _ _).mpr ⟨hid, hcon⟩)
    · exact .inr (.inl ((TimeList.live_del _ _ _).mpr ⟨hid, htime⟩))
    · exact .inr (.inr (.inl (hswept.imp (hcloses _ _ hid) (hcloses _ _ hid))))
    · exact .inr (.inr (.inr ⟨hrefused.1, hcloses _ _ hid hrefused.2⟩))
  · intro id hboth
    exact h.apart id ⟨((TimeList.live_del _ _ _).mp hboth.1).2,
      ((TimeList.live_del _ _ _).mp hboth.2).2⟩
  · intro id hlive
    obtain ⟨hne, hlive⟩ := (TimeList.live_del _ _ _).mp hlive
    obtain ⟨conn', hin, rfl⟩ := h.conOpen id hlive
    exact ⟨conn', (hother conn').mpr ⟨hne, hin⟩, rfl⟩
  · intro id hlive
    obtain ⟨hne, hlive⟩ := (TimeList.live_del _ _ _).mp hlive
    obtain ⟨conn', hin, rfl⟩ := h.timeOpen id hlive
    exact ⟨conn', (hother conn').mpr ⟨hne, hin⟩, rfl⟩
  · intro now hsweep
    rw [hidle] at hsweep
    cases hsweep
  · intro now hsweep
    rw [hidle] at hsweep
    cases hsweep

/-- The turn of a sweep ends: the entry goes, its Close command stays. -/
theorem conErase (h : s.Covered) {now : UInt32} (hsweep : s.sweep = .conErase now) :
    Covered { s with conList := s.conList.eraseFront, sweep := .conList now } := by
  obtain ⟨id, hdue, hswept⟩ := h.conTurn now hsweep
  rw [TimeList.eraseFront_eq_del hdue]
  refine { h with covered := ?_, apart := ?_, conOpen := ?_, conTurn := by simp,
                  timeTurn := by simp }
  · intro conn hin
    rcases h.covered conn hin with hcon | hrest
    · by_cases hid : conn.id = id
      · exact .inr (.inr (.inl (hid ▸ hswept)))
      · exact .inl ((TimeList.live_del _ _ _).mpr ⟨hid, hcon⟩)
    · exact .inr hrest
  · intro id' hboth
    exact h.apart id' ⟨((TimeList.live_del _ _ _).mp hboth.1).2, hboth.2⟩
  · intro id' hlive
    exact h.conOpen id' ((TimeList.live_del _ _ _).mp hlive).2

theorem timeErase (h : s.Covered) {now : UInt32} (hsweep : s.sweep = .timeErase now) :
    Covered { s with timelist := s.timelist.eraseFront, sweep := .timelist now } := by
  obtain ⟨id, hdue, hswept⟩ := h.timeTurn now hsweep
  rw [TimeList.eraseFront_eq_del hdue]
  refine { h with covered := ?_, apart := ?_, timeOpen := ?_, conTurn := by simp,
                  timeTurn := by simp }
  · intro conn hin
    rcases h.covered conn hin with hcon | htime | hrest
    · exact .inl hcon
    · by_cases hid : conn.id = id
      · exact .inr (.inr (.inl (hid ▸ hswept)))
      · exact .inr (.inl ((TimeList.live_del _ _ _).mpr ⟨hid, htime⟩))
    · exact .inr (.inr hrest)
  · intro id' hboth
    exact h.apart id' ⟨hboth.1, ((TimeList.live_del _ _ _).mp hboth.2).2⟩
  · intro id' hlive
    exact h.timeOpen id' ((TimeList.live_del _ _ _).mp hlive).2

/-- A command for a slot without an open connection is taken from the queue. -/
theorem ignore (h : s.Covered) (hidle : s.sweep = .idle) {id : UInt32} {closeType : CloseType}
    {closes : List (UInt32 × CloseType)} (hcloses : s.closes = (id, closeType) :: closes)
    (hnone : ∀ conn ∈ s.sockets, conn.id ≠ id) : Covered { s with closes := closes } := by
  refine { h with covered := ?_, conTurn := ?_, timeTurn := ?_ }
  · intro conn hin
    have hkept : ∀ type, (conn.id, type) ∈ s.closes → (conn.id, type) ∈ closes := by
      intro type hmem
      rw [hcloses, List.mem_cons, Prod.mk.injEq] at hmem
      exact hmem.resolve_left (fun heq => hnone conn hin heq.1)
    rcases h.covered conn hin with hcon | htime | hswept | hrefused
    · exact .inl hcon
    · exact .inr (.inl htime)
    · exact .inr (.inr (.inl (hswept.imp (hkept _) (hkept _))))
    · exact .inr (.inr (.inr ⟨hrefused.1, hkept _ hrefused.2⟩))
  · intro now hsweep
    rw [hidle] at hsweep
    cases hsweep
  · intro now hsweep
    rw [hidle] at hsweep
    cases hsweep

theorem step (h : s.Covered) (hl : s.Lives) {a : Action} (hstep : s.step a = some t) :
    t.Covered := by
  cases step_cases hstep with
  | refuse _ hfresh hfree _ =>
    exact h.refuse (fun hadm => hfresh (hl.admittedKnown _ hadm)) hfree
  | enter hidle _ hfree _ => exact (h.enter hidle hfree).deliver _
  | drop hidle hopen _ => exact h.packet hidle hopen
  | packet hidle hopen => exact (h.packet hidle hopen).deliver _
  | closed hidle hopen =>
    exact (h.close hidle hopen (fun _ _ _ hmem => hmem)).deliver _
  | execute hidle hcloses hopen =>
    refine (h.close hidle hopen (fun id type hid hmem => ?_)).deliver _
    rw [hcloses, List.mem_cons, Prod.mk.injEq] at hmem
    exact hmem.resolve_left (fun heq => hid heq.1)
  | ignore hidle hcloses hnone => exact h.ignore hidle hcloses hnone
  | close => exact h.append _
  | updateNet _ => exact h.setSweep (by simp) (by simp)
  | @conDue now id hsweep hdue =>
    have hmore := h.append [(id, .idleTimeout)]
    refine { hmore with conTurn := ?_, timeTurn := by simp }
    intro now' hsweep'
    cases hsweep'
    exact ⟨id, hdue, .inl (List.mem_append_right _ List.mem_cons_self)⟩
  | conEnd _ => exact h.setSweep (by simp) (by simp)
  | conErase hsweep => exact h.conErase hsweep
  | @timeDue now id hsweep hdue =>
    have hmore := h.append [(id, .timeout)]
    refine { hmore with conTurn := by simp, timeTurn := ?_ }
    intro now' hsweep'
    cases hsweep'
    exact ⟨id, hdue, .inr (List.mem_append_right _ List.mem_cons_self)⟩
  | timeEnd _ => exact h.setSweep (by simp) (by simp)
  | timeErase hsweep => exact h.timeErase hsweep
  | update _ => exact { h with }

end Covered

theorem covered_of_runs {G : StormListener → Action → Prop} {inLoop : Bool}
    {config : ServiceConfig} (h : Runs step G (new inLoop config) s) : s.Covered := by
  induction h with
  | refl => exact covered_new inLoop config
  | tail hx _ hstep ih => exact ih.step (lives_of_runs hx) hstep

/-- **No accepted connection escapes the timeouts.**  In every reachable state an open
connection is in `m_conList`, in `m_timelist` or has a Close command queued; no id is in
both lists; and each id in a list is that of an open connection. -/
theorem no_connection_escapes (inLoop : Bool) (config : ServiceConfig) (s : StormListener)
    (h : Runs step (fun _ _ => True) (new inLoop config) s) :
    (∀ conn ∈ s.sockets, s.conList.Live conn.id ∨ s.timelist.Live conn.id ∨
      ∃ closeType, (conn.id, closeType) ∈ s.closes) ∧
    (∀ id, ¬ (s.conList.Live id ∧ s.timelist.Live id)) ∧
    (∀ id, s.conList.Live id ∨ s.timelist.Live id → ∃ conn ∈ s.sockets, conn.id = id) := by
  have hc := covered_of_runs h
  refine ⟨fun conn hin => ?_, hc.apart, fun id hlive => ?_⟩
  · rcases hc.covered conn hin with hcon | htime | (hclose | hclose) | hrefused
    · exact .inl hcon
    · exact .inr (.inl htime)
    · exact .inr (.inr ⟨_, hclose⟩)
    · exact .inr (.inr ⟨_, hclose⟩)
    · exact .inr (.inr ⟨_, hrefused.2⟩)
  · rcases hlive with hcon | htime
    · exact hc.conOpen id hcon
    · exact hc.timeOpen id htime

/-- A refused connection, an idle one past its timeout and an active one. -/
theorem no_connection_escapes_of_three : ∃ s : StormListener,
    Runs step (fun _ _ => True) (new true ⟨1, 10, 60, 5⟩) s ∧
    s.sockets.length = 3 ∧ s.closes = [(3, .self), (2, .idleTimeout)] ∧
    ∀ conn ∈ s.sockets, s.conList.Live conn.id ∨ s.timelist.Live conn.id ∨
      ∃ closeType, (conn.id, closeType) ∈ s.closes := by
  have hexec : ∃ s, Runs step (fun _ _ => True) (new true ⟨1, 10, 60, 5⟩) s ∧
      decide (s.sockets.length = 3 ∧ s.closes = [(3, .self), (2, .idleTimeout)]) = true :=
    exists_runs_of_schedule _
      [.accept ⟨1, 4, "", 0, 0⟩ 100, .accept ⟨2, 5, "", 0, 1⟩ 100,
        .packet ⟨1, 4, "", 0, 0⟩ [7] 101, .accept ⟨3, 6, "", 0, 2⟩ 102, .updateNet 105, .net,
        .net, .net] _ (by decide)
  obtain ⟨s, hrun, hs⟩ := hexec
  obtain ⟨hlength, hcloses⟩ := of_decide_eq_true hs
  exact ⟨s, hrun, hlength, hcloses, (no_connection_escapes true ⟨1, 10, 60, 5⟩ s hrun).1⟩

/-! ## What `maxConnections` bounds -/

/-- The admitted connections that are open. -/
def admittedOpen (s : StormListener) : Nat := s.sockets.countP (fun conn => conn ∈ s.admitted)

/-- `onAccept` is called with no room in `m_timelist`, or the size of `m_timelist` leaves no
connection out: every one that was admitted has sent its first packet, so that `m_conList` is
empty, and none that a sweep has taken out of `m_timelist` waits for its Close command. -/
def Shown (s : StormListener) : Action → Prop
  | .accept _ _ => s.timelist.size < s.config.maxConnections.toNat →
      s.conList.size = 0 ∧ ∀ conn ∈ s.sockets, s.Swept conn.id → s.timelist.Live conn.id
  | _ => True

instance (s : StormListener) : ∀ a : Action, Decidable (s.Shown a)
  | .accept _ _ => inferInstanceAs (Decidable (s.timelist.size < s.config.maxConnections.toNat →
      s.conList.size = 0 ∧ ∀ conn ∈ s.sockets, s.Swept conn.id → s.timelist.Live conn.id))
  | .packet _ _ _ => isTrue trivial
  | .closed _ _ => isTrue trivial
  | .command => isTrue trivial
  | .close _ _ => isTrue trivial
  | .updateNet _ => isTrue trivial
  | .net => isTrue trivial
  | .update => isTrue trivial

/-- A list whose keys are ids of open connections has one entry for each of them. -/
theorem size_eq_countP {list : TimeList UInt32 UInt32} {sockets : List Connection}
    (hdistinct : (sockets.map Connection.id).Nodup)
    (hopen : ∀ id, list.Live id → ∃ conn ∈ sockets, conn.id = id) :
    list.size = sockets.countP (fun conn => list.Live conn.id) := by
  have hperm : List.Perm list.keys
      ((sockets.filter (fun conn => list.Live conn.id)).map Connection.id) := by
    refine (List.perm_ext_iff_of_nodup list.nodup_keys
      (hdistinct.sublist (List.filter_sublist.map _))).mpr (fun id => ?_)
    rw [TimeList.mem_keys, List.mem_map]
    constructor
    · intro hlive
      obtain ⟨conn, hin, rfl⟩ := hopen id hlive
      exact ⟨conn, List.mem_filter.mpr ⟨hin, by simpa using hlive⟩, rfl⟩
    · intro hin
      obtain ⟨conn, hin, rfl⟩ := hin
      simpa using (List.mem_filter.mp hin).2
  rw [← list.length_keys, hperm.length_eq, List.length_map, List.countP_eq_length_filter]

/-- An empty list has no live keys. -/
theorem not_live_of_size {list : TimeList UInt32 UInt32} (h : list.size = 0) (id : UInt32) :
    ¬ list.Live id := by
  intro hlive
  rw [← TimeList.mem_keys] at hlive
  rw [← TimeList.length_keys, List.length_eq_zero_iff] at h
  rw [h] at hlive
  cases hlive

/-- **What the admission test sees.**  Where the size of `m_timelist` leaves nothing out, it
counts every admitted connection that is open. -/
theorem admittedOpen_le_size (h : s.Covered) (hcon : s.conList.size = 0)
    (hswept : ∀ conn ∈ s.sockets, s.Swept conn.id → s.timelist.Live conn.id) :
    s.admittedOpen ≤ s.timelist.size := by
  rw [size_eq_countP h.distinct h.timeOpen, admittedOpen]
  refine List.countP_mono_left fun conn hin hadm => ?_
  rw [decide_eq_true_eq] at hadm ⊢
  rcases h.covered conn hin with hlive | hlive | hclose | hrefused
  · exact absurd hlive (not_live_of_size hcon conn.id)
  · exact hlive
  · exact hswept conn hin hclose
  · exact absurd hadm hrefused.1

theorem config_step {a : Action} (hstep : s.step a = some t) : t.config = s.config := by
  cases step_cases hstep with
  | enter _ _ _ _ => exact deliver_config _ _
  | packet _ _ => exact deliver_config _ _
  | closed _ _ => exact deliver_config _ _
  | execute _ _ _ => exact deliver_config _ _
  | _ => rfl

/-- An admission is one more. -/
theorem admittedOpen_accept (hl : s.Lives) {conn : Connection} {now : UInt32}
    (hroom : s.timelist.size < s.config.maxConnections.toNat)
    (hstep : s.step (.accept conn now) = some t) : t.admittedOpen = s.admittedOpen + 1 := by
  cases step_cases hstep with
  | refuse _ _ _ hfull => exact absurd hroom (Nat.not_lt_of_le hfull)
  | enter _ hfresh _ _ =>
    rw [admittedOpen, deliver_sockets, deliver_admitted, admittedOpen,
      List.countP_cons_of_pos (by simp)]
    refine congrArg (· + 1) (List.countP_congr (fun conn' hin => ?_))
    have hne : conn' ≠ conn := fun heq => hfresh (heq ▸ hl.known conn' hin)
    simp [hne]

/-- Every other step leaves at most as many. -/
theorem admittedOpen_le (hl : s.Lives) {a : Action}
    (hother : ∀ conn now, a = .accept conn now →
      s.config.maxConnections.toNat ≤ s.timelist.size)
    (hstep : s.step a = some t) : t.admittedOpen ≤ s.admittedOpen := by
  cases step_cases hstep with
  | @refuse conn now _ hfresh _ _ =>
    have hnot : conn ∉ s.admitted := fun hadm => hfresh (hl.admittedKnown conn hadm)
    exact Nat.le_of_eq (List.countP_cons_of_neg (by simpa using hnot))
  | @enter conn now _ _ _ hroom =>
    exact absurd (hother conn now rfl) (Nat.not_le_of_lt hroom)
  | packet _ _ =>
    rw [admittedOpen, deliver_sockets, deliver_admitted]
    exact Nat.le_refl _
  | closed _ _ =>
    rw [admittedOpen, forceClose, onClose, deliver_sockets, deliver_admitted]
    exact List.erase_sublist.countP_le
  | execute _ _ _ =>
    rw [admittedOpen, forceClose, onClose, deliver_sockets, deliver_admitted]
    exact List.erase_sublist.countP_le
  | _ => exact Nat.le_refl _

theorem config_of_runs {G : StormListener → Action → Prop} {inLoop : Bool}
    {config : ServiceConfig} (h : Runs step G (new inLoop config) s) : s.config = config :=
  h.invariant (I := fun s => s.config = config)
    (fun _ _ _ hsame _ hstep => (config_step hstep).trans hsame) rfl

/-- **The connection limit is a limit as long as `m_timelist` shows every connection.**  In
every run in which `onAccept` finds room only while all admitted connections are in
`m_timelist`, no more than `maxConnections` admitted connections are open. -/
theorem connection_limit (inLoop : Bool) (config : ServiceConfig) (s : StormListener)
    (h : Runs step Shown (new inLoop config) s) :
    s.admittedOpen ≤ config.maxConnections.toNat := by
  induction h with
  | refl => exact Nat.zero_le _
  | @tail x y a hx hg hstep ih =>
    have hl := lives_of_runs hx
    by_cases hadmits : ∃ conn now, a = .accept conn now ∧
        x.timelist.size < x.config.maxConnections.toNat
    · obtain ⟨conn, now, rfl, hroom⟩ := hadmits
      obtain ⟨hcon, hswept⟩ := hg hroom
      have hseen := admittedOpen_le_size (covered_of_runs hx) hcon hswept
      have hsucc := admittedOpen_accept hl hroom hstep
      rw [config_of_runs hx] at hroom
      omega
    · refine Nat.le_trans (admittedOpen_le hl (fun conn now ha => ?_) hstep) ih
      by_contra hroom
      exact hadmits ⟨conn, now, ha, Nat.lt_of_not_le hroom⟩

/-- One connection at a limit of one: accepted, used, closed, and another. -/
theorem connection_limit_of_one : ∃ s : StormListener,
    Runs step Shown (new true ⟨1, 10, 60, 5⟩) s ∧ s.admittedOpen = 1 ∧
    s.admitted.length = 2 ∧ s.admittedOpen ≤ (1 : UInt32).toNat := by
  have hexec : ∃ s, Runs step Shown (new true ⟨1, 10, 60, 5⟩) s ∧
      decide (s.admittedOpen = 1 ∧ s.admitted.length = 2) = true :=
    exists_runs_of_schedule _
      [.accept ⟨1, 4, "", 0, 0⟩ 100, .packet ⟨1, 4, "", 0, 0⟩ [7] 101,
        .accept ⟨2, 5, "", 0, 1⟩ 102, .closed ⟨1, 4, "", 0, 0⟩ .peer,
        .command, .accept ⟨1, 4, "", 0, 2⟩ 103] _ (by decide)
  obtain ⟨s, hrun, hs⟩ := hexec
  obtain ⟨hopen, hadmitted⟩ := of_decide_eq_true hs
  exact ⟨s, hrun, hopen, hadmitted, connection_limit true ⟨1, 10, 60, 5⟩ s hrun⟩

/-- Two connections that have not sent a packet are both admitted at a limit of one. -/
theorem limit_exceeded : ∃ s : StormListener,
    Runs step (fun _ _ => True) (new true ⟨1, 10, 60, 5⟩) s ∧ s.admittedOpen = 2 := by
  have hexec : ∃ s, Runs step (fun _ _ => True) (new true ⟨1, 10, 60, 5⟩) s ∧
      decide (s.admittedOpen = 2) = true :=
    exists_runs_of_schedule _
      [.accept ⟨1, 4, "", 0, 0⟩ 100, .accept ⟨2, 5, "", 0, 1⟩ 100] _ (by decide)
  obtain ⟨s, hrun, hs⟩ := hexec
  exact ⟨s, hrun, of_decide_eq_true hs⟩

end StormListener

end StormNet.Framework
