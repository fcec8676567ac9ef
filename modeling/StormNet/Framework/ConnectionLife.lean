/-
  Framework/ConnectionLife.lean --- what a `StormService` is told of each connection.

  The calls made and the packets queued are one history, to which the handlers append
  and which the consumer moves along without changing it.  For a connection that
  `onAccept` admits, the history is a well-formed life.  A refused one has no `onAccept`
  in it, yet `onPacket` and `onClose` run for it as for any other.
-/
import StormNet.Framework.StormListener

set_option autoImplicit false

namespace StormNet.Framework

open StormNet.Foundation
open StormNet.Net (CloseType)

/-- A beginning of: one `onAccept`, any number of `onRequest`, one `onClose`. -/
def Life (calls : List ServiceCall) : Prop :=
  ∃ (requests : List (List UInt8)) (closeType : CloseType),
    calls <+: .onAccept :: (requests.map .onRequest ++ [.onClose closeType])

theorem Life.nil : Life [] := ⟨[], .self, List.nil_prefix⟩

theorem Life.of_prefix {calls rest : List ServiceCall} (h : Life rest) (hpre : calls <+: rest) :
    Life calls := by
  obtain ⟨requests, closeType, hrest⟩ := h
  exact ⟨requests, closeType, hpre.trans hrest⟩

/-- A life that has begun begins with `onAccept`. -/
theorem Life.onAccept_mem {calls : List ServiceCall} (h : Life calls) (hne : calls ≠ []) :
    ServiceCall.onAccept ∈ calls := by
  obtain ⟨requests, closeType, hpre⟩ := h
  cases calls with
  | nil => exact absurd rfl hne
  | cons call calls =>
    have hfirst := (List.cons_prefix_cons.mp hpre).1
    rw [hfirst]
    exact List.mem_cons_self

namespace StormListener

variable {s t : StormListener}

/-- The calls made and those queued, in order. -/
def history (s : StormListener) : List (Connection × ServiceCall) :=
  s.calls ++ s.queue.map Packet.call

/-- The calls for one connection among `calls`. -/
def callsFor (conn : Connection) (calls : List (Connection × ServiceCall)) : List ServiceCall :=
  (calls.filter (fun call => call.1 = conn)).map (·.2)

theorem callsFor_append (conn : Connection) (calls calls' : List (Connection × ServiceCall)) :
    callsFor conn (calls ++ calls') = callsFor conn calls ++ callsFor conn calls' := by
  rw [callsFor, List.filter_append, List.map_append]
  rfl

theorem callsFor_single (conn conn' : Connection) (call : ServiceCall) :
    callsFor conn [(conn', call)] = if conn' = conn then [call] else [] := by
  by_cases h : conn' = conn
  · rw [if_pos h, callsFor, List.filter_cons_of_pos (by simpa using h)]
    rfl
  · rw [if_neg h, callsFor, List.filter_cons_of_neg (by simpa using h)]
    rfl

/-- A call for one connection is told to no other. -/
theorem callsFor_concat_of_ne {conn conn' : Connection} (h : conn' ≠ conn)
    (calls : List (Connection × ServiceCall)) (call : ServiceCall) :
    callsFor conn (calls ++ [(conn', call)]) = callsFor conn calls := by
  rw [callsFor_append, callsFor_single, if_neg h, List.append_nil]

theorem callsFor_concat_self (conn : Connection) (calls : List (Connection × ServiceCall))
    (call : ServiceCall) :
    callsFor conn (calls ++ [(conn, call)]) = callsFor conn calls ++ [call] := by
  rw [callsFor_append, callsFor_single, if_pos rfl]

/-- One more call in the history is one more for its connection, and none for others. -/
theorem callsFor_history {conn : Connection} {call : ServiceCall}
    (h : t.history = s.history ++ [(conn, call)]) :
    callsFor conn t.history = callsFor conn s.history ++ [call] ∧
    ∀ conn', conn' ≠ conn → callsFor conn' t.history = callsFor conn' s.history := by
  rw [h]
  refine ⟨callsFor_concat_self conn s.history call, ?_⟩
  intro conn' hne
  exact callsFor_concat_of_ne (Ne.symm hne) s.history call

/-- What the service has been told of a connection is the beginning of its history. -/
theorem callsFor_calls_prefix (s : StormListener) (conn : Connection) :
    callsFor conn s.calls <+: callsFor conn s.history := by
  rw [history, callsFor_append]
  exact List.prefix_append _ _

/-- In the loop nothing is ever queued. -/
def Direct (s : StormListener) : Prop := s.inLoop = true → s.queue = []

/-- A delivery appends one call to the history. -/
theorem history_deliver (h : s.Direct) (packet : Packet) :
    (s.deliver packet).history = s.history ++ [packet.call] := by
  rw [deliver_eq, history, history]
  cases hloop : s.inLoop with
  | true =>
    have hempty := h hloop
    simp [hempty]
  | false => simp

theorem Direct.deliver (h : s.Direct) (packet : Packet) : (s.deliver packet).Direct := by
  intro hloop
  rw [deliver_inLoop] at hloop
  rw [deliver_eq]
  simp only [hloop, if_true]
  exact h hloop

/-- The history of each connection, by what has become of it. -/
structure Lives (s : StormListener) : Prop where
  direct : s.Direct
  known : ∀ conn ∈ s.sockets, conn ∈ s.accepted
  admittedKnown : ∀ conn ∈ s.admitted, conn ∈ s.accepted
  nodup : s.sockets.Nodup
  unknown : ∀ conn, conn ∉ s.accepted → callsFor conn s.history = []
  opened : ∀ conn ∈ s.admitted, conn ∈ s.sockets →
    ∃ requests : List (List UInt8),
      callsFor conn s.history = .onAccept :: requests.map .onRequest
  ended : ∀ conn ∈ s.admitted, conn ∉ s.sockets →
    ∃ (requests : List (List UInt8)) (closeType : CloseType),
      callsFor conn s.history = .onAccept :: (requests.map .onRequest ++ [.onClose closeType])
  refused : ∀ conn, conn ∉ s.admitted → ServiceCall.onAccept ∉ callsFor conn s.history
  told : ∀ conn ∈ s.accepted, conn ∉ s.sockets → callsFor conn s.history ≠ []

theorem lives_new (inLoop : Bool) (config : ServiceConfig) : (new inLoop config).Lives := by
  constructor <;> simp [new, Direct, history, callsFor]

namespace Lives

/-- A step that leaves the sockets and the history as they are. -/
theorem congr (h : s.Lives) (hdirect : t.Direct) (hhistory : t.history = s.history)
    (hsockets : t.sockets = s.sockets) (haccepted : t.accepted = s.accepted)
    (hadmitted : t.admitted = s.admitted) : t.Lives := by
  constructor
  · exact hdirect
  · rw [hsockets, haccepted]
    exact h.known
  · rw [hadmitted, haccepted]
    exact h.admittedKnown
  · rw [hsockets]
    exact h.nodup
  · rw [haccepted, hhistory]
    exact h.unknown
  · rw [hadmitted, hsockets, hhistory]
    exact h.opened
  · rw [hadmitted, hsockets, hhistory]
    exact h.ended
  · rw [hadmitted, hhistory]
    exact h.refused
  · rw [haccepted, hsockets, hhistory]
    exact h.told

/-- A refused socket enters no history. -/
theorem refuse (h : s.Lives) {conn : Connection} (hfresh : conn ∉ s.accepted)
    {closes : List (UInt32 × CloseType)} :
    Lives { s with
      sockets := conn :: s.sockets
      accepted := conn :: s.accepted
      closes := closes } := by
  have hout : conn ∉ s.sockets := fun hin => hfresh (h.known conn hin)
  have hnot : conn ∉ s.admitted := fun hin => hfresh (h.admittedKnown conn hin)
  refine { h with known := ?_, admittedKnown := ?_, nodup := ?_, unknown := ?_, opened := ?_,
                  ended := ?_, told := ?_ }
  · intro conn' hin
    rcases List.mem_cons.mp hin with rfl | hin
    · exact List.mem_cons_self
    · exact List.mem_cons_of_mem _ (h.known conn' hin)
  · intro conn' hin
    exact List.mem_cons_of_mem _ (h.admittedKnown conn' hin)
  · exact List.nodup_cons.mpr ⟨hout, h.nodup⟩
  · intro conn' hnew
    exact h.unknown conn' (fun hin => hnew (List.mem_cons_of_mem _ hin))
  · intro conn' hadm hin
    have hne : conn' ≠ conn := fun heq => hnot (heq ▸ hadm)
    exact h.opened conn' hadm (List.mem_of_ne_of_mem hne hin)
  · intro conn' hadm hgone
    exact h.ended conn' hadm (fun hin => hgone (List.mem_cons_of_mem _ hin))
  · intro conn' hacc hgone
    have hne : conn' ≠ conn := fun heq => hgone (heq ▸ List.mem_cons_self)
    exact h.told conn' (List.mem_of_ne_of_mem hne hacc)
      (fun hin => hgone (List.mem_cons_of_mem _ hin))

/-- An admitted socket begins its history. -/
theorem enter (h : s.Lives) {conn : Connection} (hfresh : conn ∉ s.accepted)
    (hdirect : t.Direct) (hhistory : t.history = s.history ++ [(conn, .onAccept)])
    (hsockets : t.sockets = conn :: s.sockets) (haccepted : t.accepted = conn :: s.accepted)
    (hadmitted : t.admitted = conn :: s.admitted) : t.Lives := by
  have hout : conn ∉ s.sockets := fun hin => hfresh (h.known conn hin)
  obtain ⟨hself, hother⟩ := callsFor_history hhistory
  rw [h.unknown conn hfresh, List.nil_append] at hself
  constructor
  · exact hdirect
  · intro conn' hin
    rw [hsockets] at hin
    rw [haccepted]
    rcases List.mem_cons.mp hin with rfl | hin
    · exact List.mem_cons_self
    · exact List.mem_cons_of_mem _ (h.known conn' hin)
  · intro conn' hin
    rw [hadmitted] at hin
    rw [haccepted]
    rcases List.mem_cons.mp hin with rfl | hin
    · exact List.mem_cons_self
    · exact List.mem_cons_of_mem _ (h.admittedKnown conn' hin)
  · rw [hsockets]
    exact List.nodup_cons.mpr ⟨hout, h.nodup⟩
  · intro conn' hnew
    rw [haccepted, List.mem_cons, not_or] at hnew
    rw [hother conn' hnew.1]
    exact h.unknown conn' hnew.2
  · intro conn' hadm hin
    by_cases hne : conn' = conn
    · rw [hne, hself]
      exact ⟨[], rfl⟩
    · rw [hadmitted] at hadm
      rw [hsockets] at hin
      rw [hother conn' hne]
      exact h.opened conn' (List.mem_of_ne_of_mem hne hadm) (List.mem_of_ne_of_mem hne hin)
  · intro conn' hadm hgone
    rw [hsockets, List.mem_cons, not_or] at hgone
    rw [hadmitted] at hadm
    rw [hother conn' hgone.1]
    exact h.ended conn' (List.mem_of_ne_of_mem hgone.1 hadm) hgone.2
  · intro conn' hnot
    rw [hadmitted, List.mem_cons, not_or] at hnot
    rw [hother conn' hnot.1]
    exact h.refused conn' hnot.2
  · intro conn' hacc hgone
    rw [hsockets, List.mem_cons, not_or] at hgone
    rw [haccepted] at hacc
    rw [hother conn' hgone.1]
    exact h.told conn' (List.mem_of_ne_of_mem hgone.1 hacc) hgone.2

/-- Another call than `onAccept` admits nobody. -/
theorem refused_of_call (h : s.Lives) {conn : Connection} {call : ServiceCall}
    (hhistory : t.history = s.history ++ [(conn, call)]) (hcall : ServiceCall.onAccept ≠ call) :
    ∀ conn', conn' ∉ s.admitted → ServiceCall.onAccept ∉ callsFor conn' t.history := by
  obtain ⟨hself, hother⟩ := callsFor_history hhistory
  intro conn' hnot
  have hclean := h.refused conn' hnot
  by_cases hne : conn' = conn
  · subst hne
    rw [hself, List.mem_append, List.mem_singleton, not_or]
    exact ⟨hclean, hcall⟩
  · rw [hother conn' hne]
    exact hclean

/-- A call for an accepted connection tells of no other. -/
theorem unknown_of_call (h : s.Lives) {conn : Connection} {call : ServiceCall}
    (hhistory : t.history = s.history ++ [(conn, call)]) (hconn : conn ∈ s.accepted) :
    ∀ conn', conn' ∉ s.accepted → callsFor conn' t.history = [] := by
  intro conn' hnew
  have hne : conn' ≠ conn := fun heq => hnew (heq ▸ hconn)
  rw [(callsFor_history hhistory).2 conn' hne]
  exact h.unknown conn' hnew

/-- A request of an open socket, admitted or not. -/
theorem request (h : s.Lives) {conn : Connection} {data : List UInt8} (hopen : conn ∈ s.sockets)
    (hdirect : t.Direct) (hhistory : t.history = s.history ++ [(conn, .onRequest data)])
    (hsockets : t.sockets = s.sockets) (haccepted : t.accepted = s.accepted)
    (hadmitted : t.admitted = s.admitted) : t.Lives := by
  obtain ⟨hself, hother⟩ := callsFor_history hhistory
  constructor
  · exact hdirect
  · rw [hsockets, haccepted]
    exact h.known
  · rw [hadmitted, haccepted]
    exact h.admittedKnown
  · rw [hsockets]
    exact h.nodup
  · rw [haccepted]
    exact h.unknown_of_call hhistory (h.known conn hopen)
  · intro conn' hadm hin
    rw [hadmitted] at hadm
    rw [hsockets] at hin
    obtain ⟨requests, hlife⟩ := h.opened conn' hadm hin
    by_cases hne : conn' = conn
    · subst hne
      refine ⟨requests ++ [data], ?_⟩
      rw [hself, hlife, List.map_append, List.cons_append]
      rfl
    · exact ⟨requests, (hother conn' hne).trans hlife⟩
  · intro conn' hadm hgone
    rw [hadmitted] at hadm
    rw [hsockets] at hgone
    rw [hother conn' (fun heq => hgone (heq ▸ hopen))]
    exact h.ended conn' hadm hgone
  · rw [hadmitted]
    exact h.refused_of_call hhistory ServiceCall.noConfusion
  · intro conn' hacc hgone
    rw [haccepted] at hacc
    rw [hsockets] at hgone
    rw [hother conn' (fun heq => hgone (heq ▸ hopen))]
    exact h.told conn' hacc hgone

/-- An open socket is closed, admitted or not. -/
theorem close (h : s.Lives) {conn : Connection} {closeType : CloseType}
    (hopen : conn ∈ s.sockets) (hdirect : t.Direct)
    (hhistory : t.history = s.history ++ [(conn, .onClose closeType)])
    (hsockets : t.sockets = s.sockets.erase conn) (haccepted : t.accepted = s.accepted)
    (hadmitted : t.admitted = s.admitted) : t.Lives := by
  have hmem : ∀ conn', conn' ∈ t.sockets ↔ conn' ≠ conn ∧ conn' ∈ s.sockets := by
    intro conn'
    rw [hsockets]
    exact h.nodup.mem_erase_iff
  obtain ⟨hself, hother⟩ := callsFor_history hhistory
  have hgone' : ∀ conn', conn' ≠ conn → conn' ∉ t.sockets → conn' ∉ s.sockets :=
    fun conn' hne hgone hin => hgone ((hmem conn').mpr ⟨hne, hin⟩)
  constructor
  · exact hdirect
  · intro conn' hin
    rw [haccepted]
    exact h.known conn' ((hmem conn').mp hin).2
  · rw [hadmitted, haccepted]
    exact h.admittedKnown
  · rw [hsockets]
    exact h.nodup.erase conn
  · rw [haccepted]
    exact h.unknown_of_call hhistory (h.known conn hopen)
  · intro conn' hadm hin
    obtain ⟨hne, hin⟩ := (hmem conn').mp hin
    rw [hadmitted] at hadm
    rw [hother conn' hne]
    exact h.opened conn' hadm hin
  · intro conn' hadm hgone
    rw [hadmitted] at hadm
    by_cases hne : conn' = conn
    · subst hne
      obtain ⟨requests, hlife⟩ := h.opened conn' hadm hopen
      exact ⟨requests, closeType, by rw [hself, hlife, List.cons_append]⟩
    · rw [hother conn' hne]
      exact h.ended conn' hadm (hgone' conn' hne hgone)
  · rw [hadmitted]
    exact h.refused_of_call hhistory ServiceCall.noConfusion
  · intro conn' hacc hgone
    rw [haccepted] at hacc
    by_cases hne : conn' = conn
    · subst hne
      rw [hself]
      simp
    · rw [hother conn' hne]
      exact h.told conn' hacc (hgone' conn' hne hgone)

theorem step (h : s.Lives) {a : Action} (hstep : s.step a = some t) : t.Lives := by
  have hclose : ∀ {u : StormListener} {conn : Connection} (closeType : CloseType), u.Lives →
      conn ∈ u.sockets → (u.forceClose conn closeType).Lives := by
    intro u conn closeType hu hopen
    have hdirect : Direct { u with
        sockets := u.sockets.erase conn
        conList := u.conList.del conn.id
        timelist := u.timelist.del conn.id } := hu.direct
    exact hu.close hopen (hdirect.deliver _) (history_deliver hdirect _)
      (deliver_sockets _ _) (deliver_accepted _ _) (deliver_admitted _ _)
  cases step_cases hstep with
  | refuse _ hfresh _ _ => exact h.refuse hfresh
  | @enter conn now _ hfresh _ _ =>
    have hdirect : Direct { s with
        sockets := conn :: s.sockets
        accepted := conn :: s.accepted
        admitted := conn :: s.admitted
        conList := s.conList.add conn.id now } := h.direct
    exact h.enter hfresh (hdirect.deliver _) (history_deliver hdirect _)
      (deliver_sockets _ _) (deliver_accepted _ _) (deliver_admitted _ _)
  | drop _ _ _ => exact h.congr h.direct rfl rfl rfl rfl
  | @packet conn data now _ hopen =>
    have hdirect : Direct { s with
        conList := s.conList.del conn.id
        timelist := s.timelist.add conn.id now } := h.direct
    exact h.request hopen (hdirect.deliver _) (history_deliver hdirect _)
      (deliver_sockets _ _) (deliver_accepted _ _) (deliver_admitted _ _)
  | closed _ hopen => exact hclose _ h hopen
  | execute _ _ hopen => exact hclose _ (h.congr h.direct rfl rfl rfl rfl) hopen
  | @update packet queue hqueue =>
    refine h.congr ?_ ?_ rfl rfl rfl
    · intro hloop
      rw [h.direct hloop] at hqueue
      cases hqueue
    · rw [history, history, hqueue, List.map_cons, List.append_assoc]
      rfl
  | _ => exact h.congr h.direct rfl rfl rfl rfl

end Lives

theorem lives_of_runs {G : StormListener → Action → Prop} {inLoop : Bool}
    {config : ServiceConfig} (h : Runs step G (new inLoop config) s) : s.Lives :=
  h.invariant (fun _ _ _ hl _ hstep => hl.step hstep) (lives_new inLoop config)

/-- Whether a connection is admitted is settled when it is accepted. -/
theorem admitted_step {a : Action} (hstep : s.step a = some t) {conn : Connection}
    (hconn : conn ∈ s.accepted) :
    conn ∈ t.accepted ∧ (conn ∈ t.admitted ↔ conn ∈ s.admitted) := by
  cases step_cases hstep with
  | refuse _ _ _ _ => exact ⟨List.mem_cons_of_mem _ hconn, Iff.rfl⟩
  | @enter conn' now _ hfresh _ _ =>
    have hne : conn ≠ conn' := fun heq => hfresh (heq ▸ hconn)
    rw [deliver_accepted, deliver_admitted]
    exact ⟨List.mem_cons_of_mem _ hconn, by rw [List.mem_cons, or_iff_right hne]⟩
  | packet _ _ =>
    rw [deliver_accepted, deliver_admitted]
    exact ⟨hconn, Iff.rfl⟩
  | closed _ _ =>
    rw [forceClose, onClose, deliver_accepted, deliver_admitted]
    exact ⟨hconn, Iff.rfl⟩
  | execute _ _ _ =>
    rw [forceClose, onClose, deliver_accepted, deliver_admitted]
    exact ⟨hconn, Iff.rfl⟩
  | _ => exact ⟨hconn, Iff.rfl⟩

theorem admitted_of_runs {G : StormListener → Action → Prop} {conn : Connection}
    (h : Runs step G s t) (hconn : conn ∈ s.accepted) :
    conn ∈ t.accepted ∧ (conn ∈ t.admitted ↔ conn ∈ s.admitted) := by
  refine h.invariant
    (I := fun t => conn ∈ t.accepted ∧ (conn ∈ t.admitted ↔ conn ∈ s.admitted)) ?_
    ⟨hconn, Iff.rfl⟩
  rintro x a y ⟨hx, hsame⟩ _ hstep
  obtain ⟨hy, hstay⟩ := admitted_step hstep hx
  exact ⟨hy, hstay.trans hsame⟩

/-- `onAccept` admits a connection when `m_timelist` has room. -/
theorem admitted_accept {conn : Connection} {now : UInt32} (hl : s.Lives)
    (h : s.step (.accept conn now) = some t) :
    conn ∈ t.accepted ∧
      (conn ∈ t.admitted ↔ s.timelist.size < s.config.maxConnections.toNat) := by
  cases step_cases h with
  | refuse _ hfresh _ hfull =>
    refine ⟨List.mem_cons_self, iff_of_false ?_ (Nat.not_lt_of_le hfull)⟩
    exact fun hadm => hfresh (hl.admittedKnown conn hadm)
  | enter _ _ _ hroom =>
    rw [deliver_accepted, deliver_admitted]
    exact ⟨List.mem_cons_self, iff_of_true List.mem_cons_self hroom⟩

/-- The calls for an accepted connection are a well-formed life exactly when it was
admitted, or as long as there are none. -/
theorem Lives.life_iff (hl : s.Lives) {conn : Connection} :
    Life (callsFor conn s.calls) ↔ conn ∈ s.admitted ∨ callsFor conn s.calls = [] := by
  have hpre := callsFor_calls_prefix s conn
  constructor
  · intro hlife
    by_contra hnot
    rw [not_or] at hnot
    exact hl.refused conn hnot.1 (hpre.subset (hlife.onAccept_mem hnot.2))
  · intro hcases
    rcases hcases with hadm | hempty
    · apply Life.of_prefix _ hpre
      by_cases hopen : conn ∈ s.sockets
      · obtain ⟨requests, hlife⟩ := hl.opened conn hadm hopen
        refine ⟨requests, .self, ?_⟩
        rw [hlife, ← List.cons_append]
        exact List.prefix_append _ _
      · obtain ⟨requests, closeType, hlife⟩ := hl.ended conn hadm hopen
        exact ⟨requests, closeType, hlife ▸ List.prefix_rfl⟩
    · rw [hempty]
      exact Life.nil

/-- **A service sees a well-formed life of a connection exactly when its `onAccept` found
room in `m_timelist`**, or as long as the service has not been told of it.  Told of it
the service is: a closed connection with nothing queued has had a call. -/
theorem life_iff_admitted (inLoop : Bool) (config : ServiceConfig) (s t u : StormListener)
    (conn : Connection) (now : UInt32)
    (hbefore : Runs step (fun _ _ => True) (new inLoop config) s)
    (haccept : s.step (.accept conn now) = some t)
    (hafter : Runs step (fun _ _ => True) t u) :
    (Life (callsFor conn u.calls) ↔
      s.timelist.size < s.config.maxConnections.toNat ∨ callsFor conn u.calls = []) ∧
    (conn ∉ u.sockets → callsFor conn (u.queue.map Packet.call) = [] →
      callsFor conn u.calls ≠ []) := by
  have hu : u.Lives := lives_of_runs ((hbefore.tail trivial haccept).trans hafter)
  obtain ⟨hconn, hadmitted⟩ := admitted_accept (lives_of_runs hbefore) haccept
  obtain ⟨hconn', hstay⟩ := admitted_of_runs hafter hconn
  constructor
  · rw [hu.life_iff, hstay, hadmitted]
  · intro hgone hqueue
    have htold := hu.told conn hconn' hgone
    rwa [history, callsFor_append, hqueue, List.append_nil] at htold

/-- An admitted connection in queue mode: accepted, one request, closed by the peer. -/
theorem life_iff_admitted_of_one : ∃ s : StormListener,
    Runs step (fun _ _ => True) (new false ⟨1, 10, 60, 5⟩) s ∧
    callsFor ⟨1, 4, "", 0, 0⟩ s.calls = [.onAccept, .onRequest [7], .onClose .peer] ∧
    Life (callsFor ⟨1, 4, "", 0, 0⟩ s.calls) := by
  have hexec : ∃ u, Runs step (fun _ _ => True)
      ({ new false ⟨1, 10, 60, 5⟩ with
        sockets := [⟨1, 4, "", 0, 0⟩]
        accepted := [⟨1, 4, "", 0, 0⟩] }.onAccept ⟨1, 4, "", 0, 0⟩ 100) u ∧
      decide (callsFor ⟨1, 4, "", 0, 0⟩ u.calls = [.onAccept, .onRequest [7], .onClose .peer])
        = true :=
    exists_runs_of_schedule _
      [.update, .packet ⟨1, 4, "", 0, 0⟩ [7] 101, .closed ⟨1, 4, "", 0, 0⟩ .peer, .update,
        .update] _ (by decide)
  obtain ⟨u, hrun, hu⟩ := hexec
  have haccept : (new false ⟨1, 10, 60, 5⟩).step (.accept ⟨1, 4, "", 0, 0⟩ 100) =
      some ({ new false ⟨1, 10, 60, 5⟩ with
        sockets := [⟨1, 4, "", 0, 0⟩]
        accepted := [⟨1, 4, "", 0, 0⟩] }.onAccept ⟨1, 4, "", 0, 0⟩ 100) := rfl
  refine ⟨u, (Runs.single trivial haccept).trans hrun, of_decide_eq_true hu, ?_⟩
  exact (life_iff_admitted false ⟨1, 10, 60, 5⟩ _ _ u _ 100 .refl haccept hrun).1.mpr
    (.inl (by decide))

/-- With `maxConnections` at 1, a second connection is refused; the service is told of a
request on it and of its close. -/
theorem refused_life : ∃ s : StormListener,
    Runs step (fun _ _ => True) (new true ⟨1, 10, 60, 5⟩) s ∧
    ⟨2, 5, "", 0, 1⟩ ∈ s.accepted ∧ ⟨2, 5, "", 0, 1⟩ ∉ s.admitted ∧
    callsFor ⟨2, 5, "", 0, 1⟩ s.calls = [.onRequest [7], .onClose .self] ∧
    ¬ Life (callsFor ⟨2, 5, "", 0, 1⟩ s.calls) := by
  have hexec : ∃ s, Runs step (fun _ _ => True) (new true ⟨1, 10, 60, 5⟩) s ∧
      decide (⟨2, 5, "", 0, 1⟩ ∈ s.accepted ∧ ⟨2, 5, "", 0, 1⟩ ∉ s.admitted ∧
        callsFor ⟨2, 5, "", 0, 1⟩ s.calls = [.onRequest [7], .onClose .self]) = true :=
    exists_runs_of_schedule _
      [.accept ⟨1, 4, "", 0, 0⟩ 100, .packet ⟨1, 4, "", 0, 0⟩ [7] 101,
        .accept ⟨2, 5, "", 0, 1⟩ 102, .packet ⟨2, 5, "", 0, 1⟩ [7] 103, .command] _ (by decide)
  obtain ⟨s, hrun, hs⟩ := hexec
  obtain ⟨haccepted, hadmitted, hcalls⟩ := of_decide_eq_true hs
  refine ⟨s, hrun, haccepted, hadmitted, hcalls, fun hlife => ?_⟩
  rw [hcalls] at hlife
  exact absurd (hlife.onAccept_mem (by simp)) (by simp)

end StormListener

end StormNet.Framework
