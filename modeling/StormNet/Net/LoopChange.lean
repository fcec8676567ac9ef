/-
  Net/LoopChange.lean --- what the steps of a `SocketLoop` are made of.

  A step of the loop's thread runs a whole piece of the source: it notes a delivery, fills
  a buffer, changes a registration, and moves on.  `Change` lists the single changes, each
  with what is known when it happens, and `changes` decomposes every step into them.  An
  invariant is then proved once for each change.
-/
import StormNet.Net.SocketLoop
import Mathlib.Logic.Relation

set_option autoImplicit false

namespace StormNet.Net

open Function (update update_self forall_update_iff)
open Relation (ReflTransGen)
open StormNet.Util (TimeList)

/-! ## What is known of a place -/

namespace Pc

/-- The slot that is being closed. -/
def closes : Pc → Option Nat
  | .closing i _ _ => some i
  | _ => none

/-- The slot whose connection attempt fails. -/
def fails : Pc → Option Nat
  | .failing i => some i
  | _ => none

/-- The slot that is being connected. -/
def connects : Pc → Option Nat
  | .onConnect i _ => some i
  | _ => none

/-- The command being handled. -/
def runs : Pc → Option SocketCmd
  | .running cmd => some cmd
  | _ => none

/-- Where the thread goes on. -/
def resumes : Pc → Option Resume
  | .resume k => some k
  | .onConnect _ k => some k
  | .onData _ k => some k
  | .closing _ _ k => some k
  | _ => none

/-- No slot is between two statuses. -/
structure Plain (pc : Pc) : Prop where
  closes : pc.closes = none
  fails : pc.fails = none
  connects : pc.connects = none

end Pc

/-- The fd that `listen` brings. -/
def Op.fd : Op → Option Nat
  | .connect _ => none
  | .listen _ fd => some fd

/-- The files once the call has opened its fd for `c`. -/
def Op.opened (op : Op) (c : Conn) (files : Nat → Option File) : Nat → Option File :=
  match op with
  | .connect _ => files
  | .listen _ fd => update files fd (some ⟨c, true⟩)

namespace SocketLoop

/-- What the assignment of one slot leaves as it was there is as it was in every slot. -/
theorem field_update {β : Type} (f : Socket → β) {slot : Nat → Socket} {i : Nat} {s : Socket}
    (h : f s = f (slot i)) (j : Nat) : f (update slot i s j) = f (slot j) :=
  (forall_update_iff slot fun j t => f t = f (slot j)).mpr ⟨h, fun _ _ => rfl⟩ j

/-- The commands still to be handled, the one at hand first. -/
def commands (l : SocketLoop) : List SocketCmd := l.pc.runs.toList ++ l.queue

theorem commands_queue (l : SocketLoop) (cmd : SocketCmd) :
    commands { l with queue := l.queue ++ [cmd] } = l.commands ++ [cmd] := by
  simp [commands]

theorem mem_commands_of_running {l : SocketLoop} {cmd : SocketCmd} (h : l.pc = .running cmd) :
    cmd ∈ l.commands := by
  simp [commands, h, Pc.runs]

/-- Something meant for the connection is on its way to the slot: a command, an event, or
the second half of one. -/
def Ref (l : SocketLoop) (c : Conn) (i : Nat) : Prop :=
  (∃ cmd ∈ l.commands, cmd.target = some c ∧ l.getSocket cmd.id = some i) ∨
  (∃ e ∈ l.event, e.target = some c ∧ e.ud = i) ∨
  l.pc.resumes = some (.write i (some c))

/-- The slot that the step's turn of `getNewSocket` gets. -/
def picks (l : SocketLoop) : Action → Option Nat
  | .reserve _ => l.tryNewSocket.2
  | .net env =>
      match l.pc, env.accept with
      | .accepting _, .accepted _ => l.tryNewSocket.2
      | _, _ => none
  | _ => none

/-- The slot that the step runs `connectSocket` on. -/
def connects (l : SocketLoop) : Action → Option Nat
  | .net _ =>
      match l.pc with
      | .running ⟨.connect, id, _⟩ => l.getSocket id
      | _ => none
  | _ => none

/-- The command that a call of `send`, `close` or `terminate` queues. -/
def Action.cmd : Action → Option SocketCmd
  | .send id target buffer => some ⟨.send buffer, id, target⟩
  | .close id target closeType => some ⟨.close closeType, id, target⟩
  | .terminate => some ⟨.exit, 0, none⟩
  | _ => none

/-- The ids of a place to go on at name connections that the state `l` has in hand. -/
def Known (l : SocketLoop) (k : Resume) : Prop := ∀ i c, k = .write i (some c) → l.Ref c i

/-- The changes that a step from `l₀` with the label `a` is made of. -/
inductive Change (l₀ : SocketLoop) (a : Action) : SocketLoop → SocketLoop → Prop
  /-- fields that no connection depends on -/
  | misc (l : SocketLoop) (allocId : Nat) (running : Bool) (connTimeout : TimeList Nat Nat) :
      Change l₀ a l { l with
        allocId := allocId, running := running, connTimeout := connTimeout }
  | reserve (op : Op) (i allocId : Nat) : l₀.picks a = some i → a = .reserve op →
      (l₀.slot i).status = .idle → l₀.hash i = i → (∀ fd, op.fd = some fd → l₀.files fd = none) →
      Change l₀ a l₀ { l₀ with
        allocId := allocId
        slot := update l₀.slot i { l₀.slot i with id := i, fd := none, status := .reserse }
        gen := update l₀.gen i (l₀.gen i + 1)
        call := update l₀.call ⟨i, l₀.gen i + 1⟩ (some (.reserved op))
        files := op.opened ⟨i, l₀.gen i + 1⟩ l₀.files }
  | publish (l : SocketLoop) (c : Conn) (op : Op) : l.call c = some (.reserved op) →
      a = .publish c →
      Change l₀ a l { l with
        slot := update l.slot c.slot (op.fill (l.slot c.slot))
        call := update l.call c (some (.published op)) }
  | push (l : SocketLoop) (c : Conn) (op : Op) : l.call c = some (.published op) →
      a = .push c →
      Change l₀ a l { l with
        call := update l.call c none
        queue := l.queue ++ [⟨op.cmdType, (l.slot c.slot).id, some c⟩] }
  | issue (cmd : SocketCmd) : a.cmd = some cmd → l₀.Names cmd.id cmd.target →
      Change l₀ a l₀ (l₀.pushCmd cmd)
  | reported (l : SocketLoop) (events : List SocketEvent) :
      (∀ e ∈ events, ∃ fd event, l.poll.epoll fd = some event ∧ e.ud = event.ud ∧
        e.target = (l.files fd).map File.owner) →
      Change l₀ a l { l with event := events }
  | eventDone (l : SocketLoop) (rest : List SocketEvent) : rest ⊆ l.event →
      Change l₀ a l { l with event := rest }
  | deliver (l : SocketLoop) (effect : Effect) (targets : List (Option Conn)) (i : Nat) :
      (∀ c, some c ∈ targets → some c ∈ l.backlog i ∨ l₀.Ref c i) →
      Change l₀ a l (l.deliver effect targets i)
  | goto (l : SocketLoop) (pc : Pc) : l.pc.Plain → pc.Plain → pc.runs = none →
      (∀ k, pc.resumes = some k → l₀.Known k) →
      Change l₀ a l { l with pc := pc }
  | pop (l : SocketLoop) (cmd : SocketCmd) (rest : List SocketCmd) : l.queue = cmd :: rest →
      l.pc = .resume .command →
      Change l₀ a l { l with queue := rest, pc := .running cmd }
  | buffers (l : SocketLoop) (i : Nat) (r : Option IoBuffer) (w : List IoBuffer) :
      Change l₀ a l { l with
        slot := update l.slot i { l.slot i with readBuffer := r, writeBuffer := w } }
  | rearm (l : SocketLoop) (i fd : Nat) (poll : SocketPoller) : (l.slot i).fd = some fd →
      l.pc.closes = none →
      l.poll.Retargets poll fd i →
      Change l₀ a l { l with poll := poll }
  | queued (l : SocketLoop) (i : Nat) (targets : List (Option Conn)) :
      (l.slot i).status = .connected ∨ targets ⊆ l.backlog i →
      (∀ c, some c ∈ targets → some c ∈ l.backlog i ∨ l₀.Ref c i) →
      Change l₀ a l { l with backlog := update l.backlog i targets }
  | close (l : SocketLoop) (i : Nat) (closeType : CloseType) (k : Resume) : l.inUse i →
      l.pc.Plain → l₀.Known k →
      Change l₀ a l { l.closeFd (l.slot i).fd with pc := .closing i closeType k }
  | clear (i : Nat) (closeType : CloseType) (k : Resume) : l₀.pc = .closing i closeType k →
      Change l₀ a l₀ { l₀.clear i with pc := .resume k }
  | connectFailed (i : Nat) : l₀.connects a = some i →
      Change l₀ a l₀ { l₀ with pc := .failing i }
  | idled (i : Nat) : l₀.pc = .failing i →
      Change l₀ a l₀ { l₀ with
        slot := update l₀.slot i { l₀.slot i with status := .idle }
        pc := .resume .command }
  | opened (i fd : Nat) : l₀.connects a = some i → l₀.files fd = none →
      Change l₀ a l₀ { l₀ with
        files := update l₀.files fd (some ⟨l₀.occupant i, false⟩)
        slot := update l₀.slot i { l₀.slot i with fd := some fd, status := .connecting }
        pc := .resume .command }
  | connected (l : SocketLoop) (i fd : Nat) (k : Resume) : l.pc.Plain →
      (l.slot i).status = .connecting → (l.slot i).fd = some fd → l₀.Known k →
      Change l₀ a l { l with
        slot := update l.slot i { l.slot i with status := .connected }
        pc := .onConnect i k }
  | returned (l : SocketLoop) (i : Nat) (k : Resume) : l₀.pc = .onConnect i k →
      l.pc = .onConnect i k → Change l₀ a l { l with pc := .resume k }
  | accepted (i j fd s allocId : Nat) (f : File) : l₀.picks a = some j →
      l₀.pc = .accepting i → (l₀.slot j).status = .idle → l₀.hash j = j →
      l₀.files fd = none → (l₀.slot i).fd = some s → l₀.files s = some f →
      f.listening = true →
      Change l₀ a l₀ { l₀ with
        allocId := allocId
        slot := update l₀.slot j { l₀.slot j with
          id := j, fd := some fd, type := .normal, status := .connected,
          handler := (l₀.slot i).handler }
        gen := update l₀.gen j (l₀.gen j + 1)
        files := update l₀.files fd (some ⟨⟨j, l₀.gen j + 1⟩, false⟩)
        pc := .onAccept j i }

/-! ## Chains -/

section Chains

variable {l₀ l : SocketLoop} {a : Action} {i : Nat}

theorem Known.event : l₀.Known .event := by
  rintro i c ⟨⟩

theorem Known.command : l₀.Known .command := by
  rintro i c ⟨⟩

theorem Known.erase : l₀.Known .erase := by
  rintro i c ⟨⟩

theorem goto_resume (k : Resume) (hpc : l.pc.Plain) (hk : l₀.Known k) :
    Change l₀ a l { l with pc := .resume k } := by
  refine .goto l (.resume k) hpc ⟨rfl, rfl, rfl⟩ rfl ?_
  rintro k' ⟨⟩
  exact hk

/-- `forceClose` either closes the slot or does nothing. -/
theorem changes_forceClose (closeType : CloseType) {k : Resume} (hpc : l.pc.Plain)
    (hk : l₀.Known k) : Change l₀ a l (l.forceClose i closeType k) := by
  unfold forceClose
  split
  · rename_i huse
    exact .close l i closeType k huse hpc hk
  · exact goto_resume k hpc hk

theorem changes_closeSocket {id : Int} (closeType : CloseType) {k : Resume}
    (hpc : l.pc.Plain) (hk : l₀.Known k) :
    Change l₀ a l (l.closeSocket id closeType k) := by
  unfold closeSocket
  split
  · exact goto_resume k hpc hk
  · exact changes_forceClose closeType hpc hk

end Chains

end SocketLoop

/-- The reply is about the socket `s`: its buffers have changed, and the registration of
its fd. -/
structure WriteReply.Follows (r : WriteReply) (s : Socket) (poll : SocketPoller) : Prop where
  socket : r.socket = { s with writeBuffer := r.socket.writeBuffer }
  poll : r.poll = poll ∨ ∃ fd, s.fd = some fd ∧ poll.Retargets r.poll fd s.id

theorem follows_handleWrite (s : Socket) (poll : SocketPoller) (results : List WriteResult) :
    (handleWrite s poll results).Follows s poll := by
  unfold handleWrite
  split
  · exact ⟨rfl, .inl rfl⟩
  · split
    · refine ⟨rfl, ?_⟩
      cases hfd : s.fd with
      | none => exact .inl rfl
      | some fd => exact .inr ⟨fd, rfl, SocketPoller.retargets_delEvent⟩
    · exact ⟨rfl, .inl rfl⟩
    · exact ⟨rfl, .inl rfl⟩

theorem follows_sendSocket (s : Socket) (poll : SocketPoller) (buffer : IoBuffer)
    (results : List WriteResult) : (sendSocket s poll buffer results).Follows s poll := by
  unfold sendSocket
  split
  · exact ⟨rfl, .inl rfl⟩
  · split
    · exact ⟨rfl, .inl rfl⟩
    · split
      · exact ⟨rfl, .inl rfl⟩
      · refine ⟨rfl, ?_⟩
        cases hfd : s.fd with
        | none => exact .inl rfl
        | some fd => exact .inr ⟨fd, rfl, SocketPoller.retargets_addToWrite⟩
      · exact ⟨rfl, .inl rfl⟩

namespace SocketLoop

/-- A slot with an fd knows its number. -/
def Ids (l : SocketLoop) : Prop := ∀ i fd, (l.slot i).fd = some fd → (l.slot i).id = i

section Chains

variable {l₀ l : SocketLoop} {a : Action} {i : Nat}

theorem changes_writeReply {reply : WriteReply} {targets : List (Option Conn)} {k : Resume}
    (hids : l.Ids) (hpc : l.pc.Plain) (hk : l₀.Known k)
    (hreply : reply.Follows (l.slot i) l.poll)
    (hstatus : (l.slot i).status = .connected ∨ targets ⊆ l.backlog i)
    (htargets : ∀ c, some c ∈ targets → some c ∈ l.backlog i ∨ l₀.Ref c i) :
    ReflTransGen (Change l₀ a) l (l.writeReply i reply targets k) := by
  let gone := targets.length - reply.socket.writeBuffer.length
  let reached := if reply.written = [] then [] else targets.take (gone + 1)
  let l₁ := l.deliver .bytes reached i
  let l₂ := { l₁ with
    slot := update l.slot i { l.slot i with writeBuffer := reply.socket.writeBuffer } }
  let l₃ := { l₂ with poll := reply.poll }
  let l₄ := { l₃ with backlog := update l.backlog i (targets.drop gone) }
  have h₁ : Change l₀ a l l₁ := by
    refine .deliver l .bytes reached i ?_
    intro c hc
    apply htargets c
    by_cases hw : reply.written = []
    · simp [reached, hw] at hc
    · simp only [reached, if_neg hw] at hc
      exact List.mem_of_mem_take hc
  have h₂ : Change l₀ a l₁ l₂ := .buffers l₁ i _ _
  have h₃ : ReflTransGen (Change l₀ a) l₂ l₃ := by
    rcases hreply.poll with hpoll | ⟨fd, hfd, hpoll⟩
    · simp only [l₃, hpoll]
      exact .refl
    · rw [hids i fd hfd] at hpoll
      refine .single (.rearm l₂ i fd reply.poll ?_ hpc.closes hpoll)
      simpa [l₂] using hfd
  have h₄ : Change l₀ a l₃ l₄ := by
    refine .queued l₃ i _ ?_ ?_
    · refine hstatus.imp ?_ ?_
      · intro hst
        simpa [l₃, l₂] using hst
      · intro hsub x hx
        exact hsub (List.mem_of_mem_drop hx)
    · intro c hc
      exact htargets c (List.mem_of_mem_drop hc)
  have h₅ : Change l₀ a l₄ (l.writeReply i reply targets k) := by
    have hl₄ : l.writeReply i reply targets k =
        if reply.needClose then l₄.forceClose i .peer k else { l₄ with pc := .resume k } := by
      unfold writeReply
      rw [hreply.socket]
    rw [hl₄]
    split
    · exact changes_forceClose .peer hpc hk
    · exact goto_resume k hpc hk
  exact (((ReflTransGen.single h₁).tail h₂).trans h₃).tail h₄ |>.tail h₅

theorem changes_handleConnect (soError : Bool) (hpc : l.pc.Plain)
    (hstatus : (l.slot i).status = .connecting) :
    ReflTransGen (Change l₀ a) l (l.handleConnect i soError) := by
  let l₁ := { l with connTimeout := l.connTimeout.del (l.slot i).id }
  have h₁ : Change l₀ a l l₁ := .misc l l.allocId l.running _
  dsimp only [handleConnect]
  split
  · rename_i fd hfd
    let l₂ := { l₁ with poll := l.poll.delEvent fd .epWrite i }
    have h₂ : Change l₀ a l₁ l₂ :=
      .rearm l₁ i fd _ hfd hpc.closes SocketPoller.retargets_delEvent
    exact .tail (.tail (.single h₁) h₂) (.connected l₂ i fd .event hpc hstatus hfd .event)
  · exact .tail (.single h₁) (changes_forceClose .connectFail hpc .event)

theorem changes_handleRead (env : Env) {k : Resume} (hpc : l.pc.Plain) (hk : l₀.Known k) :
    ReflTransGen (Change l₀ a) l (l.handleRead i env k) := by
  dsimp only [handleRead]
  split
  · exact .single (goto_resume k hpc hk)
  · generalize readLoop env.reads ((l.slot i).readBuffer.getD env.pooled) = r
    obtain ⟨buffer, needClose⟩ := r
    let l₁ := { l with slot := update l.slot i { l.slot i with readBuffer := some buffer } }
    have h₁ : Change l₀ a l l₁ := .buffers l i (some buffer) (l.slot i).writeBuffer
    refine .tail (.single h₁) ?_
    show Change l₀ a l₁ (if needClose then l₁.forceClose i .peer k
      else { l₁ with pc := .onData i k })
    split
    · exact changes_forceClose .peer hpc hk
    · refine .goto l₁ _ hpc ⟨rfl, rfl, rfl⟩ rfl ?_
      rintro k' ⟨⟩
      exact hk

theorem changes_handleWrite (env : Env) (hids : l.Ids) (hpc : l.pc.Plain) :
    ReflTransGen (Change l₀ a) l (l.handleWrite i env) :=
  changes_writeReply hids hpc .event (follows_handleWrite _ _ _) (.inr (List.Subset.refl _))
    (fun _ hc => .inl hc)

theorem changes_handleEvent (e : SocketEvent) (env : Env) (hids : l.Ids) (hpc : l.pc.Plain)
    (he : ∀ c, e.target = some c → l₀.Ref c e.ud) :
    ReflTransGen (Change l₀ a) l (l.handleEvent e env) := by
  let l₁ := if l.inUse e.ud then l.deliver .event [e.target] e.ud else l
  have h₁ : ReflTransGen (Change l₀ a) l l₁ := by
    by_cases huse : l.inUse e.ud
    · simp only [l₁, if_pos huse]
      refine .single (.deliver l .event [e.target] e.ud ?_)
      intro c hc
      exact .inr (he c (List.mem_singleton.mp hc).symm)
    · simp only [l₁, if_neg huse]
      exact .refl
  have hslot : l₁.slot = l.slot := by
    simp only [l₁]
    split <;> rfl
  have hpc₁ : l₁.pc.Plain := by
    simp only [l₁]
    split <;> exact hpc
  have hids₁ : l₁.Ids := by
    unfold Ids
    rw [hslot]
    exact hids
  have hk : l₀.Known (if e.write then .write e.ud e.target else .event) := by
    intro i c hic
    split at hic
    · injection hic with hi htarget
      exact hi ▸ he c htarget
    · cases hic
  apply h₁.trans
  dsimp only [handleEvent]
  cases (l.slot e.ud).type with
  | notify => exact .single (goto_resume .command hpc₁ .command)
  | listen =>
    refine .single (.goto l₁ _ hpc₁ ⟨rfl, rfl, rfl⟩ rfl ?_)
    rintro k ⟨⟩
  | normal =>
    dsimp only
    split
    · rename_i hconnecting
      exact changes_handleConnect env.soError hpc₁ (by rw [hslot]; exact hconnecting)
    · split
      · exact changes_handleRead env hpc₁ hk
      · split
        · exact changes_handleWrite env hids₁ hpc₁
        · exact .single (goto_resume .event hpc₁ .event)

theorem changes_connectSocket {env : Env} {id : Int} {l' : SocketLoop} (hpc : l₀.pc.Plain)
    (hconnects : l₀.connects a = l₀.getSocket id) (h : l₀.connectSocket id env = some l') :
    ReflTransGen (Change l₀ a) l₀ l' := by
  unfold connectSocket at h
  cases hi : l₀.getSocket id with
  | none =>
    rw [hi] at h
    cases h
    exact .single (goto_resume .command hpc .command)
  | some i =>
    rw [hi] at h hconnects
    have hopened : ∀ fd, l₀.files fd = none → Change l₀ a l₀ { l₀ with
        files := update l₀.files fd (some ⟨l₀.occupant i, false⟩)
        slot := update l₀.slot i { l₀.slot i with fd := some fd, status := .connecting }
        pc := .resume .command } := fun fd hfd => .opened i fd hconnects hfd
    cases hresult : env.connect with
    | failed =>
      simp only [hresult] at h
      cases h
      exact .single (.connectFailed i hconnects)
    | done fd =>
      simp only [hresult] at h
      cases hfd : l₀.files fd with
      | some f => simp [hfd] at h
      | none =>
        simp only [hfd, Option.isSome_none, Bool.false_eq_true, if_false, Option.some.injEq] at h
        subst h
        refine .tail (.single (hopened fd hfd)) ?_
        have hconn : Change l₀ a _ _ := .connected
          { l₀ with
            files := update l₀.files fd (some ⟨l₀.occupant i, false⟩)
            slot := update l₀.slot i { l₀.slot i with fd := some fd, status := .connecting }
            pc := .resume .command } i fd .command ⟨rfl, rfl, rfl⟩ (by simp) (by simp) .command
        simpa only [update_self, Function.update_idem] using hconn
    | inProgress fd =>
      simp only [hresult] at h
      cases hfd : l₀.files fd with
      | some f => simp [hfd] at h
      | none =>
        simp only [hfd, Option.isSome_none, Bool.false_eq_true, if_false, Option.some.injEq] at h
        subst h
        refine .tail (.tail (.single (hopened fd hfd)) (.rearm _ i fd
          (l₀.poll.addEvent fd .epWrite i) (by simp) rfl SocketPoller.retargets_addEvent)) ?_
        exact .misc _ l₀.allocId l₀.running _

theorem changes_listenSocket (id : Int) (hpc : l.pc.Plain) :
    ReflTransGen (Change l₀ a) l (l.listenSocket id) := by
  unfold listenSocket
  cases hi : l.getSocket id with
  | none => exact .single (goto_resume .command hpc .command)
  | some i =>
    dsimp only
    cases hfd : (l.slot i).fd with
    | none => exact .single (goto_resume .command hpc .command)
    | some fd =>
      refine .tail (.single (.rearm l i fd _ hfd hpc.closes
        SocketPoller.retargets_addToRead)) ?_
      exact goto_resume .command hpc .command

theorem changes_sendSocket {cmd : SocketCmd} (buffer : IoBuffer) (env : Env) (hids : l.Ids)
    (hpc : l.pc.Plain)
    (hcmd : ∀ c i, cmd.target = some c → l.getSocket cmd.id = some i → l₀.Ref c i) :
    ReflTransGen (Change l₀ a) l (l.sendSocket cmd buffer env) := by
  unfold sendSocket
  cases hi : l.getSocket cmd.id with
  | none => exact .single (goto_resume .command hpc .command)
  | some i =>
    dsimp only
    split
    · exact .single (goto_resume .command hpc .command)
    · rename_i hstatus
      have hdeliver : Change l₀ a l (l.deliver .command [cmd.target] i) := by
        refine .deliver l .command [cmd.target] i ?_
        intro c hc
        exact .inr (hcmd c i (List.mem_singleton.mp hc).symm hi)
      refine (ReflTransGen.single hdeliver).trans ?_
      refine changes_writeReply hids hpc .command (follows_sendSocket _ _ _ _)
        (.inl (not_not.mp hstatus)) ?_
      intro c hc
      rcases List.mem_append.mp hc with hc | hc
      · exact .inl hc
      · exact .inr (hcmd c i (List.mem_singleton.mp hc).symm hi)

theorem changes_closeCmd {cmd : SocketCmd} (closeType : CloseType) (hpc : l.pc.Plain)
    (hcmd : ∀ c i, cmd.target = some c → l.getSocket cmd.id = some i → l₀.Ref c i) :
    ReflTransGen (Change l₀ a) l (l.closeCmd cmd closeType) := by
  dsimp only [closeCmd]
  cases hi : l.getSocket cmd.id with
  | none => exact .single (changes_closeSocket closeType hpc .command)
  | some i =>
    dsimp only
    split
    · refine .tail (.single (.deliver l .command [cmd.target] i ?_)) ?_
      · intro c hc
        exact .inr (hcmd c i (List.mem_singleton.mp hc).symm hi)
      · exact changes_closeSocket closeType hpc .command
    · exact .single (changes_closeSocket closeType hpc .command)

theorem changes_handleOneCmd {cmd : SocketCmd} {env : Env} {l' : SocketLoop} (hids : l₀.Ids)
    (hpc : l₀.pc = .running cmd) (h : l₀.handleOneCmd cmd env = some l') :
    ReflTransGen (Change l₀ (.net env)) l₀ l' := by
  have hplain : l₀.pc.Plain := by
    rw [hpc]
    exact ⟨rfl, rfl, rfl⟩
  have hcmd : ∀ c i, cmd.target = some c → l₀.getSocket cmd.id = some i → l₀.Ref c i := by
    intro c i hc hi
    exact .inl ⟨cmd, mem_commands_of_running hpc, hc, hi⟩
  unfold handleOneCmd at h
  obtain ⟨type, id, target⟩ := cmd
  cases type with
  | connect =>
    refine changes_connectSocket hplain ?_ h
    simp only [connects, hpc]
  | listen =>
    cases h
    exact changes_listenSocket id hplain
  | send buffer =>
    cases h
    exact changes_sendSocket buffer env hids hplain hcmd
  | close closeType =>
    cases h
    exact changes_closeCmd closeType hplain hcmd
  | exit =>
    cases h
    refine .tail (.single (.misc l₀ l₀.allocId false l₀.connTimeout)) ?_
    exact goto_resume .command hplain .command

/-- A turn of `getNewSocket` gets no slot, or an idle one. -/
theorem tryNewSocket_cases (l : SocketLoop) : ∃ allocId,
    l.tryNewSocket = ({ l with allocId := allocId }, none) ∨
    ∃ i, (l.slot i).status = .idle ∧ l.hash i = i ∧
      l.tryNewSocket = ({ l with
        allocId := allocId
        slot := update l.slot i { l.slot i with id := i, fd := none, status := .reserse }
        gen := update l.gen i (l.gen i + 1) }, some i) := by
  refine ⟨nextId l.allocId, ?_⟩
  unfold tryNewSocket
  by_cases hidle : (l.slot (l.hash (nextId l.allocId))).status = .idle
  · refine .inr ⟨l.hash (nextId l.allocId), hidle, Nat.mod_mod _ _, ?_⟩
    simp only [ne_eq, hidle, not_true_eq_false, if_false]
  · refine .inl ?_
    simp only [ne_eq, hidle, not_false_eq_true, if_true]

/-- What `getNewSocket` takes is idle. -/
theorem status_of_picks (h : l.picks a = some i) : (l.slot i).status = .idle := by
  have htry : l.tryNewSocket.2 = some i := by
    unfold picks at h
    split at h
    · exact h
    · split at h
      · exact h
      · cases h
    · cases h
  obtain ⟨allocId, hnone | ⟨j, hidle, -, hsome⟩⟩ := tryNewSocket_cases l
  · rw [hnone] at htry
    cases htry
  · rw [hsome] at htry
    cases htry
    exact hidle

/-- `connectSocket` runs at a command. -/
theorem connects_eq_some (h : l.connects a = some i) :
    ∃ id target, l.pc = .running ⟨.connect, id, target⟩ ∧ l.getSocket id = some i := by
  unfold connects at h
  split at h
  · split at h
    · rename_i id target hpc
      exact ⟨id, target, hpc, h⟩
    · cases h
  · cases h

theorem changes_handleAccept {env : Env} {l' : SocketLoop} (hpc : l₀.pc = .accepting i)
    (h : l₀.handleAccept i env.accept = some l') :
    ReflTransGen (Change l₀ (.net env)) l₀ l' := by
  have hplain : l₀.pc.Plain := by
    rw [hpc]
    exact ⟨rfl, rfl, rfl⟩
  unfold handleAccept at h
  cases hresult : env.accept with
  | again =>
    rw [hresult] at h
    cases h
    exact .single (goto_resume .event hplain .event)
  | full =>
    rw [hresult] at h
    cases h
    exact .single (goto_resume .event hplain .event)
  | error =>
    rw [hresult] at h
    cases h
    exact .refl
  | accepted fd =>
    simp only [hresult] at h
    split at h
    · rename_i hlisten
      obtain ⟨hlisten, hfd⟩ := hlisten
      obtain ⟨s, hs, hf⟩ := (Option.any_eq_true _ _).mp hlisten
      obtain ⟨f, hf, hlistening⟩ := (Option.any_eq_true _ _).mp hf
      obtain ⟨allocId, hnone | ⟨j, hidle, hhash, hsome⟩⟩ := tryNewSocket_cases l₀
      · rw [hnone] at h
        cases h
        exact .single (.misc l₀ allocId l₀.running l₀.connTimeout)
      · simp only [hsome, Option.some.injEq] at h
        subst h
        have hpicks : l₀.picks (.net env) = some j := by
          simp only [picks, hpc, hresult, hsome]
        have haccept := Change.accepted (a := .net env) i j fd s allocId f hpicks hpc hidle hhash
          (Option.isNone_iff_eq_none.mp hfd) hs hf hlistening
        refine .tail (.single haccept) ?_
        have hrearm : Change l₀ (.net env) _ _ := .rearm
          { l₀ with
            allocId := allocId
            slot := update l₀.slot j { l₀.slot j with
              id := j, fd := some fd, type := .normal, status := .connected,
              handler := (l₀.slot i).handler }
            gen := update l₀.gen j (l₀.gen j + 1)
            files := update l₀.files fd (some ⟨⟨j, l₀.gen j + 1⟩, false⟩)
            pc := .onAccept j i } j fd (l₀.poll.addToRead fd j).1 (by simp) rfl
          SocketPoller.retargets_addToRead
        simpa only [occupant, update_self, Function.update_idem] using hrearm
    · cases h

/-- A turn of `getNewSocket` for a caller gets no slot, or hands it over. -/
theorem reserve_cases {op : Op} {l' : SocketLoop} (h : l.reserve op = some l') :
    ∃ allocId, l.tryNewSocket.2 = none ∧ l' = { l with allocId := allocId } ∨
    ∃ i, l.tryNewSocket.2 = some i ∧ (l.slot i).status = .idle ∧ l.hash i = i ∧
      (∀ fd, op.fd = some fd → l.files fd = none) ∧ l' = { l with
        allocId := allocId
        slot := update l.slot i { l.slot i with id := i, fd := none, status := .reserse }
        gen := update l.gen i (l.gen i + 1)
        call := update l.call ⟨i, l.gen i + 1⟩ (some (.reserved op))
        files := op.opened ⟨i, l.gen i + 1⟩ l.files } := by
  unfold reserve at h
  obtain ⟨allocId, hnone | ⟨i, hidle, hhash, hsome⟩⟩ := tryNewSocket_cases l
  · rw [hnone] at h
    cases h
    exact ⟨allocId, .inl ⟨by rw [hnone], rfl⟩⟩
  · refine ⟨allocId, .inr ⟨i, by rw [hsome], hidle, hhash, ?_⟩⟩
    simp only [hsome, occupant, update_self] at h
    cases op with
    | connect handler =>
      cases h
      exact ⟨by rintro _ ⟨⟩, rfl⟩
    | listen handler fd =>
      dsimp only at h
      split at h
      · cases h
      · rename_i hfd
        cases h
        refine ⟨?_, rfl⟩
        rintro _ ⟨⟩
        simpa using hfd

theorem changes_reserve {op : Op} {l' : SocketLoop} (h : l₀.reserve op = some l') :
    ReflTransGen (Change l₀ (.reserve op)) l₀ l' := by
  obtain ⟨allocId, ⟨-, rfl⟩ | ⟨i, hpicks, hidle, hhash, hfd, rfl⟩⟩ := reserve_cases h
  · exact .single (.misc l₀ allocId l₀.running l₀.connTimeout)
  · exact .single (.reserve op i allocId hpicks rfl hidle hhash hfd)

theorem changes_wait {ready : List (Nat × Bool × Bool)} {l' : SocketLoop}
    (hpc : l₀.pc.Plain) (h : l₀.wait ready = some l') :
    ReflTransGen (Change l₀ a) l₀ l' := by
  unfold wait at h
  split at h
  · cases h
    let events := ready.filterMap (fun r => (l₀.poll.epoll r.1).map (fun event =>
      (⟨event.ud, r.2.1, r.2.2, (l₀.files r.1).map File.owner⟩ : SocketEvent)))
    have hreported : Change l₀ a l₀ { l₀ with event := events } := by
      refine .reported l₀ events ?_
      intro e he
      obtain ⟨r, -, hr⟩ := List.mem_filterMap.mp he
      obtain ⟨event, hevent, rfl⟩ := Option.map_eq_some_iff.mp hr
      exact ⟨r.1, event, hevent, rfl, rfl⟩
    exact .tail (.single hreported) (goto_resume .event hpc .event)
  · cases h

/-- The next event is handled. -/
theorem changes_nextEvent {e : SocketEvent} {rest : List SocketEvent} (env : Env)
    (hids : l₀.Ids) (hpc : l₀.pc.Plain) (hevent : l₀.event = e :: rest) :
    ReflTransGen (Change l₀ a) l₀ ({ l₀ with event := rest }.handleEvent e env) := by
  have hmem : e ∈ l₀.event := hevent ▸ List.mem_cons_self
  have hdone : Change l₀ a l₀ { l₀ with event := rest } := by
    refine .eventDone l₀ rest ?_
    rw [hevent]
    exact List.subset_cons_self e rest
  refine (ReflTransGen.single hdone).trans (changes_handleEvent e env hids hpc ?_)
  intro c hc
  exact .inr (.inl ⟨e, hmem, hc, rfl⟩)

/-- Behind the `handleRead` of an event comes its `handleWrite`. -/
theorem changes_resumeWrite {target : Option Conn} (env : Env) (hids : l₀.Ids)
    (hpc : l₀.pc = .resume (.write i target)) :
    ReflTransGen (Change l₀ a) l₀ ((if (l₀.slot i).status = .connected then
      l₀.deliver .event [target] i else l₀).handleWrite i env) := by
  have hplain : l₀.pc.Plain := by
    rw [hpc]
    exact ⟨rfl, rfl, rfl⟩
  split
  · refine (ReflTransGen.single (.deliver l₀ .event [target] i ?_)).trans
      (changes_handleWrite env hids hplain)
    intro c hc
    refine .inr (.inr (.inr ?_))
    rw [hpc, List.mem_singleton.mp hc]
    rfl
  · exact changes_handleWrite env hids hplain

/-- `onConnect` has returned. -/
theorem changes_onConnect {k : Resume} (hpc : l₀.pc = .onConnect i k) :
    ReflTransGen (Change l₀ a) l₀ { l₀ with
      poll := match (l₀.slot i).fd with
        | some fd => l₀.poll.addEvent fd .epRead i
        | none => l₀.poll
      pc := .resume k } := by
  cases hfd : (l₀.slot i).fd with
  | none => exact .single (.returned l₀ i k hpc hpc)
  | some fd =>
    have hrearm : Change l₀ a l₀ { l₀ with poll := l₀.poll.addEvent fd .epRead i } :=
      .rearm l₀ i fd _ hfd (by rw [hpc]; rfl) SocketPoller.retargets_addEvent
    exact .tail (.single hrearm) (.returned _ i k hpc hpc)

/-- `onData` has returned, and the slot is closed where the result is `false`. -/
theorem changes_onData {k : Resume} (handled : Option IoBuffer × Bool)
    (hpc : l₀.pc = .onData i k) :
    let l := { l₀ with slot := update l₀.slot i { l₀.slot i with readBuffer := handled.1 } }
    ReflTransGen (Change l₀ a) l₀
      (if handled.2 then { l with pc := .resume k } else l.forceClose i .self k) := by
  have hplain : l₀.pc.Plain := by
    rw [hpc]
    exact ⟨rfl, rfl, rfl⟩
  have hk : l₀.Known k := by
    rintro j c rfl
    exact .inr (.inr (by rw [hpc]; rfl))
  have hread : Change l₀ a l₀ { l₀ with
      slot := update l₀.slot i { l₀.slot i with readBuffer := handled.1 } } :=
    .buffers l₀ i handled.1 (l₀.slot i).writeBuffer
  dsimp only
  split
  · exact .tail (.single hread) (goto_resume k hplain hk)
  · exact .tail (.single hread) (changes_forceClose .self hplain hk)

theorem changes_netStep {env : Env} {l' : SocketLoop} (hids : l₀.Ids)
    (h : l₀.netStep env = some l') : ReflTransGen (Change l₀ (.net env)) l₀ l' := by
  have hplain : ∀ pc : Pc, l₀.pc = pc → pc.Plain → l₀.pc.Plain := fun pc hpc h => hpc ▸ h
  unfold netStep at h
  split at h
  case h_1 hpc => exact changes_wait (hplain _ hpc ⟨rfl, rfl, rfl⟩) h
  case h_2 hpc =>
    have hplain := hplain _ hpc ⟨rfl, rfl, rfl⟩
    split at h
    · cases h
      refine .single (.goto l₀ .sweeping hplain ⟨rfl, rfl, rfl⟩ rfl ?_)
      rintro k ⟨⟩
    · rename_i e rest hevent
      cases h
      exact changes_nextEvent env hids hplain hevent
  case h_3 i target hpc =>
    cases h
    exact changes_resumeWrite env hids hpc
  case h_4 hpc =>
    split at h
    · cases h
      exact .single (goto_resume .event (hplain _ hpc ⟨rfl, rfl, rfl⟩) .event)
    · rename_i cmd rest hqueue
      cases h
      exact .single (.pop l₀ cmd rest hqueue hpc)
  case h_5 hpc =>
    cases h
    refine .tail (.single (.misc l₀ l₀.allocId l₀.running l₀.connTimeout.eraseFront)) ?_
    refine .goto _ .sweeping (hplain _ hpc ⟨rfl, rfl, rfl⟩) ⟨rfl, rfl, rfl⟩ rfl ?_
    rintro k ⟨⟩
  case h_6 cmd hpc => exact changes_handleOneCmd hids hpc h
  case h_7 i hpc => exact changes_handleAccept hpc h
  case h_8 hpc =>
    have hplain := hplain _ hpc ⟨rfl, rfl, rfl⟩
    split at h
    · cases h
      refine .single (.goto l₀ .polling hplain ⟨rfl, rfl, rfl⟩ rfl ?_)
      rintro k ⟨⟩
    · cases h
      exact .single (changes_closeSocket .connTimeOut hplain .erase)
  case h_9 i k hpc =>
    cases h
    exact changes_onConnect hpc
  case h_10 i listener hpc =>
    cases h
    refine .single (.goto l₀ (.accepting listener) (hplain _ hpc ⟨rfl, rfl, rfl⟩)
      ⟨rfl, rfl, rfl⟩ rfl ?_)
    rintro k ⟨⟩
  case h_11 i k hpc =>
    have hdone := changes_onData (a := .net env) env.handled hpc
    dsimp only at h hdone
    split at h
    · rename_i hkept
      cases h
      rwa [if_pos hkept] at hdone
    · rename_i hclosed
      cases h
      rwa [if_neg hclosed] at hdone
  case h_12 i closeType k hpc =>
    cases h
    exact .single (.clear i closeType k hpc)
  case h_13 i hpc =>
    cases h
    exact .single (.idled i hpc)

/-- Every step is made of changes. -/
theorem changes {l' : SocketLoop} (hids : l₀.Ids) (h : l₀.step a = some l') :
    ReflTransGen (Change l₀ a) l₀ l' := by
  cases a with
  | reserve op => exact changes_reserve h
  | publish c =>
    simp only [step, publish] at h
    split at h
    · rename_i op hop
      cases h
      exact .single (.publish l₀ c op hop rfl)
    · cases h
  | push c =>
    simp only [step, push] at h
    split at h
    · rename_i op hop
      cases h
      exact .single (.push l₀ c op hop rfl)
    · cases h
  | send id target buffer =>
    simp only [step] at h
    split at h
    · rename_i hnames
      cases h
      exact .single (.issue ⟨.send buffer, id, target⟩ rfl hnames)
    · cases h
  | close id target closeType =>
    simp only [step] at h
    split at h
    · rename_i hnames
      cases h
      exact .single (.issue ⟨.close closeType, id, target⟩ rfl hnames)
    · cases h
  | terminate =>
    cases h
    exact .single (.issue ⟨.exit, 0, none⟩ rfl (by rintro c ⟨⟩))
  | net env => exact changes_netStep hids h

/-- **The rule for invariants.**  What every change preserves, every step preserves. -/
theorem invariant_step {I : SocketLoop → Prop} {l' : SocketLoop} (hids : l₀.Ids)
    (hpres : ∀ x y, I x → Change l₀ a x y → I y) (h : l₀.step a = some l') (hI : I l₀) :
    I l' := by
  have hrun : ∀ y, ReflTransGen (Change l₀ a) l₀ y → I y := by
    intro y hy
    induction hy with
    | refl => exact hI
    | tail _ hchange ih => exact hpres _ _ ih hchange
  exact hrun l' (changes hids h)

end Chains

end SocketLoop

end StormNet.Net
