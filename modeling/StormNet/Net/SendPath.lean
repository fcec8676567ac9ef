/-
  Net/SendPath.lean --- `SocketLoop::sendSocket` and `SocketLoop::handleWrite` on one
  socket.

  A Send command writes directly while nothing is queued, and queues what is left; a
  writability event drains the queue.  `send_path_fifo`: over the life of a connection
  nothing is lost or reordered, and whatever is queued has its fd armed for writing.
-/
import StormNet.Foundation.Transition
import StormNet.Net.IoBuffer
import StormNet.Net.SocketDefine
import StormNet.Net.SocketPoller

set_option autoImplicit false

namespace StormNet.Net

open StormNet.Foundation

/-! ## The source -/

/-- `Socket`; an fd of -1 is `none`. -/
structure Socket where
  id : Nat := 0
  fd : Option Nat := none
  type : SocketType := .normal
  status : SocketStatus := .idle
  handler : Option Nat := none
  readBuffer : Option IoBuffer := none
  writeBuffer : List IoBuffer := []
  deriving DecidableEq, Repr

/-- What a `write()` call meets. -/
inductive WriteResult where
  /-- the kernel has room for `n + 1` bytes -/
  | room (n : Nat)
  /-- `EAGAIN` -/
  | again
  /-- `EINTR` -/
  | intr
  /-- any other error, or a result of 0 -/
  | error
  deriving DecidableEq, Repr

/-- How a writing loop ends. -/
inductive WriteEnd where
  /-- everything is written -/
  | drained
  /-- `EAGAIN` -/
  | blocked
  /-- `needClose` -/
  | close
  deriving DecidableEq, Repr

/-- The loop of `sendSocket` over `buffer`: what is left of it, the bytes written, and
the end.  The end of the list of results reads as EAGAIN. -/
def sendLoop : List WriteResult → IoBuffer → IoBuffer × List UInt8 × WriteEnd
  | results, buffer =>
    if buffer.getSize = 0 then (buffer, [], .drained)
    else
      match results with
      | [] => (buffer, [], .blocked)
      | .again :: _ => (buffer, [], .blocked)
      | .intr :: rest => sendLoop rest buffer
      | .error :: _ => (buffer, [], .close)
      | .room n :: rest =>
          let sendSize := min (n + 1) buffer.getSize
          let (left, written, ending) := sendLoop rest (buffer.readN sendSize)
          (left, buffer.contents.take sendSize ++ written, ending)

/-- The loop of `handleWrite` over `writeBuffer`. -/
def writeLoop : List WriteResult → List IoBuffer → List IoBuffer × List UInt8 × WriteEnd
  | _, [] => ([], [], .drained)
  | results, buffer :: queue =>
      -- a `write` of size 0 returns 0
      if buffer.getSize = 0 then (buffer :: queue, [], .close)
      else
        match results with
        | [] => (buffer :: queue, [], .blocked)
        | .again :: _ => (buffer :: queue, [], .blocked)
        | .intr :: rest => writeLoop rest (buffer :: queue)
        | .error :: _ => (buffer :: queue, [], .close)
        | .room n :: rest =>
            let sendSize := min (n + 1) buffer.getSize
            let buffer' := buffer.readN sendSize
            let queue' := if buffer'.getSize = 0 then queue else buffer' :: queue
            let (left, written, ending) := writeLoop rest queue'
            (left, buffer.contents.take sendSize ++ written, ending)

/-- A socket and the poller behind a call, the bytes the call wrote, and whether it
ends in `forceClose`. -/
structure WriteReply where
  socket : Socket
  poll : SocketPoller
  written : List UInt8
  needClose : Bool

/-- `sendSocket`, behind the lookup of the slot `s`. -/
def sendSocket (s : Socket) (poll : SocketPoller) (buffer : IoBuffer)
    (results : List WriteResult) : WriteReply :=
  if s.status ≠ .connected then ⟨s, poll, [], false⟩
  else if s.writeBuffer ≠ [] then
    ⟨{ s with writeBuffer := s.writeBuffer ++ [buffer] }, poll, [], false⟩
  else
    match sendLoop results buffer with
    | (_, written, .drained) => ⟨s, poll, written, false⟩
    | (left, written, .blocked) =>
        ⟨{ s with writeBuffer := s.writeBuffer ++ [left] },
          (match s.fd with | some fd => poll.addToWrite fd s.id true | none => poll),
          written, false⟩
    | (_, written, .close) => ⟨s, poll, written, true⟩

/-- `handleWrite`. -/
def handleWrite (s : Socket) (poll : SocketPoller) (results : List WriteResult) : WriteReply :=
  if s.status ≠ .connected then ⟨s, poll, [], false⟩
  else
    match writeLoop results s.writeBuffer with
    | (left, written, .drained) =>
        ⟨{ s with writeBuffer := left },
          (match s.fd with | some fd => poll.delEvent fd .epWrite s.id | none => poll),
          written, false⟩
    | (left, written, .blocked) => ⟨{ s with writeBuffer := left }, poll, written, false⟩
    | (left, written, .close) => ⟨{ s with writeBuffer := left }, poll, written, true⟩

/-! ## What the loops write -/

/-- The unread bytes of a queue of buffers, front to back. -/
def unread (queue : List IoBuffer) : List UInt8 := (queue.map IoBuffer.contents).flatten

/-- Each buffer is well formed and has something to write. -/
def Loaded (queue : List IoBuffer) : Prop := ∀ b ∈ queue, b.WF ∧ b.contents ≠ []

/-- A result that is neither an error nor an end. -/
def WriteResult.Transient : WriteResult → Prop
  | .error => False
  | _ => True

theorem IoBuffer.WF.getSize_eq_zero {b : IoBuffer} (h : b.WF) :
    b.getSize = 0 ↔ b.contents = [] := by
  rw [← h.length_contents, List.length_eq_zero_iff]

theorem getSize_ne_zero_of_loaded {b : IoBuffer} (h : b.WF ∧ b.contents ≠ []) : b.getSize ≠ 0 :=
  fun hsize => h.2 (h.1.getSize_eq_zero.mp hsize)

/-- Reading `n` bytes splits the contents. -/
theorem IoBuffer.WF.split_readN {b : IoBuffer} (h : b.WF) {n : Nat} (hn : n ≤ b.getSize) :
    (b.readN n).WF ∧ b.contents.take n ++ (b.readN n).contents = b.contents := by
  refine ⟨h.readN hn, ?_⟩
  rw [h.contents_readN n, List.take_append_drop]

/-- The direct path: what it writes and what it leaves make up the buffer, and it stops
early only at EAGAIN. -/
theorem sendLoop_spec {results : List WriteResult} (hres : ∀ r ∈ results, r.Transient)
    {buffer : IoBuffer} (hwf : buffer.WF) :
    ∃ left written ending, sendLoop results buffer = (left, written, ending) ∧
      left.WF ∧ written ++ left.contents = buffer.contents ∧
      (ending = .drained ∧ left.contents = [] ∨ ending = .blocked ∧ left.contents ≠ []) := by
  induction results generalizing buffer with
  | nil =>
    unfold sendLoop
    by_cases hsize : buffer.getSize = 0
    · exact ⟨buffer, [], .drained, by simp [hsize], hwf, rfl,
        .inl ⟨rfl, hwf.getSize_eq_zero.mp hsize⟩⟩
    · exact ⟨buffer, [], .blocked, by simp [hsize], hwf, rfl,
        .inr ⟨rfl, fun h => hsize (hwf.getSize_eq_zero.mpr h)⟩⟩
  | cons r rest ih =>
    have hrest : ∀ r ∈ rest, r.Transient := fun r hr => hres r (List.mem_cons_of_mem _ hr)
    unfold sendLoop
    by_cases hsize : buffer.getSize = 0
    · exact ⟨buffer, [], .drained, by simp [hsize], hwf, rfl,
        .inl ⟨rfl, hwf.getSize_eq_zero.mp hsize⟩⟩
    · rw [if_neg hsize]
      cases r with
      | again =>
        exact ⟨buffer, [], .blocked, rfl, hwf, rfl,
          .inr ⟨rfl, fun h => hsize (hwf.getSize_eq_zero.mpr h)⟩⟩
      | intr => exact ih hrest hwf
      | error => exact absurd (hres .error List.mem_cons_self) id
      | room n =>
        obtain ⟨hwf', hsplit⟩ := hwf.split_readN (Nat.min_le_right (n + 1) buffer.getSize)
        obtain ⟨left, written, ending, hloop, hleft, hbytes, hend⟩ := ih hrest hwf'
        refine ⟨left, buffer.contents.take (min (n + 1) buffer.getSize) ++ written, ending,
          by simp only [hloop], hleft, ?_, hend⟩
        rw [List.append_assoc, hbytes, hsplit]

/-- The queued path: what it writes and what it leaves make up the queue, and it stops
early only at EAGAIN. -/
theorem writeLoop_spec {results : List WriteResult} (hres : ∀ r ∈ results, r.Transient)
    {queue : List IoBuffer} (hq : Loaded queue) :
    ∃ left written ending, writeLoop results queue = (left, written, ending) ∧
      Loaded left ∧ written ++ unread left = unread queue ∧
      (ending = .drained ∧ left = [] ∨ ending = .blocked ∧ left ≠ []) := by
  induction results generalizing queue with
  | nil =>
    cases queue with
    | nil => exact ⟨[], [], .drained, rfl, hq, rfl, .inl ⟨rfl, rfl⟩⟩
    | cons b bs =>
      have hsize : b.getSize ≠ 0 := getSize_ne_zero_of_loaded (hq b List.mem_cons_self)
      exact ⟨b :: bs, [], .blocked, by rw [writeLoop, if_neg hsize], hq, rfl, .inr ⟨rfl, by simp⟩⟩
  | cons r rest ih =>
    have hrest : ∀ r ∈ rest, r.Transient := fun r hr => hres r (List.mem_cons_of_mem _ hr)
    cases queue with
    | nil => exact ⟨[], [], .drained, by cases r <;> rfl, hq, rfl, .inl ⟨rfl, rfl⟩⟩
    | cons b bs =>
      have hsize : b.getSize ≠ 0 := getSize_ne_zero_of_loaded (hq b List.mem_cons_self)
      unfold writeLoop
      rw [if_neg hsize]
      cases r with
      | again => exact ⟨b :: bs, [], .blocked, rfl, hq, rfl, .inr ⟨rfl, by simp⟩⟩
      | intr => exact ih hrest hq
      | error => exact absurd (hres .error List.mem_cons_self) id
      | room n =>
        obtain ⟨hwf, -⟩ := hq b List.mem_cons_self
        obtain ⟨hwf', hsplit⟩ := hwf.split_readN (Nat.min_le_right (n + 1) b.getSize)
        -- the front buffer is dropped once it is empty
        have hnext : Loaded (if (b.readN (min (n + 1) b.getSize)).getSize = 0 then bs
            else b.readN (min (n + 1) b.getSize) :: bs) ∧
            unread (if (b.readN (min (n + 1) b.getSize)).getSize = 0 then bs
              else b.readN (min (n + 1) b.getSize) :: bs) =
              (b.readN (min (n + 1) b.getSize)).contents ++ unread bs := by
          have hbs : Loaded bs := fun x hx => hq x (List.mem_cons_of_mem _ hx)
          split
          · rename_i hempty
            exact ⟨hbs, by rw [hwf'.getSize_eq_zero.mp hempty, List.nil_append]⟩
          · rename_i hfull
            refine ⟨fun x hx => ?_, rfl⟩
            rcases List.mem_cons.mp hx with rfl | hx
            · exact ⟨hwf', fun h => hfull (hwf'.getSize_eq_zero.mpr h)⟩
            · exact hbs x hx
        obtain ⟨hload, hunread⟩ := hnext
        obtain ⟨left, written, ending, hloop, hleft, hbytes, hend⟩ := ih hrest hload
        refine ⟨left, b.contents.take (min (n + 1) b.getSize) ++ written, ending, ?_, hleft,
          ?_, hend⟩
        · simp only [hloop]
        · rw [List.append_assoc, hbytes, hunread, ← List.append_assoc, hsplit]
          rfl

/-! ## The calls, by how their loops end -/

section Calls

variable {s : Socket} {poll : SocketPoller} {buffer left : IoBuffer} {queue : List IoBuffer}
variable {results : List WriteResult} {written : List UInt8} {fd : Nat}

theorem sendSocket_queued (hs : s.status = .connected) (hq : s.writeBuffer ≠ []) :
    sendSocket s poll buffer results =
      ⟨{ s with writeBuffer := s.writeBuffer ++ [buffer] }, poll, [], false⟩ := by
  simp [sendSocket, hs, hq]

theorem sendSocket_drained (hs : s.status = .connected) (hq : s.writeBuffer = [])
    (hloop : sendLoop results buffer = (left, written, .drained)) :
    sendSocket s poll buffer results = ⟨s, poll, written, false⟩ := by
  simp [sendSocket, hs, hq, hloop]

theorem sendSocket_blocked (hs : s.status = .connected) (hfd : s.fd = some fd)
    (hq : s.writeBuffer = []) (hloop : sendLoop results buffer = (left, written, .blocked)) :
    sendSocket s poll buffer results =
      ⟨{ s with writeBuffer := [left] }, poll.addToWrite fd s.id true, written, false⟩ := by
  simp [sendSocket, hs, hfd, hq, hloop]

theorem handleWrite_drained (hs : s.status = .connected) (hfd : s.fd = some fd)
    (hloop : writeLoop results s.writeBuffer = (queue, written, .drained)) :
    handleWrite s poll results =
      ⟨{ s with writeBuffer := queue }, poll.delEvent fd .epWrite s.id, written, false⟩ := by
  simp [handleWrite, hs, hfd, hloop]

theorem handleWrite_blocked (hs : s.status = .connected)
    (hloop : writeLoop results s.writeBuffer = (queue, written, .blocked)) :
    handleWrite s poll results = ⟨{ s with writeBuffer := queue }, poll, written, false⟩ := by
  simp [handleWrite, hs, hloop]

end Calls

/-! ## The life of a connection -/

/-- The sending side of a connection.  `wire` are the bytes that `write()` has accepted
and `payloads` those of the Send commands, in order. -/
structure SendSide where
  socket : Socket
  poll : SocketPoller
  wire : List UInt8
  payloads : List UInt8

namespace SendSide

/-- What happens while the connection is open. -/
inductive Action where
  /-- a Send command is handled -/
  | send (buffer : IoBuffer) (results : List WriteResult)
  /-- a writability event is handled -/
  | writable (results : List WriteResult)
  /-- the loop does something to other fds -/
  | other (poll : SocketPoller)

/-- The connection behind a call, unless the call closed it. -/
def reply (c : SendSide) (r : WriteReply) (payload : List UInt8) : Option SendSide :=
  if r.needClose then none
  else some ⟨r.socket, r.poll, c.wire ++ r.written, c.payloads ++ payload⟩

def step (c : SendSide) : Action → Option SendSide
  | .send buffer results => c.reply (sendSocket c.socket c.poll buffer results) buffer.contents
  | .writable results => c.reply (handleWrite c.socket c.poll results) []
  | .other poll => some { c with poll := poll }

/-- Payloads are not empty, `write()` neither fails nor returns 0, and calls for other
fds leave this one alone.  The results are what the calls of `write()` returned: one with 2^31
bytes or more fails, so that payloads of that size are not regular. -/
def Regular (c : SendSide) : Action → Prop
  | .send buffer results => buffer.WF ∧ buffer.contents ≠ [] ∧ ∀ r ∈ results, r.Transient
  | .writable results => ∀ r ∈ results, r.Transient
  | .other poll => ∀ fd, c.socket.fd = some fd →
      poll.epoll fd = c.poll.epoll fd ∧ poll.fdEvent fd = c.poll.fdEvent fd

/-- A socket of the slot `s` that has just become connected. -/
def connected (s : Socket) (poll : SocketPoller) (fd : Nat) (opening : SocketPoller.Opening) :
    SendSide where
  socket := { s with fd := some fd, status := .connected, writeBuffer := [] }
  poll := poll.opened fd s.id opening
  wire := []
  payloads := []

/-- The invariant of the life of a connection. -/
structure Inv (fd : Nat) (c : SendSide) : Prop where
  status : c.socket.status = .connected
  fd_eq : c.socket.fd = some fd
  loaded : Loaded c.socket.writeBuffer
  fifo : c.wire ++ unread c.socket.writeBuffer = c.payloads
  keeps : c.poll.KeepsReading fd
  armed : c.socket.writeBuffer ≠ [] → c.poll.ArmedOut fd

theorem inv_connected (s : Socket) {poll : SocketPoller} {fd : Nat} (h : poll.Unknown fd)
    (opening : SocketPoller.Opening) : (connected s poll fd opening).Inv fd where
  status := rfl
  fd_eq := rfl
  loaded := by simp [connected, Loaded]
  fifo := rfl
  keeps := SocketPoller.keepsReading_opened h opening
  armed h := absurd rfl h

variable {fd : Nat} {c d : SendSide}

/-- A Send command does not close the connection and keeps the invariant. -/
theorem Inv.send (h : c.Inv fd) {buffer : IoBuffer} {results : List WriteResult}
    (hwf : buffer.WF) (hne : buffer.contents ≠ []) (hres : ∀ r ∈ results, r.Transient) :
    ∃ d, c.step (.send buffer results) = some d ∧ d.Inv fd := by
  have hfifo := h.fifo
  by_cases hqueue : c.socket.writeBuffer = []
  · obtain ⟨left, written, ending, hloop, hleft, hbytes, hend⟩ := sendLoop_spec hres hwf
    have hwire : c.wire = c.payloads := by
      rw [hqueue] at hfifo
      simpa [unread] using hfifo
    rcases hend with ⟨rfl, hempty⟩ | ⟨rfl, hfull⟩
    · rw [hempty, List.append_nil] at hbytes
      refine ⟨⟨c.socket, c.poll, c.wire ++ written, c.payloads ++ buffer.contents⟩, ?_, ?_⟩
      · rw [step, sendSocket_drained h.status hqueue hloop]
        rfl
      · refine { h with fifo := ?_ }
        simp only [hqueue, hwire, hbytes, unread, List.map_nil, List.flatten_nil, List.append_nil]
    · refine ⟨⟨{ c.socket with writeBuffer := [left] }, c.poll.addToWrite fd c.socket.id true,
        c.wire ++ written, c.payloads ++ buffer.contents⟩, ?_, ?_⟩
      · rw [step, sendSocket_blocked h.status h.fd_eq hqueue hloop]
        rfl
      · refine { h with
          loaded := ?_, fifo := ?_, keeps := SocketPoller.keepsReading_addToWrite h.keeps true,
          armed := fun _ => SocketPoller.armedOut_addToWrite h.keeps }
        · intro b hb
          rw [List.mem_singleton.mp hb]
          exact ⟨hleft, hfull⟩
        · simp only [unread, List.map_cons, List.map_nil, List.flatten_cons, List.flatten_nil,
            List.append_nil, List.append_assoc, hbytes, hwire]
  · refine ⟨⟨{ c.socket with writeBuffer := c.socket.writeBuffer ++ [buffer] }, c.poll,
      c.wire ++ [], c.payloads ++ buffer.contents⟩, ?_, ?_⟩
    · rw [step, sendSocket_queued h.status hqueue]
      rfl
    · refine { h with loaded := ?_, fifo := ?_, armed := fun _ => h.armed hqueue }
      · intro b hb
        rcases List.mem_append.mp hb with hb | hb
        · exact h.loaded b hb
        · rw [List.mem_singleton.mp hb]
          exact ⟨hwf, hne⟩
      · simp only [unread, List.map_append, List.flatten_append, List.map_cons, List.map_nil,
          List.flatten_cons, List.flatten_nil, List.append_nil]
        rw [← hfifo, unread, List.append_assoc]

/-- A writability event does not close the connection and keeps the invariant. -/
theorem Inv.writable (h : c.Inv fd) {results : List WriteResult}
    (hres : ∀ r ∈ results, r.Transient) :
    ∃ d, c.step (.writable results) = some d ∧ d.Inv fd := by
  obtain ⟨left, written, ending, hloop, hleft, hbytes, hend⟩ := writeLoop_spec hres h.loaded
  have hfifo : (c.wire ++ written) ++ unread left = c.payloads ++ [] := by
    rw [List.append_assoc, hbytes, h.fifo, List.append_nil]
  rcases hend with ⟨rfl, rfl⟩ | ⟨rfl, hfull⟩
  · refine ⟨⟨{ c.socket with writeBuffer := [] }, c.poll.delEvent fd .epWrite c.socket.id,
      c.wire ++ written, c.payloads ++ []⟩, ?_, ?_⟩
    · rw [step, handleWrite_drained h.status h.fd_eq hloop]
      rfl
    · exact { h with
        loaded := hleft, fifo := hfifo, keeps := SocketPoller.keepsReading_delEvent h.keeps,
        armed := fun hne => absurd rfl hne }
  · refine ⟨⟨{ c.socket with writeBuffer := left }, c.poll, c.wire ++ written,
      c.payloads ++ []⟩, ?_, ?_⟩
    · rw [step, handleWrite_blocked h.status hloop]
      rfl
    · have hqueue : c.socket.writeBuffer ≠ [] := by
        intro hnil
        rw [hnil] at hloop
        cases results <;> simp [writeLoop] at hloop
      exact { h with loaded := hleft, fifo := hfifo, armed := fun _ => h.armed hqueue }

/-- No regular action is stuck or closes the connection, and each keeps the invariant. -/
theorem Inv.step (h : c.Inv fd) {a : Action} (ha : c.Regular a) :
    ∃ d, c.step a = some d ∧ d.Inv fd := by
  cases a with
  | send buffer results => exact h.send ha.1 ha.2.1 ha.2.2
  | writable results => exact h.writable ha
  | other poll =>
    obtain ⟨hepoll, hmask⟩ := ha fd h.fd_eq
    exact ⟨{ c with poll := poll }, rfl, { h with
      keeps := h.keeps.congr hepoll hmask, armed := fun hne => (h.armed hne).congr hepoll }⟩

/-- **The send path is a lossless FIFO that cannot get stuck.**  From the moment a
connection on a new fd becomes connected, however it did, until it is closed: the bytes
accepted by `write()`, followed by what is unread in `writeBuffer`, are the payloads in
the order of their commands; while something is queued the fd is registered for
`EPOLLOUT`; and no regular action closes the connection. -/
theorem send_path_fifo (s : Socket) (poll : SocketPoller) (fd : Nat)
    (opening : SocketPoller.Opening) (hfd : poll.Unknown fd) (c : SendSide)
    (h : Runs step Regular (connected s poll fd opening) c) :
    c.wire ++ unread c.socket.writeBuffer = c.payloads ∧
    (c.socket.writeBuffer ≠ [] → c.poll.ArmedOut fd) ∧
    ∀ a, c.Regular a → (c.step a).isSome := by
  have hinv : c.Inv fd := by
    refine h.invariant (I := Inv fd) ?_ (inv_connected s hfd opening)
    intro x a y hx ha hstep
    obtain ⟨d, hd, hinv⟩ := hx.step ha
    rw [hstep, Option.some.injEq] at hd
    exact hd ▸ hinv
  refine ⟨hinv.fifo, hinv.armed, fun a ha => ?_⟩
  obtain ⟨d, hd, -⟩ := hinv.step ha
  rw [hd]
  rfl

/-- A payload of three bytes of which the first is written at once and one more at the
next writability event. -/
theorem send_path_fifo_of_three : ∃ c : SendSide,
    Runs step Regular (connected {} .new 5 .accepted) c ∧ c.wire = [1, 2] ∧
    c.wire ++ unread c.socket.writeBuffer = [1, 2, 3] ∧ c.poll.ArmedOut 5 := by
  have hroom : ∀ r ∈ [WriteResult.room 0], r.Transient := by
    intro r hr
    rw [List.mem_singleton.mp hr]
    trivial
  have hload : (IoBuffer.ofBytes [1, 2, 3]).contents = [1, 2, 3] := by decide
  let g : SendSide → Action → Bool := fun _ a =>
    match a with
    | .send buffer results => decide (buffer = .ofBytes [1, 2, 3] ∧ results = [.room 0])
    | .writable results => decide (results = [.room 0])
    | .other _ => false
  have hg : ∀ c a, g c a = true → Regular c a := by
    intro c a h
    cases a with
    | send buffer results =>
      obtain ⟨rfl, rfl⟩ := of_decide_eq_true h
      exact ⟨IoBuffer.wf_ofBytes _, by simp [hload], hroom⟩
    | writable results =>
      obtain rfl := of_decide_eq_true h
      exact hroom
    | other poll => cases h
  let p : SendSide → Bool := fun c =>
    c.wire = [1, 2] ∧ c.payloads = [1, 2, 3] ∧ c.socket.writeBuffer ≠ []
  have hexec : ∃ c, Runs step Regular (connected {} .new 5 .accepted) c ∧ p c = true :=
    exists_runs_of_execute hg
      [.send (.ofBytes [1, 2, 3]) [.room 0], .writable [.room 0]] p (by decide)
  obtain ⟨c, hrun, hc⟩ := hexec
  obtain ⟨hwire, hpay, hne⟩ := of_decide_eq_true hc
  obtain ⟨hfifo, harmed, -⟩ := send_path_fifo {} .new 5 .accepted ⟨rfl, rfl⟩ c hrun
  exact ⟨c, hrun, hwire, hfifo.trans hpay, harmed hne⟩

end SendSide

end StormNet.Net
