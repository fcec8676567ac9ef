/-
  Net/EmptySend.lean --- Send commands with an empty payload put between the events of a
  connection.

  The events are handled twice, with the empty payloads and without them, and `write()` meets
  the same on both sides; a result is what a call returned, which is an error for 2^31 bytes or
  more.  With nothing queued an empty payload is not written; behind a backlog it is queued, and
  the `write` of size 0 that a writability event then makes returns 0, which `handleWrite` takes
  for a dead peer.
-/
import Mathlib.Data.List.TakeWhile
import StormNet.Net.SendPath

set_option autoImplicit false

namespace StormNet.Net

/-- A connection, the bytes that `write()` has accepted, and whether the loop has closed it. -/
structure Line where
  socket : Socket
  poll : SocketPoller
  wire : List UInt8
  closed : Bool

namespace Line

/-! ## The source -/

/-- A Send command or a writability event, with what `write()` meets. -/
inductive Event where
  | send (buffer : IoBuffer) (results : List WriteResult)
  | writable (results : List WriteResult)
  deriving DecidableEq, Repr

/-- `forceClose`. -/
def forceClose (c : Line) : Line :=
  if c.socket.status = .idle ∨ c.socket.status = .reserse then c
  else
    { c with
      socket := { c.socket with fd := none, status := .idle, readBuffer := none, writeBuffer := [] }
      poll := match c.socket.fd with
        | some fd => (c.poll.kernelClose fd).del fd
        | none => c.poll
      closed := true }

/-- The end of `sendSocket` and of `handleWrite`. -/
def reply (c : Line) (r : WriteReply) : Line :=
  let c' : Line := ⟨r.socket, r.poll, c.wire ++ r.written, c.closed⟩
  if r.needClose then c'.forceClose else c'

def handle (c : Line) : Event → Line
  | .send buffer results => c.reply (sendSocket c.socket c.poll buffer results)
  | .writable results => c.reply (handleWrite c.socket c.poll results)

/-! ## The two runs -/

/-- An event of both runs, or a Send command with an empty payload of one of them. -/
inductive Item where
  | both (e : Event)
  | empty (buffer : IoBuffer) (h : buffer.getSize = 0) (results : List WriteResult)

/-- The event with the empty payloads. -/
def Item.padded : Item → Event
  | .both e => e
  | .empty buffer _ results => .send buffer results

/-- The event without them. -/
def Item.plain : Item → Option Event
  | .both e => some e
  | .empty _ _ _ => none

/-- The buffer of a Send command is well formed. -/
def Item.WF : Item → Prop
  | .both (.send buffer _) => buffer.WF
  | .both (.writable _) | .empty _ _ _ => True

/-- A connection in any state. -/
def start (s : Socket) (poll : SocketPoller) : Line := ⟨s, poll, [], false⟩

/-- The connection behind the items, with the empty payloads. -/
def padded (c : Line) (items : List Item) : Line := (items.map Item.padded).foldl handle c

/-- The connection behind the items without them. -/
def plain (c : Line) (items : List Item) : Line := (items.filterMap Item.plain).foldl handle c

/-- The same bytes have been written, and both are closed or neither is. -/
def Same (p b : Line) : Prop := p.wire = b.wire ∧ p.closed = b.closed

instance (p b : Line) : Decidable (Same p b) := inferInstanceAs (Decidable (_ ∧ _))

/-! ## How far `write()` gets -/

/-- The buffers in front of the first empty one. -/
def front (queue : List IoBuffer) : List IoBuffer := queue.takeWhile (fun b => b.getSize ≠ 0)

/-- What `write()` meets behind the last byte of `queue`; `none` when it does not come so
far. -/
def afterWriting : List WriteResult → List IoBuffer → Option (List WriteResult)
  | results, [] => some results
  | results, buffer :: queue =>
      match results with
      | [] => none
      | .again :: _ => none
      | .error :: _ => none
      | .intr :: rest => afterWriting rest (buffer :: queue)
      | .room n :: rest =>
          let buffer' := buffer.readN (min (n + 1) buffer.getSize)
          afterWriting rest (if buffer'.getSize = 0 then queue else buffer' :: queue)

/-- The next `write()` of something fails. -/
def NextFails : List WriteResult → Prop
  | .error :: _ => True
  | .intr :: rest => NextFails rest
  | [] | .again :: _ | .room _ :: _ => False

instance decidableNextFails : DecidablePred NextFails
  | .error :: _ => isTrue trivial
  | .intr :: rest => decidableNextFails rest
  | [] | .again :: _ | .room _ :: _ => isFalse id

/-- The next `write()` for `queue` fails or has nothing to write. -/
def Fails (results : List WriteResult) : List IoBuffer → Prop
  | [] => False
  | buffer :: _ => buffer.getSize = 0 ∨ NextFails results

instance (results : List WriteResult) (queue : List IoBuffer) : Decidable (Fails results queue) :=
  match queue with
  | [] => isFalse id
  | _ :: _ => inferInstanceAs (Decidable (_ ∨ _))

/-- The writability event does not get as far as an empty payload, unless the connection
without it fails there. -/
def Spares (p b : Line) (results : List WriteResult) : Prop :=
  p.socket.status = .connected →
    ∀ rest ∈ afterWriting results (front p.socket.writeBuffer),
      front p.socket.writeBuffer = p.socket.writeBuffer ∨
        Fails rest (b.socket.writeBuffer.drop (front p.socket.writeBuffer).length)

instance (p b : Line) (results : List WriteResult) : Decidable (Spares p b results) :=
  inferInstanceAs (Decidable (_ → ∀ rest ∈ _, _ ∨ _))

/-- The item spares the empty payloads, if it is a writability event. -/
def Item.Spared (p b : Line) : Item → Prop
  | .both (.writable results) => Spares p b results
  | .both (.send _ _) | .empty _ _ _ => True

instance (p b : Line) (item : Item) : Decidable (item.Spared p b) :=
  match item with
  | .both (.writable results) => inferInstanceAs (Decidable (Spares p b results))
  | .both (.send _ _) | .empty _ _ _ => isTrue trivial

/-! ## The loops -/

section Loops

variable {results rest : List WriteResult} {queue left : List IoBuffer} {buffer : IoBuffer}

theorem writeLoop_empty (h : buffer.getSize = 0) (results : List WriteResult)
    (queue : List IoBuffer) :
    writeLoop results (buffer :: queue) = (buffer :: queue, [], .close) := by
  unfold writeLoop
  rw [if_pos h]

theorem writeLoop_nil (results : List WriteResult) : writeLoop results [] = ([], [], .drained) := by
  unfold writeLoop
  rfl

theorem writeLoop_intr (h : buffer.getSize ≠ 0) :
    writeLoop (.intr :: rest) (buffer :: queue) = writeLoop rest (buffer :: queue) := by
  conv_lhs => unfold writeLoop
  rw [if_neg h]

/-- The queue behind a `write` of `n` bytes of its front buffer. -/
def advance (buffer : IoBuffer) (queue : List IoBuffer) (n : Nat) : List IoBuffer :=
  if (buffer.readN n).getSize = 0 then queue else buffer.readN n :: queue

theorem advance_append (buffer : IoBuffer) (queue behind : List IoBuffer) (n : Nat) :
    advance buffer (queue ++ behind) n = advance buffer queue n ++ behind := by
  unfold advance
  split <;> rfl

theorem full_advance (hq : ∀ b ∈ buffer :: queue, b.getSize ≠ 0) (n : Nat) :
    ∀ b ∈ advance buffer queue n, b.getSize ≠ 0 := by
  intro b hb
  unfold advance at hb
  split at hb
  · exact hq b (List.mem_cons_of_mem _ hb)
  · rename_i hfull
    rcases List.mem_cons.mp hb with hnew | hold
    · rw [hnew]
      exact hfull
    · exact hq b (List.mem_cons_of_mem _ hold)

theorem writeLoop_room (h : buffer.getSize ≠ 0) (n : Nat) :
    writeLoop (.room n :: rest) (buffer :: queue) =
      ((writeLoop rest (advance buffer queue (min (n + 1) buffer.getSize))).1,
        buffer.contents.take (min (n + 1) buffer.getSize) ++
          (writeLoop rest (advance buffer queue (min (n + 1) buffer.getSize))).2.1,
        (writeLoop rest (advance buffer queue (min (n + 1) buffer.getSize))).2.2) := by
  conv_lhs => unfold writeLoop
  rw [if_neg h]
  rfl

theorem afterWriting_room (n : Nat) :
    afterWriting (.room n :: rest) (buffer :: queue) =
      afterWriting rest (advance buffer queue (min (n + 1) buffer.getSize)) := rfl

/-- Where `write()` does not come behind full buffers, what is queued behind them does not
matter. -/
theorem writeLoop_of_none (hq : ∀ b ∈ queue, b.getSize ≠ 0)
    (h : afterWriting results queue = none) :
    ∃ left written ending, left ≠ [] ∧ ending ≠ .drained ∧
      ∀ behind, writeLoop results (queue ++ behind) = (left ++ behind, written, ending) := by
  induction results generalizing queue with
  | nil =>
    cases queue with
    | nil => simp [afterWriting] at h
    | cons buffer queue =>
      refine ⟨buffer :: queue, [], .blocked, List.cons_ne_nil _ _, by simp, fun behind => ?_⟩
      rw [List.cons_append]
      unfold writeLoop
      rw [if_neg (hq buffer List.mem_cons_self)]
  | cons r rest ih =>
    cases queue with
    | nil => simp [afterWriting] at h
    | cons buffer queue =>
      have hsize := hq buffer List.mem_cons_self
      cases r with
      | again =>
        refine ⟨buffer :: queue, [], .blocked, List.cons_ne_nil _ _, by simp, fun behind => ?_⟩
        rw [List.cons_append]
        unfold writeLoop
        rw [if_neg hsize]
      | error =>
        refine ⟨buffer :: queue, [], .close, List.cons_ne_nil _ _, by simp, fun behind => ?_⟩
        rw [List.cons_append]
        unfold writeLoop
        rw [if_neg hsize]
      | intr =>
        obtain ⟨left, written, ending, hleft, hend, hloop⟩ := ih hq h
        refine ⟨left, written, ending, hleft, hend, fun behind => ?_⟩
        rw [List.cons_append, writeLoop_intr hsize, ← List.cons_append]
        exact hloop behind
      | room n =>
        rw [afterWriting_room] at h
        obtain ⟨left, written, ending, hleft, hend, hloop⟩ := ih (full_advance hq _) h
        refine ⟨left, buffer.contents.take (min (n + 1) buffer.getSize) ++ written, ending, hleft,
          hend, fun behind => ?_⟩
        rw [List.cons_append, writeLoop_room hsize, advance_append, hloop]

/-- Where it does, the loop goes on with what is queued behind. -/
theorem writeLoop_of_some (hq : ∀ b ∈ queue, b.getSize ≠ 0)
    (h : afterWriting results queue = some rest) :
    ∃ written, ∀ behind, writeLoop results (queue ++ behind) =
      ((writeLoop rest behind).1, written ++ (writeLoop rest behind).2.1,
        (writeLoop rest behind).2.2) := by
  induction results generalizing queue with
  | nil =>
    cases queue with
    | nil =>
      simp only [afterWriting, Option.some.injEq] at h
      exact ⟨[], fun behind => by rw [h]; rfl⟩
    | cons buffer queue => simp [afterWriting] at h
  | cons r results ih =>
    cases queue with
    | nil =>
      simp only [afterWriting, Option.some.injEq] at h
      exact ⟨[], fun behind => by rw [h]; rfl⟩
    | cons buffer queue =>
      have hsize := hq buffer List.mem_cons_self
      cases r with
      | again => simp [afterWriting] at h
      | error => simp [afterWriting] at h
      | intr =>
        obtain ⟨written, hloop⟩ := ih hq h
        refine ⟨written, fun behind => ?_⟩
        rw [List.cons_append, writeLoop_intr hsize, ← List.cons_append]
        exact hloop behind
      | room n =>
        rw [afterWriting_room] at h
        obtain ⟨written, hloop⟩ := ih (full_advance hq _) h
        refine ⟨buffer.contents.take (min (n + 1) buffer.getSize) ++ written, fun behind => ?_⟩
        rw [List.cons_append, writeLoop_room hsize, advance_append, hloop, List.append_assoc]

theorem nextFails_iff (hwf : buffer.WF) (hsize : buffer.getSize ≠ 0) :
    NextFails results ↔ (writeLoop results (buffer :: queue)).2 = ([], .close) := by
  induction results with
  | nil =>
    unfold writeLoop
    rw [if_neg hsize]
    simp [NextFails]
  | cons r rest ih =>
    cases r with
    | again =>
      unfold writeLoop
      rw [if_neg hsize]
      simp [NextFails]
    | error =>
      unfold writeLoop
      rw [if_neg hsize]
      simp [NextFails]
    | intr => rwa [writeLoop_intr hsize]
    | room n =>
      rw [writeLoop_room hsize]
      refine iff_of_false id ?_
      intro h
      obtain ⟨hbytes, -⟩ := Prod.mk.inj h
      have hnone := congrArg List.length (List.append_eq_nil_iff.mp hbytes).1
      rw [List.length_take, hwf.length_contents, List.length_nil] at hnone
      omega

/-- The loop closes without a byte exactly where the next `write()` fails. -/
theorem fails_iff (hwf : ∀ b ∈ queue, b.WF) :
    Fails results queue ↔ (writeLoop results queue).2 = ([], .close) := by
  cases queue with
  | nil => simp [Fails, writeLoop_nil]
  | cons buffer queue =>
    by_cases hsize : buffer.getSize = 0
    · rw [writeLoop_empty hsize]
      exact iff_of_true (Or.inl hsize) rfl
    · rw [Fails, or_iff_right hsize]
      exact nextFails_iff (hwf buffer List.mem_cons_self) hsize

theorem wf_advance (hwf : ∀ b ∈ buffer :: queue, b.WF) {n : Nat} (hn : n ≤ buffer.getSize) :
    ∀ b ∈ advance buffer queue n, b.WF := by
  intro b hb
  unfold advance at hb
  split at hb
  · exact hwf b (List.mem_cons_of_mem _ hb)
  · rcases List.mem_cons.mp hb with hnew | hold
    · rw [hnew]
      exact (hwf buffer List.mem_cons_self).readN hn
    · exact hwf b (List.mem_cons_of_mem _ hold)

theorem wf_writeLoop (hwf : ∀ b ∈ queue, b.WF) (results : List WriteResult) :
    ∀ b ∈ (writeLoop results queue).1, b.WF := by
  induction results generalizing queue with
  | nil =>
    unfold writeLoop
    split
    · exact hwf
    · split <;> exact hwf
  | cons r rest ih =>
    cases queue with
    | nil =>
      rw [writeLoop_nil]
      exact hwf
    | cons buffer queue =>
      by_cases hsize : buffer.getSize = 0
      · rw [writeLoop_empty hsize]
        exact hwf
      · cases r with
        | again =>
          unfold writeLoop
          rw [if_neg hsize]
          exact hwf
        | error =>
          unfold writeLoop
          rw [if_neg hsize]
          exact hwf
        | intr =>
          rw [writeLoop_intr hsize]
          exact ih hwf
        | room n =>
          rw [writeLoop_room hsize]
          exact ih (wf_advance hwf (Nat.min_le_right _ _))

theorem wf_sendLoop (hwf : buffer.WF) : (sendLoop results buffer).1.WF := by
  induction results generalizing buffer with
  | nil =>
    unfold sendLoop
    split <;> exact hwf
  | cons r rest ih =>
    unfold sendLoop
    split
    · exact hwf
    · cases r with
      | again => exact hwf
      | error => exact hwf
      | intr => exact ih hwf
      | room n => exact ih (hwf.readN (Nat.min_le_right _ _))

theorem sendLoop_empty (h : buffer.getSize = 0) (results : List WriteResult) :
    sendLoop results buffer = (buffer, [], .drained) := by
  unfold sendLoop
  rw [if_pos h]

end Loops

/-! ## The two queues -/

/-- The first queue is the second with empty payloads put in. -/
inductive Pads : List IoBuffer → List IoBuffer → Prop
  | nil : Pads [] []
  | keep {p b : List IoBuffer} (buffer : IoBuffer) : Pads p b → Pads (buffer :: p) (buffer :: b)
  | pad {p b : List IoBuffer} (buffer : IoBuffer) : buffer.getSize = 0 → Pads p b →
      Pads (buffer :: p) b

namespace Pads

variable {p b : List IoBuffer}

theorem refl (p : List IoBuffer) : Pads p p := by
  induction p with
  | nil => exact .nil
  | cons buffer p ih => exact .keep buffer ih

theorem append (h : Pads p b) {p' b' : List IoBuffer} (h' : Pads p' b') :
    Pads (p ++ p') (b ++ b') := by
  induction h with
  | nil => exact h'
  | keep buffer _ ih => exact .keep buffer ih
  | pad buffer hsize _ ih => exact .pad buffer hsize ih

theorem eq_nil (h : Pads [] b) : b = [] := by
  cases h
  rfl

theorem ne_nil (h : Pads p b) (hb : b ≠ []) : p ≠ [] := by
  intro hp
  subst hp
  exact hb h.eq_nil

/-- The full buffers in front stand in front of both. -/
theorem split_front (h : Pads p b) :
    ∃ behind, b = front p ++ behind ∧ Pads (p.drop (front p).length) behind := by
  induction h with
  | nil => exact ⟨[], rfl, .nil⟩
  | @keep p b buffer h ih =>
    by_cases hsize : buffer.getSize = 0
    · have hfront : front (buffer :: p) = [] := List.takeWhile_cons_of_neg (by simp [hsize])
      exact ⟨buffer :: b, by rw [hfront]; rfl, by rw [hfront]; exact .keep buffer h⟩
    · obtain ⟨behind, hb, hbehind⟩ := ih
      have hfront : front (buffer :: p) = buffer :: front p :=
        List.takeWhile_cons_of_pos (by simpa using hsize)
      refine ⟨behind, ?_, ?_⟩
      · rw [hfront, hb]
        rfl
      · rw [hfront, List.length_cons, List.drop_succ_cons]
        exact hbehind
  | @pad p b buffer hsize h ih =>
    have hfront : front (buffer :: p) = [] := List.takeWhile_cons_of_neg (by simp [hsize])
    exact ⟨b, by rw [hfront]; rfl, by rw [hfront]; exact .pad buffer hsize h⟩

/-- Without an empty buffer in the first, they are the same. -/
theorem eq_of_front (h : Pads p b) (hfront : front p = p) : b = p := by
  obtain ⟨behind, hb, hbehind⟩ := h.split_front
  rw [hfront, List.drop_length] at hbehind
  rw [hb, hfront, hbehind.eq_nil, List.append_nil]

end Pads

theorem full_front (queue : List IoBuffer) : ∀ b ∈ front queue, b.getSize ≠ 0 := by
  intro b hb
  simpa using List.mem_takeWhile_imp hb

theorem front_append_drop (queue : List IoBuffer) :
    front queue ++ queue.drop (front queue).length = queue :=
  List.prefix_iff_eq_append.mp (List.takeWhile_prefix _)

/-- What stands behind the full buffers in front starts with an empty one. -/
theorem behind_front {queue : List IoBuffer} (h : front queue ≠ queue) :
    ∃ buffer behind, queue = front queue ++ buffer :: behind ∧ buffer.getSize = 0 := by
  induction queue with
  | nil => exact absurd rfl h
  | cons b queue ih =>
    by_cases hsize : b.getSize = 0
    · refine ⟨b, queue, ?_, hsize⟩
      rw [front, List.takeWhile_cons_of_neg (by simp [hsize])]
      rfl
    · have hfront : front (b :: queue) = b :: front queue :=
        List.takeWhile_cons_of_pos (by simpa using hsize)
      rw [hfront] at h ⊢
      obtain ⟨buffer, behind, hqueue, hempty⟩ := ih (fun heq => h (by rw [heq]))
      exact ⟨buffer, behind, by rw [List.cons_append, ← hqueue], hempty⟩

/-! ## The two connections -/

variable {c p b : Line} {results rest : List WriteResult}

/-- The connection with another queue. -/
def queued (c : Line) (queue : List IoBuffer) : Line :=
  { c with socket := { c.socket with writeBuffer := queue } }

/-- The connection behind a writability event whose loop ends like this. -/
def ends (c : Line) : List IoBuffer × List UInt8 × WriteEnd → Line
  | (left, written, .drained) =>
      ⟨{ c.socket with writeBuffer := left },
        (match c.socket.fd with
          | some fd => c.poll.delEvent fd .epWrite c.socket.id
          | none => c.poll),
        c.wire ++ written, c.closed⟩
  | (left, written, .blocked) =>
      ⟨{ c.socket with writeBuffer := left }, c.poll, c.wire ++ written, c.closed⟩
  | (left, written, .close) =>
      forceClose ⟨{ c.socket with writeBuffer := left }, c.poll, c.wire ++ written, c.closed⟩

theorem handle_writable (hs : c.socket.status = .connected) (results : List WriteResult) :
    c.handle (.writable results) = c.ends (writeLoop results c.socket.writeBuffer) := by
  rw [handle, handleWrite, if_neg (not_not.mpr hs)]
  rcases writeLoop results c.socket.writeBuffer with ⟨left, written, _ | _ | _⟩ <;> rfl

theorem handle_not_connected (hs : c.socket.status ≠ .connected) (e : Event) : c.handle e = c := by
  cases e with
  | send buffer results =>
    rw [handle, sendSocket, if_pos hs, reply, List.append_nil]
    rfl
  | writable results =>
    rw [handle, handleWrite, if_pos hs, reply, List.append_nil]
    rfl

theorem ends_queued (queue : List IoBuffer) (r : List IoBuffer × List UInt8 × WriteEnd) :
    (c.queued queue).ends r = c.ends r := by
  rcases r with ⟨left, written, _ | _ | _⟩ <;> rfl

theorem handle_queued (hs : c.socket.status = .connected) (hq : c.socket.writeBuffer ≠ [])
    (buffer : IoBuffer) (results : List WriteResult) :
    c.handle (.send buffer results) = c.queued (c.socket.writeBuffer ++ [buffer]) := by
  rw [handle, sendSocket_queued hs hq, reply, List.append_nil]
  rfl

/-- A direct write leaves at most its own buffer in the queue. -/
theorem handle_direct (hs : c.socket.status = .connected) (hopen : c.closed = false)
    (hq : c.socket.writeBuffer = []) {buffer : IoBuffer} (hwf : buffer.WF)
    (results : List WriteResult) :
    (∀ b ∈ (c.handle (.send buffer results)).socket.writeBuffer, b.WF) ∧
    ((c.handle (.send buffer results)).socket.status = .connected →
      (c.handle (.send buffer results)).closed = false) := by
  have hleft : (sendLoop results buffer).1.WF := wf_sendLoop hwf
  rw [handle, sendSocket, if_neg (not_not.mpr hs), if_neg (not_not.mpr hq)]
  rcases hloop : sendLoop results buffer with ⟨left, written, _ | _ | _⟩
  case drained => exact ⟨by simp [reply, hq], fun _ => hopen⟩
  case blocked =>
    rw [hloop] at hleft
    refine ⟨?_, fun _ => hopen⟩
    intro b hb
    have hb' : b ∈ [left] := by simpa [reply, hq] using hb
    rw [List.mem_singleton.mp hb']
    exact hleft
  case close => exact ⟨by simp [reply, forceClose, hs], by simp [reply, forceClose, hs]⟩

/-- A direct write of an empty payload does nothing. -/
theorem handle_direct_empty (hs : c.socket.status = .connected) (hq : c.socket.writeBuffer = [])
    {buffer : IoBuffer} (hsize : buffer.getSize = 0) (results : List WriteResult) :
    c.handle (.send buffer results) = c := by
  rw [handle, sendSocket_drained hs hq (sendLoop_empty hsize results), reply, List.append_nil]
  rfl

/-- Closing drops the queue. -/
theorem ends_close (hs : c.socket.status = .connected) (left left' : List IoBuffer)
    (written : List UInt8) : c.ends (left, written, .close) = c.ends (left', written, .close) := by
  simp [ends, forceClose, hs]

/-- The connection with the empty payloads is the other one with empty payloads in its
queue. -/
structure Linked (p b : Line) : Prop where
  eq : p = b.queued p.socket.writeBuffer
  pads : Pads p.socket.writeBuffer b.socket.writeBuffer
  nil : b.socket.writeBuffer = [] → p.socket.writeBuffer = []
  wf : ∀ buffer ∈ b.socket.writeBuffer, buffer.WF
  opened : b.socket.status = .connected → b.closed = false

namespace Linked

theorem same (h : Linked p b) : Same p b := by
  rw [h.eq]
  exact ⟨rfl, rfl⟩

theorem status_eq (h : Linked p b) : p.socket.status = b.socket.status := by
  rw [h.eq]
  rfl

/-- A connection is linked to itself. -/
theorem refl (hwf : ∀ buffer ∈ b.socket.writeBuffer, buffer.WF)
    (hopen : b.socket.status = .connected → b.closed = false) : Linked b b where
  eq := rfl
  pads := .refl _
  nil := id
  wf := hwf
  opened := hopen

/-- What is done to both connections alike, but for the queues. -/
theorem queues {q q' : List IoBuffer} (hpads : Pads q q') (hnil : q' = [] → q = [])
    (hwf : ∀ buffer ∈ q', buffer.WF) (hopen : c.socket.status = .connected → c.closed = false) :
    Linked (c.queued q) (c.queued q') where
  eq := rfl
  pads := hpads
  nil := hnil
  wf := hwf
  opened := hopen

/-- Behind a writability event that ends alike for both. -/
theorem ends {left left' : List IoBuffer} {written : List UInt8} {ending : WriteEnd}
    (h : Linked p b) (hs : b.socket.status = .connected) (hpads : Pads left left')
    (hnil : left' = [] → left = []) (hwf : ∀ buffer ∈ left', buffer.WF) :
    Linked (p.ends (left, written, ending)) (b.ends (left', written, ending)) := by
  rw [h.eq, ends_queued]
  cases ending with
  | drained => exact queues (c := b.ends (left', written, .drained)) hpads hnil hwf h.opened
  | blocked => exact queues (c := b.ends (left', written, .blocked)) hpads hnil hwf h.opened
  | close =>
    rw [ends_close hs left left']
    refine refl ?_ ?_
    · simp [Line.ends, forceClose, hs]
    · simp [Line.ends, forceClose, hs]

/-- A Send command handled by both. -/
theorem send (h : Linked p b) {buffer : IoBuffer} (hwf : buffer.WF)
    (results : List WriteResult) :
    Linked (p.handle (.send buffer results)) (b.handle (.send buffer results)) := by
  by_cases hs : b.socket.status = .connected
  · have hsp : p.socket.status = .connected := h.status_eq.trans hs
    by_cases hq : b.socket.writeBuffer = []
    · -- nothing is queued on either side
      have hpb : p = b := by
        rw [h.eq, h.nil hq, ← hq]
        rfl
      rw [hpb]
      obtain ⟨hwf', hopen⟩ := handle_direct hs (h.opened hs) hq hwf results
      exact refl hwf' hopen
    · rw [handle_queued hs hq, handle_queued hsp (h.pads.ne_nil hq)]
      have hpads : Pads (p.socket.writeBuffer ++ [buffer]) (b.socket.writeBuffer ++ [buffer]) :=
        h.pads.append (.refl _)
      rw [h.eq] at hpads ⊢
      refine queues hpads (fun hnil => absurd hnil (by simp)) ?_ h.opened
      intro x hx
      rcases List.mem_append.mp hx with hold | hnew
      · exact h.wf x hold
      · rw [List.mem_singleton.mp hnew]
        exact hwf
  · rw [handle_not_connected hs, handle_not_connected (h.status_eq ▸ hs)]
    exact h

/-- An empty payload handled by one. -/
theorem empty (h : Linked p b) {buffer : IoBuffer} (hsize : buffer.getSize = 0)
    (results : List WriteResult) : Linked (p.handle (.send buffer results)) b := by
  by_cases hs : p.socket.status = .connected
  · by_cases hq : p.socket.writeBuffer = []
    · rw [handle_direct_empty hs hq hsize]
      exact h
    · rw [handle_queued hs hq]
      have hpads : Pads (p.socket.writeBuffer ++ [buffer]) b.socket.writeBuffer := by
        rw [← List.append_nil b.socket.writeBuffer]
        exact h.pads.append (.pad buffer hsize .nil)
      rw [h.eq] at hpads ⊢
      refine queues hpads (fun hnil => ?_) h.wf h.opened
      exact absurd (h.nil hnil) hq
  · rw [handle_not_connected hs]
    exact h

/-- `write()` does not come to the end of the full buffers. -/
theorem writable_none (h : Linked p b) (hs : b.socket.status = .connected)
    (hnone : afterWriting results (front p.socket.writeBuffer) = none) :
    Linked (p.handle (.writable results)) (b.handle (.writable results)) := by
  obtain ⟨behind, hb, hbehind⟩ := h.pads.split_front
  obtain ⟨left, written, ending, hleft, -, hloop⟩ := writeLoop_of_none (full_front _) hnone
  have hp : writeLoop results p.socket.writeBuffer =
      (left ++ p.socket.writeBuffer.drop (front p.socket.writeBuffer).length, written, ending) := by
    rw [← hloop, front_append_drop]
  have hb' : writeLoop results b.socket.writeBuffer = (left ++ behind, written, ending) := by
    rw [← hloop, ← hb]
  have hwf := wf_writeLoop h.wf results
  rw [hb'] at hwf
  rw [handle_writable hs, handle_writable (h.status_eq.trans hs), hp, hb']
  refine h.ends hs ((Pads.refl left).append hbehind) (fun hnil => ?_) hwf
  exact absurd (List.append_eq_nil_iff.mp hnil).1 hleft

/-- No empty payload is queued. -/
theorem writable_full (h : Linked p b) (hs : b.socket.status = .connected)
    (hfull : front p.socket.writeBuffer = p.socket.writeBuffer) (results : List WriteResult) :
    Linked (p.handle (.writable results)) (b.handle (.writable results)) := by
  have hwf := wf_writeLoop h.wf results
  rw [handle_writable hs, handle_writable (h.status_eq.trans hs), ← h.pads.eq_of_front hfull]
  exact h.ends hs (.refl _) id hwf

/-- Where one is closed, the other has to be closed without a byte more. -/
theorem same_ends (h : Linked p b) (hs : b.socket.status = .connected)
    {left left' : List IoBuffer} {written more : List UInt8} {ending : WriteEnd} :
    Same (p.ends (left, written, .close)) (b.ends (left', written ++ more, ending)) ↔
      (more, ending) = ([], .close) := by
  have hopen := h.opened hs
  rw [h.eq, ends_queued]
  cases ending with
  | drained => simp [Same, Line.ends, forceClose, hs, hopen]
  | blocked => simp [Same, Line.ends, forceClose, hs, hopen]
  | close => simp [Same, Line.ends, forceClose, hs]

/-- `write()` comes to an empty payload, and the connection with it is closed. -/
theorem writable_some (h : Linked p b) (hs : b.socket.status = .connected)
    (hfull : front p.socket.writeBuffer ≠ p.socket.writeBuffer)
    (hsome : afterWriting results (front p.socket.writeBuffer) = some rest) :
    (Same (p.handle (.writable results)) (b.handle (.writable results)) ↔
      Fails rest (b.socket.writeBuffer.drop (front p.socket.writeBuffer).length)) ∧
    (Fails rest (b.socket.writeBuffer.drop (front p.socket.writeBuffer).length) →
      Linked (p.handle (.writable results)) (b.handle (.writable results))) := by
  obtain ⟨behind, hb, -⟩ := h.pads.split_front
  obtain ⟨buffer, behind', hp, hsize⟩ := behind_front hfull
  obtain ⟨written, hloop⟩ := writeLoop_of_some (full_front _) hsome
  have hdrop : b.socket.writeBuffer.drop (front p.socket.writeBuffer).length = behind := by
    conv_lhs => rw [hb]
    exact List.drop_left
  have hwf : ∀ x ∈ behind, x.WF := by
    intro x hx
    refine h.wf x ?_
    rw [hb]
    exact List.mem_append_right _ hx
  have hp' : writeLoop results p.socket.writeBuffer = (buffer :: behind', written, .close) := by
    rw [hp, hloop, writeLoop_empty hsize, List.append_nil]
  have hb' : writeLoop results b.socket.writeBuffer =
      ((writeLoop rest behind).1, written ++ (writeLoop rest behind).2.1,
        (writeLoop rest behind).2.2) := by
    conv_lhs => rw [hb]
    exact hloop behind
  rw [hdrop, fails_iff hwf, handle_writable hs, handle_writable (h.status_eq.trans hs), hp', hb']
  refine ⟨h.same_ends hs, fun hends => ?_⟩
  rw [hends]
  have hlinked : Linked (p.ends ([], written, .close)) (b.ends ([], written, .close)) :=
    h.ends hs .nil id (by simp)
  rw [List.append_nil, ends_close (h.status_eq.trans hs) _ [], ends_close hs _ []]
  exact hlinked

/-- A writability event ends alike for both, or does not spare the empty payloads. -/
theorem writable (h : Linked p b) (results : List WriteResult) :
    (Same (p.handle (.writable results)) (b.handle (.writable results)) ↔ Spares p b results) ∧
    (Spares p b results →
      Linked (p.handle (.writable results)) (b.handle (.writable results))) := by
  by_cases hs : b.socket.status = .connected
  · have hsp : p.socket.status = .connected := h.status_eq.trans hs
    by_cases hfull : front p.socket.writeBuffer = p.socket.writeBuffer
    · have hlinked := h.writable_full hs hfull results
      exact ⟨iff_of_true hlinked.same (fun _ _ _ => Or.inl hfull), fun _ => hlinked⟩
    · cases hafter : afterWriting results (front p.socket.writeBuffer) with
      | none =>
        have hlinked := h.writable_none hs hafter
        exact ⟨iff_of_true hlinked.same (fun _ _ hsome => by simp [hafter] at hsome),
          fun _ => hlinked⟩
      | some rest =>
        obtain ⟨hsame, hlinked⟩ := h.writable_some hs hfull hafter
        have hspares : Spares p b results ↔
            Fails rest (b.socket.writeBuffer.drop (front p.socket.writeBuffer).length) := by
          constructor
          · intro hspares
            exact (hspares hsp rest hafter).resolve_left hfull
          · intro hfails _ rest' hrest'
            rw [hafter] at hrest'
            cases hrest'
            exact Or.inr hfails
        exact ⟨hsame.trans hspares.symm, fun hsp' => hlinked (hspares.mp hsp')⟩
  · have hsp : p.socket.status ≠ .connected := h.status_eq ▸ hs
    rw [handle_not_connected hs, handle_not_connected hsp]
    exact ⟨iff_of_true h.same (fun hconn => absurd hconn hsp), fun _ => h⟩

/-- An item is handled alike on both sides, or does not spare the empty payloads. -/
theorem item {c : Line} {done : List Item} (h : Linked (padded c done) (plain c done))
    {item : Item} (hwf : item.WF) :
    (Same (padded c (done ++ [item])) (plain c (done ++ [item])) ↔
      item.Spared (padded c done) (plain c done)) ∧
    (item.Spared (padded c done) (plain c done) →
      Linked (padded c (done ++ [item])) (plain c (done ++ [item]))) := by
  have hpadded : padded c (done ++ [item]) = (padded c done).handle item.padded := by
    simp [padded]
  rw [hpadded]
  cases item with
  | both e =>
    have hplain : plain c (done ++ [.both e]) = (plain c done).handle e := by
      simp [plain, Item.plain]
    rw [hplain]
    cases e with
    | send buffer results =>
      have hlinked := h.send hwf results
      exact ⟨iff_of_true hlinked.same trivial, fun _ => hlinked⟩
    | writable results => exact h.writable results
  | empty buffer hsize results =>
    have hplain : plain c (done ++ [.empty buffer hsize results]) = plain c done := by
      rw [plain, List.filterMap_append, List.filterMap_cons_none rfl, List.filterMap_nil,
        List.append_nil]
      rfl
    rw [hplain]
    have hlinked := h.empty hsize results
    exact ⟨iff_of_true hlinked.same trivial, fun _ => hlinked⟩

end Linked

/-! ## Whole runs -/

section Runs

variable {items : List Item}

theorem linked_start {s : Socket} (poll : SocketPoller)
    (hwf : ∀ buffer ∈ s.writeBuffer, buffer.WF) : Linked (start s poll) (start s poll) :=
  .refl hwf (fun _ => rfl)

/-- Along a run that is alike, or spares the empty payloads, the connections stay linked. -/
theorem linked_take {s : Socket} {poll : SocketPoller}
    (hwf : ∀ buffer ∈ s.writeBuffer, buffer.WF) (hitems : ∀ item ∈ items, item.WF)
    (hrun : ∀ n, ∀ hn : n < items.length,
      Same (padded (start s poll) (items.take (n + 1)))
        (plain (start s poll) (items.take (n + 1))) ∨
      items[n].Spared (padded (start s poll) (items.take n))
        (plain (start s poll) (items.take n))) (n : Nat) :
    Linked (padded (start s poll) (items.take n)) (plain (start s poll) (items.take n)) := by
  induction n with
  | zero => exact linked_start poll hwf
  | succ n ih =>
    by_cases hn : n < items.length
    · obtain ⟨hsame, hlinked⟩ := ih.item (hitems items[n] (List.getElem_mem hn))
      have htake : items.take (n + 1) = items.take n ++ [items[n]] :=
        (List.take_append_getElem hn).symm
      have hspared := hrun n hn
      rw [htake] at hspared ⊢
      exact hlinked (hspared.elim hsame.mp id)
    · rw [List.take_of_length_le (by omega)]
      rwa [List.take_of_length_le (by omega)] at ih

end Runs

/-- **When empty payloads do nothing.**  Put Send commands with an empty payload anywhere
between the events of a connection in any state.  The bytes written and the moment of closing
are the same with and without them exactly if no writability event gets as far as one of
them, unless the next `write()` of the connection without it fails there. -/
theorem empty_payloads_iff (s : Socket) (poll : SocketPoller) (items : List Item)
    (hwf : ∀ buffer ∈ s.writeBuffer, buffer.WF) (hitems : ∀ item ∈ items, item.WF) :
    (∀ n, Same (padded (start s poll) (items.take n)) (plain (start s poll) (items.take n))) ↔
      ∀ n, ∀ hn : n < items.length, items[n].Spared (padded (start s poll) (items.take n))
        (plain (start s poll) (items.take n)) := by
  constructor
  · intro hsame n hn
    have hlinked := linked_take hwf hitems (fun m _ => Or.inl (hsame (m + 1))) n
    obtain ⟨hiff, -⟩ := hlinked.item (hitems items[n] (List.getElem_mem hn))
    rw [List.take_append_getElem hn] at hiff
    exact hiff.mp (hsame (n + 1))
  · intro hspared n
    exact (linked_take hwf hitems (fun m hm => Or.inr (hspared m hm)) n).same

/-- A connection with the fd 5. -/
def five : Socket := { fd := some 5, status := .connected }

/-- A payload of three bytes of which one is written at once, an empty one, and a writability
event with room for `n + 1` more. -/
def backlog (n : Nat) : List Item :=
  [.both (.send (.ofBytes [1, 2, 3]) [.room 0]), .empty (.ofBytes []) rfl [],
    .both (.writable [.room n])]

theorem wf_backlog (n : Nat) : ∀ item ∈ backlog n, item.WF := by
  intro item hitem
  simp only [backlog, List.mem_cons, List.not_mem_nil, or_false] at hitem
  rcases hitem with hitem | hitem | hitem
  · rw [hitem]
    exact IoBuffer.wf_ofBytes _
  · rw [hitem]
    trivial
  · rw [hitem]
    trivial

/-- Room for one more byte. -/
theorem empty_payloads_iff_of_three :
    (plain (start five .new) (backlog 0)).wire = [1, 2] ∧
    ∀ n, Same (padded (start five .new) ((backlog 0).take n))
      (plain (start five .new) ((backlog 0).take n)) := by
  refine ⟨by decide, (empty_payloads_iff five .new (backlog 0) ?_ (wf_backlog 0)).mpr (by decide)⟩
  intro buffer hbuffer
  cases hbuffer

/-- With room for both the connection is closed at the empty payload. -/
theorem closed_by_empty_payload :
    (∀ item ∈ backlog 1, item.WF) ∧
    (plain (start five .new) (backlog 1)).wire = [1, 2, 3] ∧
    (plain (start five .new) (backlog 1)).closed = false ∧
    (padded (start five .new) (backlog 1)).closed = true ∧
    ¬ ∀ n, Same (padded (start five .new) ((backlog 1).take n))
      (plain (start five .new) ((backlog 1).take n)) := by
  refine ⟨wf_backlog 1, by decide, by decide, by decide, fun hsame => ?_⟩
  have hclosed := (hsame 3).2
  revert hclosed
  decide

end Line

end StormNet.Net
