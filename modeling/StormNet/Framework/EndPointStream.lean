/-
  Framework/EndPointStream.lean --- the bytes a `ProxyEndPoint` of
  `framework/storm_service_proxy.cpp` hands to its loop.

  `send`, `onConnect` and `onClose` hold `m_mutex` for as long as they touch the state, so
  each is one step, and a run is an order in which the calls take the lock.  The loop is
  left open: `connect` returns any id or -1, and the loop reports a connection of the id
  returned last until it has reported its close.  The composition with the real loop is in
  Framework/ProxyEndPoint.lean.

  `messages` and `passed` are records; no function reads them.
-/
import StormNet.Foundation.Transition
import StormNet.Net.IoBuffer

set_option autoImplicit false

namespace StormNet.Framework

open StormNet.Foundation StormNet.Net

/-- A `ProxyEndPoint` with what its loop has told it. -/
structure EndPointStream where
  /-- `m_connId`; -1 is `none` -/
  connId : Option Nat
  /-- `m_connected` -/
  connected : Bool
  /-- `m_buffer` -/
  buffer : IoBuffer
  /-- what `m_loop->connect` returned last -/
  last : Option Nat
  /-- the loop has reported the close of that connection -/
  closed : Bool
  /-- a `send` is in the loop of `reserve`, holds the mutex and never returns -/
  hung : Bool
  /-- what `send` was given since the last `onClose` -/
  messages : List (List UInt8)
  /-- the id and the bytes of the calls of `m_loop->send` since the last `onClose` -/
  passed : List (Option Nat × List UInt8)

namespace EndPointStream

/-! ## The operations of the source -/

def new : EndPointStream where
  connId := none
  connected := false
  buffer := .new 4096
  last := none
  closed := false
  hung := false
  messages := []
  passed := []

/-- `m_loop->send(m_connId, data, len)`. -/
def loopSend (s : EndPointStream) (data : List UInt8) : EndPointStream :=
  { s with passed := s.passed ++ [(s.connId, data)] }

/-- `m_connId = m_loop->connect(this, m_ip, m_port)`. -/
def connect (s : EndPointStream) (id : Option Nat) : EndPointStream :=
  { s with connId := id, last := id, closed := false }

/-- `m_buffer->push_back(data, len)`. -/
def pushBack (s : EndPointStream) (data : List UInt8) : EndPointStream :=
  match s.buffer.pushBack data with
  | some buffer => { s with buffer := buffer }
  | none => { s with hung := true }

/-- `send`, with the length of the data cut to its 32-bit word; `id` is what `connect` gives
if it is called. -/
def send (s : EndPointStream) (data : List UInt8) (id : Option Nat) : EndPointStream :=
  let s := { s with messages := s.messages ++ [data] }
  if s.connected then s.loopSend (data.take (u32 data.length))
  else if s.connId ≠ none then s.pushBack data
  else if (s.pushBack data).hung then s.pushBack data
  else (s.pushBack data).connect id

/-- `onConnect`. -/
def onConnect (s : EndPointStream) : EndPointStream :=
  if s.buffer.getSize ≠ 0 then
    { (s.loopSend s.buffer.contents) with connected := true, buffer := s.buffer.reset }
  else { s with connected := true }

/-- `onClose`. -/
def onClose (s : EndPointStream) : EndPointStream :=
  if s.connId ≠ s.last then s
  else { s with connId := none, connected := false, buffer := s.buffer.reset }

inductive Action where
  | send (data : List UInt8) (id : Option Nat)
  | onConnect
  | onClose

/-- One call that takes the lock.  The loop reports only the id that `connect` returned
last, and no connection behind its close. -/
def step (s : EndPointStream) : Action → Option EndPointStream
  | .send data id => if s.hung then none else some (s.send data id)
  | .onConnect =>
      if s.hung ∨ s.last = none ∨ s.closed then none else some s.onConnect
  | .onClose =>
      if s.hung ∨ s.last = none then none
      else some { s.onClose with closed := true, messages := [], passed := [] }

/-! ## The stream -/

/-- A connection that is up has been given the messages since the last close, all of them
and in order; one that is not up has been given nothing. -/
structure Exact (s : EndPointStream) : Prop where
  stream : s.connected = true → (s.passed.map (·.2)).flatten = s.messages.flatten
  idle : s.connected = false → s.passed = []
  own : ∀ x ∈ s.passed, x.1 = s.last

/-- The length of the message fits its word, and a message that waits for a connection fits the
buffer: it is empty, or the capacity has not wrapped to zero and no more than `2 ^ 31` bytes wait
then, or some bytes wait already and fewer than `2 ^ 32` do then.  Otherwise `reserve` never ends,
or the tail wraps to the head. -/
def Fits (s : EndPointStream) : Action → Prop
  | .send data _ => data.length < 2 ^ 32 ∧ (s.connected = false → data.length = 0 ∨
      (s.buffer.capacity ≠ 0 ∧ s.buffer.getSize + data.length ≤ 2 ^ 31) ∨
      (0 < s.buffer.getSize ∧ s.buffer.getSize + data.length < 2 ^ 32))
  | _ => True

instance (s : EndPointStream) : (a : Action) → Decidable (Fits s a)
  | .send data _ => inferInstanceAs (Decidable (data.length < 2 ^ 32 ∧ (s.connected = false →
      data.length = 0 ∨ (s.buffer.capacity ≠ 0 ∧ s.buffer.getSize + data.length ≤ 2 ^ 31) ∨
      (0 < s.buffer.getSize ∧ s.buffer.getSize + data.length < 2 ^ 32))))
  | .onConnect => instDecidableTrue
  | .onClose => instDecidableTrue

/-- What holds also in the middle of a `send`. -/
structure Core (s : EndPointStream) : Prop where
  exact : s.Exact
  /-- every call has returned -/
  running : s.hung = false
  block : ∃ k, s.buffer.Block k
  /-- the bytes that wait for a connection -/
  waiting : s.connected = false → s.buffer.contents = s.messages.flatten
  flushed : s.connected = true → s.buffer.contents = []
  up : s.connected = true → s.closed = false
  id : s.connId = if s.closed then none else s.last

/-- What every guarded run keeps: behind a close nothing waits until `connect` is called. -/
structure Inv (s : EndPointStream) : Prop extends s.Core where
  ended : s.closed = true → s.messages = []

variable {s t : EndPointStream} {a : Action}

theorem inv_new : new.Inv where
  exact := ⟨fun h => (nomatch h), fun _ => rfl, fun _ h => (nomatch h)⟩
  running := rfl
  block := ⟨12, IoBuffer.block_new (k := 12) (by decide)⟩
  waiting := fun _ => IoBuffer.contents_new 4096
  flushed := fun h => (nomatch h)
  up := fun h => (nomatch h)
  id := rfl
  ended := fun h => (nomatch h)

theorem Core.connId (h : s.Core) (hopen : s.closed = false) : s.connId = s.last := by
  rw [h.id, hopen]
  rfl

theorem absurd_up {p : Prop} (hdown : s.connected = false) (hup : s.connected = true) : p := by
  rw [hdown] at hup
  cases hup

/-! ## Sending -/

/-- A message on a connection that is up goes to the loop. -/
theorem Core.send_connected (h : s.Core) {data : List UInt8} {id : Option Nat}
    (hup : s.connected = true) (hlen : data.length < 2 ^ 32) : (s.send data id).Core := by
  have hsend : s.send data id =
      { s with messages := s.messages ++ [data], passed := s.passed ++ [(s.connId, data)] } := by
    simp only [send, hup, if_true, loopSend, u32_of_lt hlen, List.take_length]
  rw [hsend]
  refine ⟨⟨?_, fun hdown => absurd_up hdown hup, ?_⟩, h.running, h.block,
    fun hdown => absurd_up hdown hup, h.flushed, h.up, h.id⟩
  · intro _
    simp [h.exact.stream hup]
  · intro x hx
    rcases List.mem_append.mp hx with hold | hnew
    · exact h.exact.own x hold
    · rw [List.mem_singleton.mp hnew]
      exact h.connId (h.up hup)

/-- A message without a connection is appended to the buffer. -/
theorem Core.pushBack (h : s.Core) {data : List UInt8} (hdown : s.connected = false)
    (hfits : s.Fits (.send data none)) :
    Core (EndPointStream.pushBack { s with messages := s.messages ++ [data] } data) := by
  obtain ⟨hlen, hroom⟩ := hfits
  obtain ⟨k, hblock⟩ := h.block
  have hsize := hblock.getSize_eq
  have hroom := hroom hdown
  rw [hsize] at hroom
  have hends : (s.buffer.pushBack data).isSome := by
    refine hblock.pushBack_isSome hlen (hroom.imp_right fun hsome => ?_)
    exact hsome.imp (fun hsmall => ⟨hblock.lt_of_capacity hsmall.1, hsmall.2⟩)
      (fun hlarge => ⟨hlarge.1, Nat.le_of_lt hlarge.2⟩)
  obtain ⟨buffer, hpush⟩ := Option.isSome_iff_exists.mp hends
  obtain ⟨hblock', hcontents⟩ := hblock.pushBack hlen hpush
  have htail : s.buffer.tail + data.length ≠ 2 ^ 32 := by
    have hlt := hblock.tail_lt
    omega
  unfold EndPointStream.pushBack
  rw [hpush]
  refine ⟨⟨fun hup => absurd_up hdown hup, h.exact.idle, h.exact.own⟩, h.running, hblock', ?_,
    fun hup => absurd_up hdown hup, fun hup => absurd_up hdown hup, h.id⟩
  intro _
  show buffer.contents = (s.messages ++ [data]).flatten
  rw [hcontents, if_neg htail, h.waiting hdown]
  simp

/-- Without a connection `connId` is free for the one that `connect` opens. -/
theorem Core.connect (h : t.Core) (id : Option Nat) (hdown : t.connected = false) :
    (t.connect id).Core := by
  have hpassed : t.passed = [] := h.exact.idle hdown
  refine ⟨⟨h.exact.stream, h.exact.idle, ?_⟩, h.running, h.block, h.waiting, h.flushed,
    fun _ => rfl, rfl⟩
  show ∀ x ∈ t.passed, x.1 = id
  rw [hpassed]
  exact fun _ hx => (nomatch hx)

@[simp] theorem pushBack_connected (s : EndPointStream) (data : List UInt8) :
    (s.pushBack data).connected = s.connected := by
  unfold pushBack
  split <;> rfl

@[simp] theorem pushBack_closed (s : EndPointStream) (data : List UInt8) :
    (s.pushBack data).closed = s.closed := by
  unfold pushBack
  split <;> rfl

theorem Inv.send (h : s.Inv) {data : List UInt8} {id : Option Nat}
    (hfits : s.Fits (.send data id)) : (s.send data id).Inv := by
  cases hup : s.connected with
  | true =>
    refine ⟨h.send_connected hup hfits.1, ?_⟩
    intro hclosed
    simp only [EndPointStream.send, hup, if_true, loopSend, h.up hup] at hclosed
    cases hclosed
  | false =>
    have hpush := h.pushBack hup hfits
    have hnotUp : ¬ s.connected = true := by simp [hup]
    unfold EndPointStream.send
    rw [if_neg hnotUp]
    split
    · -- connecting: the connection is not closed
      rename_i hid
      refine ⟨hpush, ?_⟩
      intro hclosed
      rw [pushBack_closed] at hclosed
      exact absurd (by rw [h.id, hclosed]; rfl) hid
    · rw [if_neg (Bool.eq_false_iff.mp hpush.running)]
      refine ⟨hpush.connect id ?_, fun hclosed => (nomatch hclosed)⟩
      rw [pushBack_connected]
      exact hup

/-- What waited goes to the loop when the connection is up; a second report finds nothing. -/
theorem Core.onConnect (h : s.Core) (hopen : s.closed = false) : s.onConnect.Core := by
  obtain ⟨k, hblock⟩ := h.block
  have hconn := h.connId hopen
  have hsize : s.buffer.getSize = s.buffer.contents.length := by
    rw [hblock.getSize_eq, hblock.length_contents]
  have hstream : (s.passed.map (·.2)).flatten ++ s.buffer.contents = s.messages.flatten := by
    cases hup : s.connected with
    | true => rw [h.exact.stream hup, h.flushed hup, List.append_nil]
    | false => rw [h.exact.idle hup, h.waiting hup]; rfl
  unfold EndPointStream.onConnect
  split
  · refine ⟨⟨fun _ => ?_, fun hfalse => (nomatch hfalse), ?_⟩, h.running, ⟨k, hblock.reset⟩,
      fun hfalse => (nomatch hfalse), fun _ => IoBuffer.contents_reset _, fun _ => hopen, h.id⟩
    · show ((s.passed ++ [(s.connId, s.buffer.contents)]).map (·.2)).flatten = s.messages.flatten
      simpa using hstream
    · intro x hx
      rcases List.mem_append.mp hx with hold | hnew
      · exact h.exact.own x hold
      · rw [List.mem_singleton.mp hnew]
        exact hconn
  · rename_i hempty
    have hnone : s.buffer.contents = [] := by
      rw [← List.length_eq_zero_iff, ← hsize]
      exact Decidable.not_not.mp hempty
    refine ⟨⟨fun _ => ?_, fun hfalse => (nomatch hfalse), h.exact.own⟩, h.running, h.block,
      fun hfalse => (nomatch hfalse), fun _ => hnone, fun _ => hopen, h.id⟩
    rw [hnone, List.append_nil] at hstream
    exact hstream

@[simp] theorem onConnect_closed (s : EndPointStream) : s.onConnect.closed = s.closed := by
  unfold onConnect
  split <;> rfl

/-- A close throws away what waited and ends the connection; a second report finds it
ended, and nothing that waits. -/
theorem Inv.onClose (h : s.Inv) :
    Inv { s.onClose with closed := true, messages := [], passed := [] } := by
  obtain ⟨k, hblock⟩ := h.block
  unfold EndPointStream.onClose
  split
  · rename_i hended
    have hclosed : s.closed = true := by
      by_contra hopen
      exact hended (h.connId (eq_false_of_ne_true hopen))
    have hdown : s.connected = false := by
      by_contra hup
      rw [h.up (eq_true_of_ne_false hup)] at hclosed
      cases hclosed
    have hid : s.connId = none := by rw [h.id, hclosed]; rfl
    have hempty : s.buffer.contents = [] := by
      rw [h.waiting hdown, h.ended hclosed]
      rfl
    exact ⟨⟨⟨fun hup => absurd_up hdown hup, fun _ => rfl, fun _ hx => (nomatch hx)⟩, h.running,
      ⟨k, hblock⟩, fun _ => hempty, fun hup => absurd_up hdown hup,
      fun hup => absurd_up hdown hup, hid⟩, fun _ => rfl⟩
  · exact ⟨⟨⟨fun hfalse => (nomatch hfalse), fun _ => rfl, fun _ hx => (nomatch hx)⟩, h.running,
      ⟨k, hblock.reset⟩, fun _ => IoBuffer.contents_reset _, fun hfalse => (nomatch hfalse),
      fun hfalse => (nomatch hfalse), rfl⟩, fun _ => rfl⟩

/-! ## Runs -/

theorem Inv.step (h : s.Inv) (hfits : s.Fits a) (hstep : s.step a = some t) : t.Inv := by
  cases a with
  | send data id =>
    obtain ⟨-, hstep⟩ := Option.ite_none_left_eq_some.mp hstep
    cases hstep
    exact h.send hfits
  | onConnect =>
    obtain ⟨henabled, hstep⟩ := Option.ite_none_left_eq_some.mp hstep
    cases hstep
    simp only [not_or, Bool.not_eq_true] at henabled
    obtain ⟨-, -, hopen⟩ := henabled
    refine ⟨h.onConnect hopen, ?_⟩
    intro hclosed
    rw [onConnect_closed, hopen] at hclosed
    cases hclosed
  | onClose =>
    obtain ⟨-, hstep⟩ := Option.ite_none_left_eq_some.mp hstep
    cases hstep
    exact h.onClose

end EndPointStream

end StormNet.Framework
