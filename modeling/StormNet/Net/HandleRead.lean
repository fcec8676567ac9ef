/-
  Net/HandleRead.lean --- `SocketLoop::handleRead` on one connection.

  One readiness event is the list of results its `read()` calls meet.  A result that
  offers more bytes than the call asks for is taken in portions, so any list of
  results is a legal input; the end of the list reads as EAGAIN.

  Two results are proved about connections.  `framing_split_irrelevant`: cutting the
  stream into events and reads changes nothing the handler or the buffer shows.
  `delivered_before_close_iff`: frames read together with an end of file are lost.
-/
import StormNet.Net.SocketHandler
import StormNet.Net.SocketDefine

set_option autoImplicit false

namespace StormNet.Net

open StormNet.Foundation StormNet.Util StormNet.Util.PacketProtocolLen

/-! ## The source -/

/-- What a `read()` call meets. -/
inductive ReadResult where
  /-- bytes are available, at least one -/
  | data (x : UInt8) (xs : List UInt8)
  /-- `EAGAIN` -/
  | again
  /-- `EINTR` -/
  | intr
  /-- end of file: `read` returns 0 -/
  | eof
  /-- any other error -/
  | error
  deriving DecidableEq, Repr

/-- `if (maxSize == 0) buffer->doubleCapacity()`. -/
def IoBuffer.grow (b : IoBuffer) : IoBuffer :=
  if b.getRemainingSize = 0 then b.doubleCapacity else b

/-- The weight of the results still to come: every turn of the loop lowers it. -/
def readWeight : List ReadResult → Nat
  | [] => 0
  | .data _ xs :: rs => xs.length + 2 + readWeight rs
  | _ :: rs => 1 + readWeight rs

/-- The reading loop of `handleRead`: the buffer it leaves, and `needClose`. -/
def readLoop (rs : List ReadResult) (b : IoBuffer) : IoBuffer × Bool :=
  match rs with
  | [] => (b.grow, false)
  | .again :: _ => (b.grow, false)
  | .intr :: rest => readLoop rest b.grow
  | .eof :: _ => (b.grow, true)
  | .error :: _ => (b.grow, true)
  | .data x xs :: rest =>
      let maxSize := b.grow.getRemainingSize
      -- a `read` of size 0 returns 0
      if maxSize = 0 then (b.grow, true)
      else
        let readSize := min maxSize (xs.length + 1)
        let stored := (b.grow.fill ((x :: xs).take readSize)).writeN readSize
        match _hleft : (x :: xs).drop readSize with
        | [] => readLoop rest stored
        | y :: ys => readLoop (.data y ys :: rest) stored
  termination_by readWeight rs
  decreasing_by
  · simp only [readWeight]
    omega
  · simp only [readWeight]
    omega
  · have hlen := congrArg List.length _hleft
    simp only [List.length_drop, List.length_cons] at hlen
    simp only [readWeight]
    omega

/-- What the handler sees of a connection. -/
inductive Output where
  /-- `onPacket` -/
  | packet (bytes : List UInt8)
  /-- `onClose` -/
  | close (closeType : CloseType)
  deriving DecidableEq, Repr

/-- `SocketLoop::handleRead(Socket* s)` on a connected socket with read buffer `b`,
with at most `n` turns of `onData`: the handler's calls, and the read buffer if the
connection is still open. -/
def handleRead (n : Nat) (rs : List ReadResult) (b : IoBuffer) :
    List Output × Option IoBuffer :=
  let (buffer, needClose) := readLoop rs b
  if needClose then ([.close .peer], none)
  else
    let r := onData n buffer
    match r.result with
    | some false => (r.packets.map .packet ++ [.close .self], none)
    | _ => (r.packets.map .packet, some r.buffer)

/-- The readiness events of one connection, in order, until it is closed. -/
def connection (n : Nat) : List (List ReadResult) → IoBuffer → List Output × Option IoBuffer
  | [], b => ([], some b)
  | rs :: events, b =>
      match handleRead n rs b with
      | (out, none) => (out, none)
      | (out, some b') => let (out', left) := connection n events b'; (out ++ out', left)

/-- `SocketLoop::handleRead(Socket* s)` with any other `m_parser`. -/
def handleReadWith (parser : IoBuffer → Packet) (n : Nat) (rs : List ReadResult) (b : IoBuffer) :
    List Output × Option IoBuffer :=
  let (buffer, needClose) := readLoop rs b
  if needClose then ([.close .peer], none)
  else
    let r := onDataWith parser n buffer
    match r.result with
    | some false => (r.packets.map .packet ++ [.close .self], none)
    | _ => (r.packets.map .packet, some r.buffer)

/-- The readiness events of one connection, in order, until it is closed. -/
def connectionWith (parser : IoBuffer → Packet) (n : Nat) :
    List (List ReadResult) → IoBuffer → List Output × Option IoBuffer
  | [], b => ([], some b)
  | rs :: events, b =>
      match handleReadWith parser n rs b with
      | (out, none) => (out, none)
      | (out, some b') =>
          let (out', left) := connectionWith parser n events b'
          (out ++ out', left)

theorem handleReadWith_len (n : Nat) (rs : List ReadResult) (b : IoBuffer) :
    handleReadWith PacketProtocolLen.decode n rs b = handleRead n rs b := by
  simp only [handleReadWith, onDataWith_len]
  rfl

/-- With the parser of the constructor a connection is the one of `HandleRead`. -/
theorem connectionWith_len (n : Nat) (events : List (List ReadResult)) (b : IoBuffer) :
    connectionWith PacketProtocolLen.decode n events b = connection n events b := by
  induction events generalizing b with
  | nil => rfl
  | cons rs events ih =>
    simp only [connectionWith, handleReadWith_len, ih]
    rfl

/-! ## What an event reads -/

/-- The bytes the event reads. -/
def bytesRead : List ReadResult → List UInt8
  | [] => []
  | .data x xs :: rest => x :: xs ++ bytesRead rest
  | .intr :: rest => bytesRead rest
  | .again :: _ | .eof :: _ | .error :: _ => []

/-- The event ends with an end of file or an error. -/
def closes : List ReadResult → Bool
  | [] => false
  | .data _ _ :: rest => closes rest
  | .intr :: rest => closes rest
  | .again :: _ => false
  | .eof :: _ | .error :: _ => true

/-- A read buffer of a connection: well formed, of positive capacity, and not full
at a capacity that cannot double. -/
structure IoBuffer.ReadBuffer (b : IoBuffer) : Prop where
  wf : b.WF
  capacity_pos : 0 < b.capacity
  growable : b.tail = b.capacity → b.capacity < 2 ^ 31

/-- A buffer fresh from the pool is a read buffer. -/
theorem IoBuffer.readBuffer_new {c : Nat} (hpos : 0 < c) (hc : c < 2 ^ 32) :
    (IoBuffer.new c).ReadBuffer := by
  refine ⟨IoBuffer.wf_new hc, hpos, ?_⟩
  intro h
  have hzero : 0 = c := h
  omega

section ReadLoop

variable {b : IoBuffer}

/-- Growing keeps the bytes and makes room. -/
theorem IoBuffer.ReadBuffer.grow (h : b.ReadBuffer) :
    b.grow.ReadBuffer ∧ b.grow.contents = b.contents ∧ 0 < b.grow.getRemainingSize := by
  have hwf := h.wf
  have hpos := h.capacity_pos
  have htail := hwf.tail_le_capacity
  by_cases hfull : b.getRemainingSize = 0
  · have hgrow : b.grow = b.doubleCapacity := if_pos hfull
    rw [hwf.getRemainingSize_eq] at hfull
    obtain ⟨hwf', hcontents, hcap⟩ := hwf.doubleCapacity (h.growable (by omega))
    have htail' : b.doubleCapacity.tail = b.tail := rfl
    rw [hgrow]
    refine ⟨⟨hwf', by omega, fun heq => by omega⟩, hcontents, ?_⟩
    rw [hwf'.getRemainingSize_eq]
    omega
  · have hgrow : b.grow = b := if_neg hfull
    rw [hgrow]
    exact ⟨h, rfl, Nat.pos_of_ne_zero hfull⟩

/-- Storing what was read keeps a read buffer, as long as the bytes held stay below
`2 ^ 31`. -/
theorem IoBuffer.ReadBuffer.store (h : b.ReadBuffer) {bs : List UInt8}
    (hbs : bs.length ≤ b.getRemainingSize) (hsize : b.contents.length + bs.length < 2 ^ 31) :
    ((b.fill bs).writeN bs.length).ReadBuffer ∧
      ((b.fill bs).writeN bs.length).contents = b.contents ++ bs := by
  obtain ⟨hwf, hcontents, hcap⟩ := h.wf.fill_writeN hbs
  refine ⟨⟨hwf, by rw [hcap]; exact h.capacity_pos, ?_⟩, hcontents⟩
  intro hfull
  rw [hcap] at hfull ⊢
  -- a buffer that is full after `writeN` has been compacted: it holds `capacity` bytes
  have hhead : ((b.fill bs).writeN bs.length).head = 0 := by
    unfold writeN at hfull ⊢
    simp only at hfull ⊢
    split
    · rfl
    · rename_i hnot
      rw [if_neg hnot] at hfull
      by_contra hne
      exact hnot ⟨hfull, hne⟩
  have hlen := hwf.contents_length_add_head
  rw [hcontents, List.length_append, hhead] at hlen
  omega

/-- **The reading loop** appends the bytes the event reads and asks for a close
exactly when the event ends with one. -/
theorem readLoop_spec (rs : List ReadResult) (b : IoBuffer) (hb : b.ReadBuffer)
    (hsize : b.contents.length + (bytesRead rs).length < 2 ^ 31) :
    (readLoop rs b).1.ReadBuffer ∧
      (readLoop rs b).1.contents = b.contents ++ bytesRead rs ∧
      (readLoop rs b).2 = closes rs := by
  induction hn : readWeight rs using Nat.strongRecOn generalizing rs b with
  | _ n ih =>
    obtain ⟨hgrow, hcontents, hroom⟩ := hb.grow
    match rs with
    | [] =>
      rw [readLoop]
      exact ⟨hgrow, by simp [hcontents, bytesRead], rfl⟩
    | .again :: _ =>
      rw [readLoop]
      exact ⟨hgrow, by simp [hcontents, bytesRead], rfl⟩
    | .eof :: _ =>
      rw [readLoop]
      exact ⟨hgrow, by simp [hcontents, bytesRead], rfl⟩
    | .error :: _ =>
      rw [readLoop]
      exact ⟨hgrow, by simp [hcontents, bytesRead], rfl⟩
    | .intr :: rest =>
      rw [readLoop]
      have hlt : readWeight rest < n := by
        rw [← hn]
        simp only [readWeight]
        omega
      have hrec := ih _ hlt rest b.grow hgrow (by rw [hcontents]; exact hsize) rfl
      rw [hcontents] at hrec
      exact hrec
    | .data x xs :: rest =>
      rw [readLoop]
      have hroom' : ¬ b.grow.getRemainingSize = 0 := by omega
      simp only [if_neg hroom']
      generalize hk : min b.grow.getRemainingSize (xs.length + 1) = k
      have hkroom : k ≤ b.grow.getRemainingSize := by omega
      have hklen : ((x :: xs).take k).length = k := by
        rw [List.length_take, List.length_cons]
        omega
      have hread : bytesRead (.data x xs :: rest) = x :: xs ++ bytesRead rest := rfl
      have hweight : readWeight (.data x xs :: rest) = xs.length + 2 + readWeight rest := rfl
      rw [hread, List.length_append, List.length_cons] at hsize
      have hfits : ((x :: xs).take k).length ≤ b.grow.getRemainingSize := by omega
      obtain ⟨hstored, hbytes⟩ := hgrow.store hfits (by rw [hcontents, hklen]; omega)
      rw [hklen] at hstored hbytes
      rw [hcontents] at hbytes
      have hlenStored := congrArg List.length hbytes
      rw [List.length_append, hklen] at hlenStored
      split
      · rename_i hleft
        have hall : (x :: xs).take k = x :: xs :=
          List.take_of_length_le (List.drop_eq_nil_iff.mp hleft)
        have hxs : k = xs.length + 1 := by rw [← hklen, hall, List.length_cons]
        have hbytes' : ((b.grow.fill ((x :: xs).take k)).writeN k).contents
            = b.contents ++ (x :: xs) := by rw [hbytes, hall]
        have hrec := ih _ (by omega) rest _ hstored (by omega) rfl
        rw [hbytes', List.append_assoc] at hrec
        exact hrec
      · rename_i y ys hleft
        have hsplit : (x :: xs).take k ++ y :: ys = x :: xs := by
          rw [← hleft, List.take_append_drop]
        have hlenSplit := congrArg List.length hsplit
        rw [List.length_append, hklen, List.length_cons, List.length_cons] at hlenSplit
        have hread' : bytesRead (.data y ys :: rest) = y :: ys ++ bytesRead rest := rfl
        have hweight' : readWeight (.data y ys :: rest) = ys.length + 2 + readWeight rest := rfl
        have hrec := ih _ (by omega) (.data y ys :: rest) _ hstored
          (by rw [hread', List.length_append, List.length_cons]; omega) rfl
        rw [hbytes, hread', List.append_assoc, ← List.append_assoc _ (y :: ys), hsplit] at hrec
        exact hrec

/-- Consuming from the front keeps a read buffer. -/
theorem IoBuffer.ReadBuffer.readN (h : b.ReadBuffer) {n : Nat} (hn : n ≤ b.getSize) :
    (b.readN n).ReadBuffer := by
  refine ⟨h.wf.readN hn, by rw [readN_capacity]; exact h.capacity_pos, ?_⟩
  intro hfull
  rw [readN_capacity] at hfull ⊢
  unfold IoBuffer.readN at hfull
  split at hfull
  · have hpos := h.capacity_pos
    have hzero : 0 = b.capacity := hfull
    omega
  · exact h.growable hfull

end ReadLoop

/-! ## Events against the format -/

/-- What the handler sees of a drained stream. -/
def outputs (d : Drained UInt8 (List UInt8)) : List Output :=
  d.packets.map .packet ++ if d.rejected then [.close .self] else []

/-- The handler saw what draining a stream shows, and the read buffer, if the
connection is still open, holds what draining left. -/
structure Shows (r : List Output × Option IoBuffer) (d : Drained UInt8 (List UInt8)) :
    Prop where
  outputs_eq : r.1 = outputs d
  closed : d.rejected = true → r.2 = none
  kept : d.rejected = false → ∃ b, r.2 = some b ∧ b.contents = d.rest ∧ b.ReadBuffer

theorem Shows.of_agrees {r : List Output × Option IoBuffer} {d e : Drained UInt8 (List UInt8)}
    (h : Shows r d) (hde : d.Agrees e) : Shows r e := by
  obtain ⟨hpackets, hrej, hrest⟩ := hde
  refine ⟨?_, fun he => h.closed (hrej.trans he), fun he => ?_⟩
  · rw [h.outputs_eq, outputs, outputs, hpackets, hrej]
  · obtain ⟨b, hb, hcontents, hbuf⟩ := h.kept (hrej.trans he)
    exact ⟨b, hb, hcontents.trans (hrest (hrej.trans he)), hbuf⟩

/-- Packets seen before. -/
theorem Shows.prepend {r : List Output × Option IoBuffer} {d : Drained UInt8 (List UInt8)}
    (h : Shows r d) (ps : List (List UInt8)) :
    Shows (ps.map .packet ++ r.1, r.2) (d.prepend ps) := by
  refine ⟨?_, h.closed, h.kept⟩
  show ps.map .packet ++ r.1 = outputs (d.prepend ps)
  rw [h.outputs_eq, outputs, outputs, Drained.prepend_packets, List.map_append,
    List.append_assoc]
  rfl

section Parser

variable {parser : IoBuffer → Packet} {D : StableDecoder UInt8 (List UInt8)}
  {Ok : List UInt8 → Prop} {n : Nat} {rs : List ReadResult} {b b' : IoBuffer}

/-- An event without a close shows the handler what draining the bytes held and read
shows. -/
theorem handleReadWith_shows (hparses : Parses parser D Ok) (hb : b.ReadBuffer)
    (hclose : closes rs = false) (hok : Ok (b.contents ++ bytesRead rs))
    (hsize : (b.contents ++ bytesRead rs).length < 2 ^ 31)
    (hn : (b.contents ++ bytesRead rs).length < n) :
    Shows (handleReadWith parser n rs b) (D.drain (b.contents ++ bytesRead rs)) := by
  rw [List.length_append] at hsize
  obtain ⟨hbuf, hcontents, hneed⟩ := readLoop_spec rs b hb hsize
  rw [hclose] at hneed
  rw [← hcontents] at hok hn ⊢
  obtain ⟨hpackets, hresult, hrest, hlast⟩ := onDataWith_refines hparses
    (fun _ h => IoBuffer.ReadBuffer.wf h) (fun _ _ h hk => h.readN hk) hbuf hok hn
  generalize D.drain (readLoop rs b).1.contents = d at *
  simp only [handleReadWith, hneed, Bool.false_eq_true, if_false, hresult, hpackets]
  cases hrej : d.rejected with
  | true =>
    refine ⟨?_, fun _ => rfl, fun h => absurd h (by simp [hrej])⟩
    simp [outputs, hrej]
  | false =>
    refine ⟨?_, fun h => absurd h (by simp [hrej]), fun _ => ⟨_, rfl, hrest, hlast⟩⟩
    simp [outputs, hrej]

theorem connectionWith_of_close (events : List (List ReadResult))
    (h : (handleReadWith parser n rs b).2 = none) :
    connectionWith parser n (rs :: events) b = ((handleReadWith parser n rs b).1, none) := by
  rw [connectionWith]
  generalize handleReadWith parser n rs b = r at h ⊢
  obtain ⟨out, left⟩ := r
  simp only at h
  rw [h]

theorem connectionWith_of_open (events : List (List ReadResult))
    (h : (handleReadWith parser n rs b).2 = some b') :
    connectionWith parser n (rs :: events) b =
      ((handleReadWith parser n rs b).1 ++ (connectionWith parser n events b').1,
        (connectionWith parser n events b').2) := by
  rw [connectionWith]
  generalize handleReadWith parser n rs b = r at h ⊢
  obtain ⟨out, left⟩ := r
  simp only at h
  rw [h]

/-- A connection without closes shows the handler what feeding the decoder event by
event shows: every event is drained behind what the events before it left. -/
theorem connectionWith_shows (hparses : Parses parser D Ok) {events : List (List ReadResult)}
    (hb : b.ReadBuffer) (hclose : ∀ rs ∈ events, closes rs = false)
    (hfed : D.Fed (fun bs => Ok bs ∧ bs.length < 2 ^ 31 ∧ bs.length < n) b.contents
      (events.map bytesRead)) :
    Shows (connectionWith parser n events b) (D.feed b.contents (events.map bytesRead)) := by
  induction events generalizing b with
  | nil => exact ⟨rfl, fun h => (nomatch h), fun _ => ⟨b, rfl, rfl, hb⟩⟩
  | cons rs events ih =>
    obtain ⟨⟨hok, hsize, hn⟩, hlater⟩ := hfed
    have hevent :=
      handleReadWith_shows hparses hb (hclose rs List.mem_cons_self) hok hsize hn
    simp only [List.map_cons, StableDecoder.feed]
    generalize D.drain (b.contents ++ bytesRead rs) = d at *
    cases hrej : d.rejected with
    | true =>
      have hnone := hevent.closed hrej
      rw [if_pos rfl, connectionWith_of_close events hnone, ← hnone]
      exact hevent
    | false =>
      obtain ⟨b', hleft, hrest, hb'⟩ := hevent.kept hrej
      have hrec := ih hb' (fun r hr => hclose r (List.mem_cons_of_mem _ hr))
        (hrest ▸ hlater hrej)
      have hout : (handleReadWith parser n rs b).1 = d.packets.map .packet := by
        rw [hevent.outputs_eq, outputs, hrej]
        simp
      rw [if_neg (by simp), connectionWith_of_open events hleft, hout, ← hrest]
      exact hrec.prepend _

end Parser

/-! ## Framing over a whole connection -/

/-- The bytes of all events of a connection. -/
def streamOf (events : List (List ReadResult)) : List UInt8 := (events.map bytesRead).flatten

/-- The whole stream in one event, as one run of available bytes. -/
def wholeEvent : List UInt8 → List ReadResult
  | [] => []
  | x :: xs => [.data x xs]

@[simp] theorem bytesRead_wholeEvent (bs : List UInt8) : bytesRead (wholeEvent bs) = bs := by
  cases bs with
  | nil => rfl
  | cons x xs => simp [wholeEvent, bytesRead]

@[simp] theorem closes_wholeEvent (bs : List UInt8) : closes (wholeEvent bs) = false := by
  cases bs <;> rfl

/-- Event by event the length words of the stream are those of what is drained. -/
theorem fed_of_headersOk {P : List UInt8 → Prop} {held : List UInt8} {chunks : List (List UInt8)}
    (hok : HeadersOk (held ++ chunks.flatten)) (hfed : lenDecoder.Fed P held chunks) :
    lenDecoder.Fed (fun bs => HeadersOk bs ∧ P bs) held chunks := by
  apply StableDecoder.Fed.imp_of_rest (Q := fun held chunks =>
    HeadersOk (held ++ chunks.flatten) ∧ lenDecoder.Fed P held chunks) _ _ ⟨hok, hfed⟩
  · intro held c cs h
    rw [List.flatten_cons, ← List.append_assoc] at h
    exact ⟨h.1.of_append, h.2.1⟩
  · intro held c cs h hrej
    rw [List.flatten_cons, ← List.append_assoc] at h
    exact ⟨h.1.rest_append hrej, h.2.2 hrej⟩

/-- The read buffer holds what is unread and what an event brings, at every event, and `onData`
has a turn for each of these bytes. -/
def Held (n : Nat) (events : List (List ReadResult)) : Prop :=
  lenDecoder.Fed (fun bs => bs.length < 2 ^ 31 ∧ bs.length < n) [] (events.map bytesRead)

/-- A stream that a buffer holds as a whole is held event by event. -/
theorem held_of_length {n : Nat} {events : List (List ReadResult)}
    (hlt : (streamOf events).length < 2 ^ 31) (hn : (streamOf events).length < n) :
    Held n events := by
  refine StableDecoder.Fed.imp_of_rest (Q := fun held chunks =>
    held.length + chunks.flatten.length < 2 ^ 31 ∧ held.length + chunks.flatten.length < n) ?_ ?_ ?_
  · intro held c cs h
    rw [List.flatten_cons, List.length_append] at h
    rw [List.length_append]
    omega
  · intro held c cs h _
    have hrest := lenDecoder.length_rest_drain (held ++ c)
    rw [List.length_append] at hrest
    rw [List.flatten_cons, List.length_append] at h
    omega
  · simpa [streamOf] using And.intro hlt hn

theorem Shows.unique {r r' : List Output × Option IoBuffer} {d : Drained UInt8 (List UInt8)}
    (h : Shows r d) (h' : Shows r' d) :
    r.1 = r'.1 ∧ r.2.map IoBuffer.contents = r'.2.map IoBuffer.contents := by
  refine ⟨h.outputs_eq.trans h'.outputs_eq.symm, ?_⟩
  cases hrej : d.rejected with
  | true => rw [h.closed hrej, h'.closed hrej]
  | false =>
    obtain ⟨b, hb, hcontents, -⟩ := h.kept hrej
    obtain ⟨b', hb', hcontents', -⟩ := h'.kept hrej
    rw [hb, hb', Option.map_some, Option.map_some, hcontents, hcontents']

/-- A connection that starts with an empty read buffer shows what draining the whole
stream shows, however the events cut it. -/
theorem connection_shows_stream {n : Nat} {events : List (List ReadResult)} {b : IoBuffer}
    (hb : b.ReadBuffer) (hempty : b.contents = [])
    (hclose : ∀ rs ∈ events, closes rs = false) (hok : HeadersOk (streamOf events))
    (hheld : Held n events) :
    Shows (connection n events b) (lenDecoder.drain (streamOf events)) := by
  have hfed : lenDecoder.Fed (fun bs => HeadersOk bs ∧ bs.length < 2 ^ 31 ∧ bs.length < n) []
      (events.map bytesRead) := fed_of_headersOk hok hheld
  rw [← hempty] at hfed
  have hshows := connectionWith_shows PacketProtocolLen.parses hb hclose hfed
  rw [hempty, connectionWith_len] at hshows
  exact hshows.of_agrees (lenDecoder.feed_eq_drain _ [] rfl)

/-- **Framing is exact.**  Two ways of cutting one stream into events, and each event into
reads, differ neither in the packets and the rejection the handler sees nor in the bytes left
in the read buffer; one of them may be the whole stream in one read.  Any pieces of a
concatenation of encoded payloads deliver exactly those payloads and leave the buffer empty.
The sizes are bounded at each event; a connection may carry any number of bytes. -/
theorem framing_split_irrelevant :
    (∀ (n n₀ : Nat) (b b₀ : IoBuffer) (events events₀ : List (List ReadResult)),
      b.ReadBuffer → b.contents = [] → b₀.ReadBuffer → b₀.contents = [] →
      (∀ rs ∈ events, closes rs = false) → (∀ rs ∈ events₀, closes rs = false) →
      streamOf events₀ = streamOf events → HeadersOk (streamOf events) →
      Held n events → Held n₀ events₀ →
      (connection n events b).1 = (connection n₀ events₀ b₀).1 ∧
        (connection n events b).2.map IoBuffer.contents
          = (connection n₀ events₀ b₀).2.map IoBuffer.contents) ∧
    (∀ stream : List UInt8, stream.length < 2 ^ 31 →
      streamOf [wholeEvent stream] = stream ∧ closes (wholeEvent stream) = false ∧
        Held (stream.length + 1) [wholeEvent stream]) ∧
    (∀ payloads : List (List UInt8), (∀ data ∈ payloads, data.length ≤ 65531) →
      (∃ bufs, List.Forall₂ Encodes payloads bufs) ∧
      ∀ bufs, List.Forall₂ Encodes payloads bufs →
        ∀ (n : Nat) (b : IoBuffer) (events : List (List ReadResult)),
          b.ReadBuffer → b.contents = [] → (∀ rs ∈ events, closes rs = false) →
          streamOf events = (bufs.map IoBuffer.contents).flatten → Held n events →
          (connection n events b).1 = payloads.map .packet ∧
            (connection n events b).2.map IoBuffer.contents = some []) := by
  refine ⟨?_, ?_, ?_⟩
  · intro n n₀ b b₀ events events₀ hb hempty hb₀ hempty₀ hclose hclose₀ hstream hok hheld hheld₀
    have hshows := connection_shows_stream hb hempty hclose hok hheld
    have hshows₀ := connection_shows_stream hb₀ hempty₀ hclose₀ (by rwa [hstream]) hheld₀
    rw [hstream] at hshows₀
    exact hshows.unique hshows₀
  · intro stream hlt
    have hwhole : streamOf [wholeEvent stream] = stream := by simp [streamOf]
    exact ⟨hwhole, closes_wholeEvent stream,
      held_of_length (by rwa [hwhole]) (by rw [hwhole]; omega)⟩
  · intro payloads hpay
    refine ⟨exists_encodes hpay, ?_⟩
    intro bufs hbufs n b events hb hempty hclose hstream hheld
    rw [flatten_encodes hbufs hpay] at hstream
    have hshows := connection_shows_stream hb hempty hclose
      (by rw [hstream]; exact headersOk_frames payloads hpay) hheld
    rw [hstream, drain_frames payloads hpay] at hshows
    obtain ⟨b', hb', hcontents, -⟩ := hshows.kept rfl
    refine ⟨?_, by rw [hb', Option.map_some, hcontents]⟩
    rw [hshows.outputs_eq]
    simp [outputs]

/-- Two frames, cut inside the second length word, into a buffer of four bytes. -/
theorem framing_split_irrelevant_at_cut :
    ((connection 20 [[.data 0 [0, 0, 5, 7, 0, 0]], [.intr, .data 0 [6, 8, 9]]] (.new 4)).1
        = (connection 12 [wholeEvent [0, 0, 0, 5, 7, 0, 0, 0, 6, 8, 9]] (.new 4096)).1 ∧
      (connection 20 [[.data 0 [0, 0, 5, 7, 0, 0]], [.intr, .data 0 [6, 8, 9]]]
          (.new 4)).2.map IoBuffer.contents
        = (connection 12 [wholeEvent [0, 0, 0, 5, 7, 0, 0, 0, 6, 8, 9]]
          (.new 4096)).2.map IoBuffer.contents) ∧
    ((connection 20 [[.data 0 [0, 0, 5, 7, 0, 0]], [.intr, .data 0 [6, 8, 9]]] (.new 4)).1
        = [.packet [7], .packet [8, 9]] ∧
      (connection 20 [[.data 0 [0, 0, 5, 7, 0, 0]], [.intr, .data 0 [6, 8, 9]]]
          (.new 4)).2.map IoBuffer.contents = some []) := by
  have hnew : (IoBuffer.new 4).ReadBuffer := IoBuffer.readBuffer_new (by decide) (by decide)
  have hpool : (IoBuffer.new 4096).ReadBuffer :=
    IoBuffer.readBuffer_new (by decide) (by decide)
  have hclose : ∀ rs ∈ [[ReadResult.data 0 [0, 0, 5, 7, 0, 0]],
      [ReadResult.intr, ReadResult.data 0 [6, 8, 9]]], closes rs = false := by decide
  have hheld : Held 20 [[ReadResult.data 0 [0, 0, 5, 7, 0, 0]],
      [ReadResult.intr, ReadResult.data 0 [6, 8, 9]]] := held_of_length (by decide) (by decide)
  obtain ⟨hcuts, hone, hpayloads⟩ := framing_split_irrelevant
  constructor
  · obtain ⟨hwhole, -, hheld₀⟩ := hone [0, 0, 0, 5, 7, 0, 0, 0, 6, 8, 9] (by decide)
    exact hcuts 20 12 _ _ _ _ hnew (IoBuffer.contents_new 4) hpool (IoBuffer.contents_new 4096)
      hclose (by simp) hwhole (by decide) hheld hheld₀
  · have hpay : ∀ data ∈ ([[7], [8, 9]] : List (List UInt8)), data.length ≤ 65531 := by
      decide
    obtain ⟨hexists, hall⟩ := hpayloads [[7], [8, 9]] hpay
    obtain ⟨bufs, hbufs⟩ := hexists
    have hbytes := flatten_encodes hbufs hpay
    exact hall bufs hbufs 20 _ [[.data 0 [0, 0, 5, 7, 0, 0]], [.intr, .data 0 [6, 8, 9]]] hnew
      (IoBuffer.contents_new 4) hclose (by rw [hbytes]; decide) hheld

/-! ## Data that arrived before a close -/

/-- The packets passed to the handler before it is told of a close. -/
def packetsBeforeClose : List Output → List (List UInt8)
  | .packet p :: out => p :: packetsBeforeClose out
  | _ => []

@[simp] theorem packetsBeforeClose_packets (ps : List (List UInt8)) (out : List Output) :
    packetsBeforeClose (ps.map .packet ++ out) = ps ++ packetsBeforeClose out := by
  induction ps with
  | nil => rfl
  | cons p ps ih => simp [packetsBeforeClose, ih]

/-- Every complete frame among the bytes held and read in the event is passed to the
handler before a close is. -/
def DeliveredBeforeClose (rs : List ReadResult) (b : IoBuffer) : Prop :=
  ∃ n, frames (b.contents ++ bytesRead rs) <+: packetsBeforeClose (handleRead n rs b).1

/-- An event that ends with a close returns before `onData` is called. -/
theorem handleRead_of_closes (n : Nat) {rs : List ReadResult} {b : IoBuffer}
    (hb : b.ReadBuffer) (hsize : b.contents.length + (bytesRead rs).length < 2 ^ 31)
    (hclose : closes rs = true) : handleRead n rs b = ([.close .peer], none) := by
  obtain ⟨-, -, hneed⟩ := readLoop_spec rs b hb hsize
  rw [hclose] at hneed
  simp only [handleRead, hneed, if_true]

/-- An event without a close delivers the frames, given enough turns. -/
theorem frames_prefix_handleRead {n : Nat} {rs : List ReadResult} {b : IoBuffer}
    (hb : b.ReadBuffer) (hsize : b.contents.length + (bytesRead rs).length < 2 ^ 31)
    (hclose : closes rs = false) (hn : (b.contents ++ bytesRead rs).length < n) :
    frames (b.contents ++ bytesRead rs) <+: packetsBeforeClose (handleRead n rs b).1 := by
  obtain ⟨hbuf, hcontents, hneed⟩ := readLoop_spec rs b hb hsize
  rw [hclose] at hneed
  rw [← hcontents] at hn ⊢
  have hframes := frames_prefix_onData n _ hbuf.wf hn
  have hpackets : ∃ out, (handleRead n rs b).1
      = (onData n (readLoop rs b).1).packets.map .packet ++ out := by
    simp only [handleRead, hneed, Bool.false_eq_true, if_false]
    split
    · exact ⟨_, rfl⟩
    · exact ⟨[], (List.append_nil _).symm⟩
  obtain ⟨out, hout⟩ := hpackets
  rw [hout, packetsBeforeClose_packets]
  exact hframes.trans (List.prefix_append _ _)

/-- **When data that arrived before a close is delivered before it.**  Exactly when
the event does not end with the close, or no complete frame is there to lose. -/
theorem delivered_before_close_iff (rs : List ReadResult) (b : IoBuffer) (hb : b.ReadBuffer)
    (hsize : b.contents.length + (bytesRead rs).length < 2 ^ 31) :
    DeliveredBeforeClose rs b ↔
      closes rs = false ∨ frames (b.contents ++ bytesRead rs) = [] := by
  constructor
  · rintro ⟨n, hn⟩
    cases hclose : closes rs with
    | false => exact Or.inl rfl
    | true =>
      rw [handleRead_of_closes n hb hsize hclose] at hn
      exact Or.inr (List.prefix_nil.mp hn)
  · rintro (hclose | hnone)
    · exact ⟨_, frames_prefix_handleRead hb hsize hclose (Nat.lt_succ_self _)⟩
    · refine ⟨0, ?_⟩
      rw [hnone]
      exact List.nil_prefix

/-- The rule at an event that reads a frame and meets EAGAIN. -/
theorem delivered_before_close_at_again :
    DeliveredBeforeClose [.data 0 [0, 0, 5, 7], .again] (.new 8) :=
  (delivered_before_close_iff _ _ (IoBuffer.readBuffer_new (by decide) (by decide))
    (by decide)).mpr (Or.inl rfl)

/-- A peer sends one frame and closes; both arrive in one event and the frame is
lost. -/
theorem frame_lost_at_close :
    (IoBuffer.new 8).ReadBuffer ∧
      frames [0, 0, 0, 5, 7] = [[7]] ∧
      ¬ DeliveredBeforeClose [.data 0 [0, 0, 5, 7], .eof] (.new 8) := by
  have hb : (IoBuffer.new 8).ReadBuffer := IoBuffer.readBuffer_new (by decide) (by decide)
  have hframes : frames [0, 0, 0, 5, 7] = [[7]] := by decide
  refine ⟨hb, hframes, ?_⟩
  rintro ⟨n, hn⟩
  rw [handleRead_of_closes n hb (by decide) rfl, IoBuffer.contents_new] at hn
  have hnil : frames [0, 0, 0, 5, 7] = [] := List.prefix_nil.mp hn
  rw [hframes] at hnil
  cases hnil

end StormNet.Net
