/-
  Net/SocketHandler.lean --- the delivery loop `SocketHandler::onData` with the
  length-prefixed parser, and with any other one.

  The loop has no measure of its own, so it is modelled by its first `n` turns: the
  decodes that answered `Packet_Normal`, the buffer they left, and the value returned
  if the loop has ended by then.  Termination is the statement that some `n` ends it.

  The two laws of the file: on input whose length words are at least 4 the loop
  computes what draining the abstract format computes (`onData_refines`), and it is
  safe exactly on that input (`receivePath_safe_iff`).
-/
import StormNet.Util.Protocol

set_option autoImplicit false

namespace StormNet.Net

open StormNet.Foundation StormNet.Util StormNet.Util.PacketProtocolLen

/-- One decode that answered `Packet_Normal`; `onPacket` is called with it. -/
structure DecodeCall where
  /-- the buffer before the call -/
  before : IoBuffer
  /-- offset of `data` in the block -/
  off : Nat
  /-- `len` -/
  size : Nat
  /-- the buffer after the call -/
  after : IoBuffer
  deriving DecidableEq, Repr

/-- The bytes handed to `onPacket`. -/
def DecodeCall.packet (c : DecodeCall) : List UInt8 := payload c.before c.off c.size

/-- The first turns of the loop of `onData`. -/
structure OnData where
  /-- the packets delivered, in order -/
  calls : List DecodeCall
  /-- the read buffer after them -/
  buffer : IoBuffer
  /-- the value returned, if the loop has ended -/
  result : Option Bool
  deriving DecidableEq, Repr

/-- `SocketHandler::onData(Socket* s)` on `s->readBuffer`, for `n` turns of its
loop. -/
def onData : Nat → IoBuffer → OnData
  | 0, b => ⟨[], b, none⟩
  | n + 1, b =>
      match decode b with
      | .less => ⟨[], b, some true⟩
      | .error => ⟨[], b, some false⟩
      | .normal off size b' =>
          let r := onData n b'
          { r with calls := ⟨b, off, size, b'⟩ :: r.calls }

/-- `SocketHandler::onData(Socket* s)` with any other `m_parser`. -/
def onDataWith (parser : IoBuffer → Packet) : Nat → IoBuffer → OnData
  | 0, b => ⟨[], b, none⟩
  | n + 1, b =>
      match parser b with
      | .less => ⟨[], b, some true⟩
      | .error => ⟨[], b, some false⟩
      | .normal off size b' =>
          let r := onDataWith parser n b'
          { r with calls := ⟨b, off, size, b'⟩ :: r.calls }

/-- With the parser of the constructor it is `onData`. -/
theorem onDataWith_len (n : Nat) (b : IoBuffer) :
    onDataWith PacketProtocolLen.decode n b = onData n b := by
  induction n generalizing b with
  | zero => rfl
  | succ n ih =>
    rw [onDataWith, onData]
    cases PacketProtocolLen.decode b with
    | less => rfl
    | error => rfl
    | normal off size b' =>
      simp only
      rw [ih]

/-- The payloads delivered. -/
def OnData.packets (r : OnData) : List (List UInt8) := r.calls.map DecodeCall.packet

section Turns

variable {b b' : IoBuffer} {off size : Nat}

theorem onData_succ_of_less (n : Nat) (h : decode b = .less) :
    onData (n + 1) b = ⟨[], b, some true⟩ := by
  simp [onData, h]

theorem onData_succ_of_error (n : Nat) (h : decode b = .error) :
    onData (n + 1) b = ⟨[], b, some false⟩ := by
  simp [onData, h]

theorem onData_succ_of_normal (n : Nat) (h : decode b = .normal off size b') :
    onData (n + 1) b =
      { onData n b' with calls := ⟨b, off, size, b'⟩ :: (onData n b').calls } := by
  simp [onData, h]

/-- A loop that has ended stays ended. -/
theorem onData_result_succ : ∀ (n : Nat) (b : IoBuffer),
    (onData n b).result.isSome = true → (onData (n + 1) b).result.isSome = true := by
  intro n
  induction n with
  | zero => intro b h; cases h
  | succ n ih =>
    intro b h
    cases hd : decode b with
    | less => rw [onData_succ_of_less _ hd]; rfl
    | error => rw [onData_succ_of_error _ hd]; rfl
    | normal off size b' =>
      rw [onData_succ_of_normal _ hd] at h ⊢
      exact ih b' h

end Turns

/-! ## Against the format -/

section Parser

variable {parser : IoBuffer → Packet} {D : StableDecoder UInt8 (List UInt8)}
  {Ok : List UInt8 → Prop} {P : IoBuffer → Prop} {b : IoBuffer} {n : Nat}

/-- Enough turns of the loop deliver the packets of the decoder, reject where it rejects, and
leave what it leaves.  What reading keeps of the buffer, the loop keeps. -/
theorem onDataWith_refines (hparses : Parses parser D Ok) (hwf : ∀ b, P b → b.WF)
    (hread : ∀ b k, P b → k ≤ b.getSize → P (b.readN k)) (hb : P b) (hok : Ok b.contents)
    (hn : b.contents.length < n) :
    (onDataWith parser n b).packets = (D.drain b.contents).packets ∧
      (onDataWith parser n b).result = some (!(D.drain b.contents).rejected) ∧
      (onDataWith parser n b).buffer.contents = (D.drain b.contents).rest ∧
      P (onDataWith parser n b).buffer := by
  induction n generalizing b with
  | zero => exact absurd hn (Nat.not_lt_zero _)
  | succ n ih =>
    have hanswer := hparses.answer b (hwf b hb) hok
    cases hd : D.decode b.contents with
    | less =>
      rw [hd] at hanswer
      have hless : parser b = .less := hanswer
      rw [D.drain_of_less hd, onDataWith, hless]
      exact ⟨rfl, rfl, rfl, hb⟩
    | error =>
      rw [hd] at hanswer
      have herror : parser b = .error := hanswer
      rw [D.drain_of_error hd, onDataWith, herror]
      exact ⟨rfl, rfl, rfl, hb⟩
    | packet p rest =>
      rw [hd] at hanswer
      obtain ⟨off, size, k, hnormal, hp, hrest, hk⟩ := hanswer
      have hshrink := D.shrinks hd
      have hok' : Ok (b.readN k).contents := by
        rw [hrest]
        exact hparses.rest _ _ _ hok hd
      obtain ⟨hpackets, hresult, hleft, hlast⟩ :=
        ih (hread b k hb hk) hok' (by rw [hrest]; omega)
      rw [hrest] at hpackets hresult hleft
      rw [D.drain_of_packet hd, onDataWith, hnormal]
      refine ⟨?_, hresult, hleft, hlast⟩
      show payload b off size :: (onDataWith parser n (b.readN k)).packets = _
      rw [hp, hpackets]
      rfl

end Parser

/-- Where no length word below 4 is reached, enough turns of the loop deliver the
payloads of the format, reject where it rejects, and leave what it leaves. -/
theorem onData_refines : ∀ (n : Nat) (b : IoBuffer), b.WF → HeadersOk b.contents →
    b.contents.length < n →
    (onData n b).packets = (lenDecoder.drain b.contents).packets ∧
      (onData n b).result = some (!(lenDecoder.drain b.contents).rejected) ∧
      (onData n b).buffer.contents = (lenDecoder.drain b.contents).rest := by
  intro n b hwf hok hn
  obtain ⟨hpackets, hresult, hrest, -⟩ := onDataWith_refines PacketProtocolLen.parses
    (fun _ h => h) (fun _ _ h hk => h.readN hk) hwf hok hn
  rw [← onDataWith_len]
  exact ⟨hpackets, hresult, hrest⟩

/-- What precedes a length word below 4 is delivered all the same: after as many
turns as there are bytes, the frames at the front have been delivered. -/
theorem frames_prefix_onData : ∀ (n : Nat) (b : IoBuffer), b.WF →
    b.contents.length < n → frames b.contents <+: (onData n b).packets := by
  intro n
  induction n with
  | zero => intro b _ hn; exact absurd hn (Nat.not_lt_zero _)
  | succ n ih =>
    intro b hwf hn
    cases hd : decodeFrame b.contents with
    | less =>
      have hless : lenDecoder.decode b.contents = .less := hd
      rw [frames, lenDecoder.drain_of_less hless]
      exact List.nil_prefix
    | error =>
      have herror : lenDecoder.decode b.contents = .error := hd
      rw [frames, lenDecoder.drain_of_error herror]
      exact List.nil_prefix
    | packet p rest =>
      have hmin := (decodeFrame_of_packet hd).2.2.1
      have hdecode := decode_refines hwf (fun _ => hmin)
      rw [hd] at hdecode
      obtain ⟨off, size, b', hnormal, hp, hrest, hwf', -⟩ := hdecode
      have hpacket : lenDecoder.decode b.contents = .packet p rest := hd
      have hshrink := lenDecoder.shrinks hpacket
      have hrec := ih b' hwf' (by rw [hrest]; omega)
      rw [frames, lenDecoder.drain_of_packet hpacket, onData_succ_of_normal n hnormal]
      have hcons : p :: frames rest <+: p :: (onData n b').packets := by
        rw [← hrest]
        exact (List.prefix_cons_inj p).mpr hrec
      have hcall : (DecodeCall.mk b off size b').packet = p := hp
      rw [← hcall] at hcons ⊢
      exact hcons

/-! ## Safety of the receive path -/

/-- A decode that consumed at least the four header bytes and handed out bytes that
were buffered before it. -/
def DecodeCall.Safe (c : DecodeCall) : Prop :=
  c.after.getSize + 4 ≤ c.before.getSize ∧
    c.before.head ≤ c.off ∧ c.off + c.size ≤ c.before.tail

instance (c : DecodeCall) : Decidable c.Safe :=
  inferInstanceAs (Decidable (_ ∧ _ ∧ _))

/-- The receive path is safe on a read buffer: the loop ends, and every decode it
makes is safe. -/
def ReceivePathSafe (b : IoBuffer) : Prop :=
  (∃ n, (onData n b).result.isSome = true) ∧ ∀ n, ∀ c ∈ (onData n b).calls, c.Safe

/-- A decode is safe exactly when its length word is at least 4: below, the payload
size wraps and the header is not consumed. -/
theorem decodeCall_safe_iff {b b' : IoBuffer} {off size : Nat} (hwf : b.WF)
    (h : decode b = .normal off size b') :
    (DecodeCall.mk b off size b').Safe ↔ 4 ≤ header b.contents := by
  obtain ⟨hlen, hfit, hoff, hsz, hb'⟩ := decode_normal hwf h
  have hsize := decode_readN_assert hwf h
  have hwf' := hwf.readN hsize
  have hafter : (b.readN (header b.contents)).getSize = b.contents.length - header b.contents := by
    rw [← hwf'.length_contents, hwf.contents_readN, List.length_drop]
  have hbefore := hwf.contents_length_add_head
  have hword : header b.contents < 2 ^ 32 := readBigEndian_lt _
  simp only [DecodeCall.Safe, hoff, hsz, hb', hafter, ← hwf.length_contents]
  constructor
  · rintro ⟨hconsumed, -, -⟩
    omega
  · intro hmin
    rw [sub32_of_le hmin hword]
    omega

/-- A packet with a length word of at least 4 is a frame of the format. -/
theorem decodeFrame_of_normal {b b' : IoBuffer} {off size : Nat} (hwf : b.WF)
    (h : decode b = .normal off size b') (hmin : 4 ≤ header b.contents) :
    decodeFrame b.contents = .packet (payload b off size) b'.contents ∧ b'.WF := by
  have hdecode := decode_refines hwf (fun _ => hmin)
  cases hd : decodeFrame b.contents with
  | less => rw [hd, h] at hdecode; cases hdecode
  | error => rw [hd, h] at hdecode; cases hdecode
  | packet p rest =>
    rw [hd] at hdecode
    obtain ⟨off', size', b'', hnormal, hp, hrest, hwf', -⟩ := hdecode
    rw [h] at hnormal
    injection hnormal with hoff hsize hb
    subst hoff hsize hb
    exact ⟨by rw [hp, hrest], hwf'⟩

/-- Where `decode` does not answer `Packet_Normal`, no length word below 4 is at the
front. -/
theorem headersOk_of_not_normal {b : IoBuffer} (hwf : b.WF)
    (h : ∀ off size b', decode b ≠ .normal off size b') : HeadersOk b.contents := by
  have hmin : 4 ≤ b.contents.length → 4 ≤ header b.contents := by
    intro hlen
    by_contra hshort
    have hnormal := decode_eq hwf
    rw [if_neg (by omega), if_neg (by unfold maxLen; omega), if_neg (by omega)] at hnormal
    exact h _ _ _ hnormal
  have hframe : ∀ p rest, decodeFrame b.contents ≠ .packet p rest := by
    intro p rest hd
    have hdecode := decode_refines hwf hmin
    rw [hd] at hdecode
    obtain ⟨off, size, b', hnormal, -⟩ := hdecode
    exact h off size b' hnormal
  intro w hw
  rw [headers_of_not_packet hframe] at hw
  split at hw
  · cases hw
  · rw [List.mem_singleton.mp hw]
    exact hmin (by omega)

/-- The loop is safe on a buffer whose first decode is a packet exactly when this
decode is safe and the loop is safe on what it leaves. -/
theorem receivePathSafe_of_normal {b b' : IoBuffer} {off size : Nat}
    (h : decode b = .normal off size b') :
    ReceivePathSafe b ↔ (DecodeCall.mk b off size b').Safe ∧ ReceivePathSafe b' := by
  constructor
  · rintro ⟨⟨n, hn⟩, hcalls⟩
    have hfirst : (DecodeCall.mk b off size b').Safe := by
      refine hcalls 1 _ ?_
      rw [onData_succ_of_normal 0 h]
      exact List.mem_cons_self
    refine ⟨hfirst, ⟨n, ?_⟩, ?_⟩
    · cases n with
      | zero => cases hn
      | succ n =>
        rw [onData_succ_of_normal n h] at hn
        -- one turn less ends the loop; a further turn changes nothing
        exact onData_result_succ n b' hn
    · intro k c hc
      refine hcalls (k + 1) c ?_
      rw [onData_succ_of_normal k h]
      exact List.mem_cons_of_mem _ hc
  · rintro ⟨hfirst, ⟨n, hn⟩, hcalls⟩
    refine ⟨⟨n + 1, ?_⟩, ?_⟩
    · rw [onData_succ_of_normal n h]
      exact hn
    · intro k c hc
      cases k with
      | zero => cases hc
      | succ k =>
        rw [onData_succ_of_normal k h, List.mem_cons] at hc
        rcases hc with rfl | hc
        · exact hfirst
        · exact hcalls k c hc

/-- **The receive path is safe exactly on input that reaches no length word below
4.** -/
theorem receivePath_safe_iff (b : IoBuffer) (hwf : b.WF) :
    ReceivePathSafe b ↔ HeadersOk b.contents := by
  induction hn : b.contents.length using Nat.strongRecOn generalizing b with
  | _ n ih =>
    cases hd : decode b with
    | less =>
      refine iff_of_true ⟨⟨1, by rw [onData_succ_of_less 0 hd]; rfl⟩, ?_⟩
        (headersOk_of_not_normal hwf (by simp [hd]))
      rintro (_ | k) c hc
      · cases hc
      · rw [onData_succ_of_less k hd] at hc
        cases hc
    | error =>
      refine iff_of_true ⟨⟨1, by rw [onData_succ_of_error 0 hd]; rfl⟩, ?_⟩
        (headersOk_of_not_normal hwf (by simp [hd]))
      rintro (_ | k) c hc
      · cases hc
      · rw [onData_succ_of_error k hd] at hc
        cases hc
    | normal off size b' =>
      rw [receivePathSafe_of_normal hd, decodeCall_safe_iff hwf hd]
      have hlen := (decode_normal hwf hd).1
      have hrest : 4 ≤ header b.contents →
          (ReceivePathSafe b' ↔ HeadersOk b'.contents) := by
        intro hmin
        obtain ⟨hframe, hwf'⟩ := decodeFrame_of_normal hwf hd hmin
        exact ih _ (hn ▸ lenDecoder.shrinks hframe) b' hwf' rfl
      constructor
      · rintro ⟨hmin, hsafe⟩
        obtain ⟨hframe, -⟩ := decodeFrame_of_normal hwf hd hmin
        intro w hw
        rw [headers_of_packet hframe, List.mem_cons] at hw
        rcases hw with rfl | hw
        · exact hmin
        · exact (hrest hmin).mp hsafe w hw
      · intro hok
        have hmin := hok.header hlen
        obtain ⟨hframe, -⟩ := decodeFrame_of_normal hwf hd hmin
        exact ⟨hmin, (hrest hmin).mpr (hok.rest hframe)⟩

/-- The rule at a buffer holding one frame with a one-byte payload. -/
theorem receivePath_safe_at_frame : ReceivePathSafe (IoBuffer.ofBytes [0, 0, 0, 5, 7]) :=
  (receivePath_safe_iff _ (IoBuffer.wf_ofBytes _)).mpr (by decide)

/-- A length word of zero: `decode` hands out `2 ^ 32 - 4` bytes, consumes nothing,
and the loop never ends. -/
theorem receivePath_wedged :
    (IoBuffer.ofBytes [0, 0, 0, 0]).WF ∧
      (∀ n, (onData n (IoBuffer.ofBytes [0, 0, 0, 0])).result = none) ∧
      ¬ ReceivePathSafe (IoBuffer.ofBytes [0, 0, 0, 0]) := by
  have hdecode : decode (IoBuffer.ofBytes [0, 0, 0, 0])
      = .normal 4 (2 ^ 32 - 4) (IoBuffer.ofBytes [0, 0, 0, 0]) := by decide
  have hrunning : ∀ n, (onData n (IoBuffer.ofBytes [0, 0, 0, 0])).result = none := by
    intro n
    induction n with
    | zero => rfl
    | succ n ih =>
      rw [onData_succ_of_normal n hdecode]
      exact ih
  refine ⟨IoBuffer.wf_ofBytes _, hrunning, ?_⟩
  rintro ⟨⟨n, hn⟩, -⟩
  rw [hrunning n] at hn
  cases hn

end StormNet.Net
