/-
  Util/Protocol.lean --- the length-prefixed packet format of
  `util/util_protocol.h` (`class PacketProtocolLen`).

  A frame is a 4-byte big-endian word, counting itself, followed by the payload.
  `decode` follows the source: the word is summed from sign-extended characters
  under masks, it is compared with `maxLen` and with the bytes buffered, and the
  payload size is an unsigned subtraction.  Nothing rejects a word below 4.

  `lenDecoder` is the abstract format, over byte lists: the same format with the
  words below 4 rejected.  `decode_eq` relates the two on every well-formed buffer.
-/
import StormNet.Net.IoBuffer
import StormNet.Foundation.Framing

set_option autoImplicit false

namespace StormNet.Util

open StormNet.Foundation StormNet.Net

/-- The answer of a packet parser (`Packet_Normal`, `Packet_Less`,
`Packet_Error`) with what it returns by reference. -/
inductive Packet where
  | less
  | error
  /-- the payload starts at offset `off` of the block and has `size` bytes; the
  buffer is left as `rest` -/
  | normal (off size : Nat) (rest : IoBuffer)
  deriving DecidableEq, Repr

namespace PacketProtocolLen

/-- The default of the template parameter `maxLen` of `decode`. -/
def maxLen : Nat := 65535

/-! ## The functions of the source -/

/-- `encode(const string& data)`. -/
def encode (data : List UInt8) : Option IoBuffer :=
  let bufferLen := u32 (data.length + 4)
  ((IoBuffer.new bufferLen).pushBackWord bufferLen).bind fun buffer => buffer.pushBack data

/-- `encode(const google::protobuf::Message& msg)`, for a message of the given
`ByteSize()` whose `SerializeToArray` produces the given bytes or fails. -/
def encodeMessage (byteSize : Nat) (serialized : Option (List UInt8)) : Option IoBuffer :=
  let bufferLen := u32 (byteSize + 4)
  ((IoBuffer.new bufferLen).pushBackWord bufferLen).bind fun buffer =>
    serialized.map fun bytes =>
      { buffer with data := poke buffer.data (buffer.head + 4) bytes }.writeN byteSize

/-- The loop of `decode` over the first four characters: each is sign extended,
shifted into place, masked and added. -/
def readLength (data : List UInt8) : Nat :=
  ([0, 1, 2, 3].foldl
    (fun (bufferLen : BitVec 32) i => bufferLen + maskedShift (data.getD i 0) ((3 - i) * 8))
    0#32).toNat

/-- `decode<maxLen>(IoBuffer* in, const char*& buffer, uint32_t& size)`. -/
def decode (b : IoBuffer) : Packet :=
  let len := b.getSize
  if len < 4 then .less
  else
    let bufferLen := readLength (b.data.drop b.head)
    if bufferLen > maxLen then .error
    else if len < bufferLen then .less
    else .normal (b.head + 4) (sub32 bufferLen 4) (b.readN bufferLen)

/-! ## The format -/

/-- The length word of a frame. -/
def header (bs : List UInt8) : Nat := readBigEndian bs

/-- A frame is decoded once it is there as a whole; words above `maxLen` or below 4
are malformed. -/
def decodeFrame (bs : List UInt8) : Verdict UInt8 (List UInt8) :=
  if bs.length < 4 then .less
  else if header bs > maxLen then .error
  else if header bs < 4 then .error
  else if bs.length < header bs then .less
  else .packet ((bs.take (header bs)).drop 4) (bs.drop (header bs))

theorem decodeFrame_of_packet {xs p rest : List UInt8} (h : decodeFrame xs = .packet p rest) :
    4 ≤ xs.length ∧ header xs ≤ maxLen ∧ 4 ≤ header xs ∧ header xs ≤ xs.length ∧
      p = (xs.take (header xs)).drop 4 ∧ rest = xs.drop (header xs) := by
  unfold decodeFrame at h
  split at h
  · cases h
  · split at h
    · cases h
    · split at h
      · cases h
      · split at h
        · cases h
        · injection h with hp hrest
          exact ⟨by omega, by omega, by omega, by omega, hp.symm, hrest.symm⟩

theorem decodeFrame_packet_append {xs p rest : List UInt8} (ys : List UInt8)
    (h : decodeFrame xs = .packet p rest) :
    decodeFrame (xs ++ ys) = .packet p (rest ++ ys) := by
  obtain ⟨hlen, hmax, hmin, hfit, rfl, rfl⟩ := decodeFrame_of_packet h
  have hheader : header (xs ++ ys) = header xs := readBigEndian_append hlen ys
  have hlenApp : (xs ++ ys).length = xs.length + ys.length := List.length_append
  unfold decodeFrame
  rw [hheader, if_neg (by omega), if_neg (by omega), if_neg (by omega), if_neg (by omega),
    List.take_append_of_le_length hfit, List.drop_append_of_le_length hfit]

theorem decodeFrame_error_append {xs : List UInt8} (ys : List UInt8)
    (h : decodeFrame xs = .error) : decodeFrame (xs ++ ys) = .error := by
  have hlen : 4 ≤ xs.length := by
    by_cases hlt : xs.length < 4
    · rw [decodeFrame, if_pos hlt] at h
      cases h
    · omega
  have hheader : header (xs ++ ys) = header xs := readBigEndian_append hlen ys
  have hlenApp : (xs ++ ys).length = xs.length + ys.length := List.length_append
  unfold decodeFrame at h ⊢
  rw [if_neg (by omega)] at h
  rw [hheader, if_neg (by omega)]
  split at h
  · rename_i hmax
    rw [if_pos hmax]
  · rename_i hmax
    rw [if_neg hmax]
    split at h
    · rename_i hmin
      rw [if_pos hmin]
    · split at h <;> cases h

/-- The length-prefixed format as a stable decoder. -/
def lenDecoder : StableDecoder UInt8 (List UInt8) where
  decode := decodeFrame
  shrinks h := by
    obtain ⟨hlen, _, hmin, _, -, rfl⟩ := decodeFrame_of_packet h
    rw [List.length_drop]
    omega
  packet_append := decodeFrame_packet_append
  error_append := decodeFrame_error_append

/-- The complete well-formed frames at the front of a byte string. -/
def frames (bs : List UInt8) : List (List UInt8) := (lenDecoder.drain bs).packets

/-! ## The decoder of the source against the format -/

/-- Signed characters and masks notwithstanding, the loop reads a big-endian word. -/
theorem readLength_eq : ∀ {bs : List UInt8}, 4 ≤ bs.length → readLength bs = header bs := by
  intro bs h
  match bs, h with
  | a :: b :: c :: d :: rest, _ =>
    have ha := a.toNat_lt
    have hb := b.toNat_lt
    have hc := c.toNat_lt
    have hd := d.toNat_lt
    simp only [readLength, header, readBigEndian, List.foldl_cons, List.foldl_nil,
      List.getD_cons_zero, List.getD_cons_succ, BitVec.toNat_add, Nat.reduceSub, Nat.reduceMul,
      toNat_maskedShift _ (show 24 ≤ 24 by decide), toNat_maskedShift _ (show 16 ≤ 24 by decide),
      toNat_maskedShift _ (show 8 ≤ 24 by decide), toNat_maskedShift _ (show 0 ≤ 24 by decide),
      BitVec.toNat_ofNat]
    omega

theorem header_block {b : IoBuffer} (h : b.WF) (hlen : 4 ≤ b.contents.length) :
    readLength (b.data.drop b.head) = header b.contents := by
  have hsplit : b.data.drop b.head = b.contents ++ b.data.drop b.tail := by
    have hle := h.head_le_tail
    have htail := h.tail_le_capacity
    have hdata := h.length_data
    rw [IoBuffer.contents, ← List.drop_append_of_le_length, List.take_append_drop]
    rw [List.length_take]
    omega
  rw [hsplit, readLength_eq (by rw [List.length_append]; omega)]
  exact readBigEndian_append hlen _

/-- What `decode` answers, in terms of the bytes buffered. -/
theorem decode_eq {b : IoBuffer} (h : b.WF) :
    decode b =
      if b.contents.length < 4 then .less
      else if header b.contents > maxLen then .error
      else if b.contents.length < header b.contents then .less
      else .normal (b.head + 4) (sub32 (header b.contents) 4) (b.readN (header b.contents)) := by
  simp only [decode, ← h.length_contents]
  by_cases hlen : b.contents.length < 4
  · rw [if_pos hlen, if_pos hlen]
  · rw [if_neg hlen, if_neg hlen, header_block h (by omega)]

/-- The payload bytes a parser hands out. -/
def payload (b : IoBuffer) (off size : Nat) : List UInt8 := (b.data.drop off).take size

/-- Between the length word and the end of a frame that is there as a whole lies its
payload. -/
theorem payload_eq {b : IoBuffer} (h : b.WF) (hmin : 4 ≤ header b.contents)
    (hfit : header b.contents ≤ b.contents.length) :
    payload b (b.head + 4) (sub32 (header b.contents) 4)
      = (b.contents.take (header b.contents)).drop 4 := by
  have hlt : header b.contents < 2 ^ 32 := readBigEndian_lt _
  have hlen := h.contents_length_add_head
  rw [sub32_of_le hmin hlt, payload]
  generalize header b.contents = n at *
  have hcontents : b.contents = (b.data.drop b.head).take (b.tail - b.head) := by
    rw [IoBuffer.contents, List.drop_take]
  rw [hcontents, List.take_take, List.drop_take, List.drop_drop, Nat.min_eq_left (by omega)]

/-- **The decoder of the source implements the format** wherever the length word is
not below 4. -/
theorem decode_refines {b : IoBuffer} (h : b.WF)
    (hmin : 4 ≤ b.contents.length → 4 ≤ header b.contents) :
    match decodeFrame b.contents with
    | .less => decode b = .less
    | .error => decode b = .error
    | .packet p rest => ∃ off size b', decode b = .normal off size b' ∧
        payload b off size = p ∧ b'.contents = rest ∧ b'.WF ∧ b'.capacity = b.capacity := by
  rw [decode_eq h, decodeFrame]
  by_cases hlen : b.contents.length < 4
  · rw [if_pos hlen, if_pos hlen]
  · rw [if_neg hlen, if_neg hlen]
    have hmin4 := hmin (by omega)
    by_cases hmax : header b.contents > maxLen
    · rw [if_pos hmax, if_pos hmax]
    · rw [if_neg hmax, if_neg hmax, if_neg (by omega)]
      by_cases hfit : b.contents.length < header b.contents
      · rw [if_pos hfit, if_pos hfit]
      · rw [if_neg hfit, if_neg hfit]
        have hsize : header b.contents ≤ b.getSize := by
          rw [← h.length_contents]
          omega
        exact ⟨_, _, _, rfl, payload_eq h hmin4 (by omega), h.contents_readN _,
          h.readN hsize, IoBuffer.readN_capacity _ _⟩

/-- A decode that answers `Packet_Normal`, seen from the bytes buffered. -/
theorem decode_normal {b b' : IoBuffer} {off size : Nat} (hwf : b.WF)
    (h : decode b = .normal off size b') :
    4 ≤ b.contents.length ∧ header b.contents ≤ b.contents.length ∧ off = b.head + 4 ∧
      size = sub32 (header b.contents) 4 ∧ b' = b.readN (header b.contents) := by
  rw [decode_eq hwf] at h
  split at h
  · cases h
  · split at h
    · cases h
    · split at h
      · cases h
      · injection h with hoff hsize hb'
        exact ⟨by omega, by omega, hoff.symm, hsize.symm, hb'.symm⟩

/-- The assertion of `readN` holds where `decode` calls it. -/
theorem decode_readN_assert {b b' : IoBuffer} {off size : Nat} (hwf : b.WF)
    (h : decode b = .normal off size b') : header b.contents ≤ b.getSize := by
  rw [← hwf.length_contents]
  exact (decode_normal hwf h).2.1

/-! ## The length words a receiver reaches -/

/-- The length words met while decoding at most `fuel` frames, up to the first that
does not start a complete well-formed frame. -/
def headersFuel : Nat → List UInt8 → List Nat
  | 0, _ => []
  | fuel + 1, bs =>
      match decodeFrame bs with
      | .packet _ rest => header bs :: headersFuel fuel rest
      | _ => if bs.length < 4 then [] else [header bs]

/-- The length words a receiver of `bs` reaches. -/
def headers (bs : List UInt8) : List Nat := headersFuel (bs.length + 1) bs

theorem headersFuel_eq_headers : ∀ (n : Nat) (bs : List UInt8), bs.length < n →
    headersFuel n bs = headers bs := by
  have aux : ∀ (n m : Nat) (bs : List UInt8), bs.length < n → bs.length < m →
      headersFuel n bs = headersFuel m bs := by
    intro n
    induction n with
    | zero => intro m bs hn _; exact absurd hn (Nat.not_lt_zero _)
    | succ n ih =>
      intro m bs hn hm
      cases m with
      | zero => exact absurd hm (Nat.not_lt_zero _)
      | succ m =>
        simp only [headersFuel]
        cases hd : decodeFrame bs with
        | less => rfl
        | error => rfl
        | packet p rest =>
          have hlt := lenDecoder.shrinks hd
          simp only
          rw [ih m rest (by omega) (by omega)]
  intro n bs hn
  exact aux n (bs.length + 1) bs hn (Nat.lt_succ_self _)

theorem headers_of_packet {bs p rest : List UInt8} (h : decodeFrame bs = .packet p rest) :
    headers bs = header bs :: headers rest := by
  have hlt := lenDecoder.shrinks h
  rw [headers]
  simp only [headersFuel, h]
  rw [headersFuel_eq_headers bs.length rest hlt]

theorem headers_of_not_packet {bs : List UInt8} (h : ∀ p rest, decodeFrame bs ≠ .packet p rest) :
    headers bs = if bs.length < 4 then [] else [header bs] := by
  simp only [headers, headersFuel]

/-- Every length word reached is at least 4. -/
def HeadersOk (bs : List UInt8) : Prop := ∀ n ∈ headers bs, 4 ≤ n

instance (bs : List UInt8) : Decidable (HeadersOk bs) :=
  inferInstanceAs (Decidable (∀ n ∈ headers bs, 4 ≤ n))

theorem HeadersOk.header {bs : List UInt8} (h : HeadersOk bs) (hlen : 4 ≤ bs.length) :
    4 ≤ header bs := by
  cases hd : decodeFrame bs with
  | packet p rest => exact (decodeFrame_of_packet hd).2.2.1
  | less =>
    apply h _
    rw [headers_of_not_packet (by simp [hd]), if_neg (by omega)]
    exact List.mem_singleton.mpr rfl
  | error =>
    apply h _
    rw [headers_of_not_packet (by simp [hd]), if_neg (by omega)]
    exact List.mem_singleton.mpr rfl

theorem HeadersOk.rest {bs p rest : List UInt8} (h : HeadersOk bs)
    (hd : decodeFrame bs = .packet p rest) : HeadersOk rest := by
  intro n hn
  apply h n
  rw [headers_of_packet hd]
  exact List.mem_cons_of_mem _ hn

/-- A prefix reaches no length word that the whole does not. -/
theorem HeadersOk.of_append {xs ys : List UInt8} (h : HeadersOk (xs ++ ys)) : HeadersOk xs := by
  induction hn : xs.length using Nat.strongRecOn generalizing xs with
  | _ n ih =>
    intro w hw
    by_cases hlen : xs.length < 4
    · rw [headers_of_not_packet (by simp [decodeFrame, hlen]), if_pos hlen] at hw
      cases hw
    have hheader : PacketProtocolLen.header (xs ++ ys) = PacketProtocolLen.header xs :=
      readBigEndian_append (by omega) ys
    have hfirst : 4 ≤ PacketProtocolLen.header xs := by
      rw [← hheader]
      exact h.header (by rw [List.length_append]; omega)
    cases hd : decodeFrame xs with
    | packet p rest =>
      rw [headers_of_packet hd, List.mem_cons] at hw
      rcases hw with rfl | hw
      · exact hfirst
      · have happ := decodeFrame_packet_append ys hd
        exact ih rest.length (hn ▸ lenDecoder.shrinks hd) (h.rest happ) rfl w hw
    | less =>
      rw [headers_of_not_packet (by simp [hd]), if_neg hlen, List.mem_singleton] at hw
      rw [hw]
      exact hfirst
    | error =>
      rw [headers_of_not_packet (by simp [hd]), if_neg hlen, List.mem_singleton] at hw
      rw [hw]
      exact hfirst

/-- Nor does what draining a portion leaves, followed by the next portion. -/
theorem HeadersOk.rest_append {xs ys : List UInt8} (h : HeadersOk (xs ++ ys))
    (hrej : (lenDecoder.drain xs).rejected = false) :
    HeadersOk ((lenDecoder.drain xs).rest ++ ys) := by
  induction hn : xs.length using Nat.strongRecOn generalizing xs with
  | _ n ih =>
    cases hd : lenDecoder.decode xs with
    | less => rw [lenDecoder.drain_of_less hd]; exact h
    | error => rw [lenDecoder.drain_of_error hd] at hrej; cases hrej
    | packet p rest =>
      rw [lenDecoder.drain_of_packet hd] at hrej ⊢
      have hrest := h.rest (decodeFrame_packet_append ys hd)
      exact ih rest.length (hn ▸ lenDecoder.shrinks hd) hrest hrej rfl

/-! ## Encoding -/

/-- The bytes of one frame. -/
def frame (data : List UInt8) : List UInt8 := bigEndian (data.length + 4) ++ data

/-- `encode` of a string whose frame length fits its word. -/
theorem encode_eq {data : List UInt8} (h : data.length + 4 < 2 ^ 32) :
    ∃ b, encode data = some b ∧ b.WF ∧ b.contents = frame data := by
  have hnew : (IoBuffer.new (data.length + 4)).WF := IoBuffer.wf_new h
  have hroom : 4 ≤ (IoBuffer.new (data.length + 4)).getRemainingSize := by
    rw [hnew.getRemainingSize_eq]
    simp [IoBuffer.new]
  obtain ⟨r, hr, hrwf, hrc, hrcap, hrtail⟩ := hnew.pushBackWord (data.length + 4) hroom
  have hroom' : data.length ≤ r.getRemainingSize := by
    rw [hrwf.getRemainingSize_eq, hrcap, hrtail]
    simp [IoBuffer.new]
  obtain ⟨b, hb, hbwf, hbc, -, -⟩ := hrwf.pushBack hroom'
  refine ⟨b, ?_, hbwf, ?_⟩
  · rw [encode, u32_of_lt h]
    simp only [hr, Option.bind_some, hb]
  · rw [hbc, hrc, IoBuffer.contents_new, List.nil_append, frame]

/-- `encode` of a message produces the same frame as `encode` of its bytes. -/
theorem encodeMessage_eq {bytes : List UInt8} (h : bytes.length + 4 < 2 ^ 32) :
    ∃ b, encodeMessage bytes.length (some bytes) = some b ∧ b.WF ∧
      b.contents = frame bytes := by
  have hnew : (IoBuffer.new (bytes.length + 4)).WF := IoBuffer.wf_new h
  have hroom : 4 ≤ (IoBuffer.new (bytes.length + 4)).getRemainingSize := by
    rw [hnew.getRemainingSize_eq]
    simp [IoBuffer.new]
  obtain ⟨r, hr, hrwf, hrc, hrcap, hrtail⟩ := hnew.pushBackWord (bytes.length + 4) hroom
  have hlen := hrwf.contents_length_add_head
  rw [hrc, IoBuffer.contents_new, List.nil_append, length_bigEndian, hrtail] at hlen
  have htail0 : (IoBuffer.new (bytes.length + 4)).tail = 0 := rfl
  -- the message is serialized behind the length word, which is where the tail is
  have hfill : { r with data := poke r.data (r.head + 4) bytes } = r.fill bytes := by
    rw [IoBuffer.fill, hrtail, show r.head + 4 = (IoBuffer.new (bytes.length + 4)).tail + 4 by
      omega]
  have hroom' : bytes.length ≤ r.getRemainingSize := by
    rw [hrwf.getRemainingSize_eq, hrcap, hrtail, htail0, IoBuffer.capacity_new]
    omega
  obtain ⟨hwf, hcontents, -⟩ := hrwf.fill_writeN hroom'
  refine ⟨_, ?_, hwf, ?_⟩
  · rw [encodeMessage, u32_of_lt h]
    simp only [hr, Option.bind_some, Option.map_some, hfill]
  · rw [hcontents, hrc, IoBuffer.contents_new, List.nil_append, frame]

/-- `b` is what one of the two overloads of `encode` makes of the payload. -/
def Encodes (data : List UInt8) (b : IoBuffer) : Prop :=
  encode data = some b ∨ encodeMessage data.length (some data) = some b

theorem Encodes.contents {data : List UInt8} {b : IoBuffer} (h : Encodes data b)
    (hlen : data.length + 4 < 2 ^ 32) : b.contents = frame data := by
  rcases h with h | h
  · obtain ⟨b', hb', -, hcontents⟩ := encode_eq hlen
    have heq : b = b' := Option.some.inj (h.symm.trans hb')
    rw [heq, hcontents]
  · obtain ⟨b', hb', -, hcontents⟩ := encodeMessage_eq hlen
    have heq : b = b' := Option.some.inj (h.symm.trans hb')
    rw [heq, hcontents]

/-- Every list of payloads that fit a frame is encoded by either overload. -/
theorem exists_encodes : ∀ {payloads : List (List UInt8)},
    (∀ data ∈ payloads, data.length ≤ 65531) → ∃ bufs, List.Forall₂ Encodes payloads bufs := by
  intro payloads
  induction payloads with
  | nil => intro _; exact ⟨[], .nil⟩
  | cons data payloads ih =>
    intro h
    obtain ⟨bufs, hbufs⟩ := ih (fun d hd => h d (List.mem_cons_of_mem _ hd))
    have hdata := h data List.mem_cons_self
    have hlen : data.length + 4 < 2 ^ 32 := by omega
    obtain ⟨b, hb, -, -⟩ := encode_eq hlen
    exact ⟨b :: bufs, .cons (Or.inl hb) hbufs⟩

theorem flatten_encodes : ∀ {payloads : List (List UInt8)} {bufs : List IoBuffer},
    List.Forall₂ Encodes payloads bufs → (∀ data ∈ payloads, data.length ≤ 65531) →
    (bufs.map IoBuffer.contents).flatten = (payloads.map frame).flatten := by
  intro payloads bufs hall
  induction hall with
  | nil => intro _; rfl
  | cons hd _ ih =>
    intro h
    have hdata := h _ List.mem_cons_self
    rw [List.map_cons, List.flatten_cons, hd.contents (by omega),
      ih (fun d hd => h d (List.mem_cons_of_mem _ hd)), List.map_cons, List.flatten_cons]

/-- The length word of a frame whose length fits it. -/
theorem header_frame_append {data : List UInt8} (h : data.length + 4 < 2 ^ 32)
    (more : List UInt8) : header (frame data ++ more) = data.length + 4 := by
  rw [header, frame, List.append_assoc]
  exact readBigEndian_bigEndian_append h _

theorem length_frame (data : List UInt8) : (frame data).length = data.length + 4 := by
  rw [frame, List.length_append, length_bigEndian, Nat.add_comm]

/-- A frame at the front of a byte string is decoded to its payload. -/
theorem decodeFrame_frame {data : List UInt8} (h : data.length ≤ 65531) (bs : List UInt8) :
    decodeFrame (frame data ++ bs) = .packet data bs := by
  have hheader : header (frame data ++ bs) = data.length + 4 :=
    header_frame_append (by omega) bs
  have hframe : (frame data).length = data.length + 4 := length_frame data
  have hlen : (frame data ++ bs).length = data.length + 4 + bs.length := by
    rw [List.length_append, hframe]
  rw [decodeFrame, hheader, hlen, if_neg (by omega), if_neg (by unfold maxLen; omega),
    if_neg (by omega), if_neg (by omega), List.take_left' hframe, List.drop_left' hframe]
  congr 1

/-- Decoding a concatenation of frames gives back their payloads. -/
theorem drain_frames : ∀ (payloads : List (List UInt8)),
    (∀ data ∈ payloads, data.length ≤ 65531) →
    lenDecoder.drain (payloads.map frame).flatten = ⟨payloads, false, []⟩ := by
  intro payloads
  induction payloads with
  | nil => intro _; rfl
  | cons data payloads ih =>
    intro h
    have hd : lenDecoder.decode ((data :: payloads).map frame).flatten
        = .packet data (payloads.map frame).flatten :=
      decodeFrame_frame (h data List.mem_cons_self) _
    rw [lenDecoder.drain_of_packet hd, ih (fun d hd => h d (List.mem_cons_of_mem _ hd))]
    rfl

theorem headersOk_frames : ∀ (payloads : List (List UInt8)),
    (∀ data ∈ payloads, data.length ≤ 65531) → HeadersOk (payloads.map frame).flatten := by
  intro payloads
  induction payloads with
  | nil => intro _; decide
  | cons data payloads ih =>
    intro h
    have hd := decodeFrame_frame (h data List.mem_cons_self) (payloads.map frame).flatten
    have hmin := (decodeFrame_of_packet hd).2.2.1
    intro n hn
    rw [List.map_cons, List.flatten_cons, headers_of_packet hd, List.mem_cons] at hn
    rcases hn with rfl | hn
    · exact hmin
    · exact ih (fun d hd => h d (List.mem_cons_of_mem _ hd)) n hn

/-! ## The limit of the decoder against the reach of the encoder -/

/-- A frame longer than `maxLen` is an error wherever it is received. -/
theorem decode_frame_error {data more : List UInt8} {b : IoBuffer} (hb : b.WF)
    (hcontents : b.contents = frame data ++ more) (hlen : data.length + 4 < 2 ^ 32)
    (hlong : 65531 < data.length) : decode b = .error := by
  have hheader : header b.contents = data.length + 4 := by
    rw [hcontents, header_frame_append hlen]
  have hsize : b.contents.length = data.length + 4 + more.length := by
    rw [hcontents, List.length_append, length_frame]
  rw [decode_eq hb, if_neg (by omega), if_pos (by rw [hheader, maxLen]; omega)]

/-- A frame within `maxLen` is decoded to its payload, what follows it is left. -/
theorem decode_frame_normal {data more : List UInt8} {b : IoBuffer} (hb : b.WF)
    (hcontents : b.contents = frame data ++ more) (hlen : data.length ≤ 65531) :
    ∃ off size rest, decode b = .normal off size rest ∧ payload b off size = data ∧
      rest.contents = more := by
  have hframe : decodeFrame b.contents = .packet data more := by
    rw [hcontents]
    exact decodeFrame_frame hlen more
  have hmin := (decodeFrame_of_packet hframe).2.2.1
  have hdecode := decode_refines hb (fun _ => hmin)
  rw [hframe] at hdecode
  obtain ⟨off, size, rest, hnormal, hpayload, hrest, -, -⟩ := hdecode
  exact ⟨off, size, rest, hnormal, hpayload, hrest⟩

/-- **The peer's decoder accepts a frame exactly when its payload has at most 65531
bytes.**  `encode` has no such limit: it frames any payload whose length fits the word. -/
theorem decode_of_encodes_iff {data more : List UInt8} {buf b : IoBuffer}
    (hlen : data.length < 2 ^ 32 - 4) (hbuf : Encodes data buf) (hb : b.WF)
    (hcontents : b.contents = buf.contents ++ more) :
    (∃ off size rest, decode b = .normal off size rest ∧ payload b off size = data ∧
        rest.contents = more) ↔
      data.length ≤ 65531 := by
  have hfits : data.length + 4 < 2 ^ 32 := by omega
  rw [hbuf.contents hfits] at hcontents
  constructor
  · intro h
    obtain ⟨off, size, rest, hnormal, -, -⟩ := h
    by_contra hlong
    rw [decode_frame_error hb hcontents hfits (by omega)] at hnormal
    cases hnormal
  · exact decode_frame_normal hb hcontents

/-- The frame of an empty payload comes back. -/
theorem decode_of_encodes_nil :
    ∃ buf, Encodes [] buf ∧ ∃ off size rest, decode buf = .normal off size rest ∧
      payload buf off size = [] ∧ rest.contents = [] := by
  obtain ⟨buf, hbuf, hwf, -⟩ := @encode_eq [] (by decide)
  exact ⟨buf, Or.inl hbuf, (decode_of_encodes_iff (by decide) (Or.inl hbuf) hwf
    (List.append_nil _).symm).mpr (by decide)⟩

/-- A payload of 65532 bytes is framed, and its frame is rejected. -/
theorem encodes_not_accepted :
    ∃ (data : List UInt8) (buf : IoBuffer), data.length < 2 ^ 32 - 4 ∧
      encode data = some buf ∧ encodeMessage data.length (some data) ≠ none ∧
      buf.WF ∧ decode buf = .error := by
  have hlen : (List.replicate 65532 (0 : UInt8)).length = 65532 := List.length_replicate
  have hfits : (List.replicate 65532 (0 : UInt8)).length + 4 < 2 ^ 32 := by rw [hlen]; omega
  obtain ⟨buf, hbuf, hwf, hcontents⟩ := encode_eq hfits
  obtain ⟨msg, hmsg, -⟩ := encodeMessage_eq hfits
  have hframe : buf.contents = frame (List.replicate 65532 0) ++ [] := by
    rw [hcontents, List.append_nil]
  refine ⟨List.replicate 65532 0, buf, by rw [hlen]; omega, hbuf, ?_, hwf, ?_⟩
  · rw [hmsg]
    exact Option.some_ne_none msg
  · apply decode_frame_error hwf hframe hfits
    rw [hlen]
    omega

end PacketProtocolLen

/-! ## Any parser -/

/-- The answer of a parser to the buffer is that of a decoder to the unread bytes: a packet is
handed out where it stands, and read. -/
def Packet.Matches (answer : Packet) (b : IoBuffer) : Verdict UInt8 (List UInt8) → Prop
  | .less => answer = .less
  | .error => answer = .error
  | .packet p rest => ∃ off size n, answer = .normal off size (b.readN n) ∧
      PacketProtocolLen.payload b off size = p ∧ (b.readN n).contents = rest ∧ n ≤ b.getSize

/-- A parser that answers as the decoder does to all bytes that meet `Ok`. -/
structure Parses (parser : IoBuffer → Packet) (D : StableDecoder UInt8 (List UInt8))
    (Ok : List UInt8 → Prop) : Prop where
  answer : ∀ b, b.WF → Ok b.contents → (parser b).Matches b (D.decode b.contents)
  rest : ∀ bs p rest, Ok bs → D.decode bs = .packet p rest → Ok rest

/-- `PacketProtocolLen::decode` does where no length word below 4 is reached. -/
theorem PacketProtocolLen.parses : Parses decode lenDecoder HeadersOk where
  answer b hwf hok := by
    have hanswer := decode_refines hwf hok.header
    show (decode b).Matches b (decodeFrame b.contents)
    cases hd : decodeFrame b.contents with
    | less =>
      rw [hd] at hanswer
      exact hanswer
    | error =>
      rw [hd] at hanswer
      exact hanswer
    | packet p rest =>
      rw [hd] at hanswer
      obtain ⟨off, size, b', hnormal, hp, hrest, -, -⟩ := hanswer
      obtain ⟨-, -, -, -, hb'⟩ := decode_normal hwf hnormal
      rw [hb'] at hnormal hrest
      exact ⟨off, size, _, hnormal, hp, hrest, decode_readN_assert hwf hnormal⟩
  rest _ _ _ hok hd := hok.rest hd

end StormNet.Util
