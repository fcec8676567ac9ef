/-
  Net/ByteQueue.lean --- the buffers of `net/io_buffer.h` as byte queues.

  The system is a number of buffers; constructors add one, and the other operations work on
  one of them, `push_back(IoBuffer::ptr)` also on a second one or twice on the same.  Each
  buffer is a list of bytes that is cut in front, cut at the back, or extended.
-/
import StormNet.Foundation.Transition
import StormNet.Net.IoBuffer

set_option autoImplicit false

namespace StormNet.Net

open StormNet.Foundation

namespace IoBuffer

/-! ## The source -/

/-- The bytes from `getHead()` on, `getSize()` of them. -/
def headBytes (b : IoBuffer) : List UInt8 := (b.data.drop b.head).take b.getSize

/-- `IoBuffer(const IoBuffer& rhs)`: a new block, in which only these bytes are written. -/
def copy (rhs : IoBuffer) : IoBuffer :=
  { rhs with data := poke (List.replicate rhs.capacity 0) rhs.head rhs.headBytes }

/-- `subTail`. -/
def subTail (b : IoBuffer) (size : Nat) : IoBuffer :=
  if b.getSize < size then b else { b with tail := sub32 b.tail size }

/-- `push_back(IoBuffer::ptr)`, with another buffer. -/
def pushBackBuffer (b buffer : IoBuffer) : Option IoBuffer :=
  (b.reserve buffer.getSize).map fun r =>
    { r.fill buffer.headBytes with tail := u32 (r.tail + buffer.getSize) }

/-- `push_back(IoBuffer::ptr)`, with the buffer itself: it is read behind `reserve`. -/
def pushBackSelf (b : IoBuffer) : Option IoBuffer :=
  (b.reserve b.getSize).map fun r =>
    { r.fill r.headBytes with tail := u32 (r.tail + r.getSize) }

end IoBuffer

/-- The operations on one buffer. -/
inductive BufferOp where
  | readN (iSize : Nat)
  /-- the bytes are stored at `getTail()` in front of the call -/
  | writeN (bytes : List UInt8)
  | subTail (size : Nat)
  | reset
  | doubleCapacity
  | reserve (addSize : Nat)
  | pushBack (str : List UInt8)
  | pushBackWord (data : Nat)
  | pushBackSelf
  deriving DecidableEq, Repr

namespace BufferOp

def apply (op : BufferOp) (b : IoBuffer) : Option IoBuffer :=
  match op with
  | readN iSize => some (b.readN iSize)
  | writeN bytes => some ((b.fill bytes).writeN bytes.length)
  | subTail size => some (b.subTail size)
  | reset => some b.reset
  | doubleCapacity => some b.doubleCapacity
  | reserve addSize => b.reserve addSize
  | pushBack str => b.pushBack str
  | pushBackWord data => b.pushBackWord data
  | pushBackSelf => b.pushBackSelf

/-- The two assertions hold, and no size reaches 2^31. -/
def Fits (op : BufferOp) (b : IoBuffer) : Prop :=
  match op with
  | readN iSize => iSize ≤ b.getSize
  | writeN bytes => bytes.length ≤ b.getRemainingSize
  | subTail _ | reset => True
  | doubleCapacity => b.capacity < 2 ^ 31
  | reserve addSize => b.tail + addSize < 2 ^ 31
  | pushBack str => b.tail + str.length < 2 ^ 31
  | pushBackWord _ => b.tail + 4 < 2 ^ 31
  | pushBackSelf => b.tail + b.getSize < 2 ^ 31

instance (op : BufferOp) (b : IoBuffer) : Decidable (op.Fits b) :=
  match op with
  | readN iSize => inferInstanceAs (Decidable (iSize ≤ b.getSize))
  | writeN bytes => inferInstanceAs (Decidable (bytes.length ≤ b.getRemainingSize))
  | subTail _ | reset => inferInstanceAs (Decidable True)
  | doubleCapacity => inferInstanceAs (Decidable (b.capacity < 2 ^ 31))
  | reserve addSize => inferInstanceAs (Decidable (b.tail + addSize < 2 ^ 31))
  | pushBack str => inferInstanceAs (Decidable (b.tail + str.length < 2 ^ 31))
  | pushBackWord _ => inferInstanceAs (Decidable (b.tail + 4 < 2 ^ 31))
  | pushBackSelf => inferInstanceAs (Decidable (b.tail + b.getSize < 2 ^ 31))

/-- What the operation is for. -/
def onBytes (op : BufferOp) (bytes : List UInt8) : List UInt8 :=
  match op with
  | readN iSize => bytes.drop iSize
  | writeN bs | pushBack bs => bytes ++ bs
  | subTail size => if bytes.length < size then bytes else bytes.take (bytes.length - size)
  | reset => []
  | doubleCapacity | reserve _ => bytes
  | pushBackWord data => bytes ++ bigEndian data
  | pushBackSelf => bytes ++ bytes

end BufferOp

/-- The operations of the system; a buffer is named by its number. -/
inductive QueueOp where
  | create (capacity : Nat)
  /-- `IoBuffer(const string&)` and `IoBuffer(const char*, uint32_t)` -/
  | createFrom (str : List UInt8)
  | copy (i : Nat)
  | on (i : Nat) (op : BufferOp)
  /-- `push_back(IoBuffer::ptr)` on the buffer `i`, with the buffer `j` -/
  | pushBackBuffer (i j : Nat)
  deriving DecidableEq, Repr

namespace QueueOp

def step (bufs : List IoBuffer) : QueueOp → Option (List IoBuffer)
  | create capacity => some (bufs ++ [.new capacity])
  | createFrom str => some (bufs ++ [.ofBytes str])
  | copy i => bufs[i]?.map (fun rhs => bufs ++ [rhs.copy])
  | on i op => (bufs[i]?.bind op.apply).map (bufs.set i)
  | pushBackBuffer i j =>
      if i = j then (bufs[i]?.bind IoBuffer.pushBackSelf).map (bufs.set i)
      else (bufs[i]?.bind (fun b => bufs[j]?.bind b.pushBackBuffer)).map (bufs.set i)

/-- The buffers are there, those that are created hold a byte at least, and sizes fit. -/
def Fits (bufs : List IoBuffer) : QueueOp → Prop
  | create capacity => 1 ≤ capacity ∧ capacity < 2 ^ 32
  | createFrom str => 1 ≤ str.length ∧ str.length < 2 ^ 32
  | copy i => i < bufs.length
  | on i op => ∃ b ∈ bufs[i]?, op.Fits b
  | pushBackBuffer i j => ∃ b ∈ bufs[i]?, ∃ buffer ∈ bufs[j]?, b.tail + buffer.getSize < 2 ^ 31

instance (bufs : List IoBuffer) (op : QueueOp) : Decidable (Fits bufs op) :=
  match op with
  | create capacity => inferInstanceAs (Decidable (1 ≤ capacity ∧ capacity < 2 ^ 32))
  | createFrom str => inferInstanceAs (Decidable (1 ≤ str.length ∧ str.length < 2 ^ 32))
  | copy i => inferInstanceAs (Decidable (i < bufs.length))
  | on i op => inferInstanceAs (Decidable (∃ b ∈ bufs[i]?, op.Fits b))
  | pushBackBuffer i j => inferInstanceAs (Decidable
      (∃ b ∈ bufs[i]?, ∃ buffer ∈ bufs[j]?, b.tail + buffer.getSize < 2 ^ 31))

/-- The same on lists of bytes. -/
def onBytes (queues : List (List UInt8)) : QueueOp → List (List UInt8)
  | create _ => queues ++ [[]]
  | createFrom str => queues ++ [str]
  | copy i => queues ++ queues[i]?.toList
  | on i op => queues.modify i op.onBytes
  | pushBackBuffer i j => queues.modify i (· ++ queues[j]?.getD [])

end QueueOp

/-! ## One buffer -/

namespace IoBuffer

/-- Well formed, with a capacity that doubles to more. -/
structure Sound (b : IoBuffer) : Prop where
  wf : b.WF
  pos : 1 ≤ b.capacity

variable {b buffer r : IoBuffer} {bs : List UInt8} {n : Nat}

theorem WF.headBytes_eq (h : b.WF) : b.headBytes = b.contents := by
  rw [headBytes, contents, List.drop_take, h.getSize_eq]

theorem WF.copy (h : b.WF) : b.copy.WF ∧ b.copy.contents = b.contents := by
  have htail := h.tail_le_capacity
  have hend := h.contents_length_add_head
  have hblock : b.head + b.contents.length ≤ (List.replicate b.capacity (0 : UInt8)).length := by
    rw [List.length_replicate]
    omega
  unfold IoBuffer.copy
  rw [h.headBytes_eq]
  refine ⟨⟨h.head_le_tail, htail, ?_, h.capacity_lt⟩, ?_⟩
  · rw [length_poke _ _ _ hblock, List.length_replicate]
  · have hhead : ((List.replicate b.capacity (0 : UInt8)).take b.head).length = b.head := by
      rw [List.length_take]
      omega
    show ((poke (List.replicate b.capacity 0) b.head b.contents).take b.tail).drop b.head = _
    rw [show b.tail = b.head + b.contents.length by omega, take_poke _ _ _ (by omega),
      List.drop_left' hhead]

theorem WF.subTail (h : b.WF) (size : Nat) : (b.subTail size).WF ∧
    (b.subTail size).contents =
      if b.contents.length < size then b.contents
      else b.contents.take (b.contents.length - size) := by
  have hle := h.head_le_tail
  have htail := h.tail_le_capacity
  have hcap := h.capacity_lt
  have hsize := h.getSize_eq
  rw [h.length_contents]
  unfold IoBuffer.subTail
  split
  · exact ⟨h, rfl⟩
  · have hnew : sub32 b.tail size = b.tail - size := sub32_of_le (by omega) (by omega)
    rw [hnew]
    refine ⟨⟨?_, ?_, h.length_data, hcap⟩, ?_⟩
    · show b.head ≤ b.tail - size
      omega
    · show b.tail - size ≤ b.capacity
      omega
    · show (b.data.take (b.tail - size)).drop b.head = ((b.data.take b.tail).drop b.head).take _
      rw [List.drop_take, List.drop_take, List.take_take]
      congr 1
      omega

/-- Some doubling of the capacity has the room and is no wrapped word. -/
def CanGrow (b : IoBuffer) (addSize : Nat) : Prop :=
  ∃ k < 32, b.tail + addSize ≤ b.capacity * 2 ^ k ∧ b.capacity * 2 ^ k < 2 ^ 32

instance (b : IoBuffer) (addSize : Nat) : Decidable (b.CanGrow addSize) :=
  inferInstanceAs (Decidable (∃ k < 32, _ ∧ _))

/-- The loop of `reserve` ends at that doubling or before, with the bytes where they were. -/
theorem WF.reserveFuel {k fuel : Nat} (h : b.WF) (hfit : b.tail + n ≤ b.capacity * 2 ^ k)
    (hlt : b.capacity * 2 ^ k < 2 ^ 32) (hfuel : k < fuel) :
    ∃ r, IoBuffer.reserveFuel fuel b n = some r ∧ r.WF ∧ b.capacity ≤ r.capacity ∧
      r.contents = b.contents ∧ n ≤ r.getRemainingSize := by
  induction k generalizing b fuel with
  | zero =>
    obtain ⟨fuel, rfl⟩ := Nat.exists_eq_add_of_lt hfuel
    have hroom : n ≤ b.getRemainingSize := by
      rw [h.getRemainingSize_eq]
      omega
    refine ⟨b, ?_, h, Nat.le_refl _, rfl, hroom⟩
    rw [IoBuffer.reserveFuel, if_neg (Nat.not_lt.mpr hroom)]
  | succ k ih =>
    obtain ⟨fuel, rfl⟩ := Nat.exists_eq_add_of_lt hfuel
    have hdouble : b.capacity * 2 ^ (k + 1) = b.capacity * 2 * 2 ^ k := by
      rw [Nat.pow_succ', Nat.mul_assoc]
    rw [hdouble] at hfit hlt
    rw [IoBuffer.reserveFuel]
    split
    · have hword : b.capacity * 2 ≤ b.capacity * 2 * 2 ^ k :=
        Nat.le_mul_of_pos_right _ (Nat.two_pow_pos k)
      obtain ⟨hwf, hcontents, hcapacity⟩ := h.doubleCapacity (by omega)
      rw [← hcapacity] at hfit hlt
      have hless : k < k + 1 + fuel := by omega
      obtain ⟨r, hr, hlast, hmore, hsame, hroom⟩ := ih hwf hfit hlt hless
      exact ⟨r, hr, hlast, by omega, hsame.trans hcontents, hroom⟩
    · rename_i hroom
      exact ⟨b, rfl, h, Nat.le_refl _, rfl, Nat.le_of_not_lt hroom⟩

theorem WF.reserve (h : b.WF) (hgrow : b.CanGrow n) : ∃ r, b.reserve n = some r ∧ r.WF ∧
    b.capacity ≤ r.capacity ∧ r.contents = b.contents ∧ n ≤ r.getRemainingSize := by
  obtain ⟨k, hk, hfit, hlt⟩ := hgrow
  exact h.reserveFuel hfit hlt (by omega)

/-- A capacity that is not zero doubles into the upper half of the word. -/
theorem Sound.canGrow (h : b.Sound) (hfit : b.tail + n < 2 ^ 31) : b.CanGrow n := by
  have hpos := h.pos
  have hlog : b.capacity.log2 ≤ 31 := by
    have hlt := (Nat.log2_lt (by omega : b.capacity ≠ 0)).mpr h.wf.capacity_lt
    omega
  have hlow : 2 ^ 31 ≤ b.capacity * 2 ^ (31 - b.capacity.log2) :=
    calc 2 ^ 31 = 2 ^ b.capacity.log2 * 2 ^ (31 - b.capacity.log2) := by
          rw [← Nat.pow_add, Nat.add_sub_cancel' hlog]
      _ ≤ b.capacity * 2 ^ (31 - b.capacity.log2) :=
          Nat.mul_le_mul_right _ (Nat.log2_self_le (by omega))
  have hhigh : b.capacity * 2 ^ (31 - b.capacity.log2) < 2 ^ 32 :=
    calc b.capacity * 2 ^ (31 - b.capacity.log2)
        < 2 ^ (b.capacity.log2 + 1) * 2 ^ (31 - b.capacity.log2) :=
          Nat.mul_lt_mul_of_pos_right Nat.lt_log2_self (Nat.two_pow_pos _)
      _ = 2 ^ 32 := by
          rw [← Nat.pow_add]
          congr 1
          omega
  exact ⟨31 - b.capacity.log2, by omega, by omega, hhigh⟩

theorem Sound.reserve (h : b.Sound) (hfit : b.tail + n < 2 ^ 31) :
    ∃ r, b.reserve n = some r ∧ r.Sound ∧ r.contents = b.contents ∧ n ≤ r.getRemainingSize := by
  obtain ⟨r, hr, hwf, hmore, hsame, hroom⟩ := h.wf.reserve (h.canGrow hfit)
  exact ⟨r, hr, ⟨hwf, Nat.le_trans h.pos hmore⟩, hsame, hroom⟩

/-- What each `push_back` does behind `reserve`. -/
theorem WF.extend (h : r.WF) (hroom : bs.length ≤ r.getRemainingSize) :
    ({ r.fill bs with tail := u32 (r.tail + bs.length) } : IoBuffer).WF ∧
      ({ r.fill bs with tail := u32 (r.tail + bs.length) } : IoBuffer).contents =
        r.contents ++ bs := by
  obtain ⟨hwf, hcontents⟩ := h.append hroom
  rw [u32_of_lt (Nat.lt_of_le_of_lt hwf.tail_le_capacity h.capacity_lt)]
  exact ⟨hwf, hcontents⟩

theorem Sound.extend (h : r.Sound) (hroom : bs.length ≤ r.getRemainingSize) :
    ({ r.fill bs with tail := u32 (r.tail + bs.length) } : IoBuffer).Sound ∧
      ({ r.fill bs with tail := u32 (r.tail + bs.length) } : IoBuffer).contents =
        r.contents ++ bs := by
  obtain ⟨hwf, hcontents⟩ := h.wf.extend hroom
  exact ⟨⟨hwf, h.pos⟩, hcontents⟩

theorem Sound.pushBack (h : b.Sound) (hfit : b.tail + bs.length < 2 ^ 31) :
    ∃ r, b.pushBack bs = some r ∧ r.Sound ∧ r.contents = b.contents ++ bs := by
  obtain ⟨r, hr, hsound, hsame, hroom⟩ := h.reserve hfit
  obtain ⟨hlast, hcontents⟩ := hsound.extend hroom
  refine ⟨_, ?_, hlast, hsame ▸ hcontents⟩
  rw [IoBuffer.pushBack, u32_of_lt (by omega), hr, List.take_length]
  rfl

theorem Sound.pushBackWord (h : b.Sound) (hfit : b.tail + 4 < 2 ^ 31) (data : Nat) :
    ∃ r, b.pushBackWord data = some r ∧ r.Sound ∧
      r.contents = b.contents ++ bigEndian data := by
  obtain ⟨r, hr, hsound, hsame, hroom⟩ := h.reserve hfit
  have hword : (bigEndian data).length ≤ r.getRemainingSize := hroom
  obtain ⟨hlast, hcontents⟩ := hsound.extend hword
  refine ⟨_, ?_, hlast, hsame ▸ hcontents⟩
  rw [IoBuffer.pushBackWord, hr, Option.map_some, hsound.wf.storeWord hroom]
  rfl

theorem Sound.pushBackBuffer (h : b.Sound) (hbuffer : buffer.Sound)
    (hfit : b.tail + buffer.getSize < 2 ^ 31) :
    ∃ r, b.pushBackBuffer buffer = some r ∧ r.Sound ∧
      r.contents = b.contents ++ buffer.contents := by
  obtain ⟨r, hr, hsound, hsame, hroom⟩ := h.reserve hfit
  rw [← hbuffer.wf.length_contents] at hfit hroom
  obtain ⟨hlast, hcontents⟩ := hsound.extend hroom
  refine ⟨_, ?_, hlast, hsame ▸ hcontents⟩
  rw [IoBuffer.pushBackBuffer, hr, hbuffer.wf.headBytes_eq, ← hbuffer.wf.length_contents]
  rfl

/-- Growing leaves the bytes to be read, and as many. -/
theorem Sound.pushBackSelf (h : b.Sound) (hfit : b.tail + b.getSize < 2 ^ 31) :
    ∃ r, b.pushBackSelf = some r ∧ r.Sound ∧ r.contents = b.contents ++ b.contents := by
  obtain ⟨r, hr, hsound, hsame, hroom⟩ := h.reserve hfit
  have hsize : r.contents.length = b.getSize := by rw [hsame, h.wf.length_contents]
  rw [← hsize] at hfit hroom
  obtain ⟨hlast, hcontents⟩ := hsound.extend hroom
  refine ⟨_, ?_, hlast, hcontents.trans (by rw [hsame])⟩
  rw [IoBuffer.pushBackSelf, hr, Option.map_some, hsound.wf.headBytes_eq,
    ← hsound.wf.length_contents]

end IoBuffer

/-- Each operation that fits ends, and does to the bytes what it is for. -/
theorem BufferOp.spec {b : IoBuffer} {op : BufferOp} (h : b.Sound) (hfits : op.Fits b) :
    ∃ r, op.apply b = some r ∧ r.Sound ∧ r.contents = op.onBytes b.contents := by
  cases op with
  | readN iSize =>
    have hpos : 1 ≤ (b.readN iSize).capacity := by
      rw [IoBuffer.readN_capacity]
      exact h.pos
    exact ⟨_, rfl, ⟨h.wf.readN hfits, hpos⟩, h.wf.contents_readN iSize⟩
  | writeN bytes =>
    obtain ⟨hwf, hcontents, hcapacity⟩ := h.wf.fill_writeN hfits
    exact ⟨_, rfl, ⟨hwf, hcapacity ▸ h.pos⟩, hcontents⟩
  | subTail size =>
    obtain ⟨hwf, hcontents⟩ := h.wf.subTail size
    refine ⟨_, rfl, ⟨hwf, ?_⟩, hcontents⟩
    unfold IoBuffer.subTail
    split
    · exact h.pos
    · exact h.pos
  | reset =>
    have hwf : b.reset.WF :=
      ⟨Nat.le_refl 0, Nat.zero_le _, h.wf.length_data, h.wf.capacity_lt⟩
    exact ⟨_, rfl, ⟨hwf, h.pos⟩, IoBuffer.contents_reset b⟩
  | doubleCapacity =>
    obtain ⟨hwf, hcontents, hcapacity⟩ := h.wf.doubleCapacity hfits
    have hpos := h.pos
    exact ⟨_, rfl, ⟨hwf, by omega⟩, hcontents⟩
  | reserve addSize =>
    obtain ⟨r, hr, hsound, hsame, -⟩ := h.reserve hfits
    exact ⟨r, hr, hsound, hsame⟩
  | pushBack str => exact h.pushBack hfits
  | pushBackWord data => exact h.pushBackWord hfits data
  | pushBackSelf => exact h.pushBackSelf hfits

/-! ## The system -/

namespace QueueOp

variable {bufs : List IoBuffer} {queues : List (List UInt8)} {op : QueueOp} {b r : IoBuffer}
variable {i : Nat}

/-- The buffers are sound, and hold these bytes. -/
structure Holds (bufs : List IoBuffer) (queues : List (List UInt8)) : Prop where
  sound : ∀ b ∈ bufs, b.Sound
  contents : bufs.map IoBuffer.contents = queues

theorem Holds.get (h : Holds bufs queues) (hb : bufs[i]? = some b) :
    b.Sound ∧ queues[i]? = some b.contents := by
  refine ⟨h.sound b (List.mem_of_getElem? hb), ?_⟩
  rw [← h.contents, List.getElem?_map, hb]
  rfl

theorem Holds.create (h : Holds bufs queues) (hb : b.Sound) :
    Holds (bufs ++ [b]) (queues ++ [b.contents]) := by
  refine ⟨?_, ?_⟩
  · intro b' hb'
    rcases List.mem_append.mp hb' with hold | hnew
    · exact h.sound b' hold
    · rw [List.mem_singleton.mp hnew]
      exact hb
  · rw [List.map_append, h.contents]
    rfl

/-- One buffer is changed, the others stay. -/
theorem Holds.change (h : Holds bufs queues) (hb : bufs[i]? = some b) (hr : r.Sound)
    {f : List UInt8 → List UInt8} (hf : r.contents = f b.contents) :
    Holds (bufs.set i r) (queues.modify i f) := by
  refine ⟨?_, ?_⟩
  · intro b' hb'
    rcases List.mem_or_eq_of_mem_set hb' with hold | hnew
    · exact h.sound b' hold
    · rw [hnew]
      exact hr
  · rw [List.map_set, h.contents, List.modify_eq_set_getElem?, (h.get hb).2, hf]
    rfl

theorem Holds.step (h : Holds bufs queues) (hfits : op.Fits bufs) :
    ∃ bufs', QueueOp.step bufs op = some bufs' ∧ Holds bufs' (onBytes queues op) := by
  cases op with
  | create capacity =>
    have hsound : (IoBuffer.new capacity).Sound := ⟨IoBuffer.wf_new hfits.2, hfits.1⟩
    have hnext := h.create hsound
    rw [IoBuffer.contents_new] at hnext
    exact ⟨_, rfl, hnext⟩
  | createFrom str =>
    have hword : u32 str.length = str.length := u32_of_lt hfits.2
    have hpos : 1 ≤ (IoBuffer.ofBytes str).capacity := by
      show 1 ≤ u32 str.length
      rw [hword]
      exact hfits.1
    have hcontents : (IoBuffer.ofBytes str).contents = str := by
      rw [IoBuffer.contents, IoBuffer.ofBytes, hword, List.take_length, List.take_length]
      rfl
    have hnext := h.create ⟨IoBuffer.wf_ofBytes str, hpos⟩
    rw [hcontents] at hnext
    exact ⟨_, rfl, hnext⟩
  | copy i =>
    have hb := List.getElem?_eq_getElem hfits
    obtain ⟨hsound, hqueue⟩ := h.get hb
    obtain ⟨hwf, hcontents⟩ := hsound.wf.copy
    have hnext := h.create (b := bufs[i].copy) ⟨hwf, hsound.pos⟩
    rw [hcontents] at hnext
    refine ⟨bufs ++ [bufs[i].copy], ?_, ?_⟩
    · rw [QueueOp.step, hb]
      rfl
    · rw [onBytes, hqueue]
      exact hnext
  | on i op =>
    obtain ⟨b, hb, hop⟩ := hfits
    obtain ⟨r, hr, hsound, hcontents⟩ := BufferOp.spec (h.get hb).1 hop
    refine ⟨bufs.set i r, ?_, h.change hb hsound hcontents⟩
    rw [QueueOp.step, hb, Option.bind_some, hr]
    rfl
  | pushBackBuffer i j =>
    obtain ⟨b, hb, buffer, hbuffer, hsum⟩ := hfits
    obtain ⟨hsound, hqueue⟩ := h.get hb
    obtain ⟨hsound', hqueue'⟩ := h.get hbuffer
    rw [onBytes, hqueue', Option.getD_some, QueueOp.step]
    split
    · rename_i hij
      subst hij
      have hsame : b = buffer := Option.some.inj (hb.symm.trans hbuffer)
      subst hsame
      obtain ⟨r, hr, hlast, hcontents⟩ := hsound.pushBackSelf hsum
      refine ⟨bufs.set i r, ?_, h.change hb hlast (f := (· ++ b.contents)) hcontents⟩
      rw [hb, Option.bind_some, hr]
      rfl
    · obtain ⟨r, hr, hlast, hcontents⟩ := hsound.pushBackBuffer hsound' hsum
      refine ⟨bufs.set i r, ?_, h.change hb hlast (f := (· ++ buffer.contents)) hcontents⟩
      rw [hb, Option.bind_some, hbuffer, Option.bind_some, hr]
      rfl

end QueueOp

namespace IoBuffer

/-- **Buffers are byte queues.**  Whatever the operations and their order, as long as they fit:
they all end, head, tail and capacity of each buffer are in order, and the bytes to be read are
those of the list. -/
theorem byte_queue (ops : List QueueOp) (h : Meets QueueOp.step QueueOp.Fits [] ops) :
    ∃ bufs, execute QueueOp.step (fun _ _ => true) [] ops = some bufs ∧
      bufs.map headBytes = ops.foldl QueueOp.onBytes [] ∧
      ∀ b ∈ bufs, b.head ≤ b.tail ∧ b.tail ≤ b.capacity := by
  have hstep : ∀ bufs queues op, QueueOp.Holds bufs queues → QueueOp.Fits bufs op →
      ∃ bufs', QueueOp.step bufs op = some bufs' ∧ QueueOp.Holds bufs' (op.onBytes queues) :=
    fun _ _ _ hholds hfits => hholds.step hfits
  have hstart : QueueOp.Holds [] [] := ⟨fun b hb => (nomatch hb), rfl⟩
  obtain ⟨bufs, hbufs, hholds⟩ := Meets.refines hstep h hstart
  refine ⟨bufs, hbufs, ?_, ?_⟩
  · rw [← hholds.contents]
    apply List.map_congr_left
    intro b hb
    exact (hholds.sound b hb).wf.headBytes_eq
  · intro b hb
    have hwf := (hholds.sound b hb).wf
    exact ⟨hwf.head_le_tail, hwf.tail_le_capacity⟩

/-- A write that moves the bytes down, a word behind them, and a buffer pushed on itself. -/
def queueOps : List QueueOp :=
  [.create 3, .on 0 (.writeN [1, 2]), .on 0 (.readN 1), .on 0 (.writeN [3]), .copy 0,
    .on 0 (.pushBackWord 258), .pushBackBuffer 0 1, .pushBackBuffer 1 1, .on 1 (.subTail 1)]

theorem byte_queue_of_ops : ∃ bufs, execute QueueOp.step (fun _ _ => true) [] queueOps = some bufs ∧
    bufs.map headBytes = [[2, 3, 0, 0, 1, 2, 2, 3], [2, 3, 2]] := by
  obtain ⟨bufs, hbufs, hbytes, -⟩ := byte_queue queueOps (by decide)
  exact ⟨bufs, hbufs, hbytes.trans (by decide)⟩

end IoBuffer

end StormNet.Net
