/-
  Net/IoBuffer.lean --- the growable byte buffer of `net/io_buffer.h`.

  The block `m_data` is a list of bytes and `m_capacity`, `m_head`, `m_tail` are
  32-bit unsigned words held as naturals, with the wrap of the source's arithmetic
  written out where it can happen.  `contents` is the abstract value: the bytes
  between head and tail.  `WF` is the well-formedness every operation keeps, and
  each operation has one specification lemma that says what it does to `contents`.
-/
import StormNet.Foundation.Word

set_option autoImplicit false

namespace StormNet.Net

open StormNet.Foundation

/-- `class IoBuffer`. -/
structure IoBuffer where
  /-- `m_data` -/
  data : List UInt8
  /-- `m_capacity` -/
  capacity : Nat
  /-- `m_head` -/
  head : Nat
  /-- `m_tail` -/
  tail : Nat
  deriving DecidableEq, Repr

/-- Overwrite the bytes of a block from offset `off` on (`memcpy`, or a `read`
into it). -/
def poke (block : List UInt8) (off : Nat) (bs : List UInt8) : List UInt8 :=
  block.take off ++ bs ++ block.drop (off + bs.length)

namespace IoBuffer

/-! ## The operations of the source -/

/-- `IoBuffer(uint32_t capacity)`.  `malloc` leaves the block indeterminate; zero
stands for whatever it holds. -/
def new (capacity : Nat) : IoBuffer := ⟨List.replicate capacity 0, capacity, 0, 0⟩

/-- `IoBuffer(const string& str)` and `IoBuffer(const char* data, uint32_t len)`. -/
def ofBytes (str : List UInt8) : IoBuffer :=
  ⟨str.take (u32 str.length), u32 str.length, 0, u32 str.length⟩

def getSize (b : IoBuffer) : Nat := sub32 b.tail b.head

def getRemainingSize (b : IoBuffer) : Nat := sub32 b.capacity b.tail

def reset (b : IoBuffer) : IoBuffer := { b with head := 0, tail := 0 }

/-- `readN`.  Its assertion `iSize <= getSize()` is an obligation of the callers. -/
def readN (b : IoBuffer) (iSize : Nat) : IoBuffer :=
  if b.head + iSize = b.tail then { b with head := 0, tail := 0 }
  else { b with head := b.head + iSize }

/-- The copying loop of `writeN`: `m_data[i] = m_data[i + m_head]` for each
`i < count`, in this order. -/
def moveDown (head count : Nat) (block : List UInt8) : List UInt8 :=
  (List.range count).foldl (fun d i => d.set i (d.getD (i + head) 0)) block

/-- `writeN`.  Its assertion `iSize <= getRemainingSize()` is an obligation of the
callers. -/
def writeN (b : IoBuffer) (iSize : Nat) : IoBuffer :=
  let iDataSize := u32 (b.getSize + iSize)
  let tail := b.tail + iSize
  if tail = b.capacity ∧ b.head ≠ 0 then
    { b with data := moveDown b.head iDataSize b.data, head := 0, tail := iDataSize }
  else { b with tail := tail }

/-- `doubleCapacity`.  The new block is sized in `size_t`, the capacity wraps; as many bytes as
the capacity says are copied. -/
def doubleCapacity (b : IoBuffer) : IoBuffer :=
  { b with
    data := b.data.take b.capacity ++ List.replicate b.capacity 0
    capacity := u32 (b.capacity * 2) }

/-- At most `fuel` turns of the loop of `reserve`; `none` when it is still
running. -/
def reserveFuel : Nat → IoBuffer → Nat → Option IoBuffer
  | 0, _, _ => none
  | fuel + 1, b, addSize =>
      if b.getRemainingSize < addSize then reserveFuel fuel b.doubleCapacity addSize else some b

/-- `reserve`.  A 32-bit capacity doubles to zero in at most 32 turns and then
stays there, so a loop still running after 33 turns never ends. -/
def reserve (b : IoBuffer) (addSize : Nat) : Option IoBuffer := reserveFuel 34 b addSize

/-- Write at the tail: what `read` stores at `getTail()`. -/
def fill (b : IoBuffer) (bs : List UInt8) : IoBuffer :=
  { b with data := poke b.data b.tail bs }

/-- `push_back(const string&)` and `push_back(const char*, uint32_t)`. -/
def pushBack (b : IoBuffer) (str : List UInt8) : Option IoBuffer :=
  (b.reserve (u32 str.length)).map fun r =>
    { r.fill (str.take (u32 str.length)) with tail := u32 (r.tail + u32 str.length) }

/-- The loop of `push_back(uint32_t)`: the low byte goes to offset 3, then the word
is shifted right, and so on down to offset 0. -/
def storeWord (block : List UInt8) (off n : Nat) : List UInt8 :=
  ([3, 2, 1, 0].foldl
    (fun (acc : List UInt8 × Nat) i =>
      (poke acc.1 (off + i) [UInt8.ofNat (acc.2 % 256)], acc.2 / 256))
    (block, n)).1

/-- `push_back(uint32_t)`. -/
def pushBackWord (b : IoBuffer) (n : Nat) : Option IoBuffer :=
  (b.reserve 4).map fun r =>
    { r with data := storeWord r.data r.tail n, tail := u32 (r.tail + 4) }

/-! ## The abstract value -/

/-- The unread bytes, front to back. -/
def contents (b : IoBuffer) : List UInt8 := (b.data.take b.tail).drop b.head

/-- Head, tail and capacity are in order, the block has the size the capacity
says, and the capacity fits its word. -/
structure WF (b : IoBuffer) : Prop where
  head_le_tail : b.head ≤ b.tail
  tail_le_capacity : b.tail ≤ b.capacity
  length_data : b.data.length = b.capacity
  capacity_lt : b.capacity < 2 ^ 32

end IoBuffer

/-! ## Blocks -/

@[simp] theorem length_poke (block : List UInt8) (off : Nat) (bs : List UInt8)
    (h : off + bs.length ≤ block.length) : (poke block off bs).length = block.length := by
  simp only [poke, List.length_append, List.length_take, List.length_drop]
  omega

/-- Bytes written behind the first `off` are read back behind them. -/
theorem take_poke (block : List UInt8) (off : Nat) (bs : List UInt8) (h : off ≤ block.length) :
    (poke block off bs).take (off + bs.length) = block.take off ++ bs := by
  have hlen : (block.take off ++ bs).length = off + bs.length := by
    rw [List.length_append, List.length_take, Nat.min_eq_left h]
  rw [poke, List.take_append_of_le_length (Nat.le_of_eq hlen.symm), ← hlen, List.take_length]

namespace IoBuffer

/-- The copying loop moves the block down: overlapping source and destination do
no harm because the destination stays below the source. -/
theorem moveDown_eq (head : Nat) (block : List UInt8) : ∀ count : Nat,
    count + head ≤ block.length →
    moveDown head count block = (block.drop head).take count ++ block.drop count := by
  intro count
  induction count with
  | zero => intro _; simp [moveDown]
  | succ n ih =>
    intro h
    have hprev := ih (by omega)
    have hlen : ((block.drop head).take n).length = n := by
      rw [List.length_take, List.length_drop]
      omega
    have hn : n + head < block.length := by omega
    have hread : ((block.drop head).take n ++ block.drop n).getD (n + head) 0
        = block[n + head] := by
      rw [List.getD_eq_getElem?_getD, List.getElem?_append_right (by omega), hlen,
        List.getElem?_drop, show n + (n + head - n) = n + head by omega,
        List.getElem?_eq_getElem hn, Option.getD_some]
    have htail : block.drop n = block[n] :: block.drop (n + 1) :=
      List.drop_eq_getElem_cons (by omega)
    have htake : (block.drop head).take (n + 1)
        = (block.drop head).take n ++ [block[n + head]] := by
      rw [List.take_add_one, List.getElem?_drop, Nat.add_comm head n,
        List.getElem?_eq_getElem hn, Option.toList_some]
    have hstep : moveDown head (n + 1) block
        = (moveDown head n block).set n ((moveDown head n block).getD (n + head) 0) := by
      rw [moveDown, List.range_succ, List.foldl_append]
      rfl
    rw [hstep, hprev, hread, htake, htail, List.set_append_right n _ (by omega), hlen,
      Nat.sub_self, List.set_cons_zero, List.append_assoc, List.singleton_append]

/-- One byte written just in front of a run of bytes. -/
theorem poke_cons (block : List UInt8) (off : Nat) (x : UInt8) (bs : List UInt8)
    (h : off + 1 ≤ block.length) :
    poke (poke block (off + 1) bs) off [x] = poke block off (x :: bs) := by
  have hlen : (block.take (off + 1)).length = off + 1 := by
    rw [List.length_take, Nat.min_eq_left h]
  have htake : (poke block (off + 1) bs).take off = block.take off := by
    rw [poke, List.append_assoc, List.take_append_of_le_length (by omega), List.take_take,
      Nat.min_eq_left (Nat.le_succ off)]
  have hdrop : (poke block (off + 1) bs).drop (off + 1)
      = bs ++ block.drop (off + 1 + bs.length) := by
    rw [poke, List.append_assoc, List.drop_left' hlen]
  rw [poke, htake, List.length_singleton, hdrop, poke, List.length_cons,
    Nat.add_right_comm off 1, ← Nat.add_assoc]
  simp

/-- The shifting loop leaves the big-endian bytes of the word. -/
theorem storeWord_eq (block : List UInt8) (off n : Nat) (h : off + 4 ≤ block.length) :
    storeWord block off n = poke block off (bigEndian n) := by
  have hbyte : ∀ m : Nat, UInt8.ofNat (m % 256) = UInt8.ofNat m := by
    intro m
    apply UInt8.toNat_inj.mp
    simp only [UInt8.toNat_ofNat']
    omega
  simp only [storeWord, List.foldl_cons, List.foldl_nil, hbyte, Nat.div_div_eq_div_mul,
    Nat.add_zero]
  rw [poke_cons block (off + 2) _ _ (by omega), poke_cons block (off + 1) _ _ (by omega),
    poke_cons block off _ _ (by omega)]
  rfl

/-! ## Specifications -/

section Spec

variable {b : IoBuffer}

theorem WF.getSize_eq (h : b.WF) : b.getSize = b.tail - b.head :=
  sub32_of_le h.head_le_tail (Nat.lt_of_le_of_lt h.tail_le_capacity h.capacity_lt)

theorem WF.getRemainingSize_eq (h : b.WF) : b.getRemainingSize = b.capacity - b.tail :=
  sub32_of_le h.tail_le_capacity h.capacity_lt

theorem WF.length_contents (h : b.WF) : b.contents.length = b.getSize := by
  have htail := h.tail_le_capacity
  rw [h.getSize_eq, contents, List.length_drop, List.length_take, h.length_data,
    Nat.min_eq_left htail]

/-- The contents end at the tail. -/
theorem WF.contents_length_add_head (h : b.WF) : b.contents.length + b.head = b.tail := by
  have hle := h.head_le_tail
  rw [h.length_contents, h.getSize_eq]
  omega

@[simp] theorem wf_new {c : Nat} (hc : c < 2 ^ 32) : (new c).WF :=
  ⟨Nat.le_refl _, Nat.zero_le _, List.length_replicate, hc⟩

@[simp] theorem contents_new (c : Nat) : (new c).contents = [] := by
  simp [contents, new]

@[simp] theorem capacity_new (c : Nat) : (new c).capacity = c := rfl

theorem wf_ofBytes (bs : List UInt8) : (ofBytes bs).WF := by
  have hle : u32 bs.length ≤ bs.length := Nat.mod_le _ _
  refine ⟨Nat.zero_le _, Nat.le_refl _, ?_, u32_lt _⟩
  rw [ofBytes, List.length_take, Nat.min_eq_left hle]

/-- `readN` keeps the capacity and the block. -/
@[simp] theorem readN_capacity (b : IoBuffer) (n : Nat) : (b.readN n).capacity = b.capacity := by
  unfold readN
  split <;> rfl

theorem WF.readN (h : b.WF) {n : Nat} (hn : n ≤ b.getSize) : (b.readN n).WF := by
  have hle := h.head_le_tail
  have htail := h.tail_le_capacity
  rw [h.getSize_eq] at hn
  unfold IoBuffer.readN
  split
  · exact ⟨Nat.le_refl _, Nat.zero_le _, h.length_data, h.capacity_lt⟩
  · exact ⟨by simp only; omega, htail, h.length_data, h.capacity_lt⟩

/-- `readN` drops bytes from the front. -/
theorem WF.contents_readN (h : b.WF) (n : Nat) :
    (b.readN n).contents = b.contents.drop n := by
  have hle := h.head_le_tail
  unfold IoBuffer.readN
  split
  · rename_i hall
    have hempty : b.contents.drop n = [] := by
      rw [List.drop_eq_nil_iff, h.length_contents, h.getSize_eq]
      omega
    rw [hempty]
    rfl
  · rw [contents, contents, List.drop_drop]

/-- Storing at the tail and advancing it appends. -/
theorem WF.append (h : b.WF) {bs : List UInt8} (hbs : bs.length ≤ b.getRemainingSize) :
    ({ b.fill bs with tail := b.tail + bs.length } : IoBuffer).WF ∧
      ({ b.fill bs with tail := b.tail + bs.length } : IoBuffer).contents
        = b.contents ++ bs := by
  have hle := h.head_le_tail
  have htail := h.tail_le_capacity
  have hdata := h.length_data
  rw [h.getRemainingSize_eq] at hbs
  have hfit : b.tail + bs.length ≤ b.data.length := by omega
  refine ⟨⟨?_, ?_, ?_, h.capacity_lt⟩, ?_⟩
  · show b.head ≤ b.tail + bs.length
    omega
  · show b.tail + bs.length ≤ b.capacity
    omega
  · show (poke b.data b.tail bs).length = b.capacity
    rw [length_poke _ _ _ hfit, hdata]
  · show ((poke b.data b.tail bs).take (b.tail + bs.length)).drop b.head = b.contents ++ bs
    rw [take_poke _ _ _ (by omega), List.drop_append_of_le_length, contents]
    rw [List.length_take]
    omega

/-- `writeN` after bytes were stored at the tail appends them, also when the block
is then compacted; the capacity stays. -/
theorem WF.fill_writeN (h : b.WF) {bs : List UInt8} (hbs : bs.length ≤ b.getRemainingSize) :
    ((b.fill bs).writeN bs.length).WF ∧
      ((b.fill bs).writeN bs.length).contents = b.contents ++ bs ∧
      ((b.fill bs).writeN bs.length).capacity = b.capacity := by
  obtain ⟨hwf, hcontents⟩ := h.append hbs
  have hle := h.head_le_tail
  have hcap := h.capacity_lt
  have hlen : (poke b.data b.tail bs).length = b.capacity := hwf.length_data
  have hfit : b.tail + bs.length ≤ b.capacity := hwf.tail_le_capacity
  have hsize : u32 ((b.fill bs).getSize + bs.length) = b.tail - b.head + bs.length := by
    have hs : (b.fill bs).getSize = b.tail - b.head := h.getSize_eq
    rw [hs, u32_of_lt (by omega)]
  unfold writeN
  simp only [hsize]
  split
  · rename_i hfull
    have hmove : moveDown b.head (b.tail - b.head + bs.length) (poke b.data b.tail bs)
        = ((poke b.data b.tail bs).drop b.head).take (b.tail - b.head + bs.length)
          ++ (poke b.data b.tail bs).drop (b.tail - b.head + bs.length) :=
      moveDown_eq _ _ _ (by omega)
    have hlenMove : (((poke b.data b.tail bs).drop b.head).take
        (b.tail - b.head + bs.length)).length = b.tail - b.head + bs.length := by
      rw [List.length_take, List.length_drop]
      omega
    refine ⟨⟨Nat.zero_le _, ?_, ?_, hcap⟩, ?_, rfl⟩
    · show b.tail - b.head + bs.length ≤ b.capacity
      omega
    · show (moveDown b.head (b.tail - b.head + bs.length) (poke b.data b.tail bs)).length
        = b.capacity
      rw [hmove, List.length_append, hlenMove, List.length_drop]
      omega
    · show ((moveDown b.head (b.tail - b.head + bs.length) (poke b.data b.tail bs)).take
        (b.tail - b.head + bs.length)).drop 0 = b.contents ++ bs
      rw [hmove, List.drop_zero, List.take_append_of_le_length (Nat.le_of_eq hlenMove.symm),
        List.take_take, Nat.min_self, ← hcontents, contents]
      show _ = ((poke b.data b.tail bs).take (b.tail + bs.length)).drop b.head
      rw [List.drop_take]
      congr 1
      omega
  · exact ⟨hwf, hcontents, rfl⟩

/-- The unread bytes are copied when the tail is within the capacity. -/
theorem doubleCapacity_contents (htail : b.tail ≤ b.capacity) (hdata : b.capacity ≤ b.data.length) :
    b.doubleCapacity.contents = b.contents := by
  have hlen : b.tail ≤ (b.data.take b.capacity).length := by
    rw [List.length_take]
    omega
  show ((b.data.take b.capacity ++ List.replicate b.capacity 0).take b.tail).drop b.head = _
  rw [List.take_append_of_le_length hlen, List.take_take, Nat.min_eq_left htail, contents]

/-- `doubleCapacity` keeps the unread bytes; below `2 ^ 31` the capacity does
double. -/
theorem WF.doubleCapacity (h : b.WF) (hcap : b.capacity < 2 ^ 31) :
    b.doubleCapacity.WF ∧ b.doubleCapacity.contents = b.contents ∧
      b.doubleCapacity.capacity = b.capacity * 2 := by
  have htail := h.tail_le_capacity
  have hdata := h.length_data
  have hdouble : u32 (b.capacity * 2) = b.capacity * 2 := u32_of_lt (by omega)
  refine ⟨⟨h.head_le_tail, ?_, ?_, ?_⟩, ?_, hdouble⟩
  · show b.tail ≤ u32 (b.capacity * 2)
    rw [hdouble]
    omega
  · show (b.data.take b.capacity ++ List.replicate b.capacity 0).length = u32 (b.capacity * 2)
    rw [List.length_append, List.length_take, List.length_replicate, hdouble, hdata]
    omega
  · show u32 (b.capacity * 2) < 2 ^ 32
    exact u32_lt _
  · exact doubleCapacity_contents htail (by omega)

/-- A buffer with room enough is left alone by `reserve`. -/
theorem reserve_of_le {n : Nat} (hn : n ≤ b.getRemainingSize) : b.reserve n = some b := by
  rw [reserve, reserveFuel, if_neg (Nat.not_lt.mpr hn)]

/-- `push_back` of bytes that fit appends them. -/
theorem WF.pushBack (h : b.WF) {bs : List UInt8} (hbs : bs.length ≤ b.getRemainingSize) :
    ∃ r, b.pushBack bs = some r ∧ r.WF ∧ r.contents = b.contents ++ bs ∧
      r.capacity = b.capacity ∧ r.tail = b.tail + bs.length := by
  have hlt : bs.length < 2 ^ 32 := by
    have hcap := h.capacity_lt
    rw [h.getRemainingSize_eq] at hbs
    omega
  obtain ⟨hwf, hcontents⟩ := h.append hbs
  have htail : b.tail + bs.length < 2 ^ 32 :=
    Nat.lt_of_le_of_lt hwf.tail_le_capacity h.capacity_lt
  refine ⟨_, ?_, hwf, hcontents, rfl, rfl⟩
  rw [IoBuffer.pushBack, u32_of_lt hlt, reserve_of_le hbs, List.take_length, Option.map_some,
    u32_of_lt htail]

/-- The word is stored like its four bytes. -/
theorem WF.storeWord (h : b.WF) (hroom : 4 ≤ b.getRemainingSize) (n : Nat) :
    storeWord b.data b.tail n = poke b.data b.tail (bigEndian n) := by
  have hle := h.tail_le_capacity
  rw [h.getRemainingSize_eq] at hroom
  exact storeWord_eq _ _ _ (by rw [h.length_data]; omega)

/-- `push_back` of a word that fits appends its big-endian bytes. -/
theorem WF.pushBackWord (h : b.WF) (n : Nat) (hroom : 4 ≤ b.getRemainingSize) :
    ∃ r, b.pushBackWord n = some r ∧ r.WF ∧ r.contents = b.contents ++ bigEndian n ∧
      r.capacity = b.capacity ∧ r.tail = b.tail + 4 := by
  have hword : (bigEndian n).length ≤ b.getRemainingSize := hroom
  obtain ⟨hwf, hcontents⟩ := h.append hword
  refine ⟨_, ?_, hwf, hcontents, rfl, rfl⟩
  have htail : b.tail + 4 < 2 ^ 32 := Nat.lt_of_le_of_lt hwf.tail_le_capacity h.capacity_lt
  rw [IoBuffer.pushBackWord, reserve_of_le hroom, Option.map_some, h.storeWord hroom,
    u32_of_lt htail]
  rfl

end Spec

/-! ## Blocks of any size

A buffer that only grows from a capacity of `2 ^ k` keeps a block of some `2 ^ k`.  At
`2 ^ 32` the capacity word is zero, and the room is counted from the wrapped difference. -/

/-- The unread bytes start the block, which has `2 ^ k` bytes. -/
structure Block (b : IoBuffer) (k : Nat) : Prop where
  head : b.head = 0
  le : k ≤ 32
  length_data : b.data.length = 2 ^ k
  capacity : b.capacity = u32 (2 ^ k)
  tail_le : b.tail ≤ 2 ^ k
  tail_lt : b.tail < 2 ^ 32

section Block

variable {b : IoBuffer} {k : Nat}

theorem block_new {k : Nat} (h : k < 32) : (new (2 ^ k)).Block k :=
  ⟨rfl, Nat.le_of_lt h, List.length_replicate,
    (u32_of_lt (Nat.pow_lt_pow_right (by decide) h)).symm,
    Nat.zero_le _, Nat.two_pow_pos 32⟩

theorem Block.reset (h : b.Block k) : b.reset.Block k :=
  ⟨rfl, h.le, h.length_data, h.capacity, Nat.zero_le _, Nat.two_pow_pos 32⟩

@[simp] theorem contents_reset (b : IoBuffer) : b.reset.contents = [] := by
  simp [contents, IoBuffer.reset]

theorem Block.contents_eq (h : b.Block k) : b.contents = b.data.take b.tail := by
  rw [contents, h.head, List.drop_zero]

theorem Block.length_contents (h : b.Block k) : b.contents.length = b.tail := by
  rw [h.contents_eq, List.length_take, h.length_data, Nat.min_eq_left h.tail_le]

theorem Block.getSize_eq (h : b.Block k) : b.getSize = b.tail := by
  have htail := h.tail_lt
  rw [getSize, h.head, sub32_of_le (Nat.zero_le _) htail, Nat.sub_zero]

/-- Below `2 ^ 32` the room is what is left of the block. -/
theorem Block.getRemainingSize_of_lt (h : b.Block k) (hk : k < 32) :
    b.getRemainingSize = 2 ^ k - b.tail := by
  have hpow : 2 ^ k < 2 ^ 32 := Nat.pow_lt_pow_right (by decide) hk
  rw [getRemainingSize, h.capacity, u32_of_lt hpow, sub32_of_le h.tail_le hpow]

/-- At `2 ^ 32` the room of an empty buffer counts as none. -/
theorem Block.getRemainingSize_of_full (h : b.Block 32) :
    b.getRemainingSize = (2 ^ 32 - b.tail) % 2 ^ 32 := by
  have hzero : u32 (2 ^ 32) = 0 := rfl
  rw [getRemainingSize, h.capacity, hzero, sub32, Nat.zero_add]

/-- What counts as room is room in the block. -/
theorem Block.tail_add_le (h : b.Block k) {n : Nat} (hn : n ≤ b.getRemainingSize) :
    b.tail + n ≤ 2 ^ k := by
  have htail := h.tail_le
  rcases Nat.lt_or_eq_of_le h.le with hk | rfl
  · rw [h.getRemainingSize_of_lt hk] at hn
    omega
  · rw [h.getRemainingSize_of_full] at hn
    have hmod : (2 ^ 32 - b.tail) % 2 ^ 32 ≤ 2 ^ 32 - b.tail := Nat.mod_le _ _
    omega

/-- Below `2 ^ 32` the block doubles. -/
theorem Block.doubleCapacity (h : b.Block k) (hk : k < 32) :
    b.doubleCapacity.Block (k + 1) ∧ b.doubleCapacity.contents = b.contents := by
  have hpow : 2 ^ k < 2 ^ 32 := Nat.pow_lt_pow_right (by decide) hk
  have hcap : b.capacity = 2 ^ k := by rw [h.capacity, u32_of_lt hpow]
  have htail := h.tail_le
  have hdouble : 2 ^ (k + 1) = 2 ^ k * 2 := Nat.pow_succ 2 k
  refine ⟨⟨h.head, hk, ?_, ?_, ?_, h.tail_lt⟩, ?_⟩
  · show (b.data.take b.capacity ++ List.replicate b.capacity 0).length = 2 ^ (k + 1)
    rw [List.length_append, List.length_take, List.length_replicate, h.length_data, hcap]
    omega
  · show u32 (b.capacity * 2) = u32 (2 ^ (k + 1))
    rw [hcap, hdouble]
  · show b.tail ≤ 2 ^ (k + 1)
    omega
  · exact doubleCapacity_contents (hcap ▸ htail) (Nat.le_of_eq (hcap.trans h.length_data.symm))

/-- A capacity of zero stays zero, and the room stays what it is. -/
theorem reserveFuel_of_zero {n fuel : Nat} (hcap : b.capacity = 0) (hn : b.getRemainingSize < n) :
    IoBuffer.reserveFuel fuel b n = none := by
  induction fuel generalizing b with
  | zero => rfl
  | succ fuel ih =>
    have hzero : b.doubleCapacity.capacity = 0 := by
      show u32 (b.capacity * 2) = 0
      rw [hcap]
      rfl
    have hroom : b.doubleCapacity.getRemainingSize = b.getRemainingSize := by
      show sub32 b.doubleCapacity.capacity b.tail = sub32 b.capacity b.tail
      rw [hzero, hcap]
    rw [IoBuffer.reserveFuel, if_pos hn]
    exact ih hzero (hroom ▸ hn)

/-- What `reserve` leaves when it ends: the same bytes, and room. -/
theorem Block.reserveFuel {n : Nat} : ∀ {fuel : Nat} {b r : IoBuffer} {k : Nat}, b.Block k →
    IoBuffer.reserveFuel fuel b n = some r →
    ∃ k', r.Block k' ∧ r.contents = b.contents ∧ r.tail = b.tail ∧ n ≤ r.getRemainingSize := by
  intro fuel
  induction fuel with
  | zero =>
    intro b r k _ hr
    cases hr
  | succ fuel ih =>
    intro b r k h hr
    by_cases hroom : b.getRemainingSize < n
    · rcases Nat.lt_or_eq_of_le h.le with hk | rfl
      · rw [IoBuffer.reserveFuel, if_pos hroom] at hr
        obtain ⟨hblock, hcontents⟩ := h.doubleCapacity hk
        obtain ⟨k', hr', hsame, htail, hlast⟩ := ih hblock hr
        exact ⟨k', hr', hsame.trans hcontents, htail, hlast⟩
      · rw [reserveFuel_of_zero h.capacity hroom] at hr
        cases hr
    · rw [IoBuffer.reserveFuel, if_neg hroom] at hr
      cases hr
      exact ⟨k, h, rfl, rfl, Nat.le_of_not_lt hroom⟩

/-- One more turn does no harm. -/
theorem reserveFuel_succ {n : Nat} : ∀ {fuel : Nat} {b r : IoBuffer},
    reserveFuel fuel b n = some r → reserveFuel (fuel + 1) b n = some r := by
  intro fuel
  induction fuel with
  | zero =>
    intro b r hr
    cases hr
  | succ fuel ih =>
    intro b r hr
    rw [reserveFuel] at hr ⊢
    split at hr
    · rename_i hless
      rw [if_pos hless]
      exact ih hr
    · rename_i hroom
      rw [if_neg hroom]
      exact hr

theorem reserveFuel_mono {n m fuel : Nat} {r : IoBuffer} (hle : fuel ≤ m)
    (hr : reserveFuel fuel b n = some r) : reserveFuel m b n = some r := by
  induction hle with
  | refl => exact hr
  | step _ ih => exact reserveFuel_succ ih

/-- A loop that ends does so before the capacity has been zero for a turn. -/
theorem Block.reserveFuel_of_ends {n : Nat} : ∀ {fuel : Nat} {b r : IoBuffer} {k : Nat},
    b.Block k → IoBuffer.reserveFuel fuel b n = some r →
    IoBuffer.reserveFuel (33 - k) b n = some r := by
  intro fuel
  induction fuel with
  | zero =>
    intro b r k _ hr
    cases hr
  | succ fuel ih =>
    intro b r k h hr
    by_cases hroom : b.getRemainingSize < n
    · rcases Nat.lt_or_eq_of_le h.le with hk | rfl
      · rw [IoBuffer.reserveFuel, if_pos hroom] at hr
        have hrest := ih (h.doubleCapacity hk).1 hr
        rw [show 33 - k = (33 - (k + 1)) + 1 by omega, IoBuffer.reserveFuel, if_pos hroom]
        exact hrest
      · rw [reserveFuel_of_zero h.capacity hroom] at hr
        cases hr
    · rw [IoBuffer.reserveFuel, if_neg hroom] at hr
      cases hr
      rw [show 33 - k = (32 - k) + 1 by have := h.le; omega, IoBuffer.reserveFuel, if_neg hroom]

/-- When `reserve` has no result, its loop never ends. -/
theorem Block.never_ends (h : b.Block k) {n : Nat} (hnone : b.reserve n = none) (fuel : Nat) :
    IoBuffer.reserveFuel fuel b n = none := by
  cases hr : IoBuffer.reserveFuel fuel b n with
  | none => rfl
  | some r =>
    have hle : 33 - k ≤ 34 := by omega
    have hsome : b.reserve n = some r := reserveFuel_mono hle (h.reserveFuel_of_ends hr)
    rw [hsome] at hnone
    cases hnone

/-- The loop ends when the bytes fit a block of `2 ^ 31`, and also up to `2 ^ 32` when the
buffer is not empty. -/
theorem Block.reserveFuel_isSome {n : Nat} : ∀ {fuel : Nat} {b : IoBuffer} {k : Nat},
    b.Block k → 33 ≤ k + fuel →
    (k < 32 ∧ b.tail + n ≤ 2 ^ 31) ∨ (0 < b.tail ∧ b.tail + n ≤ 2 ^ 32) →
    (IoBuffer.reserveFuel fuel b n).isSome := by
  intro fuel
  induction fuel with
  | zero =>
    intro b k h hfuel _
    have hle := h.le
    omega
  | succ fuel ih =>
    intro b k h hfuel hfits
    rw [IoBuffer.reserveFuel]
    split
    · rename_i hless
      rcases Nat.lt_or_eq_of_le h.le with hk | rfl
      · refine ih (h.doubleCapacity hk).1 (by omega) ?_
        show (k + 1 < 32 ∧ b.tail + n ≤ 2 ^ 31) ∨ (0 < b.tail ∧ b.tail + n ≤ 2 ^ 32)
        refine hfits.imp_left (fun hsmall => ⟨?_, hsmall.2⟩)
        -- a block of `2 ^ 31` would have had the room
        rcases Nat.lt_or_eq_of_le (Nat.succ_le_of_lt hk) with hlt | heq
        · exact hlt
        · obtain rfl : k = 31 := by omega
          rw [h.getRemainingSize_of_lt hk] at hless
          omega
      · rw [h.getRemainingSize_of_full] at hless
        omega
    · rfl

/-- `push_back` of bytes whose number fits its word: they are appended, unless the tail
reaches `2 ^ 32` and wraps to the head; then nothing is left to read. -/
theorem Block.pushBack (h : b.Block k) {bs : List UInt8} {r : IoBuffer}
    (hlen : bs.length < 2 ^ 32) (hr : b.pushBack bs = some r) :
    (∃ k', r.Block k') ∧
      r.contents = if b.tail + bs.length = 2 ^ 32 then [] else b.contents ++ bs := by
  rw [IoBuffer.pushBack, u32_of_lt hlen, List.take_length] at hr
  obtain ⟨m, hm, rfl⟩ := Option.map_eq_some_iff.mp hr
  obtain ⟨k', hblock, hcontents, htail, hroom⟩ := h.reserveFuel hm
  have hfit : m.tail + bs.length ≤ m.data.length := by
    rw [hblock.length_data]
    exact hblock.tail_add_le hroom
  have hpow : 2 ^ k' ≤ 2 ^ 32 := Nat.pow_le_pow_right (by decide) hblock.le
  have hsum : m.tail + bs.length ≤ 2 ^ k' := hblock.tail_add_le hroom
  have hdata : (poke m.data m.tail bs).length = 2 ^ k' := by
    rw [length_poke _ _ _ hfit, hblock.length_data]
  constructor
  · refine ⟨k', hblock.head, hblock.le, hdata, hblock.capacity, ?_, u32_lt _⟩
    exact Nat.le_trans (Nat.mod_le _ _) hsum
  · show ((poke m.data m.tail bs).take (u32 (m.tail + bs.length))).drop m.head = _
    rw [hblock.head, List.drop_zero, ← htail]
    split
    · rename_i hfull
      rw [hfull, show u32 (2 ^ 32) = 0 from rfl, List.take_zero]
    · rename_i hnot
      have hlt : m.tail + bs.length < 2 ^ 32 := by omega
      rw [u32_of_lt hlt, take_poke _ _ _ (by omega), ← hcontents, hblock.contents_eq]

/-- The capacity is zero just when the block has `2 ^ 32` bytes. -/
theorem Block.lt_of_capacity (h : b.Block k) (hcap : b.capacity ≠ 0) : k < 32 := by
  refine Nat.lt_of_le_of_ne h.le ?_
  rintro rfl
  exact hcap (h.capacity.trans rfl)

/-- `push_back` ends when the bytes fit. -/
theorem Block.pushBack_isSome (h : b.Block k) {bs : List UInt8} (hlen : bs.length < 2 ^ 32)
    (hfits : bs.length = 0 ∨ (k < 32 ∧ b.tail + bs.length ≤ 2 ^ 31) ∨
      (0 < b.tail ∧ b.tail + bs.length ≤ 2 ^ 32)) : (b.pushBack bs).isSome := by
  rw [IoBuffer.pushBack, Option.isSome_map, u32_of_lt hlen]
  rcases hfits with hempty | hfits
  · rw [hempty, reserve_of_le (Nat.zero_le _)]
    rfl
  · exact h.reserveFuel_isSome (by omega) hfits

end Block

end IoBuffer

end StormNet.Net
