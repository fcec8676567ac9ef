/-
  Net/BufferGrowth.lean --- when `reserve` of `net/io_buffer.h` ends, and what it leaves.

  A capacity of zero stays zero however often it is doubled.  A capacity word that wraps does
  no harm to the `reserve` that wraps it: either the unread bytes still are within it, and its
  distance to 2^32 has doubled, or it is below the tail, and the difference counts as room that
  the block has.  It does harm later, so that runs are followed as long as no word wraps.
-/
import StormNet.Net.ByteQueue

set_option autoImplicit false

namespace StormNet.Net

open StormNet.Foundation

namespace IoBuffer

/-! ## One call -/

/-- `reserve` ends with the same bytes, with room, and with a block that has the room. -/
def Suffices (b : IoBuffer) (addSize : Nat) : Prop :=
  ∃ r, b.reserve addSize = some r ∧ addSize ≤ r.getRemainingSize ∧ r.contents = b.contents ∧
    r.tail + addSize ≤ r.data.length

/-- What the loop keeps while it runs. -/
structure Growing (b : IoBuffer) : Prop where
  head_le_tail : b.head ≤ b.tail
  tail_le_capacity : b.tail ≤ b.capacity
  capacity_le : b.capacity ≤ b.data.length
  capacity_lt : b.capacity < 2 ^ 32
  pos : 0 < b.capacity

variable {b r buffer : IoBuffer} {bs : List UInt8} {n : Nat}

theorem WF.growing (h : b.WF) (hpos : 0 < b.capacity) : b.Growing :=
  ⟨h.head_le_tail, h.tail_le_capacity, Nat.le_of_eq h.length_data.symm, h.capacity_lt, hpos⟩

theorem Growing.getRemainingSize_eq (h : b.Growing) : b.getRemainingSize = b.capacity - b.tail :=
  sub32_of_le h.tail_le_capacity h.capacity_lt

theorem length_doubleCapacity (h : b.capacity ≤ b.data.length) :
    b.doubleCapacity.data.length = b.capacity * 2 := by
  show (b.data.take b.capacity ++ List.replicate b.capacity 0).length = b.capacity * 2
  rw [List.length_append, List.length_take, List.length_replicate]
  omega

/-- A turn of the loop keeps the unread bytes; it is the last one if the word falls below the
tail. -/
theorem Growing.doubleCapacity (h : b.Growing) (hn : n < 2 ^ 31) (hless : b.getRemainingSize < n) :
    b.doubleCapacity.contents = b.contents ∧
      (b.doubleCapacity.Growing ∨ n ≤ b.doubleCapacity.getRemainingSize ∧
        b.doubleCapacity.tail + n ≤ b.doubleCapacity.data.length) := by
  have hhead := h.head_le_tail
  have htail := h.tail_le_capacity
  have hcap := h.capacity_lt
  have hpos := h.pos
  have hlen := length_doubleCapacity h.capacity_le
  refine ⟨doubleCapacity_contents htail h.capacity_le, ?_⟩
  rw [h.getRemainingSize_eq] at hless
  have hword : b.doubleCapacity.capacity = u32 (b.capacity * 2) := rfl
  have hsame : b.doubleCapacity.tail = b.tail ∧ b.doubleCapacity.head = b.head := ⟨rfl, rfl⟩
  rcases Nat.lt_or_ge (b.capacity * 2) (2 ^ 32) with hfit | hwrap
  · rw [u32_of_lt hfit] at hword
    exact .inl ⟨by omega, by omega, by omega, by omega, by omega⟩
  · have hmod : u32 (b.capacity * 2) = b.capacity * 2 - 2 ^ 32 := by
      unfold u32
      omega
    rw [hmod] at hword
    rcases Nat.lt_or_ge (b.capacity * 2 - 2 ^ 32) b.tail with hbelow | habove
    · refine .inr ⟨?_, by omega⟩
      rw [getRemainingSize, hword, hsame.1, sub32]
      omega
    · exact .inl ⟨by omega, by omega, by omega, by omega, by omega⟩

/-- The loop ends before the word is zero, for 2^32 divides it after 32 turns. -/
theorem Growing.reserveFuel {k : Nat} (h : b.Growing) (hn : n < 2 ^ 31)
    (hk : 2 ^ 32 ∣ b.capacity * 2 ^ k) :
    ∃ r, IoBuffer.reserveFuel (k + 1) b n = some r ∧ n ≤ r.getRemainingSize ∧
      r.contents = b.contents ∧ r.tail + n ≤ r.data.length := by
  induction k generalizing b with
  | zero =>
    have hle := Nat.le_of_dvd (Nat.mul_pos h.pos (Nat.two_pow_pos 0)) hk
    have hcap := h.capacity_lt
    omega
  | succ k ih =>
    rw [IoBuffer.reserveFuel]
    split
    · rename_i hless
      obtain ⟨hsame, hgrowing | ⟨hroom, hblock⟩⟩ := h.doubleCapacity hn hless
      · have hnext : 2 ^ 32 ∣ b.doubleCapacity.capacity * 2 ^ k := by
          show 2 ^ 32 ∣ b.capacity * 2 % 2 ^ 32 * 2 ^ k
          rw [Nat.dvd_iff_mod_eq_zero, Nat.mod_mul_mod, Nat.mul_assoc, ← Nat.pow_succ',
            ← Nat.dvd_iff_mod_eq_zero]
          exact hk
        obtain ⟨r, hr, hroom, hcontents, hblock⟩ := ih hgrowing hnext
        exact ⟨r, hr, hroom, hcontents.trans hsame, hblock⟩
      · refine ⟨b.doubleCapacity, ?_, hroom, hsame, hblock⟩
        rw [IoBuffer.reserveFuel, if_neg (Nat.not_lt.mpr hroom)]
    · rename_i hroom
      have hle := Nat.le_of_not_lt hroom
      have htail := h.tail_le_capacity
      have hdata := h.capacity_le
      refine ⟨b, rfl, hle, rfl, ?_⟩
      rw [h.getRemainingSize_eq] at hle
      omega

/-- **Growing terminates and suffices** unless there is no capacity to double. -/
theorem WF.suffices_iff (h : b.WF) (hn : b.getSize + n < 2 ^ 31) :
    Suffices b n ↔ 0 < b.capacity ∨ n = 0 := by
  have htail := h.tail_le_capacity
  constructor
  · rintro ⟨r, hr, -⟩
    by_contra hnot
    have hcap : b.capacity = 0 := by omega
    have hless : b.getRemainingSize < n := by
      rw [h.getRemainingSize_eq]
      omega
    rw [IoBuffer.reserve, reserveFuel_of_zero hcap hless] at hr
    cases hr
  · rintro (hpos | rfl)
    · have hdvd : 2 ^ 32 ∣ b.capacity * 2 ^ 32 := Nat.dvd_mul_left _ _
      have hword : n < 2 ^ 31 := by omega
      obtain ⟨r, hr, hlast⟩ := (h.growing hpos).reserveFuel hword hdvd
      exact ⟨r, reserveFuel_mono (by decide : 32 + 1 ≤ 34) hr, hlast⟩
    · have hdata := h.length_data
      exact ⟨b, reserve_of_le (Nat.zero_le _), Nat.zero_le _, rfl, by omega⟩

/-- What each `push_back` does, without a wrapped word. -/
theorem WF.push {m : IoBuffer} (h : b.WF) (hlen : bs.length = n) (hgrow : b.CanGrow n)
    (hm : b.reserve n = some m) : ({ m.fill bs with tail := u32 (m.tail + n) } : IoBuffer).WF := by
  obtain ⟨m', hm', hwf, -, -, hroom⟩ := h.reserve hgrow
  cases hm'.symm.trans hm
  subst hlen
  exact (hwf.extend hroom).1

theorem WF.length_headBytes (h : b.WF) : b.headBytes.length = b.getSize := by
  rw [h.headBytes_eq, h.length_contents]

end IoBuffer

/-! ## The operations -/

namespace BufferOp

open IoBuffer

/-- The two assertions hold, and no capacity word wraps. -/
def NoWrap (op : BufferOp) (b : IoBuffer) : Prop :=
  match op with
  | readN iSize => iSize ≤ b.getSize
  | writeN bytes => bytes.length ≤ b.getRemainingSize
  | subTail _ | reset => True
  | doubleCapacity => b.capacity < 2 ^ 31
  | reserve addSize => b.CanGrow addSize
  | pushBack str => b.CanGrow (u32 str.length)
  | pushBackWord _ => b.CanGrow 4
  | pushBackSelf => b.CanGrow b.getSize

instance (op : BufferOp) (b : IoBuffer) : Decidable (op.NoWrap b) :=
  match op with
  | readN iSize => inferInstanceAs (Decidable (iSize ≤ b.getSize))
  | writeN bytes => inferInstanceAs (Decidable (bytes.length ≤ b.getRemainingSize))
  | subTail _ | reset => inferInstanceAs (Decidable True)
  | doubleCapacity => inferInstanceAs (Decidable (b.capacity < 2 ^ 31))
  | reserve addSize => inferInstanceAs (Decidable (b.CanGrow addSize))
  | pushBack str => inferInstanceAs (Decidable (b.CanGrow (u32 str.length)))
  | pushBackWord _ => inferInstanceAs (Decidable (b.CanGrow 4))
  | pushBackSelf => inferInstanceAs (Decidable (b.CanGrow b.getSize))

/-- Each operation keeps head, tail, capacity and block in order. -/
theorem wf_apply {op : BufferOp} {b r : IoBuffer} (h : b.WF) (hop : op.NoWrap b)
    (hr : op.apply b = some r) : r.WF := by
  cases op with
  | readN iSize =>
    cases hr
    exact h.readN hop
  | writeN bytes =>
    cases hr
    exact (h.fill_writeN hop).1
  | subTail size =>
    cases hr
    exact (h.subTail size).1
  | reset =>
    cases hr
    exact ⟨Nat.le_refl 0, Nat.zero_le _, h.length_data, h.capacity_lt⟩
  | doubleCapacity =>
    cases hr
    exact (h.doubleCapacity hop).1
  | reserve addSize =>
    obtain ⟨r', hr', hwf, -⟩ := h.reserve hop
    cases hr'.symm.trans hr
    exact hwf
  | pushBack str =>
    obtain ⟨m, hm, rfl⟩ := Option.map_eq_some_iff.mp hr
    have hlen : (str.take (u32 str.length)).length = u32 str.length := by
      rw [List.length_take]
      exact Nat.min_eq_left (Nat.mod_le _ _)
    exact h.push hlen hop hm
  | pushBackWord data =>
    obtain ⟨m, hm, rfl⟩ := Option.map_eq_some_iff.mp hr
    obtain ⟨m', hm', hwf, -, -, hroom⟩ := h.reserve hop
    cases hm'.symm.trans hm
    rw [hwf.storeWord hroom]
    exact h.push (length_bigEndian data) hop hm
  | pushBackSelf =>
    obtain ⟨m, hm, rfl⟩ := Option.map_eq_some_iff.mp hr
    obtain ⟨m', hm', hwf, -, hsame, -⟩ := h.reserve hop
    cases hm'.symm.trans hm
    have hsize : m.getSize = b.getSize := by
      rw [← hwf.length_contents, hsame, h.length_contents]
    rw [hsize]
    exact h.push (hwf.length_headBytes.trans hsize) hop hm

end BufferOp

/-! ## Runs -/

namespace IoBuffer

/-- `operator =`, with another buffer; the old block is not freed. -/
def assign (rhs : IoBuffer) : IoBuffer := rhs.copy

/-- `operator =`, with the buffer itself: the block is a new one before the bytes are copied, from
where they are copied to. -/
def assignSelf (b : IoBuffer) : IoBuffer := { b with data := List.replicate b.capacity 0 }

end IoBuffer

/-- The constructors and operations, and `operator =` on the buffer `i` with the buffer `j`. -/
inductive GrowthOp where
  | queue (op : QueueOp)
  | assign (i j : Nat)
  deriving DecidableEq, Repr

namespace GrowthOp

open IoBuffer

def step (bufs : List IoBuffer) : GrowthOp → Option (List IoBuffer)
  | queue op => op.step bufs
  | assign i j =>
      if i = j then bufs[i]?.map fun b => bufs.set i b.assignSelf
      else bufs[i]?.bind fun _ => bufs[j]?.map fun rhs => bufs.set i (IoBuffer.assign rhs)

/-- A capacity is a 32-bit word, and an operation meets its own condition. -/
def NoWrap (bufs : List IoBuffer) : GrowthOp → Prop
  | queue (.create capacity) => capacity < 2 ^ 32
  | queue (.createFrom _) | queue (.copy _) | assign _ _ => True
  | queue (.on i op) => ∀ b ∈ bufs[i]?, op.NoWrap b
  | queue (.pushBackBuffer i j) =>
      ∀ b ∈ bufs[i]?, ∀ buffer ∈ bufs[j]?, b.CanGrow buffer.getSize

instance (bufs : List IoBuffer) (op : GrowthOp) : Decidable (NoWrap bufs op) :=
  match op with
  | queue (.create capacity) => inferInstanceAs (Decidable (capacity < 2 ^ 32))
  | queue (.createFrom _) | queue (.copy _) | assign _ _ => inferInstanceAs (Decidable True)
  | queue (.on i op) => inferInstanceAs (Decidable (∀ b ∈ bufs[i]?, op.NoWrap b))
  | queue (.pushBackBuffer i j) => inferInstanceAs (Decidable
      (∀ b ∈ bufs[i]?, ∀ buffer ∈ bufs[j]?, b.CanGrow buffer.getSize))

variable {bufs bufs' : List IoBuffer} {b r : IoBuffer} {i : Nat} {op : GrowthOp}

theorem wf_append (h : ∀ b ∈ bufs, b.WF) (hr : r.WF) : ∀ b ∈ bufs ++ [r], b.WF :=
  List.forall_mem_append.mpr ⟨h, List.forall_mem_singleton.mpr hr⟩

theorem wf_set (h : ∀ b ∈ bufs, b.WF) (hr : r.WF) (i : Nat) : ∀ b ∈ bufs.set i r, b.WF := by
  intro b hb
  rcases List.mem_or_eq_of_mem_set hb with hold | rfl
  · exact h b hold
  · exact hr

theorem wf_pushBackBuffer {buffer : IoBuffer} (h : b.WF) (hbuffer : buffer.WF)
    (hgrow : b.CanGrow buffer.getSize) (hr : b.pushBackBuffer buffer = some r) : r.WF := by
  obtain ⟨m, hm, rfl⟩ := Option.map_eq_some_iff.mp hr
  exact h.push hbuffer.length_headBytes hgrow hm

/-- A step keeps the buffers in order. -/
theorem wf_step (h : ∀ b ∈ bufs, b.WF) (hop : NoWrap bufs op) (hstep : step bufs op = some bufs') :
    ∀ b ∈ bufs', b.WF := by
  match op with
  | queue (.create capacity) =>
    cases hstep
    exact wf_append h (wf_new hop)
  | queue (.createFrom str) =>
    cases hstep
    exact wf_append h (wf_ofBytes str)
  | queue (.copy i) =>
    obtain ⟨rhs, hrhs, rfl⟩ := Option.map_eq_some_iff.mp hstep
    exact wf_append h (h rhs (List.mem_of_getElem? hrhs)).copy.1
  | queue (.on i op) =>
    obtain ⟨r, hr, rfl⟩ := Option.map_eq_some_iff.mp hstep
    obtain ⟨b, hb, hr⟩ := Option.bind_eq_some_iff.mp hr
    exact wf_set h (BufferOp.wf_apply (h b (List.mem_of_getElem? hb)) (hop b hb) hr) i
  | queue (.pushBackBuffer i j) =>
    simp only [step, QueueOp.step] at hstep
    split at hstep
    · rename_i hij
      subst hij
      obtain ⟨r, hr, rfl⟩ := Option.map_eq_some_iff.mp hstep
      obtain ⟨b, hb, hr⟩ := Option.bind_eq_some_iff.mp hr
      have hself : BufferOp.NoWrap .pushBackSelf b := hop b hb b hb
      exact wf_set h (BufferOp.wf_apply (h b (List.mem_of_getElem? hb)) hself hr) i
    · obtain ⟨r, hr, rfl⟩ := Option.map_eq_some_iff.mp hstep
      obtain ⟨b, hb, hr⟩ := Option.bind_eq_some_iff.mp hr
      obtain ⟨buffer, hbuffer, hr⟩ := Option.bind_eq_some_iff.mp hr
      exact wf_set h (wf_pushBackBuffer (h b (List.mem_of_getElem? hb))
        (h buffer (List.mem_of_getElem? hbuffer)) (hop b hb buffer hbuffer) hr) i
  | assign i j =>
    simp only [step] at hstep
    split at hstep
    · obtain ⟨b, hb, rfl⟩ := Option.map_eq_some_iff.mp hstep
      have hwf := h b (List.mem_of_getElem? hb)
      have hself : b.assignSelf.WF :=
        ⟨hwf.head_le_tail, hwf.tail_le_capacity, List.length_replicate, hwf.capacity_lt⟩
      exact wf_set h hself i
    · obtain ⟨b, -, hr⟩ := Option.bind_eq_some_iff.mp hstep
      obtain ⟨rhs, hrhs, rfl⟩ := Option.map_eq_some_iff.mp hr
      exact wf_set h (h rhs (List.mem_of_getElem? hrhs)).copy.1 i

/-- **Growing a buffer terminates and suffices** in every state that is reached without a wrapped
capacity, just when there is a capacity to double or nothing to add. -/
theorem reserve_suffices_iff (h : Runs step NoWrap [] bufs) (hb : b ∈ bufs) (addSize : Nat)
    (hsize : b.getSize + addSize < 2 ^ 31) :
    Suffices b addSize ↔ 0 < b.capacity ∨ addSize = 0 := by
  have hwf : ∀ b ∈ bufs, b.WF :=
    h.invariant (fun _ _ _ hx hop hstep => wf_step hx hop hstep) (List.forall_mem_nil _)
  exact (hwf b hb).suffices_iff hsize

/-- A buffer made from nothing is given another one, and that one is given itself. -/
def growthOps : List GrowthOp :=
  [.queue (.createFrom []), .queue (.createFrom [1]), .queue (.on 0 (.pushBack [])),
    .queue (.on 1 (.pushBackWord 258)), .assign 0 1, .assign 1 1, .queue (.pushBackBuffer 0 1)]

theorem reserve_suffices_of_ops :
    ∃ b other, execute step (fun bufs op => decide (NoWrap bufs op)) [] growthOps =
      some [b, other] ∧ b.contents = [1, 0, 0, 1, 2, 0, 0, 0, 0, 0] ∧ Suffices b (2 ^ 31 - 11) := by
  have hops : execute step (fun bufs op => decide (NoWrap bufs op)) [] growthOps =
      some [⟨[1, 0, 0, 1, 2, 0, 0, 0, 0, 0, 0, 0, 0, 0, 0, 0], 16, 0, 10⟩,
        ⟨[0, 0, 0, 0, 0, 0, 0, 0], 8, 0, 5⟩] := by decide
  have hruns := runs_of_execute (fun _ _ hop => of_decide_eq_true hop) growthOps [] _ hops
  refine ⟨_, _, hops, by decide, ?_⟩
  exact (reserve_suffices_iff hruns List.mem_cons_self _ (by decide)).mpr (.inl (by decide))

/-- Two constructors without a byte, and a capacity of 2^31 that was doubled. -/
theorem reserve_never_ends : ¬ Suffices (.new 0) 1 ∧ ¬ Suffices (.ofBytes []) 1 ∧
    (∀ fuel, reserveFuel fuel (.new 0) 1 = none) ∧
    ¬ Suffices (IoBuffer.new (2 ^ 31)).doubleCapacity 1 := by
  have hnone : ∀ b : IoBuffer, b.capacity = 0 → b.tail = 0 →
      ∀ fuel, reserveFuel fuel b 1 = none := by
    intro b hcap htail fuel
    have hless : b.getRemainingSize < 1 := by
      rw [getRemainingSize, hcap, htail]
      decide
    exact reserveFuel_of_zero hcap hless
  have hnot : ∀ b : IoBuffer, b.capacity = 0 → b.tail = 0 → ¬ Suffices b 1 := by
    rintro b hcap htail ⟨r, hr, -⟩
    rw [reserve, hnone b hcap htail] at hr
    cases hr
  exact ⟨hnot _ rfl rfl, hnot _ rfl rfl, hnone _ rfl rfl, hnot _ rfl rfl⟩

end GrowthOp

end StormNet.Net
