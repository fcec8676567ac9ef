/-
  Net/ReadPool.lean --- `m_bufferPool` of a `SocketLoop` and the slots' pointers into it.

  The buffers are the objects of the pool; `readBuffer` of a slot is the number of one.
  `handleRead` takes one for a slot that has none, and `forceClose` gives it back, emptied.
-/
import StormNet.Net.HandleRead
import StormNet.Util.ObjectPool

set_option autoImplicit false

namespace StormNet.Net

open StormNet.Util
open Function (update update_self update_of_ne)

/-- `m_bufferPool` and the `readBuffer` of each slot. -/
structure ReadPool where
  pool : ObjectPool IoBuffer
  readBuffer : Nat → Option Nat

namespace ReadPool

/-- `IoBuffer()`. -/
def freshBuffer : IoBuffer := .new 4096

/-- Behind the constructor of the loop; the pool has its default size. -/
def new : ReadPool := ⟨.new freshBuffer 128, fun _ => none⟩

/-- `if (!s->readBuffer) s->readBuffer = m_bufferPool.get()`. -/
def acquire (p : ReadPool) (i : Nat) : Option (Nat × ReadPool) :=
  match p.readBuffer i with
  | some node => some (node, p)
  | none =>
      (p.pool.get freshBuffer).map fun (node, pool) =>
        (node, ⟨pool, update p.readBuffer i (some node)⟩)

/-- Something is done to the buffer `node`. -/
def store (p : ReadPool) (node : Nat) (b : IoBuffer) : ReadPool :=
  { p with pool := p.pool.store node b }

/-- What `forceClose` does with the read buffer. -/
def release (p : ReadPool) (i : Nat) : ReadPool :=
  match p.readBuffer i with
  | none => p
  | some node =>
      ⟨(p.pool.store node (p.pool.object node).reset).put node, update p.readBuffer i none⟩

/-- The read buffer of a slot. -/
def buffer (p : ReadPool) (i : Nat) : Option IoBuffer := (p.readBuffer i).map p.pool.object

/-- The bytes in it. -/
def held (p : ReadPool) (i : Nat) : List UInt8 :=
  match p.buffer i with
  | none => []
  | some b => b.contents

/-- A buffer as `reset` leaves it. -/
def Cleared (b : IoBuffer) : Prop := b.ReadBuffer ∧ b.contents = []

/-- Each buffer is free and cleared, or that of one slot. -/
structure Owned (p : ReadPool) : Prop where
  pool : p.pool.Sound Cleared fun node => ∃ i, p.readBuffer i = some node
  nodeNum_pos : 0 < p.pool.nodeNum
  one : ∀ i j node, p.readBuffer i = some node → p.readBuffer j = some node → i = j
  readBuffer : ∀ i node, p.readBuffer i = some node → (p.pool.object node).ReadBuffer

/-- Only the slot `i` has another buffer. -/
def SameBut (i : Nat) (p q : ReadPool) : Prop :=
  ∀ j, j ≠ i → q.readBuffer j = p.readBuffer j ∧ q.buffer j = p.buffer j

variable {p q : ReadPool} {i node : Nat}

theorem SameBut.trans {r : ReadPool} (h : SameBut i p q) (h' : SameBut i q r) :
    SameBut i p r := by
  intro j hj
  exact ⟨(h' j hj).1.trans (h j hj).1, (h' j hj).2.trans (h j hj).2⟩

theorem SameBut.held_eq (h : SameBut i p q) {j : Nat} (hj : j ≠ i) : q.held j = p.held j := by
  rw [held, held, (h j hj).2]

theorem buffer_of_node (h : p.readBuffer i = some node) :
    p.buffer i = some (p.pool.object node) := by
  rw [buffer, h]
  rfl

theorem held_of_node (h : p.readBuffer i = some node) :
    p.held i = (p.pool.object node).contents := by
  rw [held, buffer_of_node h]

theorem held_of_none (h : p.readBuffer i = none) : p.held i = [] := by
  rw [held, buffer, h]
  rfl

/-- A slot whose pointer stays and whose object stays has the same buffer. -/
theorem buffer_congr {j : Nat} (hnode : q.readBuffer j = p.readBuffer j)
    (hobject : ∀ node, p.readBuffer j = some node → q.pool.object node = p.pool.object node) :
    q.buffer j = p.buffer j := by
  rw [buffer, buffer, hnode]
  cases hn : p.readBuffer j with
  | none => rfl
  | some node => exact congrArg some (hobject node hn)

theorem cleared_reset {b : IoBuffer} (h : b.ReadBuffer) : Cleared b.reset := by
  refine ⟨⟨⟨Nat.le_refl 0, Nat.zero_le _, h.wf.length_data, h.wf.capacity_lt⟩, h.capacity_pos,
    fun hfull => ?_⟩, ?_⟩
  · have hzero : 0 = b.capacity := hfull
    have hpos := h.capacity_pos
    omega
  · show (b.data.take 0).drop 0 = []
    rw [List.take_zero, List.drop_nil]

theorem cleared_freshBuffer : Cleared freshBuffer :=
  ⟨IoBuffer.readBuffer_new (by decide) (by decide), IoBuffer.contents_new 4096⟩

theorem owned_new : new.Owned := by
  obtain ⟨hsound, hnum⟩ := ObjectPool.sound_new cleared_freshBuffer 128
  refine ⟨hsound.mono ?_, ?_, ?_, ?_⟩
  · rintro n ⟨i, hi⟩
    cases hi
  · show 0 < (ObjectPool.new freshBuffer 128).nodeNum
    rw [hnum]
    decide
  · intro i j n hi
    cases hi
  · intro i n hi
    cases hi

/-- The slot `i` gets the free buffer `node`. -/
theorem Owned.give (h : p.Owned) {pool : ObjectPool IoBuffer}
    (hcleared : Cleared (pool.object node)) (hfree : ¬ ∃ j, p.readBuffer j = some node)
    (hsound : pool.Sound Cleared fun n => n = node ∨ ∃ j, p.readBuffer j = some n)
    (hgrows : p.pool.Grows pool) :
    Owned ⟨pool, update p.readBuffer i (some node)⟩ ∧
      SameBut i p ⟨pool, update p.readBuffer i (some node)⟩ := by
  have hother : ∀ j, j ≠ i → update p.readBuffer i (some node) j = p.readBuffer j :=
    fun j hj => update_of_ne hj ..
  have hkept : ∀ j n, p.readBuffer j = some n → pool.object n = p.pool.object n :=
    fun j n hn => hgrows.object_eq n (h.pool.held_lt n ⟨j, hn⟩)
  have hcases : ∀ j n, update p.readBuffer i (some node) j = some n →
      j = i ∧ n = node ∨ p.readBuffer j = some n := by
    intro j n hn
    by_cases hj : j = i
    · rw [hj, update_self, Option.some.injEq] at hn
      exact .inl ⟨hj, hn.symm⟩
    · exact .inr ((hother j hj).symm.trans hn)
  refine ⟨⟨hsound.mono ?_, ?_, ?_, ?_⟩, fun j hj => ⟨hother j hj, ?_⟩⟩
  · rintro n ⟨j, hj⟩
    exact (hcases j n hj).imp And.right fun hold => ⟨j, hold⟩
  · rw [show (ReadPool.mk pool _).pool.nodeNum = p.pool.nodeNum from hgrows.nodeNum_eq]
    exact h.nodeNum_pos
  · intro j k n hj hk
    rcases hcases j n hj with ⟨hji, hn⟩ | hold <;> rcases hcases k n hk with ⟨hki, hn'⟩ | hold'
    · rw [hji, hki]
    · exact absurd ⟨k, hn ▸ hold'⟩ hfree
    · exact absurd ⟨j, hn' ▸ hold⟩ hfree
    · exact h.one j k n hold hold'
  · intro j n hn
    rcases hcases j n hn with ⟨-, rfl⟩ | hn
    · exact hcleared.1
    · show (pool.object n).ReadBuffer
      rw [hkept j n hn]
      exact h.readBuffer j n hn
  · exact buffer_congr (q := ⟨pool, _⟩) (hother j hj) (hkept j)

/-- A slot that reads has a buffer, with the bytes it held. -/
theorem Owned.acquire (h : p.Owned) (i : Nat) :
    ∃ node q, p.acquire i = some (node, q) ∧ q.Owned ∧ q.readBuffer i = some node ∧
      (q.pool.object node).contents = p.held i ∧
      (p.buffer i).getD (q.pool.object node) = q.pool.object node ∧ SameBut i p q := by
  unfold ReadPool.acquire
  cases hnode : p.readBuffer i with
  | some node =>
    refine ⟨node, p, rfl, h, hnode, (held_of_node hnode).symm, ?_, fun j _ => ⟨rfl, rfl⟩⟩
    rw [buffer_of_node hnode]
    rfl
  | none =>
    obtain ⟨node, pool, hget, hcleared, hfree, hsound, hgrows⟩ :=
      h.pool.get cleared_freshBuffer h.nodeNum_pos
    obtain ⟨howned, hsame⟩ := h.give hcleared hfree hsound hgrows
    refine ⟨node, _, by rw [hget]; rfl, howned, update_self .., ?_, ?_, hsame⟩
    · exact hcleared.2.trans (held_of_none hnode).symm
    · rw [buffer, hnode]
      rfl

/-- Something is done to the buffer of a slot. -/
theorem Owned.store (h : p.Owned) (hnode : p.readBuffer i = some node) {b : IoBuffer}
    (hb : b.ReadBuffer) :
    (p.store node b).Owned ∧ SameBut i p (p.store node b) ∧
      (p.store node b).buffer i = some b := by
  have hself : (p.store node b).pool.object node = b := update_self ..
  have hother : ∀ j n, j ≠ i → p.readBuffer j = some n →
      (p.store node b).pool.object n = p.pool.object n := by
    intro j n hj hn
    refine update_of_ne ?_ ..
    rintro rfl
    exact hj (h.one j i n hn hnode)
  refine ⟨⟨h.pool.store ⟨i, hnode⟩ b, h.nodeNum_pos, h.one, ?_⟩, ?_, ?_⟩
  · intro j n hn
    by_cases hj : j = i
    · subst hj
      obtain rfl : node = n := Option.some.inj (hnode.symm.trans hn)
      rw [hself]
      exact hb
    · rw [hother j n hj hn]
      exact h.readBuffer j n hn
  · exact fun j hj => ⟨rfl, buffer_congr rfl fun n hn => hother j n hj hn⟩
  · rw [buffer, show (p.store node b).readBuffer i = some node from hnode, Option.map_some, hself]

/-- The buffer of a slot that is closed goes back to the pool, cleared. -/
theorem Owned.release (h : p.Owned) (i : Nat) :
    (p.release i).Owned ∧ SameBut i p (p.release i) ∧ (p.release i).readBuffer i = none := by
  unfold ReadPool.release
  cases hnode : p.readBuffer i with
  | none => exact ⟨h, fun j _ => ⟨rfl, rfl⟩, hnode⟩
  | some node =>
    obtain ⟨hcleared, hempty⟩ := cleared_reset (h.readBuffer i node hnode)
    obtain ⟨hstored, hsame, -⟩ := h.store hnode hcleared
    have hobject : (p.store node (p.pool.object node).reset).pool.object node =
        (p.pool.object node).reset := update_self ..
    have hput := hstored.pool.put ⟨i, hnode⟩ (by
      rw [hobject]
      exact ⟨hcleared, hempty⟩)
    have hcases : ∀ j n, update p.readBuffer i none j = some n →
        j ≠ i ∧ p.readBuffer j = some n := by
      intro j n hn
      by_cases hj : j = i
      · rw [hj, update_self] at hn
        cases hn
      · rw [update_of_ne hj] at hn
        exact ⟨hj, hn⟩
    refine ⟨⟨hput.mono ?_, h.nodeNum_pos, ?_, ?_⟩, fun j hj => ⟨update_of_ne hj .., ?_⟩,
      update_self ..⟩
    · rintro n ⟨j, hj⟩
      obtain ⟨hji, hn⟩ := hcases j n hj
      refine ⟨?_, j, hn⟩
      rintro rfl
      exact hji (h.one j i n hn hnode)
    · intro j k n hj hk
      exact h.one j k n (hcases j n hj).2 (hcases k n hk).2
    · intro j n hn
      exact hstored.readBuffer j n (hcases j n hn).2
    · have hstays : buffer ⟨(p.pool.store node (p.pool.object node).reset).put node,
          update p.readBuffer i none⟩ j = (p.store node (p.pool.object node).reset).buffer j :=
        buffer_congr (update_of_ne hj ..) fun n _ => rfl
      exact hstays.trans (hsame j hj).2

/-- **No buffer is shared.**  Two slots have different buffers, and a free buffer is empty and
that of no slot. -/
theorem Owned.apart (h : p.Owned) :
    (∀ i j node, p.readBuffer i = some node → p.readBuffer j = some node → i = j) ∧
    ∀ node ∈ p.pool.freeNode, (p.pool.object node).contents = [] ∧
      ∀ i, p.readBuffer i ≠ some node := by
  refine ⟨h.one, fun node hnode => ?_⟩
  obtain ⟨-, hheld, hcleared⟩ := h.pool.free node hnode
  exact ⟨hcleared.2, fun i hi => hheld ⟨i, hi⟩⟩

end ReadPool

end StormNet.Net
