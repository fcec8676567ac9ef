/-
  Util/ProtocolLine.lean --- the line format of `util/util_protocol.h`
  (`class PacketProtocolLine`).

  `decode` looks for CR LF from the front on and gives up behind `maxLen`.  The format itself
  is said of the whole stream: its segments, and which of them is the first that is too long.
-/
import StormNet.Util.Protocol

set_option autoImplicit false

namespace StormNet.Util

open StormNet.Foundation StormNet.Net
open PacketProtocolLen (payload)

/-! ## The source -/

namespace PacketProtocolLine

/-- The loop of `decode` from `i` on, with so many turns left. -/
def scan (maxLen : Nat) (b : IoBuffer) : Nat → Nat → Packet
  | 0, _ => .less
  | turns + 1, i =>
      let data := b.data.drop b.head
      if data.getD i 0 = 13 ∧ data.getD (i + 1) 0 = 10 then .normal b.head i (b.readN (i + 2))
      else if i ≥ maxLen then .error
      else scan maxLen b turns (i + 1)

/-- `decode<maxLen>(IoBuffer* in, const char*& buffer, uint32_t& size)`. -/
def decode (maxLen : Nat) (b : IoBuffer) : Packet :=
  let len := b.getSize
  if len = 0 then .less else scan maxLen b (sub32 len 1) 0

end PacketProtocolLine

/-! ## The format -/

/-- CR LF starts at `i`. -/
def CrlfAt (bs : List UInt8) (i : Nat) : Prop := bs[i]? = some 13 ∧ bs[i + 1]? = some 10

instance (bs : List UInt8) (i : Nat) : Decidable (CrlfAt bs i) := instDecidableAnd

/-- Where the first CR LF starts. -/
def firstCrlf (bs : List UInt8) : Option Nat :=
  (List.range bs.length).find? (fun i => decide (CrlfAt bs i))

/-- The stream is these segments, each with the first CR LF behind it, and a tail without
one. -/
structure Segmented (stream : List UInt8) (segments : List (List UInt8)) (tail : List UInt8) :
    Prop where
  join : stream = (segments.map (· ++ [13, 10])).flatten ++ tail
  first : ∀ s ∈ segments, ∀ i, ¬ CrlfAt (s ++ [13]) i
  last : ∀ i, ¬ CrlfAt tail i

/-- What a receiver that takes lines of up to `maxLen` bytes does with the stream. -/
def received (maxLen : Nat) (segments : List (List UInt8)) (tail : List UInt8) :
    Drained UInt8 (List UInt8) :=
  match segments with
  | [] => ⟨[], decide (maxLen + 2 ≤ tail.length), tail⟩
  | s :: segments =>
      if s.length ≤ maxLen then (received maxLen segments tail).prepend [s]
      else ⟨[], true, ((s :: segments).map (· ++ [13, 10])).flatten ++ tail⟩

/-- One line, if it can be told already. -/
def decodeLine (maxLen : Nat) (bs : List UInt8) : Verdict UInt8 (List UInt8) :=
  match firstCrlf bs with
  | some i => if i ≤ maxLen then .packet (bs.take i) (bs.drop (i + 2)) else .error
  | none => if maxLen + 2 ≤ bs.length then .error else .less

/-! ## The first CR LF -/

section Crlf

variable {bs ys : List UInt8} {i : Nat}

theorem CrlfAt.lt_length (h : CrlfAt bs i) : i + 1 < bs.length :=
  (List.getElem?_eq_some_iff.mp h.2).1

theorem firstCrlf_eq_some : firstCrlf bs = some i ↔ CrlfAt bs i ∧ ∀ j < i, ¬ CrlfAt bs j := by
  rw [firstCrlf, List.find?_range_eq_some]
  constructor
  · intro h
    obtain ⟨hi, -, hbefore⟩ := h
    refine ⟨of_decide_eq_true hi, ?_⟩
    intro j hj
    exact of_decide_eq_false (by simpa using hbefore j hj)
  · intro h
    obtain ⟨hi, hbefore⟩ := h
    have hlt := hi.lt_length
    refine ⟨decide_eq_true hi, List.mem_range.mpr (by omega), ?_⟩
    intro j hj
    simpa using hbefore j hj

theorem firstCrlf_eq_none : firstCrlf bs = none ↔ ∀ i, ¬ CrlfAt bs i := by
  rw [firstCrlf, List.find?_range_eq_none]
  constructor
  · intro h i hi
    have hlt := hi.lt_length
    have hnot := h i (by omega)
    rw [decide_eq_true hi] at hnot
    cases hnot
  · intro h i _
    simpa using h i

/-- What arrives later does not matter in front of the last byte. -/
theorem crlfAt_append (h : i + 1 < bs.length) : CrlfAt (bs ++ ys) i ↔ CrlfAt bs i := by
  rw [CrlfAt, CrlfAt, List.getElem?_append_left (by omega), List.getElem?_append_left h]

theorem firstCrlf_append (h : firstCrlf bs = some i) : firstCrlf (bs ++ ys) = some i := by
  obtain ⟨hi, hbefore⟩ := firstCrlf_eq_some.mp h
  have hlt := hi.lt_length
  refine firstCrlf_eq_some.mpr ⟨(crlfAt_append hlt).mpr hi, ?_⟩
  intro j hj
  rw [crlfAt_append (by omega)]
  exact hbefore j hj

/-- Where there is none yet, the first one starts at the last byte or behind it. -/
theorem length_le_of_firstCrlf_append (h : firstCrlf bs = none)
    (h' : firstCrlf (bs ++ ys) = some i) : bs.length ≤ i + 1 := by
  by_contra hless
  rw [Nat.not_le] at hless
  have hat := (firstCrlf_eq_some.mp h').1
  exact firstCrlf_eq_none.mp h i ((crlfAt_append hless).mp hat)

end Crlf

/-! ## The decoder -/

section Decoder

variable {maxLen : Nat} {bs p rest : List UInt8}

theorem decodeLine_of_packet (h : decodeLine maxLen bs = .packet p rest) :
    ∃ i, firstCrlf bs = some i ∧ i ≤ maxLen ∧ p = bs.take i ∧ rest = bs.drop (i + 2) := by
  unfold decodeLine at h
  split at h
  · rename_i i hfirst
    split at h
    · rename_i hle
      injection h with hp hrest
      exact ⟨i, hfirst, hle, hp.symm, hrest.symm⟩
    · cases h
  · split at h
    · cases h
    · cases h

theorem decodeLine_packet_append (ys : List UInt8) (h : decodeLine maxLen bs = .packet p rest) :
    decodeLine maxLen (bs ++ ys) = .packet p (rest ++ ys) := by
  obtain ⟨i, hfirst, hle, rfl, rfl⟩ := decodeLine_of_packet h
  have hlt := (firstCrlf_eq_some.mp hfirst).1.lt_length
  rw [decodeLine, firstCrlf_append hfirst]
  simp only [if_pos hle]
  rw [List.take_append_of_le_length (by omega), List.drop_append_of_le_length (by omega)]

/-- A line that is too long stays too long. -/
theorem decodeLine_error_append (ys : List UInt8) (h : decodeLine maxLen bs = .error) :
    decodeLine maxLen (bs ++ ys) = .error := by
  unfold decodeLine at h
  split at h
  · rename_i i hfirst
    split at h
    · cases h
    · rename_i hmore
      rw [decodeLine, firstCrlf_append hfirst]
      exact if_neg hmore
  · rename_i hfirst
    split at h
    · rename_i hlong
      unfold decodeLine
      split
      · rename_i i hlater
        have hpos := length_le_of_firstCrlf_append hfirst hlater
        exact if_neg (by omega)
      · exact if_pos (by rw [List.length_append]; omega)
    · cases h

/-- The line format with a limit. -/
def lineDecoder (maxLen : Nat) : StableDecoder UInt8 (List UInt8) where
  decode := decodeLine maxLen
  shrinks h := by
    obtain ⟨i, hfirst, -, -, rfl⟩ := decodeLine_of_packet h
    have hlt := (firstCrlf_eq_some.mp hfirst).1.lt_length
    rw [List.length_drop]
    omega
  packet_append := decodeLine_packet_append
  error_append := decodeLine_error_append

/-- A stream that has not been rejected leaves less than the limit and the two bytes. -/
theorem length_lt_of_less (h : decodeLine maxLen bs = .less) : bs.length < maxLen + 2 := by
  unfold decodeLine at h
  split at h
  · split at h
    · cases h
    · cases h
  · split at h
    · cases h
    · rename_i hshort
      exact Nat.lt_of_not_le hshort

end Decoder

/-! ## Segments -/

section Segments

variable {maxLen : Nat} {stream tail s : List UInt8} {segments : List (List UInt8)}

/-- Each stream has its segments. -/
theorem exists_segmented (stream : List UInt8) :
    ∃ segments tail, Segmented stream segments tail := by
  induction hn : stream.length using Nat.strongRecOn generalizing stream with
  | _ n ih =>
    cases hfirst : firstCrlf stream with
    | none => exact ⟨[], stream, rfl, fun _ hs => (nomatch hs), firstCrlf_eq_none.mp hfirst⟩
    | some i =>
      obtain ⟨hat, hbefore⟩ := firstCrlf_eq_some.mp hfirst
      have hlt := hat.lt_length
      obtain ⟨segments, tail, hjoin, hsegments, hlast⟩ :=
        ih (stream.drop (i + 2)).length (by rw [List.length_drop]; omega) _ rfl
      have hsplit : stream = stream.take i ++ [13, 10] ++ stream.drop (i + 2) := by
        have htwo : stream.drop i = 13 :: 10 :: stream.drop (i + 2) := by
          obtain ⟨hcr, hlf⟩ := hat
          rw [List.drop_eq_getElem_cons (by omega), List.drop_eq_getElem_cons hlt]
          rw [List.getElem?_eq_getElem (by omega), Option.some.injEq] at hcr
          rw [List.getElem?_eq_getElem hlt, Option.some.injEq] at hlf
          rw [hcr, hlf]
        rw [List.append_assoc]
        exact (htwo ▸ List.take_append_drop i stream).symm
      refine ⟨stream.take i :: segments, tail, ?_, ?_, hlast⟩
      · rw [List.map_cons, List.flatten_cons, List.append_assoc, ← hjoin]
        exact hsplit
      · intro s hs
        rcases List.mem_cons.mp hs with rfl | hlater
        · intro j hj
          have hlen := hj.lt_length
          rw [List.length_append, List.length_take, List.length_singleton] at hlen
          have hcut : stream = (stream.take i ++ [13]) ++ 10 :: stream.drop (i + 2) := by
            rw [List.append_assoc] at hsplit ⊢
            exact hsplit
          refine hbefore j (by omega) ?_
          rw [hcut]
          refine (crlfAt_append ?_).mpr hj
          rw [List.length_append, List.length_take, List.length_singleton]
          omega
        · exact hsegments s hlater

/-- The first CR LF ends the first segment. -/
theorem firstCrlf_segment (h : ∀ i, ¬ CrlfAt (s ++ [13]) i) (rest : List UInt8) :
    firstCrlf (s ++ [13, 10] ++ rest) = some s.length := by
  refine firstCrlf_eq_some.mpr ⟨⟨?_, ?_⟩, ?_⟩
  · rw [List.append_assoc, List.getElem?_append_right (Nat.le_refl _), Nat.sub_self]
    rfl
  · rw [List.append_assoc, List.getElem?_append_right (by omega), Nat.add_sub_cancel_left]
    rfl
  · intro j hj hat
    have hsplit : s ++ [13, 10] ++ rest = (s ++ [13]) ++ 10 :: rest := by simp
    rw [hsplit, crlfAt_append (by rw [List.length_append]; simpa using hj)] at hat
    exact h j hat

/-- Decoding line by line is reading segment by segment. -/
theorem drain_segmented (h : Segmented stream segments tail) :
    (lineDecoder maxLen).drain stream = received maxLen segments tail := by
  induction segments generalizing stream with
  | nil =>
    obtain ⟨hjoin, -, hlast⟩ := h
    have hstream : stream = tail := hjoin
    have hdecode : (lineDecoder maxLen).decode stream =
        if maxLen + 2 ≤ tail.length then .error else .less := by
      show decodeLine maxLen stream = _
      rw [hstream, decodeLine, firstCrlf_eq_none.mpr hlast]
    rw [received]
    split at hdecode
    · rename_i hlong
      rw [StableDecoder.drain_of_error _ hdecode, decide_eq_true hlong, hstream]
    · rename_i hshort
      rw [StableDecoder.drain_of_less _ hdecode, decide_eq_false hshort, hstream]
  | cons s segments ih =>
    obtain ⟨hjoin, hfirst, hlast⟩ := h
    let rest := (segments.map (· ++ [13, 10])).flatten ++ tail
    have hstream : stream = s ++ [13, 10] ++ rest := by
      rw [hjoin, List.map_cons, List.flatten_cons, List.append_assoc]
    have hcrlf := firstCrlf_segment (hfirst s List.mem_cons_self) rest
    rw [← hstream] at hcrlf
    rw [received]
    split
    · rename_i hle
      have hdecode : (lineDecoder maxLen).decode stream = .packet s rest := by
        show decodeLine maxLen stream = _
        rw [decodeLine, hcrlf]
        simp only [if_pos hle]
        rw [hstream, List.append_assoc, List.take_left]
        congr 1
        rw [← List.append_assoc]
        exact List.drop_left' (by rw [List.length_append]; rfl)
      rw [StableDecoder.drain_of_packet _ hdecode]
      rw [ih ⟨rfl, fun s' hs' => hfirst s' (List.mem_cons_of_mem s hs'), hlast⟩]
    · rename_i hmore
      have hdecode : (lineDecoder maxLen).decode stream = .error := by
        show decodeLine maxLen stream = _
        rw [decodeLine, hcrlf]
        exact if_neg hmore
      rw [StableDecoder.drain_of_error _ hdecode, hjoin]

/-- The lines up to the first that is too long. -/
theorem received_packets (maxLen : Nat) (segments : List (List UInt8)) (tail : List UInt8) :
    (received maxLen segments tail).packets = segments.takeWhile (·.length ≤ maxLen) := by
  induction segments with
  | nil => rfl
  | cons s segments ih =>
    rw [received, List.takeWhile_cons]
    split
    · rename_i hle
      rw [Drained.prepend_packets, ih, if_pos (decide_eq_true hle)]
      rfl
    · rename_i hmore
      rw [if_neg (by simpa using hmore)]

theorem received_rejected (maxLen : Nat) (segments : List (List UInt8)) (tail : List UInt8) :
    (received maxLen segments tail).rejected = true ↔
      (∃ s ∈ segments, maxLen < s.length) ∨ maxLen + 2 ≤ tail.length := by
  induction segments with
  | nil => simp [received]
  | cons s segments ih =>
    rw [received, List.exists_mem_cons_iff]
    split
    · rename_i hle
      rw [Drained.prepend_rejected, ih, or_assoc, or_iff_right (Nat.not_lt.mpr hle)]
    · rename_i hmore
      exact iff_of_true rfl (.inl (.inl (Nat.lt_of_not_le hmore)))

/-- Without a rejection the tail is left. -/
theorem received_rest (h : (received maxLen segments tail).rejected = false) :
    (received maxLen segments tail).rest = tail := by
  induction segments with
  | nil => rfl
  | cons s segments ih =>
    rw [received] at h ⊢
    split at h
    · rename_i hle
      rw [if_pos hle]
      exact ih h
    · cases h

end Segments

/-! ## The decoder of the source against the format -/

namespace PacketProtocolLine

variable {maxLen : Nat} {b : IoBuffer}

/-- Behind `head` stand the unread bytes first. -/
theorem getD_drop_head (h : b.WF) {i : Nat} (hi : i < b.contents.length) (x : UInt8) :
    (b.data.drop b.head).getD i 0 = x ↔ b.contents[i]? = some x := by
  have hget : (b.data.drop b.head)[i]? = b.contents[i]? := by
    have hlen := h.contents_length_add_head
    rw [IoBuffer.contents, List.getElem?_drop, List.getElem?_drop, List.getElem?_take,
      if_pos (by omega)]
  rw [List.getD_eq_getElem?_getD, hget, List.getElem?_eq_getElem hi, Option.getD_some,
    Option.some.injEq]

/-- The scan looks for the first CR LF, not beyond `maxLen`. -/
theorem scan_matches (h : b.WF) {turns i : Nat} (hturns : i + turns + 1 = b.contents.length)
    (hbefore : ∀ j < i, ¬ CrlfAt b.contents j) (hmax : i ≤ maxLen) :
    (scan maxLen b turns i).Matches b (decodeLine maxLen b.contents) := by
  induction turns generalizing i with
  | zero =>
    have hnone : firstCrlf b.contents = none := by
      refine firstCrlf_eq_none.mpr ?_
      intro k hk
      have hlt := hk.lt_length
      exact hbefore k (by omega) hk
    rw [decodeLine, hnone]
    simp only [if_neg (show ¬ maxLen + 2 ≤ b.contents.length by omega)]
    rfl
  | succ turns ih =>
    have hhere : (b.data.drop b.head).getD i 0 = 13 ∧ (b.data.drop b.head).getD (i + 1) 0 = 10 ↔
        CrlfAt b.contents i :=
      and_congr (getD_drop_head h (by omega) 13) (getD_drop_head h (by omega) 10)
    rw [scan]
    simp only [hhere]
    split
    · rename_i hat
      have hlen := h.contents_length_add_head
      have hsize := h.length_contents
      have hlt := hat.lt_length
      rw [decodeLine, firstCrlf_eq_some.mpr ⟨hat, hbefore⟩]
      simp only [if_pos hmax]
      refine ⟨b.head, i, i + 2, rfl, ?_, h.contents_readN _, by omega⟩
      rw [payload, IoBuffer.contents, List.drop_take, List.take_take]
      congr 1
      omega
    · rename_i hnot
      have hbefore' : ∀ j < i + 1, ¬ CrlfAt b.contents j := by
        intro j hj
        rcases Nat.lt_succ_iff_lt_or_eq.mp hj with hless | rfl
        · exact hbefore j hless
        · exact hnot
      split
      · rename_i hlimit
        have herror : decodeLine maxLen b.contents = .error := by
          unfold decodeLine
          split
          · rename_i k hfirst
            have hk : ¬ k ≤ maxLen := by
              intro hle
              exact hbefore' k (by omega) (firstCrlf_eq_some.mp hfirst).1
            exact if_neg hk
          · exact if_pos (by omega)
        rw [herror]
        rfl
      · exact ih (by omega) hbefore' (by omega)

/-- `decode` answers what the format says. -/
theorem decode_matches (h : b.WF) :
    (decode maxLen b).Matches b (decodeLine maxLen b.contents) := by
  have hsize := h.length_contents
  by_cases hempty : b.contents.length = 0
  · have hless : decode maxLen b = .less := if_pos (hsize.symm.trans hempty)
    rw [hless, List.eq_nil_of_length_eq_zero hempty]
    rfl
  · have hword : b.getSize < 2 ^ 32 := by
      have hcap := h.capacity_lt
      have htail := h.tail_le_capacity
      rw [h.getSize_eq]
      omega
    rw [decode, if_neg (by omega), sub32_of_le (by omega) hword]
    exact scan_matches h (by omega) (fun j hj => (nomatch hj)) (Nat.zero_le _)

/-- `PacketProtocolLine::decode` answers as the decoder of lines does, on any bytes. -/
theorem parses (maxLen : Nat) :
    Parses (decode maxLen) (lineDecoder maxLen) (fun _ => True) where
  answer _ hwf _ := decode_matches hwf
  rest _ _ _ _ _ := trivial

end PacketProtocolLine

end StormNet.Util
