/-
  Net/LineFraming.lean --- A connection whose parser is `PacketProtocolLine::decode`.

  What the handler is told of a stream of lines, and what is left in the read buffer.  The
  parser is the one of `ProtocolLine`, the connection the one of `HandleRead` over a parser.
-/
import StormNet.Net.HandleRead
import StormNet.Util.ProtocolLine

set_option autoImplicit false

namespace StormNet.Net

open StormNet.Foundation StormNet.Util

/-- The unread bytes and those of the next event fit a buffer, event by event. -/
def Buffered (D : StableDecoder UInt8 (List UInt8)) : List UInt8 → List (List UInt8) → Prop
  | _, [] => True
  | held, c :: cs => held.length + c.length < 2 ^ 31 ∧
      ((D.drain (held ++ c)).rejected = false → Buffered D (D.drain (held ++ c)).rest cs)

section Decoder

variable {D : StableDecoder UInt8 (List UInt8)}

theorem fed_of_buffered {n : Nat} (hn : 2 ^ 31 ≤ n) {held : List UInt8}
    {chunks : List (List UInt8)} (h : Buffered D held chunks) :
    D.Fed (fun bs => True ∧ bs.length < 2 ^ 31 ∧ bs.length < n) held chunks := by
  apply StableDecoder.Fed.imp_of_rest (Q := Buffered D) _ _ h
  · intro held c cs h
    rw [List.length_append]
    exact ⟨trivial, h.1, Nat.lt_of_lt_of_le h.1 hn⟩
  · exact fun held c cs h => h.2

/-- A stream that fits a buffer as a whole does so event by event. -/
theorem buffered_of_length {held : List UInt8} {chunks : List (List UInt8)}
    (h : held.length + chunks.flatten.length < 2 ^ 31) : Buffered D held chunks := by
  induction chunks generalizing held with
  | nil => trivial
  | cons c chunks ih =>
    rw [List.flatten_cons, List.length_append] at h
    refine ⟨by omega, fun _ => ih ?_⟩
    have hrest := D.length_rest_drain (held ++ c)
    rw [List.length_append] at hrest
    omega

end Decoder

/-! ## Lines -/

/-- So does any stream in events that leave room for a line. -/
theorem buffered_of_chunks {maxLen : Nat} {held : List UInt8} {chunks : List (List UInt8)}
    (hheld : held.length < maxLen + 2)
    (h : ∀ c ∈ chunks, maxLen + 1 + c.length < 2 ^ 31) :
    Buffered (lineDecoder maxLen) held chunks := by
  induction chunks generalizing held with
  | nil => trivial
  | cons c chunks ih =>
    have hfirst := h c List.mem_cons_self
    refine ⟨by omega, fun hrej => ih ?_ (fun c' hc' => h c' (List.mem_cons_of_mem c hc'))⟩
    exact length_lt_of_less ((lineDecoder maxLen).decode_rest_drain _ hrej)

/-- A connection that starts with an empty read buffer shows what draining the whole stream
shows, however the events cut it. -/
theorem lines_shows_stream {maxLen n : Nat} (hn : 2 ^ 31 ≤ n) {b : IoBuffer} (hb : b.ReadBuffer)
    (hempty : b.contents = []) {events : List (List ReadResult)}
    (hclose : ∀ rs ∈ events, closes rs = false)
    (hsize : Buffered (lineDecoder maxLen) [] (events.map bytesRead)) :
    Shows (connectionWith (PacketProtocolLine.decode maxLen) n events b)
      ((lineDecoder maxLen).drain (streamOf events)) := by
  rw [← hempty] at hsize
  have hshows := connectionWith_shows (PacketProtocolLine.parses maxLen) hb hclose
    (fed_of_buffered hn hsize)
  rw [hempty] at hshows
  exact hshows.of_agrees ((lineDecoder maxLen).feed_eq_drain _ [] rfl)

/-- A line is too long, or will be. -/
def Overlong (maxLen : Nat) (segments : List (List UInt8)) (tail : List UInt8) : Prop :=
  (∃ s ∈ segments, maxLen < s.length) ∨ maxLen + 2 ≤ tail.length

instance (maxLen : Nat) (segments : List (List UInt8)) (tail : List UInt8) :
    Decidable (Overlong maxLen segments tail) := instDecidableOr

/-- What the handler of a connection is told of the lines, and what is left of the stream. -/
structure Frames (maxLen : Nat) (r : List Output × Option IoBuffer)
    (segments : List (List UInt8)) (tail : List UInt8) : Prop where
  /-- the lines up to the first that is too long, and then the rejection if there is one -/
  outputs_eq : r.1 = (segments.takeWhile (·.length ≤ maxLen)).map .packet ++
    if Overlong maxLen segments tail then [.close .self] else []
  rejected : r.2 = none ↔ Overlong maxLen segments tail
  waiting : ∀ b, r.2 = some b → b.contents = tail

theorem Shows.frames {r : List Output × Option IoBuffer} {maxLen : Nat}
    {segments : List (List UInt8)} {tail : List UInt8}
    (h : Shows r (received maxLen segments tail)) : Frames maxLen r segments tail := by
  have hrejected := received_rejected maxLen segments tail
  have hout := h.outputs_eq
  rw [outputs, received_packets] at hout
  cases hrej : (received maxLen segments tail).rejected with
  | true =>
    have hover : Overlong maxLen segments tail := hrejected.mp hrej
    have hnone := h.closed hrej
    rw [hrej, if_pos rfl] at hout
    refine ⟨by rw [hout, if_pos hover], iff_of_true hnone hover, ?_⟩
    intro b hb
    rw [hnone] at hb
    cases hb
  | false =>
    have hover : ¬ Overlong maxLen segments tail := by
      intro hover
      rw [hrejected.mpr hover] at hrej
      cases hrej
    obtain ⟨b, hb, hcontents, -⟩ := h.kept hrej
    rw [hrej, if_neg Bool.false_ne_true] at hout
    refine ⟨by rw [hout, if_neg hover], iff_of_false (by rw [hb]; simp) hover, ?_⟩
    intro b' hb'
    rw [hb] at hb'
    cases hb'
    rw [hcontents, received_rest hrej]

/-- **Line framing is exact.**  Cutting a stream into events, and each event into reads, changes
neither the lines nor the rejection that the handler sees; the lines are the segments of the
stream up to the first that is longer than `maxLen`, and an unterminated tail is rejected from
`maxLen + 2` bytes on. -/
theorem line_framing (maxLen n : Nat) (hn : 2 ^ 31 ≤ n) (b : IoBuffer) (hb : b.ReadBuffer)
    (hempty : b.contents = []) (events : List (List ReadResult))
    (hclose : ∀ rs ∈ events, closes rs = false)
    (hsize : Buffered (lineDecoder maxLen) [] (events.map bytesRead)) :
    (∃ segments tail, Segmented (streamOf events) segments tail) ∧
    (∀ segments tail, Segmented (streamOf events) segments tail →
      Frames maxLen (connectionWith (PacketProtocolLine.decode maxLen) n events b)
        segments tail) ∧
    ∀ (b' : IoBuffer) (events' : List (List ReadResult)), b'.ReadBuffer → b'.contents = [] →
      (∀ rs ∈ events', closes rs = false) →
      Buffered (lineDecoder maxLen) [] (events'.map bytesRead) →
      streamOf events' = streamOf events →
      (connectionWith (PacketProtocolLine.decode maxLen) n events' b').1 =
        (connectionWith (PacketProtocolLine.decode maxLen) n events b).1 ∧
      (connectionWith (PacketProtocolLine.decode maxLen) n events' b').2.map IoBuffer.contents =
        (connectionWith (PacketProtocolLine.decode maxLen) n events b).2.map
          IoBuffer.contents := by
  have hshows := lines_shows_stream hn hb hempty hclose hsize
  refine ⟨exists_segmented _, ?_, ?_⟩
  · intro segments tail hsegmented
    rw [drain_segmented hsegmented] at hshows
    exact hshows.frames
  · intro b' events' hb' hempty' hclose' hsize' hstream
    have hshows' := lines_shows_stream hn hb' hempty' hclose' hsize'
    rw [hstream] at hshows'
    exact hshows'.unique hshows

/-- Two lines, cut between CR and LF, and a tail that is not yet too long. -/
theorem line_framing_at_cut : (connectionWith (PacketProtocolLine.decode 3) (2 ^ 31)
    [[.data 97 [13]], [.intr, .data 10 [98, 99, 100, 13, 10, 101]]] (.new 4)).1 =
      [.packet [97], .packet [98, 99, 100]] := by
  have hb : (IoBuffer.new 4).ReadBuffer := IoBuffer.readBuffer_new (by decide) (by decide)
  have hsize : Buffered (lineDecoder 3) [] ([[.data 97 [13]],
      [.intr, .data 10 [98, 99, 100, 13, 10, 101]]].map bytesRead) :=
    buffered_of_length (by decide)
  have hsegmented : Segmented (streamOf [[.data 97 [13]],
      [.intr, .data 10 [98, 99, 100, 13, 10, 101]]]) [[97], [98, 99, 100]] [101] := by
    have hfirst : ∀ s ∈ ([[97], [98, 99, 100]] : List (List UInt8)),
        firstCrlf (s ++ [13]) = none := by decide
    have hlast : firstCrlf [101] = none := by decide
    exact ⟨by decide, fun s hs => firstCrlf_eq_none.mp (hfirst s hs), firstCrlf_eq_none.mp hlast⟩
  exact ((line_framing 3 (2 ^ 31) (Nat.le_refl _) _ hb (IoBuffer.contents_new 4) _ (by decide)
    hsize).2.1 _ _ hsegmented).outputs_eq

end StormNet.Net
