/-
  Foundation/Channel.lean --- packets sent as frames of a stream that arrives in pieces.

  `Carries held flight ps` says what a reader and the stream behind it hold: the frames of
  `ps`, cut anywhere, with no complete one on the reader's side.  A sender appends a frame;
  a piece that arrives gives the reader the packets that are complete with it, in order.

  Nothing in this file names the repository.
-/
import StormNet.Foundation.Framing

set_option autoImplicit false

namespace StormNet.Foundation

namespace StableDecoder

variable {α β : Type} {D : StableDecoder α β} {frame : β → List α}

/-- A packet whose frame is decoded back, whatever comes behind it. -/
def Framed (D : StableDecoder α β) (frame : β → List α) (p : β) : Prop :=
  ∀ xs, D.decode (frame p ++ xs) = .packet p xs

/-- The reader holds the front of the frames of `ps` and waits for more; the rest of them is in
flight. -/
structure Carries (D : StableDecoder α β) (frame : β → List α) (held flight : List α)
    (ps : List β) : Prop where
  stream : held ++ flight = (ps.map frame).flatten
  waits : D.decode held = .less
  framed : ∀ p ∈ ps, D.Framed frame p

theorem carries_nil (hnil : D.decode [] = .less) : D.Carries frame [] [] [] where
  stream := rfl
  waits := hnil
  framed _ hp := absurd hp List.not_mem_nil

/-- What arrived of a stream of frames is decoded to the packets that are complete, in order. -/
theorem drain_of_frames (hnil : D.decode [] = .less) {ps : List β}
    (hframed : ∀ p ∈ ps, D.Framed frame p) {xs ys : List α}
    (hstream : xs ++ ys = (ps.map frame).flatten) :
    ∃ qs rs held, ps = qs ++ rs ∧ D.drain xs = ⟨qs, false, held⟩ ∧
      D.Carries frame held ys rs := by
  induction ps generalizing xs with
  | nil =>
    obtain ⟨rfl, rfl⟩ := List.append_eq_nil_iff.mp hstream
    exact ⟨[], [], [], rfl, D.drain_of_less hnil, carries_nil hnil⟩
  | cons p ps ih =>
    have hwhole : D.decode (xs ++ ys) = .packet p (ps.map frame).flatten := by
      rw [hstream, List.map_cons, List.flatten_cons]
      exact hframed p List.mem_cons_self _
    cases hd : D.decode xs with
    | less => exact ⟨[], p :: ps, xs, rfl, D.drain_of_less hd, hstream, hd, hframed⟩
    | error =>
      rw [D.error_append ys hd] at hwhole
      cases hwhole
    | packet q rest =>
      rw [D.packet_append ys hd, Verdict.packet.injEq] at hwhole
      obtain ⟨rfl, hrest⟩ := hwhole
      obtain ⟨qs, rs, held, rfl, hdrain, hcarries⟩ :=
        ih (fun x hx => hframed x (List.mem_cons_of_mem _ hx)) hrest
      refine ⟨q :: qs, rs, held, rfl, ?_, hcarries⟩
      rw [D.drain_of_packet hd, hdrain]
      rfl

namespace Carries

variable {held flight : List α} {ps : List β}

/-- A packet is sent. -/
theorem send (h : D.Carries frame held flight ps) {p : β} (hp : D.Framed frame p) :
    D.Carries frame held (flight ++ frame p) (ps ++ [p]) where
  stream := by
    rw [← List.append_assoc, h.stream, List.map_append, List.flatten_append, List.map_singleton,
      List.flatten_singleton]
  waits := h.waits
  framed q hq := by
    rcases List.mem_append.mp hq with hq | hq
    · exact h.framed q hq
    · rw [List.mem_singleton.mp hq]
      exact hp

/-- A piece of the stream arrives. -/
theorem deliver (h : D.Carries frame held flight ps) (hnil : D.decode [] = .less)
    {piece more : List α} (hflight : flight = piece ++ more) :
    ∃ qs rs held', ps = qs ++ rs ∧ D.drain (held ++ piece) = ⟨qs, false, held'⟩ ∧
      D.Carries frame held' more rs := by
  apply drain_of_frames hnil h.framed
  rw [List.append_assoc, ← hflight]
  exact h.stream

end Carries

end StableDecoder

end StormNet.Foundation
