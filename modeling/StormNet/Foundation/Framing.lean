/-
  Foundation/Framing.lean --- incremental decoding of a framed stream.

  A *stable* decoder looks at the bytes received so far and answers one of:
  more input is needed, the stream is malformed, or here is a packet and the
  unread rest.  Stability means that an answer other than "more input" is not
  changed by bytes that arrive later.

  `drain` runs the decoder until it asks for more input or rejects; `feed` does
  so after every chunk of a stream, keeping the unread rest between chunks.  The
  law of the file is `feed_eq_drain`: how the stream is cut into chunks changes
  neither the packets, nor the rejection, nor (without one) the unread rest.

  Nothing in this file names the repository.
-/
import Mathlib.Data.List.Basic

set_option autoImplicit false

namespace StormNet.Foundation

/-- The answer of a decoder to the symbols received so far. -/
inductive Verdict (α β : Type) where
  /-- more input is needed -/
  | less
  /-- the stream is malformed -/
  | error
  /-- a packet, and the symbols after it -/
  | packet (p : β) (rest : List α)
  deriving DecidableEq, Repr

/-- A decoder whose answers are stable under later input and whose packets
consume something. -/
structure StableDecoder (α β : Type) where
  /-- Look at the symbols received so far. -/
  decode : List α → Verdict α β
  shrinks : ∀ {xs p rest}, decode xs = .packet p rest → rest.length < xs.length
  packet_append : ∀ {xs p rest} (ys : List α),
    decode xs = .packet p rest → decode (xs ++ ys) = .packet p (rest ++ ys)
  error_append : ∀ {xs} (ys : List α), decode xs = .error → decode (xs ++ ys) = .error

/-- What decoding has produced: the packets in order, whether the stream was
rejected, and the symbols not consumed. -/
structure Drained (α β : Type) where
  packets : List β
  rejected : Bool
  rest : List α
  deriving DecidableEq, Repr

namespace Drained

variable {α β : Type}

/-- Put packets decoded earlier in front. -/
def prepend (ps : List β) (d : Drained α β) : Drained α β :=
  ⟨ps ++ d.packets, d.rejected, d.rest⟩

@[simp] theorem prepend_packets (ps : List β) (d : Drained α β) :
    (d.prepend ps).packets = ps ++ d.packets := rfl
@[simp] theorem prepend_rejected (ps : List β) (d : Drained α β) :
    (d.prepend ps).rejected = d.rejected := rfl
@[simp] theorem prepend_rest (ps : List β) (d : Drained α β) :
    (d.prepend ps).rest = d.rest := rfl

theorem prepend_prepend (ps qs : List β) (d : Drained α β) :
    (d.prepend qs).prepend ps = d.prepend (ps ++ qs) := by
  simp [prepend, List.append_assoc]

/-- Equal up to the unread rest of a rejected stream. -/
def Agrees (d e : Drained α β) : Prop :=
  d.packets = e.packets ∧ d.rejected = e.rejected ∧
    (d.rejected = false → d.rest = e.rest)

theorem Agrees.refl (d : Drained α β) : d.Agrees d := ⟨rfl, rfl, fun _ => rfl⟩

theorem Agrees.trans {d e f : Drained α β} (h₁ : d.Agrees e) (h₂ : e.Agrees f) :
    d.Agrees f := by
  refine ⟨h₁.1.trans h₂.1, h₁.2.1.trans h₂.2.1, fun h => ?_⟩
  have he : e.rejected = false := by rw [← h₁.2.1]; exact h
  exact (h₁.2.2 h).trans (h₂.2.2 he)

theorem Agrees.symm {d e : Drained α β} (h : d.Agrees e) : e.Agrees d := by
  refine ⟨h.1.symm, h.2.1.symm, fun hr => (h.2.2 ?_).symm⟩
  rw [h.2.1]
  exact hr

theorem Agrees.prepend {d e : Drained α β} (ps : List β) (h : d.Agrees e) :
    (d.prepend ps).Agrees (e.prepend ps) := by
  refine ⟨?_, h.2.1, h.2.2⟩
  simp [h.1]

end Drained

namespace StableDecoder

variable {α β : Type} (D : StableDecoder α β)

/-- At most `fuel` decodes of `xs`. -/
def drainFuel : Nat → List α → Drained α β
  | 0, xs => ⟨[], false, xs⟩
  | fuel + 1, xs =>
      match D.decode xs with
      | .less => ⟨[], false, xs⟩
      | .error => ⟨[], true, xs⟩
      | .packet p rest => (drainFuel fuel rest).prepend [p]

/-- Decode until more input is needed or the stream is rejected.  Every packet
consumes a symbol, so one decode more than there are symbols is enough. -/
def drain (xs : List α) : Drained α β := D.drainFuel (xs.length + 1) xs

/-- Fuel beyond the length of the input changes nothing. -/
theorem drainFuel_eq_drain : ∀ (n : Nat) (xs : List α), xs.length < n →
    D.drainFuel n xs = D.drain xs := by
  have aux : ∀ (n m : Nat) (xs : List α), xs.length < n → xs.length < m →
      D.drainFuel n xs = D.drainFuel m xs := by
    intro n
    induction n with
    | zero => intro m xs hn _; exact absurd hn (Nat.not_lt_zero _)
    | succ n ih =>
      intro m xs hn hm
      cases m with
      | zero => exact absurd hm (Nat.not_lt_zero _)
      | succ m =>
        simp only [drainFuel]
        cases hd : D.decode xs with
        | less => rfl
        | error => rfl
        | packet p rest =>
          have hlt := D.shrinks hd
          simp only
          rw [ih m rest (by omega) (by omega)]
  intro n xs hn
  exact aux n (xs.length + 1) xs hn (Nat.lt_succ_self _)

theorem drain_of_less {xs : List α} (h : D.decode xs = .less) :
    D.drain xs = ⟨[], false, xs⟩ := by
  simp [drain, drainFuel, h]

theorem drain_of_error {xs : List α} (h : D.decode xs = .error) :
    D.drain xs = ⟨[], true, xs⟩ := by
  simp [drain, drainFuel, h]

theorem drain_of_packet {xs rest : List α} {p : β} (h : D.decode xs = .packet p rest) :
    D.drain xs = (D.drain rest).prepend [p] := by
  have hlt := D.shrinks h
  rw [drain]
  simp only [drainFuel, h]
  rw [D.drainFuel_eq_drain xs.length rest hlt]

/-- What is left after an unrejected drain asks for more input. -/
theorem decode_rest_drain : ∀ (xs : List α), (D.drain xs).rejected = false →
    D.decode (D.drain xs).rest = .less := by
  intro xs
  induction hn : xs.length using Nat.strongRecOn generalizing xs with
  | _ n ih =>
    intro hr
    cases hd : D.decode xs with
    | less => rw [D.drain_of_less hd]; exact hd
    | error => rw [D.drain_of_error hd] at hr; cases hr
    | packet p rest =>
      rw [D.drain_of_packet hd] at hr ⊢
      exact ih rest.length (hn ▸ D.shrinks hd) rest rfl hr

/-- Draining leaves no more than it was given. -/
theorem length_rest_drain : ∀ (xs : List α), (D.drain xs).rest.length ≤ xs.length := by
  intro xs
  induction hn : xs.length using Nat.strongRecOn generalizing xs with
  | _ n ih =>
    cases hd : D.decode xs with
    | less => rw [D.drain_of_less hd]; exact Nat.le_of_eq hn
    | error => rw [D.drain_of_error hd]; exact Nat.le_of_eq hn
    | packet p rest =>
      have hlt := D.shrinks hd
      have hle := ih rest.length (hn ▸ hlt) rest rfl
      rw [D.drain_of_packet hd, Drained.prepend_rest]
      omega

/-- Draining in two portions: the second portion is decoded behind what the
first left over, unless the first was already rejected. -/
theorem drain_append : ∀ (xs ys : List α),
    (D.drain (xs ++ ys)).Agrees
      (if (D.drain xs).rejected then D.drain xs
        else (D.drain ((D.drain xs).rest ++ ys)).prepend (D.drain xs).packets) := by
  intro xs
  induction hn : xs.length using Nat.strongRecOn generalizing xs with
  | _ n ih =>
    intro ys
    cases hd : D.decode xs with
    | less =>
      rw [D.drain_of_less hd]
      exact Drained.Agrees.refl _
    | error =>
      rw [D.drain_of_error hd, D.drain_of_error (D.error_append ys hd)]
      exact ⟨rfl, rfl, fun h => by cases h⟩
    | packet p rest =>
      rw [D.drain_of_packet (D.packet_append ys hd), D.drain_of_packet hd]
      have hrec := (ih rest.length (hn ▸ D.shrinks hd) rest rfl ys).prepend [p]
      by_cases hrej : (D.drain rest).rejected = true
      · have hrej' : ((D.drain rest).prepend [p]).rejected = true := hrej
        rw [if_pos hrej] at hrec
        rw [if_pos hrej']
        exact hrec
      · have hrej' : ¬ ((D.drain rest).prepend [p]).rejected = true := hrej
        rw [if_neg hrej, Drained.prepend_prepend] at hrec
        rw [if_neg hrej']
        exact hrec

/-! ## Chunked input -/

/-- Receive the chunks one after the other behind the unread symbols `held`,
draining after each; a rejection ends it. -/
def feed : List α → List (List α) → Drained α β
  | held, [] => ⟨[], false, held⟩
  | held, c :: cs =>
      let d := D.drain (held ++ c)
      if d.rejected then d else (feed d.rest cs).prepend d.packets

/-- All that is drained on the way, from what is held on, meets `P`. -/
def Fed (P : List α → Prop) : List α → List (List α) → Prop
  | _, [] => True
  | held, c :: cs => P (held ++ c) ∧
      ((D.drain (held ++ c)).rejected = false → Fed P (D.drain (held ++ c)).rest cs)

variable {D} in
/-- Chunk by chunk, with what is left over. -/
theorem Fed.imp_of_rest {P : List α → Prop} {Q : List α → List (List α) → Prop}
    (hfirst : ∀ held c cs, Q held (c :: cs) → P (held ++ c))
    (hlater : ∀ held c cs, Q held (c :: cs) → (D.drain (held ++ c)).rejected = false →
      Q (D.drain (held ++ c)).rest cs) {held : List α} {cs : List (List α)} (h : Q held cs) :
    D.Fed P held cs := by
  induction cs generalizing held with
  | nil => trivial
  | cons c cs ih => exact ⟨hfirst held c cs h, fun hrej => ih (hlater held c cs h hrej)⟩

/-- **Chunk independence.**  Cutting a stream into chunks changes neither the
packets, nor the rejection, nor (without one) what is left over.  `held` is what
an earlier drain left over. -/
theorem feed_eq_drain : ∀ (cs : List (List α)) (held : List α),
    D.decode held = .less → (D.feed held cs).Agrees (D.drain (held ++ cs.flatten)) := by
  intro cs
  induction cs with
  | nil =>
    intro held hless
    rw [List.flatten_nil, List.append_nil, D.drain_of_less hless]
    exact Drained.Agrees.refl _
  | cons c cs ih =>
    intro held hless
    have hsplit := D.drain_append (held ++ c) cs.flatten
    rw [List.append_assoc, ← List.flatten_cons] at hsplit
    simp only [feed]
    by_cases hrej : (D.drain (held ++ c)).rejected = true
    · rw [if_pos hrej] at hsplit ⊢
      exact hsplit.symm
    · rw [if_neg hrej] at hsplit ⊢
      have hfalse : (D.drain (held ++ c)).rejected = false := by simpa using hrej
      have hrest := ih (D.drain (held ++ c)).rest (D.decode_rest_drain _ hfalse)
      exact (hrest.prepend _).trans hsplit.symm

end StableDecoder

end StormNet.Foundation
