/-
  Net/SlotType.lean --- the type of a slot against its use.

  `runOnce` goes by `Socket::type`.  `listen` and `handleAccept` set it, `connect` does
  not, and `forceClose` leaves it: a slot that a listening socket or the notifier has had
  is handed to `connect` with the old type.  As long as every attempt gets a slot of type
  Normal, types and uses match; the first attempt that does not breaks it at once.
-/
import StormNet.Foundation.Transition
import StormNet.Net.LoopStep

set_option autoImplicit false

namespace StormNet.Net

open StormNet.Foundation
open Function (update update_self update_of_ne forall_update_iff)

/-- The type says what the socket is used as. -/
def Socket.Typed (s : Socket) : Prop :=
  match s.status with
  | .idle | .reserse => True
  | .listen => s.type ≠ .normal
  | .connecting | .connected => s.type = .normal

theorem Socket.Typed.normal {s : Socket} (h : s.Typed)
    (hstatus : s.status = .connecting ∨ s.status = .connected) : s.type = .normal := by
  unfold Socket.Typed at h
  rcases hstatus with hstatus | hstatus
  · rwa [hstatus] at h
  · rwa [hstatus] at h

theorem Socket.Typed.listen {s : Socket} (h : s.Typed) (hstatus : s.status = .listen) :
    s.type ≠ .normal := by
  unfold Socket.Typed at h
  rwa [hstatus] at h

/-- A socket that is not connecting or connected, and not idle or reserved, listens. -/
theorem Socket.Typed.status_of_type {s : Socket} (h : s.Typed) (htype : s.type ≠ .normal)
    (huse : s.status ≠ .idle ∧ s.status ≠ .reserse) : s.status = .listen := by
  cases hstatus : s.status with
  | idle => exact absurd hstatus huse.1
  | reserse => exact absurd hstatus huse.2
  | listen => rfl
  | connecting => exact absurd (h.normal (.inl hstatus)) htype
  | connected => exact absurd (h.normal (.inr hstatus)) htype

namespace SocketLoop

/-- Attempts and connections have type Normal; what has type Listen and is in use listens. -/
def TypesMatch (l : SocketLoop) : Prop :=
  ∀ i, ((l.slot i).status = .connecting ∨ (l.slot i).status = .connected →
      (l.slot i).type = .normal) ∧
    ((l.slot i).type = .listen → l.inUse i → (l.slot i).status = .listen)

/-- `runOnce` calls for the event the handler of what the socket is; the note of the
delivery aside. -/
structure Dispatches (l : SocketLoop) (e : SocketEvent) : Prop where
  connecting : (l.slot e.ud).status = .connecting → ∀ env, ∃ applied,
    l.handleEvent e env = handleConnect { l with applied := applied } e.ud env.soError
  connected : (l.slot e.ud).status = .connected → ∀ env, ∃ applied,
    l.handleEvent e env =
      if e.read then handleRead { l with applied := applied } e.ud env
        (if e.write then .write e.ud e.target else .event)
      else if e.write then handleWrite { l with applied := applied } e.ud env
      else { l with applied := applied, pc := .resume .event }
  listen : (l.slot e.ud).status = .listen → ∀ env, ∃ applied,
    l.handleEvent e env = { l with applied := applied, pc := .accepting e.ud } ∨
    l.handleEvent e env = { l with applied := applied, pc := .resume .command }

/-- The slot that the step gives to an attempt or a connection of `connect`. -/
def attempts (l : SocketLoop) : Action → Option Nat
  | .publish c =>
      match l.call c with
      | some (.reserved (.connect _)) => some c.slot
      | _ => none
  | .net env => if env.connect = .failed then none else l.connects (.net env)
  | _ => none

/-- The slot that the step gives to `connect` has type Normal. -/
def AttemptsNormal (l : SocketLoop) (a : Action) : Prop :=
  ∀ i ∈ l.attempts a, (l.slot i).type = .normal

instance (l : SocketLoop) (a : Action) : Decidable (l.AttemptsNormal a) :=
  inferInstanceAs (Decidable (∀ i ∈ l.attempts a, _))

/-- Each slot has the type of its use. -/
def Typed (l : SocketLoop) : Prop := ∀ i, (l.slot i).Typed

section Typed

variable {l l' : SocketLoop} {a : Action} {env : Env} {i : Nat}

theorem typed_new (maxSocket efd : Nat) : (new maxSocket efd).Typed := by
  intro i
  by_cases hi : i = 0
  · subst hi
    simp [new, Socket.Typed]
  · simp [new, update_of_ne hi, Socket.Typed]

theorem Typed.typesMatch (h : l.Typed) : l.TypesMatch := by
  intro i
  refine ⟨(h i).normal, ?_⟩
  intro htype huse
  apply (h i).status_of_type
  · rw [htype]
    exact SocketType.noConfusion
  · simpa [inUse] using huse

theorem Typed.dispatches (h : l.Typed) (e : SocketEvent) : l.Dispatches e := by
  have hnote : ∃ applied, (if l.inUse e.ud then l.deliver .event [e.target] e.ud else l) =
      { l with applied := applied } := by
    split
    · exact ⟨_, rfl⟩
    · exact ⟨l.applied, rfl⟩
  obtain ⟨applied, hnote⟩ := hnote
  constructor
  · intro hstatus env
    have htype := (h e.ud).normal (.inl hstatus)
    refine ⟨applied, ?_⟩
    simp only [handleEvent, hnote, htype, if_pos hstatus]
  · intro hstatus env
    have htype := (h e.ud).normal (.inr hstatus)
    refine ⟨applied, ?_⟩
    simp only [handleEvent, hnote, htype, hstatus, reduceCtorEq, if_false]
  · intro hstatus env
    have htype := (h e.ud).listen hstatus
    refine ⟨applied, ?_⟩
    cases hkind : (l.slot e.ud).type with
    | normal => exact absurd hkind htype
    | listen =>
      left
      simp only [handleEvent, hnote, hkind]
    | notify =>
      right
      simp only [handleEvent, hnote, hkind]

/-- One slot is assigned. -/
theorem Typed.set (h : l.Typed) {s : Socket} (hs : s.Typed) (j : Nat) :
    (update l.slot i s j).Typed :=
  (forall_update_iff l.slot fun _ t => t.Typed).mpr ⟨hs, fun k _ => h k⟩ j

/-- A slot's buffers are assigned. -/
theorem Typed.setBuffers (h : l.Typed) (r : Option IoBuffer) (w : List IoBuffer) (j : Nat) :
    (update l.slot i { l.slot i with readBuffer := r, writeBuffer := w } j).Typed := by
  apply h.set
  exact h i

/-- The loop's thread keeps the types right if `connectSocket` finds them right. -/
theorem Typed.netStep (h : l.Typed) (hattempts : l.AttemptsNormal (.net env))
    (hstep : NetStep l env l') : l'.Typed := by
  intro j
  cases hstep with
  | connected e rest applied fd hat hstatus hfd =>
    apply h.set
    exact hat.type
  | read | wrote | sent | dataOver => exact h.setBuffers _ _ j
  | readClosed | writeClosed | sendClosed | dataClosed =>
    rw [closeFd_slot]
    exact h.setBuffers _ _ j
  | connectDone id target i fd hpc hi hresult hfd =>
    apply h.set
    apply hattempts i
    simp only [attempts, hresult, reduceCtorEq, if_false, connects, hpc, hi, Option.mem_def]
  | connectInProgress id target i fd hpc hi hresult hfd =>
    apply h.set
    apply hattempts i
    simp only [attempts, hresult, reduceCtorEq, if_false, connects, hpc, hi, Option.mem_def]
  | accepted =>
    apply h.set
    exact rfl
  | cleared | idled =>
    apply h.set
    exact trivial
  | refused | closed | sweepClosed =>
    rw [closeFd_slot]
    exact h j
  | _ => exact h j

/-- A step of the system keeps the types right if the attempts get slots of type Normal. -/
theorem Typed.step (h : l.Typed) (hattempts : l.AttemptsNormal a)
    (hstep : LoopStep l a l') : l'.Typed := by
  cases hstep with
  | turned | pushed | issued => exact h
  | reserved op i allocId hpicks hidle hhash hfd =>
    apply h.set
    exact trivial
  | published c op hc =>
    apply h.set
    cases op with
    | connect handler =>
      apply hattempts c.slot
      simp only [attempts, hc, Option.mem_def]
    | listen handler fd => exact SocketType.noConfusion
  | net env l' hnet => exact h.netStep hattempts hnet

/-- The slot given to `connect` is an attempt or a connection, with the type it had. -/
theorem attempted (hstep : l.step a = some l') (hi : i ∈ l.attempts a) :
    ((l'.slot i).status = .connecting ∨ (l'.slot i).status = .connected) ∧
      (l'.slot i).type = (l.slot i).type := by
  cases a with
  | publish c =>
    simp only [attempts] at hi
    split at hi
    · rename_i handler hc
      cases hi
      simp only [step, publish, hc, Option.some.injEq] at hstep
      simp [← hstep, Op.fill]
    · cases hi
  | net env =>
    simp only [attempts] at hi
    split at hi
    · cases hi
    · rename_i hresult
      obtain ⟨id, target, hpc, hid⟩ := connects_eq_some hi
      simp only [step, SocketLoop.netStep, hpc, handleOneCmd, connectSocket, hid] at hstep
      split at hstep
      · exact absurd ‹_› hresult
      · split at hstep
        · cases hstep
        · simp [← Option.some.inj hstep]
      · split at hstep
        · cases hstep
        · simp [← Option.some.inj hstep]
  | _ => cases hi

/-- A step that gives `connect` a slot of another type breaks the match. -/
theorem not_typesMatch (hstep : l.step a = some l') (hattempts : ¬ l.AttemptsNormal a) :
    ¬ l'.TypesMatch := by
  intro hmatch
  apply hattempts
  intro i hi
  obtain ⟨hstatus, htype⟩ := attempted hstep hi
  rw [← htype]
  exact (hmatch i).1 hstatus

end Typed

/-- **Types match uses as long as attempts get slots of type Normal**, and `runOnce` then
calls the handler of what each socket is; the first step that gives `connect` another slot
breaks the match. -/
theorem type_matches_use (maxSocket efd : Nat) {l : SocketLoop}
    (h : Runs step AttemptsNormal (new maxSocket efd) l) :
    (l.TypesMatch ∧ ∀ e, l.Dispatches e) ∧
    ∀ a l', l.step a = some l' → ¬ l.AttemptsNormal a → ¬ l'.TypesMatch := by
  have htyped : l.Typed := by
    apply h.invariant _ (typed_new maxSocket efd)
    intro x a y hx ha hstep
    exact hx.step ha (step_cases hstep)
  exact ⟨⟨htyped.typesMatch, htyped.dispatches⟩, fun a l' => not_typesMatch⟩

/-- An attempt on a slot that nothing has had. -/
theorem type_matches_use_of_one : ∃ l, Runs step AttemptsNormal (new 2 3) l ∧
    (l.slot 1).status = .connecting ∧ l.TypesMatch := by
  have hexec : ∃ l, Runs step AttemptsNormal (new 2 3) l ∧
      decide ((l.slot 1).status = .connecting) = true :=
    exists_runs_of_schedule (new 2 3) [.reserve (.connect 5), .publish ⟨1, 1⟩] _ (by decide)
  obtain ⟨l, hl, hstatus⟩ := hexec
  exact ⟨l, hl, of_decide_eq_true hstatus, (type_matches_use 2 3 hl).1.1⟩

/-- A listening socket is closed and its slot goes to `connect`: the attempt has type
Listen. -/
theorem type_of_last_use : ∃ l, Runs step (fun _ _ => True) (new 2 3) l ∧
    (l.slot 1).status = .connecting ∧ (l.slot 1).type = .listen ∧ ¬ l.TypesMatch := by
  have hexec : ∃ l, Runs step (fun _ _ => True) (new 2 3) l ∧
      decide ((l.slot 1).status = .connecting ∧ (l.slot 1).type = .listen) = true :=
    exists_runs_of_schedule (new 2 3) [.reserve (.listen 5 4), .publish ⟨1, 1⟩, .push ⟨1, 1⟩,
      .close 1 (some ⟨1, 1⟩) .self, .net { ready := [(3, true, false)] }, .net {}, .net {},
      .net {}, .net {}, .net {}, .net {}, .reserve (.connect 6), .reserve (.connect 6),
      .publish ⟨1, 2⟩] _ (by decide)
  obtain ⟨l, hl, hboth⟩ := hexec
  obtain ⟨hstatus, htype⟩ := of_decide_eq_true hboth
  refine ⟨l, hl, hstatus, htype, ?_⟩
  intro hmatch
  have hnormal := (hmatch 1).1 (.inl hstatus)
  rw [htype] at hnormal
  cases hnormal

end SocketLoop

end StormNet.Net
