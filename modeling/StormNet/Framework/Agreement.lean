/-
  Framework/Agreement.lean --- a `ProxyEndPoint` and its `SocketLoop` agree about the
  connection.

  `endPoint_agrees`: in every run in which `connectSocket` only runs for a slot that still
  waits for it, `m_connId` and `m_connected` are what the loop says of the slot whenever
  no callback of the endpoint is under way.
-/
import StormNet.Framework.Bound

set_option autoImplicit false

namespace StormNet.Framework

open StormNet.Foundation StormNet.Net
open StormNet.Net.SocketLoop (Env)
open Function (update update_self)

namespace Client

/-- The loop is sound, and the endpoint is bound to it. -/
structure Tied (handler : Nat) (s : Client) : Prop where
  sound : s.loop.Sound
  bound : Bound handler s.loop s.endPoint s.ran

section Tied

variable {handler : Nat} {s s' : Client}

theorem Tied.send (h : Tied handler s) {data : List UInt8} (hstep : s.send data = some s') :
    Tied handler s' := by
  obtain ⟨hsound, hbound⟩ := h
  dsimp only [Client.send] at hstep
  split at hstep
  · cases hstep
  · rename_i hfree
    have hfree : s.endPoint.sending = .free := not_not.mp hfree
    split at hstep
    · cases hstep
      exact ⟨{ hsound with }, { hbound with }⟩
    · obtain ⟨buffer, -, rfl⟩ := Option.map_eq_some_iff.mp hstep
      refine ⟨hsound, ?_⟩
      by_cases hconn : s.endPoint.connId.isSome
      · simp only [if_pos hconn]
        rw [← hfree]
        exact { hbound with }
      · simp only [if_neg hconn]
        refine hbound.setEndPoint ?_ rfl (fun _ => rfl) (fun _ => by simpa using hconn)
          (by rw [hfree]; rintro c ⟨⟩) (by rintro c ⟨⟩)
        intro i
        simp [ProxyEndPoint.Claims, hfree]

theorem Tied.newSocket (h : Tied handler s) (hstep : s.newSocket handler = some s') :
    Tied handler s' := by
  obtain ⟨hsound, hbound⟩ := h
  have hadmits : s.loop.Admits (.reserve (.connect handler)) :=
    hbound.admits hsound (by rintro i ⟨⟩)
  unfold Client.newSocket at hstep
  split at hstep
  · cases hstep
  · rename_i hsending
    have hsending : s.endPoint.sending = .connecting := not_not.mp hsending
    obtain ⟨l, hl, rfl⟩ := Option.map_eq_some_iff.mp hstep
    have hlsound : l.Sound := hsound.step hadmits hl
    refine ⟨hlsound, ?_⟩
    obtain ⟨allocId, ⟨hnone, rfl⟩ | ⟨i, hsome, hidle, -, -, rfl⟩⟩ := SocketLoop.reserve_cases hl
    · simp only [hnone, Option.map_none, Option.getD_none]
      rw [← hsending]
      exact { hbound with }
    · have hset : Bound handler { s.loop with
          slot := update s.loop.slot i
            { s.loop.slot i with id := i, fd := none, status := .reserse }
          gen := update s.loop.gen i (s.loop.gen i + 1) } s.endPoint s.ran :=
        hbound.setOther hsound (.inl hidle) (fun _ => ⟨by rintro ⟨⟩, by rintro ⟨⟩⟩)
          (fun _ _ hf => hf) (by rintro _ _ ⟨⟩)
      have hown := hset.ownReserve hsending ⟨i, s.loop.gen i + 1⟩
      simp only [hsome, Option.map_some, Option.getD_some, SocketLoop.occupant, update_self]
      exact { hown with }

theorem Tied.noSocket (h : Tied handler s) (hstep : s.noSocket = some s') :
    Tied handler s' := by
  obtain ⟨hsound, hbound⟩ := h
  unfold Client.noSocket at hstep
  split at hstep
  · cases hstep
  · rename_i hsending
    have hsending : s.endPoint.sending = .connecting := not_not.mp hsending
    have hconn : s.endPoint.connId = none := hbound.busy (by rw [hsending]; rintro ⟨⟩)
    cases hstep
    refine ⟨hsound, hbound.setEndPoint ?_ rfl (fun _ => hconn.symm) (fun _ => rfl)
      (by rw [hsending]; rintro c ⟨⟩) (by rintro c ⟨⟩)⟩
    intro i
    simp [ProxyEndPoint.Claims, hsending, hconn]

theorem Tied.assign (h : Tied handler s) (hstep : s.assign = some s') : Tied handler s' := by
  obtain ⟨hsound, hbound⟩ := h
  unfold Client.assign at hstep
  split at hstep
  · rename_i c hsending
    cases hstep
    have hconn : s.endPoint.connId = none := hbound.busy (by rw [hsending]; rintro ⟨⟩)
    have hclaim : s.endPoint.Claims c.slot := .inr ⟨c, rfl, .inr hsending⟩
    have hid : (s.loop.slot c.slot).id = c.slot :=
      hsound.numbered _ (((hbound.claims _).mp hclaim).1.status_ne (by decide))
    have hdown : s.endPoint.connected = true → some (s.loop.slot c.slot).id =
        s.endPoint.connId := by
      intro hup
      obtain ⟨i, hi, -⟩ := hbound.up hup
      rw [hconn] at hi
      cases hi
    refine ⟨hsound, hbound.setEndPoint ?_ rfl hdown (fun hne => absurd rfl hne)
      (by rw [hsending]; rintro d ⟨⟩) (by rintro d ⟨⟩)⟩
    intro i
    simp [ProxyEndPoint.Claims, hsending, hconn, hid]
  · cases hstep

theorem Tied.onConnect (h : Tied handler s) (hstep : s.onConnect handler = some s') :
    Tied handler s' := by
  obtain ⟨hsound, hbound⟩ := h
  dsimp only [Client.onConnect] at hstep
  split at hstep
  · rename_i i k hpc
    split at hstep
    · rename_i henter
      obtain ⟨hhandler, hran, hfree⟩ := henter
      rw [hran] at hbound
      have hbound := hbound.onConnect hpc hhandler hfree
      split at hstep
      · cases hstep
        exact ⟨{ hsound with }, { hbound with }⟩
      · cases hstep
        exact ⟨hsound, hbound⟩
    · cases hstep
  · cases hstep

theorem Tied.closed (h : Tied handler s) {i : Nat} (hends : Ends s.loop i)
    (hhook : hooks s.loop.pc = some i) (hstep : s.closed handler i = some s') :
    Tied handler s' := by
  obtain ⟨hsound, hbound⟩ := h
  have hid : (s.loop.slot i).id = i := by
    apply hsound.numbered i
    intro hidle
    exact hbound.hooks_inUse hsound hhook (.inl hidle)
  dsimp only [Client.closed] at hstep
  split at hstep
  · rename_i henter
    obtain ⟨hhandler, hran, hfree⟩ := henter
    rw [hran] at hbound
    rw [hid] at hstep
    split at hstep
    · rename_i hconn
      cases hstep
      exact ⟨hsound, hbound.onClose_other hends hhook hhandler hfree hconn⟩
    · rename_i hconn
      cases hstep
      exact ⟨hsound, hbound.onClose_own hends hhook hhandler hfree (not_not.mp hconn) _⟩
  · cases hstep

theorem Tied.onClose (h : Tied handler s) (hstep : s.onClose handler = some s') :
    Tied handler s' := by
  unfold Client.onClose at hstep
  split at hstep
  · rename_i i closeType k hpc
    exact h.closed (.inl (by rw [hpc]; rfl)) (by rw [hpc]; rfl) hstep
  · rename_i i hpc
    exact h.closed (.inr (by rw [hpc]; rfl)) (by rw [hpc]; rfl) hstep
  · cases hstep

theorem Tied.netStep (h : Tied handler s) {env : Env}
    (hadmits : s.loop.Admits (.net env))
    (hwaits : ∀ i, s.loop.connects (.net env) = some i →
      (s.loop.slot i).status = .connecting)
    (hstep : s.netStep handler env = some s') : Tied handler s' := by
  unfold Client.netStep at hstep
  split at hstep
  · cases hstep
  · rename_i hran
    obtain ⟨l, hl, rfl⟩ := Option.map_eq_some_iff.mp hstep
    refine ⟨h.sound.step hadmits hl, h.bound.netStep h.sound hwaits hadmits ?_ hl⟩
    intro i hi hhandler
    rw [not_and, hi] at hran
    simpa using hran (by simp [hhandler])

theorem Tied.loopStep (h : Tied handler s) {a : SocketLoop.Action}
    (hwaits : ∀ i, s.loop.connects a = some i →
      (s.loop.slot i).status = .connecting ∧ (s.loop.slot i).fd = none)
    (hstep : s.loopStep handler a = some s') : Tied handler s' := by
  have hadmits := h.bound.admits h.sound hwaits
  cases a with
  | reserve op =>
    dsimp only [Client.loopStep] at hstep
    split at hstep
    · cases hstep
    · rename_i hop
      obtain ⟨l, hl, rfl⟩ := Option.map_eq_some_iff.mp hstep
      exact ⟨h.sound.step hadmits hl, h.bound.reserve h.sound hop hl⟩
  | publish c =>
    obtain ⟨l, hl, rfl⟩ := Option.map_eq_some_iff.mp hstep
    refine ⟨h.sound.step hadmits hl, ?_⟩
    unfold SocketLoop.publish at hl
    split at hl
    · rename_i op hop
      cases hl
      exact h.bound.publish h.sound hop
    · cases hl
  | push c =>
    obtain ⟨l, hl, rfl⟩ := Option.map_eq_some_iff.mp hstep
    refine ⟨h.sound.step hadmits hl, ?_⟩
    unfold SocketLoop.push at hl
    split at hl
    · rename_i op hop
      cases hl
      exact { h.bound.push hop with }
    · cases hl
  | net env => exact h.netStep hadmits (fun i hi => (hwaits i hi).1) hstep
  | send id target buffer =>
    obtain ⟨l, hl, rfl⟩ := Option.map_eq_some_iff.mp hstep
    refine ⟨h.sound.step hadmits hl, ?_⟩
    dsimp only [SocketLoop.step] at hl
    split at hl
    · cases hl
      exact { h.bound with }
    · cases hl
  | close id target closeType =>
    obtain ⟨l, hl, rfl⟩ := Option.map_eq_some_iff.mp hstep
    refine ⟨h.sound.step hadmits hl, ?_⟩
    dsimp only [SocketLoop.step] at hl
    split at hl
    · cases hl
      exact { h.bound with }
    · cases hl
  | terminate =>
    cases hstep
    exact ⟨h.sound.step hadmits rfl, { h.bound with }⟩

theorem Tied.step {a : Action} (h : Tied handler s) (hguard : s.Rechecked a)
    (hstep : s.step handler a = some s') : Tied handler s' := by
  cases a with
  | loop a => exact h.loopStep hguard hstep
  | send data => exact h.send hstep
  | newSocket => exact h.newSocket hstep
  | noSocket => exact h.noSocket hstep
  | assign => exact h.assign hstep
  | onConnect => exact h.onConnect hstep
  | onClose => exact h.onClose hstep

/-- Outside the callbacks, what is bound agrees. -/
theorem Tied.agrees (h : Tied handler s) (hcallback : ¬ InCallback handler s.loop) :
    s.Agrees handler := by
  obtain ⟨hsound, hbound⟩ := h
  have hran : s.ran = false := by
    cases hr : s.ran with
    | false => rfl
    | true => exact absurd (hbound.hooked hr) hcallback
  constructor
  · intro hup
    obtain ⟨i, hi, hst⟩ := hbound.up hup
    exact ⟨i, hi, hst, ((hbound.claims i).mp (.inl hi)).1.1⟩
  · intro i hi hdown
    obtain ⟨hhandler, hst⟩ := ((hbound.claims i).mp (.inl hi)).1
    refine ⟨hst.resolve_right ?_, hhandler⟩
    intro hconnected
    rcases hbound.down i (.inl hi) hconnected with hup | ⟨hpc, -⟩
    · rw [hdown] at hup
      cases hup
    · exact hcallback ⟨i, hooks_of_connects hpc, hhandler⟩

end Tied

/-- In every run in which `connectSocket` only runs for slots that wait for it, the endpoint
and its loop agree about the connection outside the callbacks. -/
theorem endPoint_agrees (handler maxSocket efd : Nat) {s : Client}
    (h : Runs (step handler) Rechecked (new maxSocket efd) s)
    (hcallback : ¬ InCallback handler s.loop) : s.Agrees handler := by
  have htied : Tied handler s := by
    refine h.invariant (I := Tied handler) ?_
      ⟨SocketLoop.sound_new maxSocket efd, bound_new maxSocket efd⟩
    intro x a y hx hguard hstep
    exact hx.step hguard hstep
  exact htied.agrees hcallback

instance (s : Client) (a : Action) : Decidable (s.Rechecked a) :=
  match a with
  | .loop a => inferInstanceAs (Decidable (∀ i ∈ s.loop.connects a,
      (s.loop.slot i).status = .connecting ∧ (s.loop.slot i).fd = none))
  | .send _ | .newSocket | .noSocket | .assign | .onConnect | .onClose => isTrue trivial

theorem not_inCallback {l : SocketLoop} {handler : Nat} {k : Resume}
    (h : l.pc = .resume k) : ¬ InCallback handler l := by
  rintro ⟨i, hi, -⟩
  rw [h] at hi
  cases hi

/-- An endpoint that is connected. -/
theorem endPoint_agrees_once_connected : ∃ s, Runs (step 7) Rechecked (new 2 3) s ∧
    s.endPoint.connected = true ∧ s.Agrees 7 := by
  have hrun : (execute (step 7) (fun s a => decide (s.Rechecked a)) (new 2 3)
      [.send [9], .newSocket, .loop (.publish ⟨1, 1⟩), .loop (.push ⟨1, 1⟩), .assign,
        .loop (.net { ready := [(3, true, false)] }), .loop (.net {}), .loop (.net {}),
        .loop (.net { connect := .done 4 }), .onConnect, .loop (.net {})]).any
      (fun s => s.endPoint.connected = true ∧ s.loop.pc = .resume .command) = true := by decide
  obtain ⟨s, hs, htest⟩ := exists_runs_of_execute (fun _ _ => of_decide_eq_true) _ _ hrun
  obtain ⟨hconnected, hpc⟩ := of_decide_eq_true htest
  exact ⟨s, hs, hconnected, endPoint_agrees 7 2 3 hs (not_inCallback hpc)⟩

/-- A Close for the slot's earlier occupant overtakes the Connect command of the endpoint:
the endpoint is connected and has no id to send with. -/
theorem connected_without_id : ∃ s, Runs (step 7) (fun _ _ => True) (new 2 3) s ∧
    ¬ InCallback 7 s.loop ∧ ¬ s.Agrees 7 := by
  have hrun : (execute (step 7) (fun _ _ => true) (new 2 3)
      [.loop (.reserve (.connect 5)), .loop (.publish ⟨1, 1⟩), .loop (.push ⟨1, 1⟩),
        .loop (.net { ready := [(3, true, false)] }), .loop (.net {}), .loop (.net {}),
        .loop (.net { connect := .failed }), .loop (.net {}),
        .send [9], .newSocket, .newSocket, .loop (.publish ⟨1, 2⟩),
        .loop (.close 1 (some ⟨1, 1⟩) .self), .loop (.push ⟨1, 2⟩), .assign,
        .loop (.net {}), .loop (.net {}), .onClose, .loop (.net {}), .loop (.net {}),
        .loop (.net { connect := .done 4 }), .onConnect, .loop (.net {})]).any
      (fun s => s.endPoint.connected = true ∧ s.endPoint.connId = none ∧
        s.loop.pc = .resume .command) = true := by decide
  obtain ⟨s, hs, htest⟩ := exists_runs_of_execute (fun _ _ _ => trivial) _ _ hrun
  obtain ⟨hconnected, hnone, hpc⟩ := of_decide_eq_true htest
  refine ⟨s, hs, not_inCallback hpc, ?_⟩
  intro hagrees
  obtain ⟨i, hi, -⟩ := hagrees.connected hconnected
  rw [hnone] at hi
  cases hi

end Client

end StormNet.Framework
