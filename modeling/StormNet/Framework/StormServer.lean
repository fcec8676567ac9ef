/-
  Framework/StormServer.lean --- the two threads of a `StormServer`, from the start of the net
  thread to its `join`: `run`, `mainEntry`, `terminateNetThread` and `netEntry` of
  `framework/storm_server.cpp`.

  `g_running` and `g_netRunning` are plain flags.  `netEntry` has two loops, the first until
  `g_netRunning` is set and the second until it is cleared; the first one tests the flag only
  between two turns of the socket loop.  A turn takes any time.
-/
import Mathlib.Tactic.Common
import StormNet.Foundation.Transition

set_option autoImplicit false

namespace StormNet.Framework

open StormNet.Foundation

/-! ## The source -/

/-- Where the main thread is, behind `startNetThread`. -/
inductive MainThread where
  /-- in `init()` -/
  | init
  /-- `g_netRunning` is set; in `startListener`, `startService` and what is between -/
  | starting
  /-- `g_running = true` comes next -/
  | entering
  /-- `while (g_running)` comes next -/
  | check
  /-- in `mainLoop`, the services, `updateInMainLoop` or `usleep` -/
  | turn
  /-- in `mainLoopDestory` or `terminateService`; `g_netRunning = false` comes next -/
  | leaving
  /-- `m_netLoop->terminate()` comes next -/
  | stored
  /-- in `m_netThread.join()` -/
  | joining
  | joined
  /-- `run` has returned -1 -/
  | failed
  deriving DecidableEq, Repr

namespace MainThread

/-- In the loop of `mainEntry`. -/
def inLoop : MainThread → Bool
  | .check | .turn => true
  | _ => false

/-- Behind the loop of `mainEntry`. -/
def behindLoop : MainThread → Bool
  | .leaving | .stored | .joining | .joined => true
  | _ => false

/-- In `terminateNetThread`, behind its store. -/
def terminating : MainThread → Bool
  | .stored | .joining | .joined => true
  | _ => false

end MainThread

/-- Where the net thread is. -/
inductive NetThread where
  /-- `while (!g_netRunning)` comes next -/
  | firstCheck
  /-- in a turn of the first loop -/
  | firstTurn
  /-- `while (g_netRunning)` comes next -/
  | secondCheck
  /-- in a turn of the second loop -/
  | secondTurn
  /-- in `netLoopDestory` and the last `runOnce` -/
  | ending
  | finished
  deriving DecidableEq, Repr

/-- Behind the first loop of `netEntry`. -/
def NetThread.past : NetThread → Bool
  | .firstCheck | .firstTurn => false
  | _ => true

/-- A server with its threads. -/
structure StormServer where
  /-- `g_running` -/
  running : Bool
  /-- `g_netRunning` -/
  netRunning : Bool
  main : MainThread
  net : NetThread
  /-- a signal has come behind the store of `mainEntry` -/
  asked : Bool
  deriving DecidableEq, Repr

namespace StormServer

/-- What happens next. -/
inductive Action where
  /-- the next step of the main thread, and whether what it calls succeeds -/
  | main (ok : Bool)
  /-- the next step of the net thread -/
  | net
  /-- `sighandler` -/
  | signal
  deriving DecidableEq, Repr

/-- A server behind `startNetThread`. -/
def new : StormServer where
  running := false
  netRunning := false
  main := .init
  net := .firstCheck
  asked := false

/-- The next step of `run`. -/
def mainStep (s : StormServer) (ok : Bool) : Option StormServer :=
  match s.main with
  | .init => some (if ok then { s with netRunning := true, main := .starting }
      else { s with main := .failed })
  | .starting => some { s with main := if ok then .entering else .failed }
  | .entering => some { s with running := true, asked := false, main := .check }
  | .check => some { s with main := if s.running then .turn else .leaving }
  | .turn => some { s with main := .check }
  | .leaving => some { s with netRunning := false, main := .stored }
  | .stored => some { s with main := .joining }
  | .joining => if s.net = .finished then some { s with main := .joined } else none
  | .joined => none
  | .failed => none

/-- The next step of `netEntry`. -/
def netStep (s : StormServer) : Option StormServer :=
  match s.net with
  | .firstCheck => some { s with net := if s.netRunning then .secondCheck else .firstTurn }
  | .firstTurn => some { s with net := .firstCheck }
  | .secondCheck => some { s with net := if s.netRunning then .secondTurn else .ending }
  | .secondTurn => some { s with net := .secondCheck }
  | .ending => some { s with net := .finished }
  | .finished => none

/-- One step. -/
def step (s : StormServer) : Action → Option StormServer
  | .main ok => s.mainStep ok
  | .net => s.netStep
  | .signal => some { s with running := false, asked := true }

/-! ## The flags -/

variable {s t : StormServer}

/-- What the flags say of the threads. -/
structure Inv (s : StormServer) : Prop where
  asked : s.main.inLoop = true → s.running = !s.asked
  left : s.main.behindLoop = true → s.asked = true
  cleared : s.main.terminating = true → s.netRunning = false
  finished : s.main = .joined → s.net = .finished

theorem never {p : Prop} (h : false = true) : p := absurd h Bool.false_ne_true

theorem inv_new : new.Inv := by
  constructor <;> decide

theorem Inv.mainStep (h : s.Inv) {ok : Bool} (hstep : s.mainStep ok = some t) : t.Inv := by
  obtain ⟨hasked, hleft, hcleared, -⟩ := h
  cases hmain : s.main with
  | init | starting =>
    simp only [StormServer.mainStep, hmain, Option.some.injEq] at hstep
    subst hstep
    cases ok
    · exact ⟨never, never, never, fun h => by cases h⟩
    · exact ⟨never, never, never, fun h => by cases h⟩
  | entering =>
    simp only [StormServer.mainStep, hmain, Option.some.injEq] at hstep
    subst hstep
    exact ⟨fun _ => rfl, never, never, fun h => by cases h⟩
  | check =>
    simp only [StormServer.mainStep, hmain, Option.some.injEq] at hstep
    have hflag : s.running = !s.asked := hasked (by rw [hmain]; rfl)
    subst hstep
    by_cases hrunning : s.running = true
    · rw [if_pos hrunning]
      exact ⟨fun _ => hflag, never, never, fun h => by cases h⟩
    · rw [if_neg hrunning]
      refine ⟨never, fun _ => ?_, never, fun h => by cases h⟩
      simpa [hflag] using hrunning
  | turn =>
    simp only [StormServer.mainStep, hmain, Option.some.injEq] at hstep
    subst hstep
    exact ⟨fun _ => hasked (by rw [hmain]; rfl), never, never, fun h => by cases h⟩
  | leaving =>
    simp only [StormServer.mainStep, hmain, Option.some.injEq] at hstep
    subst hstep
    exact ⟨never, fun _ => hleft (by rw [hmain]; rfl), fun _ => rfl,
      fun h => by cases h⟩
  | stored =>
    simp only [StormServer.mainStep, hmain, Option.some.injEq] at hstep
    subst hstep
    exact ⟨never, fun _ => hleft (by rw [hmain]; rfl), fun _ => hcleared (by rw [hmain]; rfl),
      fun h => by cases h⟩
  | joining =>
    simp only [StormServer.mainStep, hmain] at hstep
    obtain ⟨hnet, ⟨⟩⟩ := Option.ite_none_right_eq_some.mp hstep
    exact ⟨never, fun _ => hleft (by rw [hmain]; rfl), fun _ => hcleared (by rw [hmain]; rfl),
      fun _ => hnet⟩
  | joined | failed => simp [StormServer.mainStep, hmain] at hstep

/-- The net thread writes no flag. -/
theorem netStep_eq (hstep : s.netStep = some t) : t = { s with net := t.net } := by
  unfold netStep at hstep
  split at hstep <;> cases hstep <;> rfl

theorem Inv.step (h : s.Inv) {a : Action} (hstep : s.step a = some t) : t.Inv := by
  cases a with
  | main ok => exact h.mainStep hstep
  | net =>
    refine ⟨?_, ?_, ?_, fun hmain => ?_⟩
    · rw [netStep_eq hstep]
      exact h.asked
    · rw [netStep_eq hstep]
      exact h.left
    · rw [netStep_eq hstep]
      exact h.cleared
    · rw [netStep_eq hstep] at hmain
      replace hstep : s.netStep = some t := hstep
      simp [netStep, h.finished hmain] at hstep
  | signal =>
    cases hstep
    exact ⟨fun _ => rfl, fun _ => rfl, h.cleared, h.finished⟩

theorem inv_of_runs {G : StormServer → Action → Prop} (h : Runs step G new s) : s.Inv :=
  h.invariant (fun _ _ _ hs _ hstep => hs.step hstep) inv_new

/-! ## The loop of the main thread -/

/-- Any step. -/
def Any (_ : StormServer) (_ : Action) : Prop := True

/-- No signal comes. -/
def Unsignalled (_ : StormServer) (a : Action) : Prop := a ≠ .signal

theorem unsignalled_main (s : StormServer) (ok : Bool) : Unsignalled s (.main ok) := by
  rintro ⟨⟩

/-- The main thread stays in front of the end of its loop. -/
def Staying (s : StormServer) : Prop :=
  s.main.behindLoop = false ∧ (s.main.inLoop = true → s.running = true)

theorem Staying.step (h : s.Staying) {a : Action} (ha : Unsignalled s a)
    (hstep : s.step a = some t) : t.Staying := by
  obtain ⟨hfront, hrunning⟩ := h
  cases a with
  | signal => exact absurd rfl ha
  | net =>
    rw [netStep_eq hstep]
    exact ⟨hfront, hrunning⟩
  | main ok =>
    replace hstep : s.mainStep ok = some t := hstep
    cases hmain : s.main with
    | init | starting =>
      simp only [mainStep, hmain, Option.some.injEq] at hstep
      subst hstep
      cases ok
      · exact ⟨rfl, never⟩
      · exact ⟨rfl, never⟩
    | entering =>
      simp only [mainStep, hmain, Option.some.injEq] at hstep
      subst hstep
      exact ⟨rfl, fun _ => rfl⟩
    | check =>
      have hflag : s.running = true := hrunning (by rw [hmain]; rfl)
      simp only [mainStep, hmain, hflag, if_true, Option.some.injEq] at hstep
      subst hstep
      exact ⟨rfl, fun _ => rfl⟩
    | turn =>
      simp only [mainStep, hmain, Option.some.injEq] at hstep
      subst hstep
      exact ⟨rfl, fun _ => hrunning (by rw [hmain]; rfl)⟩
    | leaving | stored | joining | joined =>
      rw [hmain] at hfront
      cases hfront
    | failed => simp [mainStep, hmain] at hstep

theorem runs_leaving (hloop : s.main.inLoop = true) (hrunning : s.running = false) :
    ∃ t, Runs step Unsignalled s t ∧ t.main = .leaving := by
  have hcheck : ∀ s : StormServer, s.main = .check → s.running = false →
      s.step (.main true) = some { s with main := .leaving } := by
    intro s hmain hrunning
    simp [step, mainStep, hmain, hrunning]
  cases hmain : s.main with
  | check => exact ⟨_, .single (unsignalled_main s true) (hcheck s hmain hrunning), rfl⟩
  | turn =>
    have hturn : s.step (.main true) = some { s with main := .check } := by
      simp [step, mainStep, hmain]
    exact ⟨_, .tail (.single (unsignalled_main s true) hturn) (unsignalled_main _ true)
      (hcheck _ rfl hrunning), rfl⟩
  | init | starting | entering | leaving | stored | joining | joined | failed =>
    rw [hmain] at hloop
    cases hloop

/-- **The server stops just when a signal has come behind the store of `mainEntry`.**  One that
came before is lost, whatever the threads do. -/
theorem server_stops_iff (s : StormServer) (h : Runs step Any new s)
    (hfront : s.main.behindLoop = false) :
    (∃ t, Runs step Unsignalled s t ∧ t.main.behindLoop = true) ↔
      s.main.inLoop = true ∧ s.asked = true := by
  have hinv := inv_of_runs h
  constructor
  · rintro ⟨t, hruns, hbehind⟩
    by_contra hnot
    have hstaying : s.Staying := by
      refine ⟨hfront, fun hloop => ?_⟩
      rw [hinv.asked hloop, Bool.not_eq_true', ← Bool.not_eq_true]
      exact fun hasked => hnot ⟨hloop, hasked⟩
    have hstays : t.Staying := hruns.invariant (fun _ _ _ hs ha hstep => hs.step ha hstep) hstaying
    rw [hstays.1] at hbehind
    cases hbehind
  · rintro ⟨hloop, hasked⟩
    obtain ⟨t, hruns, hmain⟩ := runs_leaving hloop (by rw [hinv.asked hloop, hasked]; rfl)
    exact ⟨t, hruns, by rw [hmain]; rfl⟩

theorem runs_schedule {s t : StormServer} (as : List Action)
    (h : execute step (fun _ _ => true) s as = some t) : Runs step Any s t :=
  runs_of_execute (fun _ _ _ => trivial) as s t h

/-- A signal in `startService` is lost; one in the loop ends it. -/
theorem server_stops_iff_of_two :
    (¬ ∃ t, Runs step Unsignalled ⟨false, true, .starting, .firstCheck, true⟩ t ∧
      t.main.behindLoop = true) ∧
    ∃ t, Runs step Unsignalled ⟨false, true, .turn, .firstCheck, true⟩ t ∧
      t.main.behindLoop = true := by
  have hearly : Runs step Any new ⟨false, true, .starting, .firstCheck, true⟩ :=
    runs_schedule [.main true, .signal] rfl
  have hloop : Runs step Any new ⟨false, true, .turn, .firstCheck, true⟩ :=
    runs_schedule [.main true, .main true, .main true, .main true, .signal] rfl
  constructor
  · intro hstops
    have hasked := (server_stops_iff _ hearly rfl).mp hstops
    exact absurd hasked.1 Bool.false_ne_true
  · exact (server_stops_iff _ hloop rfl).mpr ⟨rfl, rfl⟩

/-! ## The end of the net thread -/

/-- Behind the store of `terminateNetThread` the net thread stays where it is: in its first
loop, or behind it. -/
theorem past_step (h : s.Inv) (hmain : s.main.terminating = true) {a : Action}
    (hstep : s.step a = some t) :
    t.main.terminating = true ∧ t.net.past = s.net.past := by
  have hcleared := h.cleared hmain
  cases a with
  | signal =>
    cases hstep
    exact ⟨hmain, rfl⟩
  | net =>
    have hsame := netStep_eq hstep
    refine ⟨by rw [hsame]; exact hmain, ?_⟩
    replace hstep : s.netStep = some t := hstep
    unfold netStep at hstep
    simp only [hcleared, Bool.false_eq_true, if_false] at hstep
    cases hnet : s.net with
    | firstCheck | firstTurn | secondCheck | secondTurn | ending =>
      simp only [hnet, Option.some.injEq] at hstep
      subst hstep
      rfl
    | finished => simp [hnet] at hstep
  | main ok =>
    replace hstep : s.mainStep ok = some t := hstep
    cases hm : s.main with
    | stored =>
      simp only [mainStep, hm, Option.some.injEq] at hstep
      subst hstep
      exact ⟨rfl, rfl⟩
    | joining =>
      simp only [mainStep, hm] at hstep
      obtain ⟨-, ⟨⟩⟩ := Option.ite_none_right_eq_some.mp hstep
      exact ⟨rfl, rfl⟩
    | joined => simp [mainStep, hm] at hstep
    | init | starting | entering | check | turn | leaving | failed =>
      rw [hm] at hmain
      cases hmain

theorem past_of_runs (h : s.Inv) (hmain : s.main.terminating = true) (hruns : Runs step Any s t) :
    t.Inv ∧ t.main.terminating = true ∧ t.net.past = s.net.past := by
  refine hruns.invariant (I := fun t => t.Inv ∧ t.main.terminating = true ∧
    t.net.past = s.net.past) ?_ ⟨h, hmain, rfl⟩
  rintro u a v ⟨hinv, hterminating, hpast⟩ _ hstep
  obtain ⟨hmain', hpast'⟩ := past_step hinv hterminating hstep
  exact ⟨hinv.step hstep, hmain', hpast'.trans hpast⟩

/-- With the flag cleared, the net thread ends its second loop by itself. -/
theorem runs_finished (hcleared : s.netRunning = false) (hpast : s.net.past = true) :
    Runs step Any s { s with net := .finished } := by
  have hending : ∀ s : StormServer, s.net = .ending →
      Runs step Any s { s with net := .finished } := by
    intro s hnet
    have hstep : s.step .net = some { s with net := .finished } := by
      simp [step, netStep, hnet]
    exact .single trivial hstep
  have hcheck : ∀ s : StormServer, s.net = .secondCheck → s.netRunning = false →
      Runs step Any s { s with net := .finished } := by
    intro s hnet hcleared
    have hstep : s.step .net = some { s with net := .ending } := by
      simp [step, netStep, hnet, hcleared]
    exact (Runs.single trivial hstep).trans (hending _ rfl)
  cases hnet : s.net with
  | firstCheck | firstTurn =>
    rw [hnet] at hpast
    cases hpast
  | secondCheck => exact hcheck s hnet hcleared
  | secondTurn =>
    have hstep : s.step .net = some { s with net := .secondCheck } := by
      simp [step, netStep, hnet]
    exact (Runs.single trivial hstep).trans (hcheck _ rfl hcleared)
  | ending => exact hending s hnet
  | finished =>
    have hsame : { s with net := .finished } = s := by
      rw [← hnet]
    rw [hsame]
    exact .refl

theorem runs_joined (hmain : s.main.terminating = true) (hnet : s.net = .finished) :
    Runs step Any s { s with main := .joined } := by
  have hjoin : ∀ s : StormServer, s.main = .joining → s.net = .finished →
      Runs step Any s { s with main := .joined } := by
    intro s hm hnet
    have hstep : s.step (.main true) = some { s with main := .joined } := by
      simp [step, mainStep, hm, hnet]
    exact .single trivial hstep
  cases hm : s.main with
  | stored =>
    have hstep : s.step (.main true) = some { s with main := .joining } := by
      simp [step, mainStep, hm]
    exact (Runs.single trivial hstep).trans (hjoin _ rfl hnet)
  | joining => exact hjoin s hm hnet
  | joined =>
    have hsame : { s with main := .joined } = s := by
      rw [← hm]
    rw [hsame]
    exact .refl
  | init | starting | entering | check | turn | leaving | failed =>
    rw [hm] at hmain
    cases hmain

/-- **The net thread is joined just when it has left its first loop in time.**  If it is behind
that loop when `terminateNetThread` clears `g_netRunning`, the `join` can return from every
state that follows; if not, it goes round in the first loop for ever, and `run` hangs.  A turn
of either loop is one step here, which is to say that it returns. -/
theorem netThread_joined_iff (s : StormServer) (h : Runs step Any new s)
    (hmain : s.main.terminating = true) :
    (s.net.past = true → ∀ t, Runs step Any s t → ∃ u, Runs step Any t u ∧ u.main = .joined) ∧
    (s.net.past = false → ∀ t, Runs step Any s t → t.main ≠ .joined) := by
  have hinv := inv_of_runs h
  constructor
  · intro hpast t hruns
    obtain ⟨hinv', hmain', hpast'⟩ := past_of_runs hinv hmain hruns
    refine ⟨_, (runs_finished (hinv'.cleared hmain') (hpast'.trans hpast)).trans
      (runs_joined hmain' rfl), rfl⟩
  · intro hpast t hruns hjoined
    obtain ⟨hinv', -, hpast'⟩ := past_of_runs hinv hmain hruns
    rw [hinv'.finished hjoined, hpast] at hpast'
    cases hpast'

/-- A server that is stopped during the first turn of its net thread hangs; one turn later it
does not. -/
theorem netThread_joined_iff_of_two :
    (∀ t, Runs step Any ⟨false, false, .joining, .firstTurn, true⟩ t → t.main ≠ .joined) ∧
    ∀ t, Runs step Any ⟨false, false, .joining, .secondTurn, true⟩ t →
      ∃ u, Runs step Any t u ∧ u.main = .joined := by
  have hfirst : Runs step Any new ⟨false, false, .joining, .firstTurn, true⟩ :=
    runs_schedule [.net, .main true, .main true, .main true, .signal, .main true, .main true,
      .main true] rfl
  have hsecond : Runs step Any new ⟨false, false, .joining, .secondTurn, true⟩ :=
    runs_schedule [.net, .main true, .net, .net, .net, .main true, .main true, .signal, .main true,
      .main true, .main true] rfl
  exact ⟨(netThread_joined_iff _ hfirst rfl).2 rfl, (netThread_joined_iff _ hsecond rfl).1 rfl⟩

end StormServer

end StormNet.Framework
