/-
  Util/Log.lean --- asynchronous logging of `util/util_log.cpp`: `doLog`, `logThreadEntry` and
  `finish`.

  A push of `doLog`, the swap of the background thread and the setting of `g_logExit` hold
  `g_logMutex` and are one step each; the test of the list swapped out, the test of
  `g_logExit` and each `realDoLog` are steps without it.
-/
import Mathlib.Data.List.Basic
import StormNet.Foundation.Transition

set_option autoImplicit false

namespace StormNet.Util

open StormNet.Foundation

variable {α : Type}

namespace Log

/-- A `LogData` and the thread that pushes it; `early` says that the push was completed before
`finish` was entered. -/
structure Record (α : Type) where
  thread : Nat
  data : α
  early : Bool
  deriving DecidableEq, Repr

/-- Where the background thread is in `logThreadEntry`. -/
inductive Background (α : Type) where
  /-- in front of the swap -/
  | swap
  /-- in front of `allLogs.empty()` -/
  | test (allLogs : List (Record α))
  /-- in front of the test of `g_logExit` -/
  | exitTest
  | usleep
  /-- in the loop over what is left of `allLogs` -/
  | write (allLogs : List (Record α))
  /-- behind the loop, in front of the deletion of `g_logs` -/
  | close
  | ended
  deriving DecidableEq, Repr

/-- Where the thread that calls `finish` is. -/
inductive Finish where
  | before
  | entered
  /-- `g_logExit` is set -/
  | join
  | returned
  deriving DecidableEq, Repr

end Log

/-- `g_logList`, `g_logExit` and the threads, with what has been pushed and what has been
passed to `realDoLog`. -/
structure Log (α : Type) where
  logList : List (Log.Record α)
  logExit : Bool
  background : Log.Background α
  finish : Log.Finish
  written : List (Log.Record α)
  pushed : List (Log.Record α)
  deriving DecidableEq, Repr

namespace Log

/-- Asynchronous mode, before the first push. -/
def start : Log α := ⟨[], false, .swap, .before, [], []⟩

inductive Action (α : Type) where
  | doLog (thread : Nat) (data : α)
  | swap
  | test
  | exitTest
  | wake
  | write
  | close
  | enter
  | setExit
  | join
  deriving DecidableEq, Repr

/-- A push of `doLog`. -/
def doLog (s : Log α) (thread : Nat) (data : α) : Log α :=
  let r : Record α := ⟨thread, data, s.finish = .before⟩
  { s with logList := s.logList ++ [r], pushed := s.pushed ++ [r] }

def step (s : Log α) : Action α → Option (Log α)
  | .doLog thread data => some (s.doLog thread data)
  | .swap =>
      match s.background with
      | .swap => some { s with logList := [], background := .test s.logList }
      | _ => none
  | .test =>
      match s.background with
      | .test [] => some { s with background := .exitTest }
      | .test (r :: rest) => some { s with background := .write (r :: rest) }
      | _ => none
  | .exitTest =>
      match s.background with
      | .exitTest => some { s with background := if s.logExit then .close else .usleep }
      | _ => none
  | .wake =>
      match s.background with
      | .usleep => some { s with background := .swap }
      | _ => none
  | .write =>
      match s.background with
      | .write [] => some { s with background := .swap }
      | .write (r :: rest) =>
          some { s with background := .write rest, written := s.written ++ [r] }
      | _ => none
  | .close =>
      match s.background with
      | .close => some { s with background := .ended }
      | _ => none
  | .enter =>
      match s.finish with
      | .before => some { s with finish := .entered }
      | _ => none
  | .setExit =>
      match s.finish with
      | .entered => some { s with finish := .join, logExit := true }
      | _ => none
  | .join =>
      match s.finish, s.background with
      | .join, .ended => some { s with finish := .returned }
      | _, _ => none

/-! ## What is kept -/

/-- What the background thread has swapped out and not written. -/
def Background.allLogs : Background α → List (Record α)
  | .test allLogs => allLogs
  | .write allLogs => allLogs
  | .swap | .exitTest | .usleep | .close | .ended => []

/-- The list swapped out was empty, and the next swap depends on `g_logExit`. -/
def Background.Drained : Background α → Prop
  | .test [] => True
  | .exitTest => True
  | .test (_ :: _) | .swap | .usleep | .write _ | .close | .ended => False

instance : (b : Background α) → Decidable b.Drained
  | .test [] => .isTrue trivial
  | .exitTest => .isTrue trivial
  | .test (_ :: _) => .isFalse id
  | .swap => .isFalse id
  | .usleep => .isFalse id
  | .write _ => .isFalse id
  | .close => .isFalse id
  | .ended => .isFalse id

/-- Each thread's records are written in the order of their pushes, none of them twice. -/
def Ordered (s : Log α) : Prop :=
  ∀ thread, (s.written.filter (fun r => r.thread = thread)).IsPrefix
    (s.pushed.filter (fun r => r.thread = thread))

/-- The early records have all been written, each as often as it was pushed. -/
def EarlyWritten (s : Log α) : Prop :=
  s.written.filter (·.early) = s.pushed.filter (·.early)

/-- `g_logExit` is not set between an empty swap and the test that follows it while an early
record has come into `g_logList`. -/
def SetsSafely (s : Log α) : Action α → Prop
  | .setExit => s.background.Drained → ∀ r ∈ s.logList, r.early = false
  | _ => True

instance (s : Log α) : (a : Action α) → Decidable (s.SetsSafely a)
  | .setExit => inferInstanceAs (Decidable (_ → ∀ _ ∈ _, _ = _))
  | .doLog _ _ | .swap | .test | .exitTest | .wake | .write | .close | .enter | .join =>
      .isTrue trivial

/-! ## What a step does -/

/-- The steps by what they find. -/
inductive Steps (s : Log α) : Action α → Log α → Prop
  | doLog (thread : Nat) (data : α) : Steps s (.doLog thread data) (s.doLog thread data)
  | swap (h : s.background = .swap) :
      Steps s .swap { s with logList := [], background := .test s.logList }
  | testEmpty (h : s.background = .test []) : Steps s .test { s with background := .exitTest }
  | testFilled {r : Record α} {rest : List (Record α)} (h : s.background = .test (r :: rest)) :
      Steps s .test { s with background := .write (r :: rest) }
  | exits (h : s.background = .exitTest) (hexit : s.logExit = true) :
      Steps s .exitTest { s with background := .close }
  | stays (h : s.background = .exitTest) (hexit : s.logExit = false) :
      Steps s .exitTest { s with background := .usleep }
  | wake (h : s.background = .usleep) : Steps s .wake { s with background := .swap }
  | written (h : s.background = .write []) : Steps s .write { s with background := .swap }
  | write {r : Record α} {rest : List (Record α)} (h : s.background = .write (r :: rest)) :
      Steps s .write { s with background := .write rest, written := s.written ++ [r] }
  | close (h : s.background = .close) : Steps s .close { s with background := .ended }
  | enter (h : s.finish = .before) : Steps s .enter { s with finish := .entered }
  | setExit (h : s.finish = .entered) :
      Steps s .setExit { s with finish := .join, logExit := true }
  | join (h : s.finish = .join) (hended : s.background = .ended) :
      Steps s .join { s with finish := .returned }

variable {s t u : Log α} {a : Action α}

theorem steps_of_step (h : s.step a = some t) : Steps s a t := by
  cases a with
  | doLog thread data =>
    rw [step, Option.some.injEq] at h
    exact h ▸ .doLog thread data
  | swap =>
    simp only [step] at h
    split at h
    · rename_i hback
      exact Option.some.inj h ▸ .swap hback
    · cases h
  | test =>
    simp only [step] at h
    split at h
    · rename_i hback
      exact Option.some.inj h ▸ .testEmpty hback
    · rename_i hback
      exact Option.some.inj h ▸ .testFilled hback
    · cases h
  | exitTest =>
    simp only [step] at h
    split at h
    · rename_i hback
      rcases Bool.eq_false_or_eq_true s.logExit with hexit | hexit
      · rw [if_pos hexit, Option.some.injEq] at h
        exact h ▸ .exits hback hexit
      · rw [if_neg (by simp [hexit]), Option.some.injEq] at h
        exact h ▸ .stays hback hexit
    · cases h
  | wake =>
    simp only [step] at h
    split at h
    · rename_i hback
      exact Option.some.inj h ▸ .wake hback
    · cases h
  | write =>
    simp only [step] at h
    split at h
    · rename_i hback
      exact Option.some.inj h ▸ .written hback
    · rename_i hback
      exact Option.some.inj h ▸ .write hback
    · cases h
  | close =>
    simp only [step] at h
    split at h
    · rename_i hback
      exact Option.some.inj h ▸ .close hback
    · cases h
  | enter =>
    simp only [step] at h
    split at h
    · rename_i hfinish
      exact Option.some.inj h ▸ .enter hfinish
    · cases h
  | setExit =>
    simp only [step] at h
    split at h
    · rename_i hfinish
      exact Option.some.inj h ▸ .setExit hfinish
    · cases h
  | join =>
    simp only [step] at h
    split at h
    · rename_i hfinish hback
      exact Option.some.inj h ▸ .join hfinish hback
    · cases h

/-! ## Invariants -/

/-- Every record pushed is written, swapped out or queued, in the order of the pushes. -/
def InOrder (s : Log α) : Prop := s.written ++ s.background.allLogs ++ s.logList = s.pushed

theorem InOrder.step (h : InOrder s) (hstep : s.step a = some t) : InOrder t := by
  unfold InOrder at h ⊢
  cases steps_of_step hstep with
  | doLog thread data =>
    show s.written ++ s.background.allLogs ++ (s.logList ++ [_]) = s.pushed ++ [_]
    rw [← h, ← List.append_assoc]
  | swap hback =>
    rw [hback] at h
    show s.written ++ s.logList ++ [] = s.pushed
    rwa [List.append_nil, ← List.append_nil s.written]
  | write hback =>
    rw [hback] at h
    show s.written ++ [_] ++ _ ++ s.logList = s.pushed
    rw [← h, List.append_assoc s.written]
    rfl
  | testEmpty hback => rwa [hback] at h
  | testFilled hback => rwa [hback] at h
  | exits hback _ => rwa [hback] at h
  | stays hback _ => rwa [hback] at h
  | wake hback => rwa [hback] at h
  | written hback => rwa [hback] at h
  | close hback => rwa [hback] at h
  | enter _ => exact h
  | setExit _ => exact h
  | join _ _ => exact h

theorem InOrder.ordered (h : InOrder s) : s.Ordered := by
  intro thread
  rw [← h, List.append_assoc, List.filter_append]
  exact List.prefix_append _ _

/-- The thread is behind its loop. -/
def Background.Closing : Background α → Prop
  | .close | .ended => True
  | .test _ | .swap | .exitTest | .usleep | .write _ => False

/-- `finish` has come as far as `g_logExit` says. -/
def Agrees (s : Log α) : Prop := s.logExit = true ↔ s.finish = .join ∨ s.finish = .returned

/-- With `g_logExit` set, a thread that makes no further swap leaves no early record. -/
structure Drains (s : Log α) : Prop where
  agrees : s.Agrees
  closing : s.background.Closing → s.logExit = true
  last : s.logExit = true → s.background.Drained ∨ s.background.Closing →
    ∀ r ∈ s.logList, r.early = false

theorem Agrees.step (h : s.Agrees) (hstep : s.step a = some t) : t.Agrees := by
  unfold Agrees at h ⊢
  cases steps_of_step hstep with
  | enter hfinish =>
    rw [hfinish] at h
    simpa using h
  | setExit _ => simp
  | join hfinish _ =>
    rw [hfinish] at h
    simpa using h
  | doLog _ _ => exact h
  | swap _ => exact h
  | testEmpty _ => exact h
  | testFilled _ => exact h
  | exits _ _ => exact h
  | stays _ _ => exact h
  | wake _ => exact h
  | written _ => exact h
  | write _ => exact h
  | close _ => exact h

/-- A record pushed behind the setting of `g_logExit` is not early. -/
theorem Agrees.late (h : s.Agrees) (hexit : s.logExit = true) : s.finish ≠ .before := by
  intro hbefore
  rcases h.mp hexit with hjoin | hreturned
  · rw [hbefore] at hjoin
    cases hjoin
  · rw [hbefore] at hreturned
    cases hreturned

theorem Drains.of_agrees (h : s.Agrees) (hdrained : ¬ s.background.Drained)
    (hclosing : ¬ s.background.Closing) : Drains s where
  agrees := h
  closing hback := absurd hback hclosing
  last _ hback := (hback.elim hdrained hclosing).elim

theorem Drains.step (h : Drains s) (hsafe : s.SetsSafely a) (hstep : s.step a = some t) :
    Drains t := by
  have hagrees := h.agrees.step hstep
  cases steps_of_step hstep with
  | doLog thread data =>
    refine ⟨hagrees, h.closing, ?_⟩
    intro hexit hback r hr
    rcases List.mem_append.mp hr with hold | hnew
    · exact h.last hexit hback r hold
    · rw [List.mem_singleton.mp hnew]
      exact decide_eq_false (h.agrees.late hexit)
  | swap _ =>
    refine ⟨hagrees, fun hclosing => hclosing.elim, ?_⟩
    intro _ _ r hr
    cases hr
  | testEmpty hback =>
    refine ⟨hagrees, fun hclosing => hclosing.elim, ?_⟩
    intro hexit _
    exact h.last hexit (.inl (hback ▸ trivial))
  | exits hback hexit =>
    refine ⟨hagrees, fun _ => hexit, ?_⟩
    intro _ _
    exact h.last hexit (.inl (hback ▸ trivial))
  | close hback =>
    refine ⟨hagrees, fun _ => h.closing (hback ▸ trivial), ?_⟩
    intro hexit _
    exact h.last hexit (.inr (hback ▸ trivial))
  | setExit _ =>
    refine ⟨hagrees, fun _ => rfl, ?_⟩
    intro _ hback
    rcases hback with hdrained | hclosing
    · exact hsafe hdrained
    · exact h.last (h.closing hclosing) (.inr hclosing)
  | testFilled _ => exact .of_agrees hagrees id id
  | stays _ _ => exact .of_agrees hagrees id id
  | wake _ => exact .of_agrees hagrees id id
  | written _ => exact .of_agrees hagrees id id
  | write _ => exact .of_agrees hagrees id id
  | enter _ => exact ⟨hagrees, h.closing, h.last⟩
  | join _ _ => exact ⟨hagrees, h.closing, h.last⟩

/-- At the end of the thread the early records are written or left in `g_logList`. -/
theorem InOrder.earlyWritten_iff (h : InOrder s) (hended : s.background = .ended) :
    s.EarlyWritten ↔ ∀ r ∈ s.logList, r.early = false := by
  unfold InOrder at h
  rw [hended] at h
  unfold EarlyWritten
  rw [← h, Background.allLogs, List.append_nil, List.filter_append]
  rw [eq_comm, List.append_right_eq_self, List.filter_eq_nil_iff]
  simp only [Bool.not_eq_true]

/-! ## A record that is left behind -/

/-- `g_logExit` is set, the thread makes no further swap, and an early record is queued. -/
structure Doomed (s : Log α) : Prop where
  agrees : s.Agrees
  exit : s.logExit = true
  last : s.background.Drained ∨ s.background.Closing
  left : ∃ r ∈ s.logList, r.early = true

theorem Doomed.step (h : Doomed s) (hstep : s.step a = some t) : Doomed t := by
  have hagrees := h.agrees.step hstep
  obtain ⟨r, hr, hearly⟩ := h.left
  have hlast := h.last
  cases steps_of_step hstep with
  | doLog thread data =>
    exact ⟨hagrees, h.exit, h.last, r, List.mem_append_left _ hr, hearly⟩
  | testEmpty _ => exact ⟨hagrees, h.exit, .inl trivial, r, hr, hearly⟩
  | exits _ _ => exact ⟨hagrees, h.exit, .inr trivial, r, hr, hearly⟩
  | close _ => exact ⟨hagrees, h.exit, .inr trivial, r, hr, hearly⟩
  | enter _ => exact ⟨hagrees, h.exit, h.last, r, hr, hearly⟩
  | setExit _ => exact ⟨hagrees, rfl, h.last, r, hr, hearly⟩
  | join _ _ => exact ⟨hagrees, h.exit, h.last, r, hr, hearly⟩
  | stays _ hexit =>
    rw [h.exit] at hexit
    cases hexit
  | swap hback =>
    rw [hback] at hlast
    exact (hlast.elim id id).elim
  | testFilled hback =>
    rw [hback] at hlast
    exact (hlast.elim id id).elim
  | wake hback =>
    rw [hback] at hlast
    exact (hlast.elim id id).elim
  | written hback =>
    rw [hback] at hlast
    exact (hlast.elim id id).elim
  | write hback =>
    rw [hback] at hlast
    exact (hlast.elim id id).elim

/-- Setting `g_logExit` at the wrong moment leaves a record behind. -/
theorem Agrees.doomed (h : s.Agrees) (hbreaks : ¬ s.SetsSafely a) (hstep : s.step a = some t) :
    Doomed t := by
  have hagrees := h.step hstep
  cases steps_of_step hstep with
  | setExit _ =>
    simp only [SetsSafely, not_forall, Bool.not_eq_false] at hbreaks
    obtain ⟨hdrained, r, hr, hearly⟩ := hbreaks
    exact ⟨hagrees, rfl, .inl hdrained, r, hr, hearly⟩
  | doLog thread data => exact absurd trivial hbreaks
  | testEmpty _ => exact absurd trivial hbreaks
  | exits _ _ => exact absurd trivial hbreaks
  | close _ => exact absurd trivial hbreaks
  | enter _ => exact absurd trivial hbreaks
  | join _ _ => exact absurd trivial hbreaks
  | stays _ _ => exact absurd trivial hbreaks
  | swap _ => exact absurd trivial hbreaks
  | testFilled _ => exact absurd trivial hbreaks
  | wake _ => exact absurd trivial hbreaks
  | written _ => exact absurd trivial hbreaks
  | write _ => exact absurd trivial hbreaks

/-! ## Runs -/

theorem inOrder_of_runs {G : Log α → Action α → Prop} (h : Runs step G start s) : InOrder s := by
  refine h.invariant (I := InOrder) ?_ rfl
  intro s a t hs _ hstep
  exact hs.step hstep

theorem agrees_start : (start : Log α).Agrees := by simp [Agrees, start]

theorem agrees_of_runs {G : Log α → Action α → Prop} (h : Runs step G start s) : s.Agrees := by
  refine h.invariant (I := Agrees) ?_ agrees_start
  intro s a t hs _ hstep
  exact hs.step hstep

theorem drains_of_runs (h : Runs step SetsSafely start s) : Drains s := by
  refine h.invariant (I := Drains) ?_ (.of_agrees agrees_start id id)
  intro s a t hs hsafe hstep
  exact hs.step hsafe hstep

/-- **What was logged before `finish` is written before the thread ends, unless `g_logExit` is
set while a record waits behind an empty swap**; then it is not.  Each thread's records are
written in order in any case. -/
theorem early_records_written (α : Type) :
    (∀ s : Log α, Runs step (fun _ _ => True) start s → s.Ordered) ∧
      (∀ s : Log α, Runs step SetsSafely start s → s.background = .ended → s.EarlyWritten) ∧
      ∀ (s t u : Log α) (a : Action α), Runs step (fun _ _ => True) start s → ¬ s.SetsSafely a →
        s.step a = some t → Runs step (fun _ _ => True) t u → u.background = .ended →
        ¬ u.EarlyWritten := by
  refine ⟨fun s hs => (inOrder_of_runs hs).ordered, ?_, ?_⟩
  · intro s hs hended
    rw [(inOrder_of_runs hs).earlyWritten_iff hended]
    have hdrains := drains_of_runs hs
    have hclosing : s.background.Closing := hended ▸ trivial
    exact hdrains.last (hdrains.closing hclosing) (.inr hclosing)
  · intro s t u a hs hbreaks hstep hu hended hwritten
    have hdoomed : Doomed u := by
      refine hu.invariant (I := Doomed) ?_ ((agrees_of_runs hs).doomed hbreaks hstep)
      intro s a t hs _ hstep
      exact hs.step hstep
    have hall : Runs step (fun _ _ => True) start u := (hs.tail trivial hstep).trans hu
    rw [(inOrder_of_runs hall).earlyWritten_iff hended] at hwritten
    obtain ⟨r, hr, hearly⟩ := hdoomed.left
    rw [hwritten r hr] at hearly
    cases hearly

/-- The thread swaps an empty list; a record is pushed and `finish` sets `g_logExit` before the
thread tests it. -/
theorem left_in_list :
    ∃ s : Log Nat, Runs step (fun _ _ => True) start s ∧ s.background = .ended ∧
      ¬ s.EarlyWritten := by
  have hexec : ∃ s : Log Nat, Runs step (fun _ _ => True) start s ∧
      decide (s.background = .ended ∧ s.written = [] ∧ s.pushed = [⟨1, 7, true⟩]) = true :=
    exists_runs_of_schedule start
      [.swap, .test, .doLog 1 7, .enter, .setExit, .exitTest, .close, .join] _ (by decide)
  obtain ⟨s, hs, hstate⟩ := hexec
  obtain ⟨hended, hwritten, hpushed⟩ := of_decide_eq_true hstate
  refine ⟨s, hs, hended, ?_⟩
  rw [EarlyWritten, hwritten, hpushed]
  decide

/-- Two threads log, one of them again behind `finish`. -/
theorem early_records_written_of_two :
    ∃ s : Log Nat, Runs step SetsSafely start s ∧ s.background = .ended ∧
      s.pushed.length = 3 ∧ s.EarlyWritten := by
  have hexec : ∃ s : Log Nat, Runs step SetsSafely start s ∧
      decide (s.background = .ended ∧ s.pushed.length = 3) = true :=
    exists_runs_of_schedule start
      [.swap, .doLog 1 7, .test, .doLog 2 8, .exitTest, .enter, .wake, .doLog 1 9, .setExit,
        .swap, .test, .write, .write, .write, .write, .swap, .test, .exitTest, .close] _ (by decide)
  obtain ⟨s, hs, hstate⟩ := hexec
  obtain ⟨hended, hlength⟩ := of_decide_eq_true hstate
  exact ⟨s, hs, hended, hlength, (early_records_written Nat).2.1 s hs hended⟩

end Log

end StormNet.Util
