/-
  Foundation/Transition.lean --- labelled transition systems whose steps are
  computed, and the invariant rule for their runs.

  A system is a step function `step : σ → α → Option σ`: `none` means that the
  label is not enabled.  A run is *guarded*: every step of it meets a predicate
  `G` on the state before the step and the label.  `G := fun _ _ => True` gives
  all runs; a restricted `G` gives "every run whose steps all meet `G`".

  Nothing in this file names the repository.
-/
import Mathlib.Logic.Function.Basic
import Mathlib.Data.Option.Basic

set_option autoImplicit false

namespace StormNet.Foundation

section Runs

variable {σ α : Type}

/-- `Runs step G s t`: `t` is reached from `s` by finitely many steps, each of
which meets `G` in the state before it. -/
inductive Runs (step : σ → α → Option σ) (G : σ → α → Prop) (s : σ) : σ → Prop
  | refl : Runs step G s s
  | tail {t u : σ} {a : α} :
      Runs step G s t → G t a → step t a = some u → Runs step G s u

namespace Runs

variable {step : σ → α → Option σ} {G H : σ → α → Prop} {s t u : σ}

theorem single {a : α} (hg : G s a) (h : step s a = some t) : Runs step G s t :=
  .tail .refl hg h

theorem trans (h₁ : Runs step G s t) (h₂ : Runs step G t u) : Runs step G s u := by
  induction h₂ with
  | refl => exact h₁
  | tail _ hg hstep ih => exact .tail ih hg hstep

/-- A run under a stronger guard is a run under a weaker one. -/
theorem mono (hGH : ∀ x a, G x a → H x a) (h : Runs step G s t) : Runs step H s t := by
  induction h with
  | refl => exact .refl
  | tail _ hg hstep ih => exact .tail ih (hGH _ _ hg) hstep

/-- **The invariant rule.**  What every guarded step preserves, every guarded
run preserves. -/
theorem invariant {I : σ → Prop}
    (hpres : ∀ x a y, I x → G x a → step x a = some y → I y)
    (h : Runs step G s t) (hs : I s) : I t := by
  induction h with
  | refl => exact hs
  | tail _ hg hstep ih => exact hpres _ _ _ ih hg hstep

/-- **The projection rule.**  When every step of a larger system is a step of a smaller
one or does not touch it, its runs project to runs of the smaller one. -/
theorem project {τ β : Type} {outer : τ → β → Option τ} {K : τ → β → Prop} {x y : τ}
    (π : τ → σ)
    (hstep : ∀ x b y, K x b → outer x b = some y →
      π y = π x ∨ ∃ a, G (π x) a ∧ step (π x) a = some (π y))
    (h : Runs outer K x y) : Runs step G (π x) (π y) := by
  induction h with
  | refl => exact .refl
  | tail _ hg hb ih =>
    rcases hstep _ _ _ hg hb with hsame | ⟨a, ha, hs⟩
    · rw [hsame]
      exact ih
    · exact .tail ih ha hs

/-- **The lifting rule.**  When the larger system can follow every step of the smaller
one, every run of the smaller one is the projection of a run of the larger one. -/
theorem lift {τ β : Type} {outer : τ → β → Option τ} {K : τ → β → Prop} {x : τ}
    (π : τ → σ)
    (hstep : ∀ x a t, G (π x) a → step (π x) a = some t →
      ∃ b y, K x b ∧ outer x b = some y ∧ π y = t)
    (h : Runs step G (π x) t) : ∃ y, Runs outer K x y ∧ π y = t := by
  induction h with
  | refl => exact ⟨x, .refl, rfl⟩
  | tail _ hg hs ih =>
    obtain ⟨z, hz, rfl⟩ := ih
    obtain ⟨b, y, hgb, hb, hy⟩ := hstep z _ _ hg hs
    exact ⟨y, .tail hz hgb hb, hy⟩

/-- **The record rule.**  A system that takes the steps of a smaller one and keeps a record
beside it has the same runs. -/
theorem recorded_iff {τ : Type} {outer : τ → α → Option τ} {x : τ} (π : τ → σ)
    (hsame : ∀ x a, (outer x a).map π = step (π x) a) :
    Runs step G (π x) t ↔ ∃ y, Runs outer (fun x a => G (π x) a) x y ∧ π y = t := by
  constructor
  · apply lift π
    intro x a t hg hs
    rw [← hsame] at hs
    obtain ⟨y, hy, hyt⟩ := Option.map_eq_some_iff.mp hs
    exact ⟨a, y, hg, hy, hyt⟩
  · intro h
    obtain ⟨y, hy, rfl⟩ := h
    apply hy.project π
    intro x a y hg hstep
    exact .inr ⟨a, hg, by rw [← hsame, hstep, Option.map_some]⟩

end Runs

/-! ## Executing a list of labels -/

/-- Execute the labels in order, checking the decidable guard `g` before each
step; `none` when a guard fails or a label is not enabled. -/
def execute (step : σ → α → Option σ) (g : σ → α → Bool) : σ → List α → Option σ
  | s, [] => some s
  | s, a :: as => if g s a then (step s a).bind (fun t => execute step g t as) else none

variable {step : σ → α → Option σ} {G : σ → α → Prop} {g : σ → α → Bool}

/-- An execution is a guarded run. -/
theorem runs_of_execute (hg : ∀ s a, g s a = true → G s a) :
    ∀ (as : List α) (s t : σ), execute step g s as = some t → Runs step G s t := by
  intro as
  induction as with
  | nil =>
    intro s t h
    rw [execute, Option.some.injEq] at h
    subst h
    exact .refl
  | cons a as ih =>
    intro s t h
    rw [execute] at h
    split at h
    · rename_i hga
      obtain ⟨u, hu, hrest⟩ := Option.bind_eq_some_iff.mp h
      exact (Runs.single (hg s a hga) hu).trans (ih u t hrest)
    · cases h

/-- What every step preserves, an execution preserves. -/
theorem invariant_of_execute {I : σ → Prop} (hI : ∀ s a t, I s → step s a = some t → I t)
    {s t : σ} {as : List α} (hs : I s) (h : execute step g s as = some t) : I t := by
  have hruns : Runs step (fun _ _ => True) s t := runs_of_execute (fun _ _ _ => trivial) as s t h
  exact hruns.invariant (fun s a t hs _ hstep => hI s a t hs hstep) hs

/-- **The guard rule.**  A property that a step keeps just when its guard holds, in the states
that meet `I`: at the end of an execution it holds if and only if it held at its start and
every step has met its guard. -/
theorem execute_guard_iff {I P : σ → Prop} [∀ s a, Decidable (G s a)]
    (hI : ∀ s a t, I s → step s a = some t → I t)
    (hP : ∀ s a t, I s → step s a = some t → (P t ↔ P s ∧ G s a)) {s t : σ} {as : List α}
    (hs : I s) (h : execute step (fun _ _ => true) s as = some t) :
    P t ↔ P s ∧ (execute step (fun s a => decide (G s a)) s as).isSome := by
  induction as generalizing s with
  | nil =>
    rw [execute, Option.some.injEq] at h
    rw [h, execute]
    simp
  | cons a as ih =>
    rw [execute, if_pos rfl] at h
    obtain ⟨u, hu, hrest⟩ := Option.bind_eq_some_iff.mp h
    rw [ih (hI s a u hs hu) hrest, hP s a u hs hu, and_assoc, execute]
    by_cases hg : G s a
    · simp [hg, hu]
    · simp [hg]

/-- A quantity that the steps with a label in `p` lower by one, and the others leave. -/
theorem execute_countP {I : σ → Prop} {left : σ → Nat} {p : α → Bool}
    (hI : ∀ s a t, I s → step s a = some t → I t)
    (hleft : ∀ s a t, I s → step s a = some t → left t + (if p a then 1 else 0) = left s)
    {s t : σ} {as : List α} (hs : I s) (h : execute step g s as = some t) :
    left t + as.countP p = left s := by
  induction as generalizing s with
  | nil =>
    rw [execute, Option.some.injEq] at h
    rw [h, List.countP_nil, Nat.add_zero]
  | cons a as ih =>
    rw [execute] at h
    split at h
    · obtain ⟨u, hu, hrest⟩ := Option.bind_eq_some_iff.mp h
      have hrun := ih (hI s a u hs hu) hrest
      have hfirst := hleft s a u hs hu
      rw [List.countP_cons]
      omega
    · cases h

/-- A concrete execution ending in a state that passes the test `p` yields a
guarded run to such a state.  `p` is a test, not an equation between states, so
that states holding functions can be inspected. -/
theorem exists_runs_of_execute (hg : ∀ s a, g s a = true → G s a) {s : σ}
    (as : List α) (p : σ → Bool) (h : (execute step g s as).any p = true) :
    ∃ t, Runs step G s t ∧ p t = true := by
  cases hex : execute step g s as with
  | none => rw [hex] at h; cases h
  | some t =>
    rw [hex] at h
    exact ⟨t, runs_of_execute hg as s t hex, h⟩

/-- The same with the guard itself as the test. -/
theorem exists_runs_of_schedule [∀ s a, Decidable (G s a)] (s : σ) (as : List α) (p : σ → Bool)
    (h : (execute step (fun s a => decide (G s a)) s as).any p = true) :
    ∃ t, Runs step G s t ∧ p t = true :=
  exists_runs_of_execute (fun _ _ hg => of_decide_eq_true hg) as p h

/-- The same when the first step is guarded by a fact that is not tested. -/
theorem exists_runs_of_first (hg : ∀ s a, g s a = true → G s a) {s : σ} {a : α}
    (ha : G s a) (as : List α) (p : σ → Bool)
    (h : ((step s a).bind (fun t => execute step g t as)).any p = true) :
    ∃ t, Runs step G s t ∧ p t = true := by
  cases hstep : step s a with
  | none => rw [hstep] at h; cases h
  | some u =>
    rw [hstep] at h
    obtain ⟨t, ht, hp⟩ := exists_runs_of_execute hg as p h
    exact ⟨t, (Runs.single ha hstep).trans ht, hp⟩

/-! ## Refinement -/

/-- Every label of the list meets the guard in the state it is given in. -/
def Meets (step : σ → α → Option σ) (G : σ → α → Prop) : σ → List α → Prop
  | _, [] => True
  | s, a :: as => G s a ∧ ∀ t ∈ step s a, Meets step G t as

instance decidableMeets [∀ s a, Decidable (G s a)] :
    ∀ (s : σ) (as : List α), Decidable (Meets step G s as)
  | _, [] => inferInstanceAs (Decidable True)
  | s, a :: as =>
      have : ∀ t, Decidable (Meets step G t as) := fun t => decidableMeets t as
      inferInstanceAs (Decidable (G s a ∧ ∀ t ∈ step s a, Meets step G t as))

/-- **The refinement rule.**  Where each label that meets its guard is enabled, and its step
follows a function on the abstract side, a list of such labels is executed to its end and
follows the functions. -/
theorem Meets.refines {τ : Type} {abs : τ → α → τ} {R : σ → τ → Prop}
    (hstep : ∀ s q a, R s q → G s a → ∃ t, step s a = some t ∧ R t (abs q a))
    {s : σ} {q : τ} {as : List α} (h : Meets step G s as) (hs : R s q) :
    ∃ t, execute step (fun _ _ => true) s as = some t ∧ R t (as.foldl abs q) := by
  induction as generalizing s q with
  | nil => exact ⟨s, rfl, hs⟩
  | cons a as ih =>
    obtain ⟨hg, hrest⟩ := h
    obtain ⟨u, hu, hR⟩ := hstep s q a hs hg
    obtain ⟨t, ht, hlast⟩ := ih (hrest u hu) hR
    refine ⟨t, ?_, hlast⟩
    rw [execute, if_pos rfl, hu]
    exact ht

/-- **The guard rule** for a list of labels that meets `D`: at its end the property holds if
and only if it held at its start and every label meets the guard as well. -/
theorem Meets.guard_iff {I P : σ → Prop} {D : σ → α → Prop}
    (hI : ∀ s a t, I s → D s a → step s a = some t → I t)
    (hP : ∀ s a t, I s → D s a → step s a = some t → (P t ↔ P s ∧ G s a)) {s t : σ}
    {as : List α} (h : Meets step D s as) (hs : I s)
    (ht : execute step (fun _ _ => true) s as = some t) :
    I t ∧ (P t ↔ P s ∧ Meets step G s as) := by
  induction as generalizing s with
  | nil =>
    rw [execute, Option.some.injEq] at ht
    subst ht
    exact ⟨hs, (and_iff_left trivial).symm⟩
  | cons a as ih =>
    obtain ⟨hd, hrest⟩ := h
    rw [execute, if_pos rfl] at ht
    obtain ⟨u, hu, hlast⟩ := Option.bind_eq_some_iff.mp ht
    obtain ⟨hend, hiff⟩ := ih (hrest u hu) (hI s a u hs hd hu) hlast
    refine ⟨hend, ?_⟩
    have hmeets : Meets step G s (a :: as) ↔ G s a ∧ Meets step G u as := by
      rw [Meets, hu]
      simp
    rw [hiff, hP s a u hs hd hu, hmeets, and_assoc]

end Runs

end StormNet.Foundation
