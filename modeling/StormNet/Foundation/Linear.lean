/-
  Foundation/Linear.lean --- objects shared by threads, against the same object used by one
  call after the other.

  The shared object keeps a record of the calls that have returned, in the order in which
  they took effect.  It is linearizable when the results are those of the calls one after
  the other, from the same start to the same end.

  Nothing in this file names the repository.
-/
import Mathlib.Data.List.Induction
import StormNet.Foundation.Transition

set_option autoImplicit false

namespace StormNet.Foundation

variable {σ ο ρ : Type} {apply : σ → ο → ρ × σ}

/-- The results of the calls, one after the other, and the object behind them. -/
def replay (apply : σ → ο → ρ × σ) : σ → List ο → List ρ × σ
  | s, [] => ([], s)
  | s, o :: os =>
      let rest := replay apply (apply s o).2 os
      ((apply s o).1 :: rest.1, rest.2)

/-- The calls lead from `start` to `s`, with the results that are recorded. -/
def Linear (apply : σ → ο → ρ × σ) (start : σ) (done : List (ο × ρ)) (s : σ) : Prop :=
  replay apply start (done.map (·.1)) = (done.map (·.2), s)

theorem replay_concat (s : σ) (os : List ο) (o : ο) :
    replay apply s (os ++ [o]) =
      ((replay apply s os).1 ++ [(apply (replay apply s os).2 o).1],
        (apply (replay apply s os).2 o).2) := by
  induction os generalizing s with
  | nil => rfl
  | cons p os ih =>
    rw [List.cons_append, replay, ih, replay]
    rfl

theorem linear_nil (s : σ) : Linear apply s [] s := rfl

theorem Linear.concat {start s t : σ} {done : List (ο × ρ)} {o : ο} {r : ρ}
    (h : Linear apply start done s) (happly : apply s o = (r, t)) :
    Linear apply start (done ++ [(o, r)]) t := by
  rw [Linear] at h ⊢
  rw [List.map_append, List.map_append, List.map_singleton, List.map_singleton, replay_concat, h,
    happly]

/-- **The invariant rule of the sequential object.**  What relates the record and the object,
and every call keeps, holds of a record that is linear. -/
theorem Linear.invariant {start s : σ} {done : List (ο × ρ)} {I : List (ο × ρ) → σ → Prop}
    (hpres : ∀ done s o, I done s → I (done ++ [(o, (apply s o).1)]) (apply s o).2)
    (h : Linear apply start done s) (hstart : I [] start) : I done s := by
  induction done using List.reverseRecOn generalizing s with
  | nil =>
    rw [Linear, List.map_nil, List.map_nil, replay, Prod.mk.injEq] at h
    exact h.2 ▸ hstart
  | append_singleton done call ih =>
    rw [Linear, List.map_append, List.map_append, List.map_singleton, List.map_singleton,
      replay_concat, Prod.mk.injEq] at h
    obtain ⟨hresults, rfl⟩ := h
    obtain ⟨hdone, hlast⟩ := List.append_inj' hresults rfl
    have hbefore : Linear apply start done (replay apply start (done.map (·.1))).2 := by
      rw [Linear, ← hdone]
    have hcall : call = (call.1, (apply (replay apply start (done.map (·.1))).2 call.1).1) := by
      rw [List.singleton_inj.mp hlast]
    have hnext := hpres done _ call.1 (ih hbefore)
    rwa [← hcall] at hnext

/-- **The linearization rule.**  Where each step leaves the object and the record alone, or
takes effect as one call, every run is linear. -/
theorem linear_of_runs {τ α : Type} {step : τ → α → Option τ} {G : τ → α → Prop} {x y : τ}
    (object : τ → σ) (done : τ → List (ο × ρ))
    (hstep : ∀ x a y, G x a → step x a = some y →
      (object y = object x ∧ done y = done x) ∨
        ∃ o r, apply (object x) o = (r, object y) ∧ done y = done x ++ [(o, r)])
    (hstart : done x = []) (h : Runs step G x y) :
    Linear apply (object x) (done y) (object y) := by
  induction h with
  | refl =>
    rw [hstart]
    exact linear_nil _
  | tail _ hg hs ih =>
    rcases hstep _ _ _ hg hs with ⟨hobject, hdone⟩ | ⟨o, r, happly, hdone⟩
    · rwa [hobject, hdone]
    · rw [hdone]
      exact ih.concat happly

end StormNet.Foundation
