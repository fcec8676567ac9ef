/-
  Foundation/Machine.lean --- a machine that answers each input, run over a list of inputs.

  Nothing in this file names the repository.
-/
import Mathlib.Data.List.Basic

set_option autoImplicit false

namespace StormNet.Foundation

variable {σ τ ι ο : Type}

/-- The state behind all inputs, and the answers. -/
def answers (f : σ → ι → σ × ο) : σ → List ι → σ × List ο
  | s, [] => (s, [])
  | s, i :: rest => ((answers f (f s i).1 rest).1, (f s i).2 :: (answers f (f s i).1 rest).2)

/-- A relation that each input keeps, with equal answers.  It may speak of the inputs still
to come. -/
theorem answers_simulates {f : σ → ι → σ × ο} {g : τ → ι → τ × ο}
    {R : σ → τ → List ι → Prop}
    (hstep : ∀ s t i rest, R s t (i :: rest) → R (f s i).1 (g t i).1 rest ∧ (f s i).2 = (g t i).2)
    {s : σ} {t : τ} {inputs : List ι} (h : R s t inputs) :
    R (answers f s inputs).1 (answers g t inputs).1 [] ∧
      (answers f s inputs).2 = (answers g t inputs).2 := by
  induction inputs generalizing s t with
  | nil => exact ⟨h, rfl⟩
  | cons i rest ih =>
    obtain ⟨hnext, hanswer⟩ := hstep s t i rest h
    obtain ⟨hend, hrest⟩ := ih hnext
    refine ⟨hend, ?_⟩
    rw [answers, answers, hanswer, hrest]

/-- Each answer is one that `Allows` gives a specification in the state it has come to. -/
def Follows (g : τ → ι → τ) (Allows : τ → ι → ο → Prop) : τ → List ι → List ο → Prop
  | _, [], [] => True
  | t, i :: rest, o :: answered => Allows t i o ∧ Follows g Allows (g t i) rest answered
  | _, _, _ => False

/-- A relation that each input keeps, with an allowed answer. -/
theorem follows_answers {f : σ → ι → σ × ο} {g : τ → ι → τ} {Allows : τ → ι → ο → Prop}
    {R : σ → τ → List ι → Prop}
    (hstep : ∀ s t i rest, R s t (i :: rest) → R (f s i).1 (g t i) rest ∧ Allows t i (f s i).2)
    {s : σ} {t : τ} {inputs : List ι} (h : R s t inputs) :
    R (answers f s inputs).1 (inputs.foldl g t) [] ∧
      Follows g Allows t inputs (answers f s inputs).2 := by
  induction inputs generalizing s t with
  | nil => exact ⟨h, trivial⟩
  | cons i rest ih =>
    obtain ⟨hnext, hallows⟩ := hstep s t i rest h
    obtain ⟨hend, hrest⟩ := ih hnext
    exact ⟨hend, hallows, hrest⟩

/-- What every allowed answer is, every answer is. -/
theorem Follows.forall_mem {g : τ → ι → τ} {Allows : τ → ι → ο → Prop} {P : ο → Prop}
    (hP : ∀ t i o, Allows t i o → P o) {t : τ} {inputs : List ι} {answered : List ο}
    (h : Follows g Allows t inputs answered) : ∀ o ∈ answered, P o := by
  induction inputs generalizing t answered with
  | nil =>
    cases answered with
    | nil => simp
    | cons o answered => exact h.elim
  | cons i rest ih =>
    cases answered with
    | nil => exact h.elim
    | cons o answered =>
      obtain ⟨hallows, hrest⟩ := h
      exact List.forall_mem_cons.mpr ⟨hP t i o hallows, ih hrest⟩

end StormNet.Foundation
