/-
  Foundation/Lock.lean --- what a piece of code does with the mutexes of its thread.

  The mutexes are not recursive: locking one that the thread holds ends the execution
  with `none`.  Code is built from scopes, so a piece of code that ends gives back what
  it took; the structure `Code` carries that fact.

  Nothing in this file names the repository.
-/
import Mathlib.Data.List.Basic

set_option autoImplicit false

namespace StormNet.Foundation

variable {L A : Type}

/-- Code of one thread, by its effect on the list of mutexes the thread holds. -/
structure Code (L : Type) where
  run : List L → Option (List L)
  balanced : ∀ held held', run held = some held' → held' = held

namespace Code

/-- The code runs to its end from `held`. -/
def Ok (c : Code L) (held : List L) : Prop := (c.run held).isSome

instance (c : Code L) (held : List L) : Decidable (c.Ok held) :=
  inferInstanceAs (Decidable ((c.run held).isSome = true))

theorem run_eq_of_ok {c : Code L} {held : List L} (h : c.Ok held) : c.run held = some held := by
  obtain ⟨held', h'⟩ := Option.isSome_iff_exists.mp h
  rw [h', c.balanced held held' h']

/-- Code that touches no mutex. -/
def skip : Code L where
  run := some
  balanced := fun _ _ h => (Option.some.inj h).symm

/-- `c; d`. -/
def seq (c d : Code L) : Code L where
  run held := (c.run held).bind d.run
  balanced := by
    intro held held' h
    obtain ⟨mid, hc, hd⟩ := Option.bind_eq_some_iff.mp h
    rw [d.balanced mid held' hd, c.balanced held mid hc]

/-- `{ lock l; c; unlock l }`. -/
def within [DecidableEq L] (l : L) (c : Code L) : Code L where
  run held :=
    if l ∈ held then none
    else (c.run (l :: held)).map (fun inside => inside.erase l)
  balanced := by
    intro held held' h
    split at h
    · cases h
    · obtain ⟨inside, hc, herase⟩ := Option.map_eq_some_iff.mp h
      rw [← herase, c.balanced _ _ hc, List.erase_cons_head]

/-- `for (a : as) f(a)`. -/
def forEach (f : A → Code L) : List A → Code L
  | [] => skip
  | a :: as => (f a).seq (forEach f as)

@[simp] theorem ok_skip (held : List L) : (skip : Code L).Ok held := rfl

@[simp] theorem ok_seq (c d : Code L) (held : List L) :
    (c.seq d).Ok held ↔ c.Ok held ∧ d.Ok held := by
  constructor
  · intro h
    have hc : c.Ok held := by
      refine Option.isSome_iff_ne_none.mpr (fun hnone => ?_)
      simp [Ok, seq, hnone] at h
    refine ⟨hc, ?_⟩
    simpa [Ok, seq, run_eq_of_ok hc] using h
  · rintro ⟨hc, hd⟩
    simpa [Ok, seq, run_eq_of_ok hc] using hd

@[simp] theorem ok_within [DecidableEq L] (l : L) (c : Code L) (held : List L) :
    (within l c).Ok held ↔ l ∉ held ∧ c.Ok (l :: held) := by
  by_cases hl : l ∈ held
  · simp [Ok, within, hl]
  · simp [Ok, within, hl]

@[simp] theorem ok_forEach (f : A → Code L) (as : List A) (held : List L) :
    (forEach f as).Ok held ↔ ∀ a ∈ as, (f a).Ok held := by
  induction as with
  | nil => simp [forEach]
  | cons a as ih => simp [forEach, ih]

end Code

end StormNet.Foundation
