/-
  Foundation/Nesting.lean --- sequences of opening and closing tags.

  `Nested` is the grammar of the properly nested sequences, and `unclosed` reads a sequence
  against a stack of the names that are open.  A sequence is nested if and only if the stack
  accepts it and ends empty.

  Nothing in this file names the repository.
-/
import Mathlib.Data.List.Basic

set_option autoImplicit false

namespace StormNet.Foundation

/-- A tag with its name. -/
inductive Tag (κ : Type) where
  | opening (k : κ)
  | closing (k : κ)
  deriving DecidableEq, Repr

namespace Tag

variable {κ : Type}

def isOpening : Tag κ → Bool
  | opening _ => true
  | closing _ => false

def isClosing : Tag κ → Bool
  | opening _ => false
  | closing _ => true

end Tag

open Tag (opening closing isOpening isClosing)

variable {κ : Type}

/-- The properly nested sequences. -/
inductive Nested : List (Tag κ) → Prop
  | nil : Nested []
  | block {k : κ} {inner rest : List (Tag κ)} :
      Nested inner → Nested rest → Nested (opening k :: inner ++ closing k :: rest)

variable {names : List κ} {tags rest : List (Tag κ)} {k : κ}

/-- Nested sequences, separated by the closing tags of `names`. -/
def Closes : List κ → List (Tag κ) → Prop
  | [], tags => Nested tags
  | k :: names, tags => ∃ inner rest, tags = inner ++ closing k :: rest ∧ Nested inner ∧
      Closes names rest

theorem Closes.opening (h : Closes (k :: names) tags) : Closes names (Tag.opening k :: tags) := by
  obtain ⟨inner, rest, rfl, hinner, hrest⟩ := h
  cases names with
  | nil => exact .block hinner hrest
  | cons k' names =>
    obtain ⟨inner', rest', rfl, hinner', hrest'⟩ := hrest
    refine ⟨Tag.opening k :: inner ++ closing k :: inner', rest', ?_, .block hinner hinner', hrest'⟩
    simp

variable [DecidableEq κ]

/-- Read the tags with the names `open` open, the innermost first: the names that are open
behind them, unless a closing tag does not name the innermost one. -/
def unclosed : List κ → List (Tag κ) → Option (List κ)
  | names, [] => some names
  | names, opening k :: tags => unclosed (k :: names) tags
  | [], closing _ :: _ => none
  | k' :: names, closing k :: tags => if k' = k then unclosed names tags else none

/-- A nested sequence leaves the stack as it was. -/
theorem Nested.unclosed_append (h : Nested tags) (names : List κ) (rest : List (Tag κ)) :
    unclosed names (tags ++ rest) = unclosed names rest := by
  induction h generalizing names rest with
  | nil => rfl
  | @block k inner tail _ _ ihInner ihTail =>
    have hsplit : opening k :: inner ++ closing k :: tail ++ rest =
        opening k :: (inner ++ closing k :: (tail ++ rest)) := by simp
    rw [hsplit, unclosed, ihInner, unclosed, if_pos rfl, ihTail]

theorem closes_of_unclosed (h : unclosed names tags = some []) : Closes names tags := by
  induction tags generalizing names with
  | nil =>
    rw [unclosed, Option.some.injEq] at h
    rw [h]
    exact .nil
  | cons tag tags ih =>
    cases tag with
    | opening k =>
      rw [unclosed] at h
      exact (ih h).opening
    | closing k =>
      cases names with
      | nil => cases h
      | cons k' names =>
        rw [unclosed] at h
        split at h
        · rename_i hk
          exact ⟨[], tags, by rw [hk]; rfl, .nil, ih h⟩
        · cases h

/-- **The stack decides nesting.** -/
theorem nested_iff : Nested tags ↔ unclosed [] tags = some [] := by
  constructor
  · intro h
    have hall := h.unclosed_append [] []
    rwa [List.append_nil] at hall
  · exact closes_of_unclosed

/-- What is open behind the tags is counted by the tags. -/
theorem length_of_unclosed {remaining : List κ} (h : unclosed names tags = some remaining) :
    remaining.length + tags.countP isClosing = names.length + tags.countP isOpening := by
  induction tags generalizing names with
  | nil =>
    rw [unclosed, Option.some.injEq] at h
    rw [h]
    rfl
  | cons tag tags ih =>
    rw [List.countP_cons, List.countP_cons]
    cases tag with
    | opening k =>
      rw [unclosed] at h
      have hrest := ih h
      rw [List.length_cons] at hrest
      simp only [isOpening, isClosing, if_true, if_false, Bool.false_eq_true]
      omega
    | closing k =>
      cases names with
      | nil => cases h
      | cons k' names =>
        rw [unclosed] at h
        split at h
        · have hrest := ih h
          simp only [isOpening, isClosing, if_true, if_false, Bool.false_eq_true,
            List.length_cons]
          omega
        · cases h

/-- A sequence that the stack accepts is nested if it has as many closing tags as opening
ones. -/
theorem nested_iff_countP {remaining : List κ} (h : unclosed [] tags = some remaining) :
    Nested tags ↔ tags.countP isOpening = tags.countP isClosing := by
  have hlength := length_of_unclosed h
  rw [nested_iff, h, Option.some.injEq, ← List.length_eq_zero_iff]
  rw [List.length_nil] at hlength
  omega

end StormNet.Foundation
