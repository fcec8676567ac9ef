/-
  Foundation/Pieces.lean --- the pieces of a list between its separators.

  `Pieces p s v` says what cutting `s` at the elements of `p` has to give: one piece more than
  there are separators, no separator in a piece, and `s` again when the separators are put
  back between the pieces.  The three together leave one list (`pieces_iff`).

  Nothing in this file names the repository.
-/
import Mathlib.Data.List.Basic

set_option autoImplicit false

namespace StormNet.Foundation

variable {α : Type} {p : α → Bool} {s : List α} {v : List (List α)}

/-- The pieces in order, and a separator behind each as long as there are any. -/
def interleave : List (List α) → List α → List α
  | l :: v, x :: seps => l ++ x :: interleave v seps
  | v, _ => v.flatten

/-- `v` is `s` cut at its separators. -/
structure Pieces (p : α → Bool) (s : List α) (v : List (List α)) : Prop where
  count : v.length = (s.filter p).length + 1
  clean : ∀ l ∈ v, ∀ x ∈ l, p x = false
  interleave_eq : interleave v (s.filter p) = s

theorem filter_clean (hs : ∀ y ∈ s, p y = false) : s.filter p = [] := by
  rw [List.filter_eq_nil_iff]
  intro y hy
  simp [hs y hy]

theorem filter_cut {l rest : List α} {x : α} (hl : ∀ y ∈ l, p y = false) (hx : p x = true) :
    (l ++ x :: rest).filter p = x :: rest.filter p := by
  rw [List.filter_append, filter_clean hl, List.nil_append, List.filter_cons_of_pos hx]

/-- Up to the first separator. -/
theorem pieces_cons {l rest : List α} {x : α} (hl : ∀ y ∈ l, p y = false) (hx : p x = true)
    (h : Pieces p rest v) : Pieces p (l ++ x :: rest) (l :: v) := by
  refine ⟨?_, ?_, ?_⟩
  · rw [filter_cut hl hx, List.length_cons, h.count, List.length_cons]
  · exact List.forall_mem_cons.mpr ⟨hl, h.clean⟩
  · rw [filter_cut hl hx, interleave, h.interleave_eq]

theorem pieces_singleton (hs : ∀ y ∈ s, p y = false) : Pieces p s [s] := by
  refine ⟨by rw [filter_clean hs]; rfl, List.forall_mem_singleton.mpr hs, ?_⟩
  rw [filter_clean hs, interleave]
  · exact List.flatten_singleton
  · rintro _ _ _ _ - hnil
    cases hnil

/-- A list is clean, or has a first separator. -/
theorem exists_first_separator (p : α → Bool) (s : List α) : (∀ y ∈ s, p y = false) ∨
    ∃ l x rest, s = l ++ x :: rest ∧ (∀ y ∈ l, p y = false) ∧ p x = true := by
  induction s with
  | nil => exact .inl fun _ hy => (nomatch hy)
  | cons a s ih =>
    cases ha : p a with
    | true => exact .inr ⟨[], a, s, rfl, fun _ hy => (nomatch hy), ha⟩
    | false =>
      rcases ih with hclean | ⟨l, x, rest, rfl, hl, hx⟩
      · exact .inl (List.forall_mem_cons.mpr ⟨ha, hclean⟩)
      · exact .inr ⟨a :: l, x, rest, rfl, List.forall_mem_cons.mpr ⟨ha, hl⟩, hx⟩

theorem pieces_splitOnP (p : α → Bool) (s : List α) : Pieces p s (s.splitOnP p) := by
  induction hn : s.length using Nat.strongRecOn generalizing s with
  | _ n ih =>
    rcases exists_first_separator p s with hclean | ⟨l, x, rest, rfl, hl, hx⟩
    · rw [List.splitOnP_eq_singleton hclean]
      exact pieces_singleton hclean
    · rw [List.splitOnP_append_cons_of_forall_mem hl x hx]
      rw [List.length_append, List.length_cons] at hn
      exact pieces_cons hl hx (ih rest.length (by omega) rest rfl)

/-- Two cuts agree in front of the first separator, and behind it. -/
theorem append_cons_inj {l m rest rest' : List α} {x y : α} (hl : ∀ z ∈ l, p z = false)
    (hm : ∀ z ∈ m, p z = false) (hx : p x = true) (hy : p y = true)
    (h : l ++ x :: rest = m ++ y :: rest') : l = m ∧ rest = rest' := by
  induction l generalizing m with
  | nil =>
    cases m with
    | nil =>
      rw [List.nil_append, List.nil_append, List.cons.injEq] at h
      exact ⟨rfl, h.2⟩
    | cons z m =>
      rw [List.nil_append, List.cons_append, List.cons.injEq] at h
      have hz := hm z List.mem_cons_self
      rw [← h.1, hx] at hz
      cases hz
  | cons z l ih =>
    cases m with
    | nil =>
      rw [List.nil_append, List.cons_append, List.cons.injEq] at h
      have hz := hl z List.mem_cons_self
      rw [h.1, hy] at hz
      cases hz
    | cons w m =>
      rw [List.cons_append, List.cons_append, List.cons.injEq] at h
      obtain ⟨rfl, hrest⟩ := ih (fun z hz => hl z (List.mem_cons_of_mem _ hz))
        (fun z hz => hm z (List.mem_cons_of_mem _ hz)) h.2
      exact ⟨by rw [h.1], hrest⟩

/-- There is no other list of pieces. -/
theorem Pieces.eq_splitOnP (h : Pieces p s v) : v = s.splitOnP p := by
  induction v generalizing s with
  | nil =>
    have hcount := h.count
    rw [List.length_nil] at hcount
    omega
  | cons l v ih =>
    have hl := h.clean l List.mem_cons_self
    have hcount := h.count
    have hjoin := h.interleave_eq
    rcases exists_first_separator p s with hclean | ⟨m, y, rest, rfl, hm, hy⟩
    · rw [filter_clean hclean] at hcount hjoin
      obtain rfl : v = [] := by
        rw [List.length_cons, List.length_nil] at hcount
        exact List.eq_nil_of_length_eq_zero (by omega)
      rw [List.splitOnP_eq_singleton hclean]
      simpa [interleave] using hjoin
    · rw [filter_cut hm hy] at hcount hjoin
      obtain ⟨rfl, hsame⟩ := append_cons_inj hl hm hy hy hjoin
      rw [List.length_cons, List.length_cons] at hcount
      rw [List.splitOnP_append_cons_of_forall_mem hl y hy,
        ih ⟨by omega, fun l' hl' => h.clean l' (List.mem_cons_of_mem _ hl'), hsame⟩]

/-- **The pieces of a list** are what `splitOnP` gives. -/
theorem pieces_iff : Pieces p s v ↔ v = s.splitOnP p := by
  constructor
  · exact Pieces.eq_splitOnP
  · rintro rfl
    exact pieces_splitOnP p s

end StormNet.Foundation
