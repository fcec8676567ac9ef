/-
  Foundation/Ledger.lean --- tokens that are handed from place to place.

  A ledger says which tokens stand in which place.  It is conserved when every token issued
  stands in exactly one place, once; issuing a token, moving some from one place to another
  and reordering a place keep it so.

  Nothing in this file names the repository.
-/
import Mathlib.Data.List.Nodup
import Mathlib.Data.List.Perm.Basic

set_option autoImplicit false

namespace StormNet.Foundation

variable {P τ : Type}

/-- Every issued token stands in exactly one place, once. -/
structure Conserved (ledger : P → List τ) (issued : τ → Prop) : Prop where
  nodup : ∀ p, (ledger p).Nodup
  apart : ∀ p q x, x ∈ ledger p → x ∈ ledger q → p = q
  placed : ∀ x, issued x ↔ ∃ p, x ∈ ledger p

namespace Conserved

variable {before after : P → List τ} {issued : τ → Prop} {p q : P}

theorem empty (h : ∀ p, before p = []) (hissued : ∀ x, ¬ issued x) :
    Conserved before issued where
  nodup := by
    intro p
    rw [h p]
    exact List.nodup_nil
  apart := by
    intro p q x hx
    rw [h p] at hx
    cases hx
  placed := by
    intro x
    refine iff_of_false (hissued x) ?_
    rintro ⟨p, hx⟩
    rw [h p] at hx
    cases hx

/-- The place of a token is the only one. -/
theorem existsUnique (h : Conserved before issued) {x : τ} (hx : issued x) :
    ∃! p, x ∈ before p := by
  obtain ⟨p, hp⟩ := (h.placed x).mp hx
  exact ⟨p, hp, fun q hq => h.apart q p x hq hp⟩

/-- The order in which a place keeps its tokens does not matter. -/
theorem reorder (h : Conserved before issued) (hperm : ∀ p, (after p).Perm (before p)) :
    Conserved after issued where
  nodup := fun p => (hperm p).nodup_iff.mpr (h.nodup p)
  apart := fun p q x hp hq => h.apart p q x ((hperm p).mem_iff.mp hp) ((hperm q).mem_iff.mp hq)
  placed := by
    intro x
    simp only [h.placed x, (hperm _).mem_iff]

/-- A new token is issued into the place `p`. -/
theorem issue (h : Conserved before issued) {x : τ} {issued' : τ → Prop} (hx : ¬ issued x)
    (hissued : ∀ y, issued' y ↔ y = x ∨ issued y) (hto : (after p).Perm (x :: before p))
    (hother : ∀ r, r ≠ p → after r = before r) : Conserved after issued' := by
  have hnew : ∀ r, x ∉ before r := fun r hr => hx ((h.placed x).mpr ⟨r, hr⟩)
  have hmem : ∀ r y, y ∈ after r ↔ (r = p ∧ y = x) ∨ y ∈ before r := by
    intro r y
    by_cases hr : r = p
    · subst hr
      simp [hto.mem_iff]
    · simp [hother r hr, hr]
  refine ⟨?_, ?_, ?_⟩
  · intro r
    by_cases hr : r = p
    · subst hr
      rw [hto.nodup_iff, List.nodup_cons]
      exact ⟨hnew r, h.nodup r⟩
    · rw [hother r hr]
      exact h.nodup r
  · intro r s y hyr hys
    rcases (hmem r y).mp hyr with ⟨rfl, rfl⟩ | hyr
    · rcases (hmem s y).mp hys with ⟨rfl, -⟩ | hys
      · rfl
      · exact absurd hys (hnew s)
    · rcases (hmem s y).mp hys with ⟨rfl, rfl⟩ | hys
      · exact absurd hyr (hnew r)
      · exact h.apart r s y hyr hys
  · intro y
    simp only [hissued, hmem, h.placed y]
    constructor
    · rintro (rfl | ⟨r, hr⟩)
      · exact ⟨p, .inl ⟨rfl, rfl⟩⟩
      · exact ⟨r, .inr hr⟩
    · rintro ⟨r, ⟨-, rfl⟩ | hr⟩
      · exact .inl rfl
      · exact .inr ⟨r, hr⟩

/-- The tokens `moved` go from the place `p` to the place `q`. -/
theorem move (h : Conserved before issued) (hpq : p ≠ q) {moved : List τ}
    (hfrom : (before p).Perm (moved ++ after p)) (hto : (after q).Perm (moved ++ before q))
    (hother : ∀ r, r ≠ p → r ≠ q → after r = before r) : Conserved after issued := by
  have hp : ∀ x, x ∈ before p ↔ x ∈ moved ∨ x ∈ after p := by
    intro x
    rw [hfrom.mem_iff, List.mem_append]
  have hq : ∀ x, x ∈ after q ↔ x ∈ moved ∨ x ∈ before q := by
    intro x
    rw [hto.mem_iff, List.mem_append]
  have hsplit : (moved ++ after p).Nodup := hfrom.nodup_iff.mp (h.nodup p)
  obtain ⟨hmoved, hrest, hdisjoint⟩ := List.nodup_append.mp hsplit
  -- a token that is at `q` now was at `p` or is an old one; elsewhere it is an old one
  have horigin : ∀ r x, x ∈ after r → x ∈ before r ∨ r = q ∧ x ∈ moved := by
    intro r x hx
    by_cases hrq : r = q
    · subst hrq
      exact ((hq x).mp hx).symm.imp_right (⟨rfl, ·⟩)
    · left
      by_cases hrp : r = p
      · subst hrp
        exact (hp x).mpr (.inr hx)
      · rwa [hother r hrp hrq] at hx
  have hstays : ∀ r x, x ∈ after r → x ∈ moved → r = q := by
    intro r x hx hmove
    rcases horigin r x hx with hold | ⟨rfl, -⟩
    · obtain rfl : r = p := h.apart r p x hold ((hp x).mpr (.inl hmove))
      exact absurd rfl (hdisjoint x hmove x hx)
    · rfl
  refine ⟨?_, ?_, ?_⟩
  · intro r
    by_cases hrq : r = q
    · subst hrq
      refine hto.nodup_iff.mpr (List.nodup_append.mpr ⟨hmoved, h.nodup r, ?_⟩)
      rintro x hx y hy rfl
      exact hpq (h.apart p r x ((hp x).mpr (.inl hx)) hy)
    · by_cases hrp : r = p
      · exact hrp ▸ hrest
      · rw [hother r hrp hrq]
        exact h.nodup r
  · intro r s x hxr hxs
    by_cases hmove : x ∈ moved
    · rw [hstays r x hxr hmove, hstays s x hxs hmove]
    · have hr := (horigin r x hxr).resolve_right (fun hx => hmove hx.2)
      have hs := (horigin s x hxs).resolve_right (fun hx => hmove hx.2)
      exact h.apart r s x hr hs
  · intro x
    rw [h.placed x]
    constructor
    · rintro ⟨r, hr⟩
      by_cases hmove : x ∈ moved
      · exact ⟨q, (hq x).mpr (.inl hmove)⟩
      · by_cases hrp : r = p
        · subst hrp
          exact ⟨r, ((hp x).mp hr).resolve_left hmove⟩
        · by_cases hrq : r = q
          · subst hrq
            exact ⟨r, (hq x).mpr (.inr hr)⟩
          · exact ⟨r, by rwa [hother r hrp hrq]⟩
    · rintro ⟨r, hr⟩
      rcases horigin r x hr with hold | ⟨-, hmove⟩
      · exact ⟨r, hold⟩
      · exact ⟨p, (hp x).mpr (.inl hmove)⟩

end Conserved

end StormNet.Foundation
