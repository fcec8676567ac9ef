/-
  Util/ConfigLine.lean --- the lines that `CConfig` prints and reads.

  What a line can say limits which strings come to stand as keys, values and section names;
  within these limits a printed line is read back as what it was printed from.
-/
import StormNet.Util.Config

set_option autoImplicit false

namespace StormNet.Util

open StormNet.Foundation
open UtilString (isspace trim repeatN splitString)

variable {k v line s a b : Str} {c : Char}

/-! ## Keys, values and section names -/

/-- The text stands within one line. -/
def OneLine (s : Str) : Prop := ∀ c ∈ s, c ∉ newlines

instance (s : Str) : Decidable (OneLine s) := List.decidableBAll _ s

/-- A string that a key line can name as its key. -/
structure KeyText (k : Str) : Prop where
  trimmed : trim k = k
  noEquals : '=' ∉ k
  first : k.head? ≠ some '#' ∧ k.head? ≠ some '<'
  oneLine : OneLine k

/-- A string that a key line can have as its value. -/
structure ValueText (v : Str) : Prop where
  trimmed : trim v = v
  oneLine : OneLine v

/-- A string that a line can name as a section. -/
structure SectionText (k : Str) : Prop where
  noEnd : '>' ∉ k
  first : k.head? ≠ some '/'
  oneLine : OneLine k

theorem OneLine.sublist (h : OneLine s) (hsub : a.Sublist s) : OneLine a :=
  fun c hc => h c (hsub.subset hc)

theorem oneLine_append (ha : OneLine a) (hb : OneLine b) : OneLine (a ++ b) :=
  List.forall_mem_append.mpr ⟨ha, hb⟩

theorem trim_sublist (s : Str) : (trim s).Sublist s := trimBy_sublist

theorem trim_trim (s : Str) : trim (trim s) = trim s := trimBy_trimBy

/-- A trimmed string starts with a character that is no blank. -/
theorem not_isspace_of_head? (h : trim s = s) (hc : c ∈ s.head?) : isspace c = false := by
  rw [← h] at hc
  exact eq_false_of_ne_true (not_of_mem_head?_trimBy hc)

theorem trim_cons (hc : isspace c = false) (s : Str) :
    trim (c :: s) = c :: s.rdropWhile isspace := by
  have hneg : ¬ isspace c = true := by simp [hc]
  exact trimBy_append_cons (a := []) hneg

/-! ## Reading a line -/

theorem isspace_equals : ¬ isspace '=' = true := by decide

theorem readLine_of_key {rest : Str} (hs : trim line = s) (hhash : s.head? ≠ some '#')
    (hless : s.head? ≠ some '<') (hrest : s.dropWhile (· ≠ '=') = c :: rest) :
    readLine line = .ok (.keyValue (trim (s.takeWhile (· ≠ '='))) (trim rest)) := by
  have hne : s ≠ [] := by
    intro hnil
    rw [hnil] at hrest
    cases hrest
  unfold readLine
  rw [hs]
  simp only [hne, hhash, hless, hrest, or_self, if_false]

/-- The first end of a section line is its last character. -/
theorem section_form (hfirst : s.head? = some '<') (hlen : ¬ s.length ≤ 1)
    (hend : s.idxOf '>' = s.length - 1) : ∃ m, s = '<' :: (m ++ ['>']) ∧ '>' ∉ m := by
  obtain ⟨t, rfl⟩ := List.head?_eq_some_iff.mp hfirst
  obtain rfl | ⟨m, x, rfl⟩ := List.eq_nil_or_concat t
  · exact absurd (Nat.le_refl 1) hlen
  · have hne : ('<' : Char) ≠ '>' := by decide
    rw [List.idxOf_cons_ne _ hne, List.concat_eq_append] at hend
    simp only [List.length_cons, List.length_append, List.length_nil] at hend
    have hm : '>' ∉ m := by
      intro hmem
      have hlt := List.idxOf_lt_length_of_mem hmem
      rw [List.idxOf_append_of_mem hmem] at hend
      omega
    rw [List.idxOf_append_of_notMem hm] at hend
    have hx : List.idxOf '>' [x] = 0 := by omega
    rw [List.idxOf_eq_zero_iff_head_eq (List.cons_ne_nil x [])] at hx
    have hx : x = '>' := hx
    exact ⟨m, by rw [List.concat_eq_append, hx], hm⟩

theorem readLine_section {m : Str} (hs : trim line = '<' :: (m ++ ['>'])) (hm : '>' ∉ m) :
    readLine line = if m.head? = some '/' then .ok (.closing m.tail) else .ok (.opening m) := by
  have hne : ('<' : Char) ≠ '>' := by decide
  have hend : List.idxOf '>' ('<' :: (m ++ ['>'])) = m.length + 1 := by
    rw [List.idxOf_cons_ne _ hne, List.idxOf_append_of_notMem hm, List.idxOf_cons_self]
  unfold readLine
  rw [hs]
  simp only [hend]
  cases m with
  | nil => rfl
  | cons c m => simp

/-- What stands in front of the first `=` of a line, trimmed, is a key. -/
theorem keyText_takeWhile (htrim : trim s = s) (hhash : s.head? ≠ some '#')
    (hless : s.head? ≠ some '<') (hline : OneLine s) :
    KeyText (trim (s.takeWhile (· ≠ '='))) where
  trimmed := trim_trim _
  noEquals := by
    intro hmem
    have hall := List.mem_takeWhile_imp ((trim_sublist _).subset hmem)
    simp at hall
  first := by
    cases hkey : s.takeWhile (· ≠ '=') with
    | nil => exact ⟨nofun, nofun⟩
    | cons c rest =>
      have hcons : s = c :: (rest ++ s.dropWhile (· ≠ '=')) := by
        rw [← List.cons_append, ← hkey, List.takeWhile_append_dropWhile]
      have hhead : s.head? = some c := by rw [hcons, List.head?_cons]
      have hc : isspace c = false := not_isspace_of_head? htrim hhead
      rw [trim_cons hc, List.head?_cons, ← hhead]
      exact ⟨hhash, hless⟩
  oneLine := hline.sublist ((trim_sublist _).trans (List.takeWhile_sublist _))

theorem valueText_trim (hline : OneLine s) : ValueText (trim s) where
  trimmed := trim_trim s
  oneLine := hline.sublist (trim_sublist s)

/-- What a key line names is a key and a value. -/
theorem texts_of_keyValue (hline : OneLine line) (h : readLine line = .ok (.keyValue k v)) :
    KeyText k ∧ ValueText v := by
  have hone : OneLine (trim line) := hline.sublist (trim_sublist line)
  unfold readLine at h
  simp only at h
  split at h
  · cases h
  · rename_i hblank
    rw [not_or] at hblank
    split at h
    · split at h
      · cases h
      · split at h <;> cases h
    · rename_i hless
      have hkey := keyText_takeWhile (trim_trim line) hblank.2 hless hone
      split at h
      · rename_i hrest
        cases h
        have hwhole : (trim line).takeWhile (· ≠ '=') = trim line := by
          have happend := List.takeWhile_append_dropWhile (p := (· ≠ '=')) (l := trim line)
          rw [hrest, List.append_nil] at happend
          exact happend
        rw [hwhole, trim_trim] at hkey
        exact ⟨hkey, rfl, fun _ hc => (nomatch hc)⟩
      · rename_i x rest hrest
        cases h
        refine ⟨hkey, valueText_trim (hone.sublist ?_)⟩
        have hsuffix : (x :: rest).Sublist (trim line) := hrest ▸ List.dropWhile_sublist _
        exact (List.sublist_cons_self x rest).trans hsuffix

/-- What an opening line names is a section. -/
theorem text_of_opening (hline : OneLine line) (h : readLine line = .ok (.opening k)) :
    SectionText k := by
  have hone : OneLine (trim line) := hline.sublist (trim_sublist line)
  have hcopy := h
  unfold readLine at h
  simp only at h
  split at h
  · cases h
  · split at h
    · rename_i hless
      split at h
      · cases h
      · rename_i hform
        rw [not_or, not_not] at hform
        obtain ⟨m, hs, hm⟩ := section_form hless hform.1 hform.2
        rw [readLine_section hs hm] at hcopy
        split at hcopy
        · cases hcopy
        · rename_i hslash
          cases hcopy
          refine ⟨hm, hslash, ?_⟩
          intro c hc
          apply hone c
          rw [hs]
          exact List.mem_cons_of_mem _ (List.mem_append_left _ hc)
    · split at h <;> cases h

/-! ## Reading what was printed -/

/-- What a printed key line has in front of its `=`, without the indent. -/
theorem printed_key (hk : KeyText k) (ha : ∀ c ∈ a, isspace c = true) (hs : trim line =
    (a ++ k ++ [' ']).dropWhile isspace ++ '=' :: s) :
    (trim line).head? ≠ some '#' ∧ (trim line).head? ≠ some '<' := by
  have hblank : isspace ' ' = true := by decide
  cases k with
  | nil =>
    have hnone : (a ++ [] ++ [' ']).dropWhile isspace = [] := by
      rw [List.dropWhile_eq_nil_iff, List.append_nil]
      exact List.forall_mem_append.mpr ⟨ha, List.forall_mem_singleton.mpr hblank⟩
    rw [hs, hnone]
    exact ⟨by simp, by simp⟩
  | cons c k =>
    have hc : isspace c = false := not_isspace_of_head? hk.trimmed rfl
    have hkeep : (a ++ c :: k ++ [' ']).dropWhile isspace = c :: (k ++ [' ']) := by
      rw [List.append_assoc, List.dropWhile_append_of_pos ha, List.cons_append,
        List.dropWhile_cons_of_neg (by simp [hc])]
    rw [hs, hkeep]
    exact hk.first

/-- A printed key line says what it was printed from. -/
theorem readLine_keyValue (hk : KeyText k) (hv : ValueText v) (ha : ∀ c ∈ a, isspace c = true) :
    readLine (a ++ k ++ " = ".toList ++ v) = .ok (.keyValue k v) := by
  have hblank : ∀ c ∈ [' '], isspace c = true := List.forall_mem_singleton.mpr (by decide)
  have hline : a ++ k ++ " = ".toList ++ v = (a ++ k ++ [' ']) ++ '=' :: (' ' :: v) := by simp
  have hs : trim (a ++ k ++ " = ".toList ++ v) = (a ++ k ++ [' ']).dropWhile isspace ++
      '=' :: (' ' :: v).rdropWhile isspace := by
    rw [hline]
    exact trimBy_append_cons isspace_equals
  have hnone : ∀ c ∈ (a ++ k ++ [' ']).dropWhile isspace, c ≠ '=' := by
    intro c hc heq
    subst heq
    rcases List.mem_append.mp ((List.dropWhile_sublist _).subset hc) with hfront | hlast
    · rcases List.mem_append.mp hfront with hindent | hkey
      · exact isspace_equals (ha _ hindent)
      · exact hk.noEquals hkey
    · exact isspace_equals (hblank _ hlast)
  have hkey : trim ((a ++ k ++ [' ']).dropWhile isspace) = k := by
    calc trim ((a ++ k ++ [' ']).dropWhile isspace)
        = trim (a ++ k ++ [' ']) := trimBy_dropWhile
      _ = trim (a ++ k) := trimBy_append_right hblank
      _ = trim k := trimBy_append_left ha
      _ = k := hk.trimmed
  have hvalue : trim ((' ' :: v).rdropWhile isspace) = v := by
    calc trim ((' ' :: v).rdropWhile isspace)
        = trim ([' '] ++ v) := trimBy_rdropWhile
      _ = trim v := trimBy_append_left hblank
      _ = v := hv.trimmed
  obtain ⟨hhash, hless⟩ := printed_key hk ha hs
  rw [hs] at hhash hless
  have htake : ((a ++ k ++ [' ']).dropWhile isspace ++
      '=' :: (' ' :: v).rdropWhile isspace).takeWhile (· ≠ '=') =
      (a ++ k ++ [' ']).dropWhile isspace := by
    rw [List.takeWhile_append_of_pos (by simpa using hnone), List.takeWhile_cons_of_neg (by simp),
      List.append_nil]
  have hdrop : ((a ++ k ++ [' ']).dropWhile isspace ++
      '=' :: (' ' :: v).rdropWhile isspace).dropWhile (· ≠ '=') =
      '=' :: (' ' :: v).rdropWhile isspace := by
    rw [List.dropWhile_append_of_pos (by simpa using hnone), List.dropWhile_cons_of_neg (by simp)]
  rw [readLine_of_key hs hhash hless hdrop, htake, hkey, hvalue]

/-- An indented section line, trimmed. -/
theorem trim_section (ha : ∀ c ∈ a, isspace c = true) (s : Str) :
    trim (a ++ '<' :: (s ++ ['>'])) = '<' :: (s ++ ['>']) := by
  have hfirst : isspace '<' = false := by decide
  have hlast : ¬ isspace '>' = true := by decide
  calc trim (a ++ '<' :: (s ++ ['>']))
      = trim ('<' :: (s ++ ['>'])) := trimBy_append_left ha
    _ = '<' :: (s ++ ['>']).rdropWhile isspace := trim_cons hfirst _
    _ = '<' :: (s ++ ['>']) := by rw [List.rdropWhile_concat_neg _ _ _ hlast]

theorem readLine_opening (hk : SectionText k) (ha : ∀ c ∈ a, isspace c = true) :
    readLine (a ++ '<' :: (k ++ ['>'])) = .ok (.opening k) := by
  rw [readLine_section (trim_section ha k) hk.noEnd, if_neg hk.first]

theorem readLine_closing (hk : SectionText k) (ha : ∀ c ∈ a, isspace c = true) :
    readLine (a ++ '<' :: '/' :: (k ++ ['>'])) = .ok (.closing k) := by
  have hend : '>' ∉ '/' :: k := by
    rw [List.mem_cons, not_or]
    exact ⟨by decide, hk.noEnd⟩
  rw [← List.cons_append, readLine_section (trim_section ha ('/' :: k)) hend]
  rfl

end StormNet.Util
