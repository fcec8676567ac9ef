/-
  Util/ConfigNesting.lean --- which section lines `CConfig::parseString` accepts.

  The tags are read off the text alone.  The parser holds them against its stack one by one,
  and does not look at the stack again behind the last line.
-/
import StormNet.Foundation.Nesting
import StormNet.Util.ConfigLookup
import StormNet.Util.ConfigRoundTrip

set_option autoImplicit false

namespace StormNet.Util

open StormNet.Foundation
open UtilString (trim splitString)

/-! ## The tags of a text -/

/-- The lines that start with `<`, trimmed; a comment starts with `#`. -/
def sectionsOf (lines : List Str) : List Str :=
  (lines.map trim).filter (fun s => s.head? = some '<')

def sectionLines (sData : Str) : List Str := sectionsOf (linesOf sData)

/-- What `<name>` and `</name>` stand for; a name holds no `>`. -/
def tagOf : Str → Option (Tag Str)
  | '<' :: s =>
      if s.getLast? = some '>' ∧ '>' ∉ s.dropLast then
        if s.head? = some '/' then some (.closing s.tail.dropLast) else some (.opening s.dropLast)
      else none
  | _ => none

/-- The section lines are all of one of the two forms, and properly nested. -/
def WellNested (sData : Str) : Prop :=
  ∃ tags, (sectionLines sData).map tagOf = tags.map some ∧ Nested tags

/-- The section lines that start with `</`. -/
def closings (sData : Str) : Nat := (sectionLines sData).countP (fun s => s[1]? = some '/')

/-- The other ones. -/
def openings (sData : Str) : Nat := (sectionLines sData).countP (fun s => s[1]? ≠ some '/')

namespace Line

/-- The tag of a section line. -/
def tag : Line → Option (Tag Str)
  | .opening k => some (.opening k)
  | .closing k => some (.closing k)
  | .blank | .keyValue _ _ => none

end Line

variable {line s : Str} {l : Line} {tag : Tag Str} {tags : List (Tag Str)}

theorem tagOf_section {m : Str} (hm : '>' ∉ m) : tagOf ('<' :: (m ++ ['>'])) =
    if m.head? = some '/' then some (.closing m.tail) else some (.opening m) := by
  rw [tagOf, if_pos ⟨by simp, by simpa using hm⟩, List.dropLast_concat]
  cases m with
  | nil => rfl
  | cons c m => simp

/-- What the parser reads in a section line is the tag that stands there. -/
theorem tagOf_of_readLine (h : readLine line = .ok l) (hs : (trim line).head? = some '<') :
    tagOf (trim line) = l.tag ∧ l.tag.isSome := by
  have hread := h
  unfold readLine at h
  simp only [if_pos hs] at h
  split at h
  · rename_i hblank
    rcases hblank with hnil | hhash
    · rw [hnil] at hs
      cases hs
    · rw [hhash] at hs
      cases hs
  · split at h
    · cases h
    · rename_i hform
      rw [not_or, not_not] at hform
      obtain ⟨m, hsection, hm⟩ := section_form hs hform.1 hform.2
      rw [readLine_section hsection hm] at hread
      rw [hsection, tagOf_section hm]
      split at hread
      · rename_i hslash
        cases hread
        rw [if_pos hslash]
        exact ⟨rfl, rfl⟩
      · rename_i hslash
        cases hread
        rw [if_neg hslash]
        exact ⟨rfl, rfl⟩

/-- A line that does not start with `<` is no section line. -/
theorem tag_of_readLine (h : readLine line = .ok l) (hs : (trim line).head? ≠ some '<') :
    l.tag = none := by
  unfold readLine at h
  simp only [if_neg hs] at h
  split at h
  · cases h
    rfl
  · split at h
    · cases h
      rfl
    · cases h
      rfl

theorem isClosing_of_tagOf (h : tagOf s = some tag) :
    tag.isClosing = decide (s[1]? = some '/') := by
  unfold tagOf at h
  split at h
  · rename_i s'
    split at h
    · split at h
      · rename_i hslash
        cases h
        have hsecond : ('<' :: s')[1]? = some '/' := by
          rw [List.getElem?_cons_succ, ← List.head?_eq_getElem?]
          exact hslash
        rw [hsecond]
        rfl
      · rename_i hslash
        cases h
        have hsecond : ('<' :: s')[1]? ≠ some '/' := by
          rw [List.getElem?_cons_succ, ← List.head?_eq_getElem?]
          exact hslash
        rw [decide_eq_false hsecond]
        rfl
    · cases h
  · cases h

theorem isOpening_eq_not (tag : Tag Str) : tag.isOpening = !tag.isClosing := by
  cases tag <;> rfl

/-- The counts are those of the tags. -/
theorem countP_of_tagOf {lines : List Str} (h : lines.map tagOf = tags.map some) :
    lines.countP (fun s => s[1]? = some '/') = tags.countP Tag.isClosing ∧
      lines.countP (fun s => s[1]? ≠ some '/') = tags.countP Tag.isOpening := by
  induction lines generalizing tags with
  | nil =>
    cases tags with
    | nil => exact ⟨rfl, rfl⟩
    | cons tag tags => cases h
  | cons s lines ih =>
    cases tags with
    | nil => cases h
    | cons tag tags =>
      obtain ⟨hfirst, hrest⟩ := List.cons.inj h
      obtain ⟨hclosing, hopening⟩ := ih hrest
      have htag := isClosing_of_tagOf hfirst
      rw [List.countP_cons, List.countP_cons, List.countP_cons, List.countP_cons, hclosing,
        hopening, isOpening_eq_not, htag]
      exact ⟨rfl, by simp⟩

/-! ## Against the stack -/

namespace Stack

variable {stk stk' : Stack} {name : Str}

/-- The open sections, the innermost first. -/
def openNames (stk : Stack) : List Str := stk.below.map (·.2)

/-- A line that is accepted is accepted by the stack of names. -/
theorem unclosed_apply (h : stk.Sound name) (hstep : stk.apply l = .ok stk')
    (rest : List (Tag Str)) :
    unclosed stk.openNames (l.tag.toList ++ rest) = unclosed stk'.openNames rest := by
  obtain ⟨top, below⟩ := stk
  cases l with
  | blank =>
    cases hstep
    rfl
  | closing k =>
    cases below with
    | nil => cases hstep
    | cons frame below =>
      obtain ⟨parent, sKey⟩ := frame
      have hname : top.sNodeName = sKey := h.2.1
      simp only [apply, pop] at hstep
      split at hstep
      · cases hstep
      · rename_i hk
        cases hstep
        rw [ne_eq, not_not] at hk
        exact if_pos (hname.symm.trans hk)
  | opening k =>
    simp only [apply] at hstep
    split at hstep
    · cases hstep
    · split at hstep
      · cases hstep
        rfl
      · cases hstep
        rfl
  | keyValue k v =>
    simp only [apply] at hstep
    split at hstep
    · cases hstep
    · cases hstep
      rfl

/-- What is accepted has its section lines accepted by the stack of names. -/
theorem unclosed_parseLines {lines : List Str} (h : stk.Sound name)
    (hlines : ∀ line ∈ lines, OneLine line) (hparse : stk.parseLines lines = (stk', none)) :
    ∃ tags, (sectionsOf lines).map tagOf = tags.map some ∧
      unclosed stk.openNames tags = some stk'.openNames := by
  induction lines generalizing stk with
  | nil =>
    cases hparse
    exact ⟨[], rfl, rfl⟩
  | cons line lines ih =>
    rw [parseLines] at hparse
    split at hparse
    · rename_i stk₁ hstep
      have hsound := h.step (hlines line List.mem_cons_self) hstep
      obtain ⟨tags, htags, hunclosed⟩ :=
        ih hsound (fun l hl => hlines l (List.mem_cons_of_mem line hl)) hparse
      cases hread : readLine line with
      | error what =>
        rw [hread] at hstep
        cases hstep
      | ok l =>
        rw [hread] at hstep
        refine ⟨l.tag.toList ++ tags, ?_, (unclosed_apply h hstep tags).trans hunclosed⟩
        by_cases hs : (trim line).head? = some '<'
        · obtain ⟨htag, hsome⟩ := tagOf_of_readLine hread hs
          obtain ⟨tag, htag'⟩ := Option.isSome_iff_exists.mp hsome
          have hfirst : sectionsOf (line :: lines) = trim line :: sectionsOf lines :=
            List.filter_cons_of_pos (decide_eq_true hs)
          rw [hfirst, List.map_cons, htags, htag, htag']
          rfl
        · have hfirst : sectionsOf (line :: lines) = sectionsOf lines :=
            List.filter_cons_of_neg (by simpa using hs)
          rw [hfirst, htags, tag_of_readLine hread hs]
          rfl
    · cases hparse

end Stack

/-! ## The result -/

namespace CConfig

variable {c : CConfig} {sData : Str}

/-- **What the parser checks of the sections.**  In every text that is accepted the section
lines have one of the two forms, and each closing tag names the innermost open section.  What
is open at the end is not looked at: the text is properly nested if and only if it has as many
closing lines as opening ones. -/
theorem wellNested_iff (sData : Str) (c : CConfig) (h : (empty []).parses sData = some c) :
    (∃ tags remaining, (sectionLines sData).map tagOf = tags.map some ∧
      unclosed [] tags = some remaining) ∧
    (WellNested sData ↔ openings sData = closings sData) := by
  have hparse : ∃ stk, Stack.parseLines ⟨empty [], []⟩ (linesOf sData) = (stk, none) := by
    unfold parses parseString at h
    cases hrun : Stack.parseLines ⟨empty [], []⟩ (linesOf sData) with
    | mk stk what =>
      rw [linesOf] at hrun
      rw [hrun] at h
      cases what with
      | none => exact ⟨stk, rfl⟩
      | some what => cases h
  obtain ⟨stk, hparse⟩ := hparse
  have hsound : Stack.Sound [] ⟨empty [], []⟩ := ⟨everywhere_empty [], rfl⟩
  obtain ⟨tags, htags, hunclosed⟩ := Stack.unclosed_parseLines hsound
    (fun line hline => UtilString.not_mem_of_mem_splitString hline) hparse
  refine ⟨⟨tags, stk.openNames, htags, hunclosed⟩, ?_⟩
  obtain ⟨hclosings, hopenings⟩ := countP_of_tagOf htags
  have hunique : WellNested sData ↔ Nested tags := by
    constructor
    · intro hnested
      obtain ⟨tags', htags', hnested⟩ := hnested
      have hsame : tags.map some = tags'.map some := htags.symm.trans htags'
      rwa [List.map_injective_iff.mpr (Option.some_injective _) hsame]
    · intro hnested
      exact ⟨tags, htags, hnested⟩
  rw [hunique, nested_iff_countP hunclosed, openings, closings]
  exact (congrArg₂ (· = ·) hopenings hclosings).symm.to_iff

/-- A text with a section in a section, and a comment that looks like a tag. -/
theorem wellNested_iff_of_two : WellNested
    "<a>\n k = 1\n<b>\n# </a>\n</b>\n </a>".toList := by
  obtain ⟨c, hc⟩ := Option.isSome_iff_exists.mp (by decide : ((empty []).parses
    "<a>\n k = 1\n<b>\n# </a>\n</b>\n </a>".toList).isSome)
  exact (wellNested_iff _ c hc).2.mpr (by decide)

/-- A file that breaks off inside a section is loaded. -/
theorem accepts_unclosed_section :
    ((empty []).parses "<a>\nk = 1\n".toList).isSome ∧ ¬ WellNested "<a>\nk = 1\n".toList := by
  refine ⟨by decide, ?_⟩
  intro hnested
  obtain ⟨tags, htags, hnested⟩ := hnested
  have hone : (sectionLines "<a>\nk = 1\n".toList).map tagOf = [some (.opening "a".toList)] := by
    decide
  rw [hone] at htags
  have hopen : tags = [.opening "a".toList] := by
    apply List.map_injective_iff.mpr (Option.some_injective _)
    exact htags.symm
  rw [hopen, nested_iff] at hnested
  cases hnested

end CConfig

end StormNet.Util
