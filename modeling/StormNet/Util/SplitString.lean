/-
  Util/SplitString.lean --- `splitString` and `joinString` of `util/util_string.cpp`, over
  strings of any characters.

  The loop of `splitString` runs over two indexes; `UtilString.splitString` is the same loop
  over what is left of the string.  A vector has fewer than 2^32 elements, so that `unsigned i`
  counts them all.
-/
import StormNet.Foundation.Pieces
import StormNet.Util.UtilString

set_option autoImplicit false

namespace StormNet.Util

open StormNet.Foundation

namespace UtilString

/-! ## The source -/

section Source

variable {α : Type} [DecidableEq α]

/-- `str.find_first_of(sep, p)`; `npos` is `none`. -/
def findFirstOf (str sep : List α) (p : Nat) : Option Nat :=
  ((str.drop p).findIdx? (· ∈ sep)).map (p + ·)

theorem findFirstOf_bounds {str sep : List α} {p q : Nat} (h : findFirstOf str sep p = some q) :
    p ≤ q ∧ q < str.length := by
  obtain ⟨i, hi, rfl⟩ := Option.map_eq_some_iff.mp h
  obtain ⟨hlt, -, -⟩ := List.findIdx?_eq_some_iff_getElem.mp hi
  rw [List.length_drop] at hlt
  omega

/-- The loop of `splitString` from `p` on. -/
def splitFrom (str sep : List α) (bStrip : Bool) (p : Nat) (vResult : List (List α)) :
    List (List α) :=
  match _hfind : findFirstOf str sep p with
  | none => if !bStrip || p < str.length then vResult ++ [str.drop p] else vResult
  | some q =>
      if q = p then
        if !bStrip then splitFrom str sep bStrip (p + 1) (vResult ++ [[]])
        else splitFrom str sep bStrip (p + 1) vResult
      else splitFrom str sep bStrip (q + 1) (vResult ++ [(str.drop p).take (q - p)])
  termination_by str.length - p
  decreasing_by
    all_goals
      have hbounds := findFirstOf_bounds _hfind
      omega

/-- `splitString(str, sep, bStrip, vResult)`. -/
def splitStringInto (str sep : List α) (bStrip : Bool) (vResult : List (List α)) :
    List (List α) := splitFrom str sep bStrip 0 vResult

/-- `joinString(v, sep)`. -/
def joinString (v : List (List α)) (sep : List α) : List α :=
  v.foldl (fun sResult x => (if !sResult.isEmpty then sResult ++ sep else sResult) ++ x) []

end Source

/-! ## Splitting -/

section Split

variable {α : Type} {str sep l rest : List α} {x : α} {p : Nat}

/-- The empty pieces are dropped, or not. -/
def strip (bStrip : Bool) (v : List (List α)) : List (List α) :=
  if bStrip then v.filter (· ≠ []) else v

@[simp] theorem strip_nil (bStrip : Bool) : strip bStrip ([[]] : List (List α)) =
    if bStrip then [] else [[]] := by
  cases bStrip <;> rfl

theorem strip_of_ne_nil (bStrip : Bool) (hl : l ≠ []) : strip bStrip [l] = [l] := by
  cases bStrip <;> simp [strip, hl]

theorem strip_cons (bStrip : Bool) (l : List α) (v : List (List α)) :
    strip bStrip (l :: v) = strip bStrip [l] ++ strip bStrip v := by
  cases bStrip with
  | false => rfl
  | true =>
    rw [strip, strip, strip, if_pos rfl, if_pos rfl, if_pos rfl, ← List.filter_append,
      List.singleton_append]

variable [DecidableEq α]

theorem findFirstOf_of_clean (h : ∀ y ∈ str.drop p, y ∉ sep) : findFirstOf str sep p = none := by
  rw [findFirstOf, Option.map_eq_none_iff, List.findIdx?_eq_none_iff]
  intro y hy
  exact decide_eq_false (h y hy)

theorem findFirstOf_of_cut (hcut : str.drop p = l ++ x :: rest) (hl : ∀ y ∈ l, y ∉ sep)
    (hx : x ∈ sep) : findFirstOf str sep p = some (p + l.length) := by
  have hl' : ∀ y ∈ l, decide (y ∈ sep) = false := fun y hy => decide_eq_false (hl y hy)
  rw [findFirstOf, hcut, List.findIdx?_append, List.findIdx?_eq_none_iff.mpr hl',
    List.findIdx?_cons, if_pos (decide_eq_true hx)]
  simp

theorem splitFrom_of_clean (h : ∀ y ∈ str.drop p, y ∉ sep) (bStrip : Bool)
    (vResult : List (List α)) :
    splitFrom str sep bStrip p vResult = vResult ++ strip bStrip [str.drop p] := by
  rw [splitFrom]
  split
  · by_cases hnil : str.drop p = []
    · have hend : ¬ p < str.length := Nat.not_lt.mpr (List.drop_eq_nil_iff.mp hnil)
      rw [hnil, strip_nil, decide_eq_false hend, Bool.or_false]
      cases bStrip <;> simp
    · have hmore : p < str.length := by
        rw [List.drop_eq_nil_iff] at hnil
        omega
      rw [strip_of_ne_nil bStrip hnil, decide_eq_true hmore, Bool.or_true, if_pos rfl]
  · rename_i q hsome
    rw [findFirstOf_of_clean h] at hsome
    cases hsome

/-- One turn of the loop. -/
theorem splitFrom_of_cut (hcut : str.drop p = l ++ x :: rest) (hl : ∀ y ∈ l, y ∉ sep)
    (hx : x ∈ sep) (bStrip : Bool) (vResult : List (List α)) :
    splitFrom str sep bStrip p vResult =
      splitFrom str sep bStrip (p + l.length + 1) (vResult ++ strip bStrip [l]) := by
  have hsome := findFirstOf_of_cut hcut hl hx
  rw [splitFrom]
  split
  · rename_i hnone
    rw [hsome] at hnone
    cases hnone
  · rename_i q hq
    rw [hsome, Option.some.injEq] at hq
    rw [← hq, hcut]
    by_cases hnil : l = []
    · subst hnil
      rw [List.length_nil, Nat.add_zero, if_pos rfl, strip_nil]
      cases bStrip <;> simp
    · have hpos : ¬ p + l.length = p := by
        have := List.length_pos_iff.mpr hnil
        omega
      rw [if_neg hpos, strip_of_ne_nil bStrip hnil, Nat.add_sub_cancel_left, List.take_left]

/-- **The two indexes** cut what is behind `p` at its separators. -/
theorem splitFrom_eq (str sep : List α) (bStrip : Bool) (p : Nat) (vResult : List (List α)) :
    splitFrom str sep bStrip p vResult =
      vResult ++ strip bStrip ((str.drop p).splitOnP (· ∈ sep)) := by
  induction hn : (str.drop p).length using Nat.strongRecOn generalizing p vResult with
  | _ n ih =>
    rcases exists_first_separator (fun y => decide (y ∈ sep)) (str.drop p) with
      hclean | ⟨l, x, rest, hcut, hl, hx⟩
    · rw [splitFrom_of_clean (fun y hy => of_decide_eq_false (hclean y hy)),
        List.splitOnP_eq_singleton hclean]
    · have hbehind : str.drop (p + l.length + 1) = rest := by
        rw [Nat.add_assoc, ← List.drop_drop, hcut, ← List.drop_drop, List.drop_left]
        rfl
      have hless : rest.length < n := by
        rw [hcut, List.length_append, List.length_cons] at hn
        omega
      rw [splitFrom_of_cut hcut (fun y hy => of_decide_eq_false (hl y hy)) (of_decide_eq_true hx),
        ih rest.length hless _ _ (congrArg List.length hbehind), hbehind, hcut,
        List.splitOnP_append_cons_of_forall_mem hl x hx, strip_cons bStrip l (rest.splitOnP _),
        List.append_assoc]

end Split

/-- The same loop over what is left of the string. -/
theorem splitLoop_eq (sep : Str) (bStrip : Bool) (piece s : Str) (hpiece : ∀ y ∈ piece, y ∉ sep) :
    splitLoop sep bStrip piece s = strip bStrip ((piece ++ s).splitOnP (· ∈ sep)) := by
  induction s generalizing piece with
  | nil =>
    have hclean : ∀ y ∈ piece, decide (y ∈ sep) = false :=
      fun y hy => decide_eq_false (hpiece y hy)
    rw [List.append_nil, List.splitOnP_eq_singleton hclean, splitLoop]
    cases bStrip <;> cases piece <;> rfl
  | cons c rest ih =>
    rw [splitLoop]
    split
    · rename_i hc
      have hclean : ∀ y ∈ piece, decide (y ∈ sep) = false :=
        fun y hy => decide_eq_false (hpiece y hy)
      rw [List.splitOnP_append_cons_of_forall_mem hclean c (decide_eq_true hc),
        strip_cons bStrip piece (rest.splitOnP _), ih [] (List.forall_mem_nil _),
        List.nil_append]
      cases bStrip <;> cases piece <;> rfl
    · rename_i hc
      rw [ih (piece ++ [c]), List.append_assoc, List.singleton_append]
      exact List.forall_mem_append.mpr ⟨hpiece, List.forall_mem_singleton.mpr hc⟩

theorem splitString_eq (s sep : Str) (bStrip : Bool) :
    splitString s sep bStrip = strip bStrip (s.splitOnP (· ∈ sep)) :=
  splitLoop_eq sep bStrip [] s (List.forall_mem_nil _)

/-- **Splitting is exact.**  Without stripping it gives the pieces between the separators, with
it those that are not empty; the other overload puts them behind what `vResult` has. -/
theorem splitString_pieces (s sep : Str) :
    ∃ v, (∀ w, Pieces (· ∈ sep) s w ↔ w = v) ∧ splitString s sep false = v ∧
      splitString s sep true = v.filter (· ≠ []) ∧
      ∀ bStrip vResult, splitStringInto s sep bStrip vResult =
        vResult ++ splitString s sep bStrip := by
  refine ⟨s.splitOnP (· ∈ sep), fun w => pieces_iff, ?_, ?_, ?_⟩
  · rw [splitString_eq]
    rfl
  · rw [splitString_eq]
    rfl
  · intro bStrip vResult
    rw [splitString_eq, splitStringInto, splitFrom_eq, List.drop_zero]

example : splitString ",a,,b,".toList ",".toList false = [[], ['a'], [], ['b'], []] := by decide

/-! ## Joining -/

section Join

variable {α : Type} {v : List (List α)} {s : List α} {c : α}

theorem intercalate_cons (l : List α) (v : List (List α)) (c : α) :
    [c].intercalate (l :: v) = l ++ v.flatMap (c :: ·) := by
  induction v generalizing l with
  | nil => rw [List.intercalate_singleton, List.flatMap_nil, List.append_nil]
  | cons m v ih =>
    rw [List.intercalate_cons_cons, ih, List.flatMap_cons, List.append_assoc,
      List.singleton_append, List.cons_append]

/-- Once there is some text, each element has a separator in front. -/
theorem joinString_behind (hs : s ≠ []) (v : List (List α)) (c : α) :
    v.foldl (fun sResult x => (if !sResult.isEmpty then sResult ++ [c] else sResult) ++ x) s =
      s ++ v.flatMap (c :: ·) := by
  induction v generalizing s with
  | nil => rw [List.foldl_nil, List.flatMap_nil, List.append_nil]
  | cons l v ih =>
    have hfull : s.isEmpty = false := List.isEmpty_eq_false_iff.mpr hs
    rw [List.foldl_cons, hfull, Bool.not_false, if_pos rfl, List.append_assoc,
      List.singleton_append, ih (List.append_ne_nil_of_left_ne_nil hs _), List.append_assoc,
      List.flatMap_cons]

/-- Empty elements in front are lost; the others are joined. -/
theorem joinString_eq (v : List (List α)) (c : α) :
    joinString v [c] = [c].intercalate (v.dropWhile List.isEmpty) := by
  unfold joinString
  induction v with
  | nil => rfl
  | cons l v ih =>
    rw [List.foldl_cons]
    cases l with
    | nil => exact ih
    | cons x l =>
      rw [List.dropWhile_cons_of_neg (Bool.false_ne_true), intercalate_cons]
      exact joinString_behind (List.cons_ne_nil x l) v c

/-- Nothing is lost without an empty element in front. -/
theorem joinString_of_head (h : v.head? ≠ some []) (c : α) :
    joinString v [c] = [c].intercalate v := by
  rw [joinString_eq]
  cases v with
  | nil => rfl
  | cons l v =>
    have hl : l.isEmpty = false := by
      rw [List.isEmpty_eq_false_iff]
      rintro rfl
      exact h rfl
    rw [List.dropWhile_cons_of_neg (by simp [hl])]

/-- An empty element in front adds nothing to the text. -/
theorem joinString_nil_cons (v : List (List α)) (c : α) :
    joinString ([] :: v) [c] = joinString v [c] := rfl

/-- Without elements in front the text is shorter than it should be. -/
theorem length_joinString_le (v : List (List α)) (c : α) :
    (joinString v [c]).length ≤ ([c].intercalate v).length := by
  induction v with
  | nil => exact Nat.le_refl _
  | cons l v ih =>
    cases l with
    | nil =>
      rw [joinString_nil_cons]
      refine Nat.le_trans ih ?_
      cases v with
      | nil => exact Nat.le_refl _
      | cons m v =>
        rw [List.intercalate_cons_cons, List.nil_append, List.length_append]
        exact Nat.le_add_left _ _
    | cons x l =>
      have hhead : ((x :: l) :: v).head? ≠ some [] := by
        rw [List.head?_cons, ne_eq, Option.some.injEq]
        exact List.cons_ne_nil x l
      rw [joinString_of_head hhead]

end Join

/-! ## Both -/

theorem splitString_false (s : Str) (c : Char) : splitString s [c] false = s.splitOn c := by
  have hsame : (fun x => decide (x ∈ [c])) = (· == c) :=
    funext fun x => decide_eq_decide.mpr List.mem_singleton
  rw [splitString_eq, hsame]
  rfl

/-- Splitting and joining gives the string back unless it begins with the separator. -/
theorem joinString_splitString_iff (s : Str) (c : Char) :
    joinString (splitString s [c] false) [c] = s ↔ s.head? ≠ some c := by
  rw [splitString_false]
  cases s with
  | nil => exact iff_of_true rfl (by simp)
  | cons x t =>
    rw [List.head?_cons, ne_eq, Option.some.injEq]
    by_cases hx : x = c
    · subst hx
      refine iff_of_false ?_ (not_not.mpr rfl)
      rw [List.splitOn_cons_eq_if_modifyHead, if_pos (beq_self_eq_true x), joinString_nil_cons]
      intro hsame
      have hlen := length_joinString_le (t.splitOn x) x
      rw [hsame, List.intercalate_splitOn, List.length_cons] at hlen
      omega
    · refine iff_of_true ?_ hx
      have hhead : ((x :: t).splitOn c).head? ≠ some [] := by
        rw [List.splitOn_cons_eq_if_modifyHead, if_neg (by simpa using hx), List.head?_modifyHead]
        cases (t.splitOn c).head? <;> simp
      rw [joinString_of_head hhead, List.intercalate_splitOn]

/-- Joining and splitting gives the list back unless it begins with an empty string and has
more than that. -/
theorem splitString_joinString_iff {v : List Str} {c : Char} (hne : v ≠ [])
    (hclean : ∀ l ∈ v, c ∉ l) :
    splitString (joinString v [c]) [c] false = v ↔ v = [[]] ∨ v.head? ≠ some [] := by
  rw [splitString_false]
  constructor
  · intro hsame
    by_cases hhead : v.head? = some []
    · cases v with
      | nil => exact absurd rfl hne
      | cons l w =>
        rw [List.head?_cons, Option.some.injEq] at hhead
        subst hhead
        cases w with
        | nil => exact .inl rfl
        | cons m w =>
          rw [joinString_nil_cons] at hsame
          have hjoin := congrArg [c].intercalate hsame
          rw [List.intercalate_splitOn, List.intercalate_cons_cons] at hjoin
          have hlen := length_joinString_le (m :: w) c
          rw [hjoin, List.length_append, List.length_append, List.length_singleton] at hlen
          omega
    · exact .inr hhead
  · rintro (rfl | hhead)
    · rfl
    · rw [joinString_of_head hhead, List.splitOn_intercalate c hclean hne]

/-- **Joining and splitting**, with a separator of one character.  Either way round nothing is
lost just when no empty element stands in front of others. -/
theorem join_split_iff (c : Char) :
    (∀ s : Str, joinString (splitString s [c] false) [c] = s ↔ s.head? ≠ some c) ∧
    ∀ v : List Str, v ≠ [] → (∀ l ∈ v, c ∉ l) →
      (splitString (joinString v [c]) [c] false = v ↔ v = [[]] ∨ v.head? ≠ some []) :=
  ⟨fun s => joinString_splitString_iff s c,
    fun _ hne hclean => splitString_joinString_iff hne hclean⟩

/-- Empty elements behind the first are kept. -/
theorem join_split_of_three :
    joinString (splitString "a,,b,".toList [','] false) [','] = "a,,b,".toList ∧
    splitString (joinString [['a'], [], ['b'], []] [',']) [','] false =
      [['a'], [], ['b'], []] := by
  have hclean : ∀ l ∈ [['a'], [], ['b'], ([] : Str)], ',' ∉ l := by decide
  exact ⟨((join_split_iff ',').1 _).mpr (by decide),
    ((join_split_iff ',').2 _ (by decide) hclean).mpr (.inr (by decide))⟩

/-- A separator in front is not joined again. -/
theorem joinString_loses_front :
    joinString (splitString ",a".toList [','] false) [','] ≠ ",a".toList ∧
    splitString (joinString [[], ['a']] [',']) [','] false ≠ [[], ['a']] := by
  decide

end UtilString

end StormNet.Util
