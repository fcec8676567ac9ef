/-
  Util/UtilFile.lean --- paths and extensions of `util/util_file.cpp`.

  A path is resolved from the root by its components: nothing and a dot stay, two dots go up,
  and stay at the root.  `getSimplifiedPath` is compared with this walk over the components.
  A vector has fewer than 2^32 elements, so that `unsigned i` counts them all.
-/
import StormNet.Util.SplitString
import StormNet.Util.UtilText

set_option autoImplicit false

namespace StormNet.Util

open UtilString

namespace UtilFile

/-! ## The source -/

/-- A turn of the first loop of `getSimplifiedPath`. -/
def enter (vp : List Str) (x : Str) : List Str :=
  if x = ['.', '.'] then if !vp.isEmpty then vp.take (vp.length - 1) else vp
  else if x ≠ ['.'] then vp ++ [x]
  else vp

/-- The second loop, from `i` on. -/
def printFrom (i : Nat) (r : Str) : List Str → Str
  | [] => r
  | x :: vp => printFrom (i + 1) ((if i ≠ 0 then r ++ ['/'] else r) ++ x) vp

/-- `getSimplifiedPath(sPath)`. -/
def getSimplifiedPath (sPath : Str) : Str :=
  if sPath.isEmpty then sPath
  else
    let v := splitString sPath ['/'] true
    let vp := v.foldl enter []
    let r := if sPath.head? = some '/' then ['/'] else []
    printFrom 0 r vp

/-- `s.rfind(c)`; `npos` is `none`. -/
def rfind (s : Str) (c : Char) : Option Nat := (s.reverse.idxOf? c).map (s.length - 1 - ·)

/-- `pos < pos1`, where `npos` is above every position. -/
def below (pos : Nat) : Option Nat → Bool
  | none => true
  | some pos1 => pos < pos1

/-- `getFileExt(sPath, bWithDot)`. -/
def getFileExt (sPath : Str) (bWithDot : Bool) : Str :=
  match rfind sPath '.' with
  | none => []
  | some pos =>
      if below pos (rfind sPath '/') then []
      else sPath.drop (if bWithDot then pos else pos + 1)

/-- `replaceFileExt(sPath, sReplace, bWithDot)`. -/
def replaceFileExt (sPath sReplace : Str) (bWithDot : Bool) : Str :=
  match rfind sPath '.' with
  | none => sPath
  | some pos =>
      if (rfind sPath '/').isSome && below pos (rfind sPath '/') then sPath
      else sPath.take (if bWithDot then pos else pos + 1) ++ sReplace

/-! ## Locations -/

section Location

variable {vp l : List Str} {x r p : Str}

/-- A step of the walk: the location is the list of names above it, the innermost first. -/
def resolve (loc : List Str) (x : Str) : List Str :=
  if x = [] ∨ x = ['.'] then loc else if x = ['.', '.'] then loc.tail else x :: loc

/-- Where a path leads from the root. -/
def location (p : Str) : List Str := (p.splitOn '/').foldl resolve []

/-- What the first loop leaves of a path. -/
def names (p : Str) : List Str := (splitString p ['/'] true).foldl enter []

/-- The stack is the location, the outermost name first. -/
theorem resolve_reverse (hx : x ≠ []) : resolve vp.reverse x = (enter vp x).reverse := by
  unfold resolve enter
  by_cases hdots : x = ['.', '.']
  · subst hdots
    rw [if_neg (by decide), if_pos rfl, if_pos rfl, List.tail_reverse, List.dropLast_eq_take]
    cases vp <;> rfl
  · by_cases hdot : x = ['.']
    · rw [if_pos (.inr hdot), if_neg hdots, if_neg (not_not.mpr hdot)]
    · rw [if_neg (not_or.mpr ⟨hx, hdot⟩), if_neg hdots, if_neg hdots, if_pos hdot,
        List.reverse_append, List.reverse_singleton, List.singleton_append]

theorem foldl_resolve_reverse (h : ∀ y ∈ l, y ≠ []) :
    l.foldl resolve vp.reverse = (l.foldl enter vp).reverse := by
  induction l generalizing vp with
  | nil => rfl
  | cons x l ih =>
    rw [List.foldl_cons, List.foldl_cons, resolve_reverse (h x List.mem_cons_self)]
    exact ih (fun y hy => h y (List.mem_cons_of_mem x hy))

/-- Empty components do not move. -/
theorem foldl_resolve_filter (l loc : List Str) :
    (l.filter (· ≠ [])).foldl resolve loc = l.foldl resolve loc := by
  induction l generalizing loc with
  | nil => rfl
  | cons x l ih =>
    by_cases hx : x = []
    · rw [List.filter_cons_of_neg (by simp [hx]), List.foldl_cons, ih, resolve, if_pos (.inl hx)]
    · rw [List.filter_cons_of_pos (by simp [hx]), List.foldl_cons, List.foldl_cons, ih]

theorem splitString_true (p : Str) :
    splitString p ['/'] true = (p.splitOn '/').filter (· ≠ []) := by
  rw [← splitString_false, splitString_eq, splitString_eq]
  rfl

/-- The stack that a path leaves is its location. -/
theorem location_eq (p : Str) : location p = (names p).reverse := by
  have hfull : ∀ y ∈ splitString p ['/'] true, y ≠ [] := by
    intro y hy
    rw [splitString_true, List.mem_filter] at hy
    exact of_decide_eq_true hy.2
  rw [names, ← foldl_resolve_reverse hfull, splitString_true, foldl_resolve_filter]
  rfl

/-! ## Names -/

/-- A name in a directory. -/
structure Name (x : Str) : Prop where
  ne_nil : x ≠ []
  ne_dot : x ≠ ['.']
  ne_dots : x ≠ ['.', '.']
  noSlash : '/' ∉ x

theorem Name.word (h : Name x) : Word ['/'] x := by
  refine ⟨h.ne_nil, ?_⟩
  intro c hc hslash
  exact h.noSlash (List.mem_singleton.mp hslash ▸ hc)

theorem enter_of_name (hx : Name x) : enter vp x = vp ++ [x] := by
  rw [enter, if_neg hx.ne_dots, if_pos hx.ne_dot]

theorem foldl_enter_of_name (h : ∀ y ∈ l, Name y) : l.foldl enter vp = vp ++ l := by
  induction l generalizing vp with
  | nil => exact (List.append_nil vp).symm
  | cons x l ih =>
    rw [List.foldl_cons, enter_of_name (h x List.mem_cons_self),
      ih (fun y hy => h y (List.mem_cons_of_mem x hy)), List.append_assoc, List.singleton_append]

/-- A turn puts only names on the stack. -/
theorem name_of_mem_enter (hvp : ∀ y ∈ vp, Name y) (hx : x ≠ []) (hslash : '/' ∉ x) :
    ∀ y ∈ enter vp x, Name y := by
  unfold enter
  split
  · split
    · intro y hy
      exact hvp y (List.mem_of_mem_take hy)
    · exact hvp
  · rename_i hdots
    split
    · rename_i hdot
      exact List.forall_mem_append.mpr
        ⟨hvp, List.forall_mem_singleton.mpr ⟨hx, hdot, hdots, hslash⟩⟩
    · exact hvp

theorem name_of_mem_foldl (hvp : ∀ y ∈ vp, Name y) (h : ∀ y ∈ l, y ≠ [] ∧ '/' ∉ y) :
    ∀ y ∈ l.foldl enter vp, Name y := by
  induction l generalizing vp with
  | nil => exact hvp
  | cons x l ih =>
    obtain ⟨hx, hslash⟩ := h x List.mem_cons_self
    exact ih (name_of_mem_enter hvp hx hslash) (fun y hy => h y (List.mem_cons_of_mem x hy))

theorem name_of_mem_names (hx : x ∈ names p) : Name x := by
  refine name_of_mem_foldl (List.forall_mem_nil _) ?_ x hx
  intro y hy
  refine ⟨?_, fun hslash => not_mem_of_mem_splitString hy '/' hslash List.mem_cons_self⟩
  rw [splitString_true, List.mem_filter] at hy
  exact of_decide_eq_true hy.2

/-! ## Simplifying -/

theorem printFrom_succ (i : Nat) (r : Str) (vp : List Str) :
    printFrom (i + 1) r vp = r ++ vp.flatMap ('/' :: ·) := by
  induction vp generalizing i r with
  | nil => exact (List.append_nil r).symm
  | cons x vp ih =>
    rw [printFrom, if_pos (Nat.succ_ne_zero i), ih, List.flatMap_cons, List.append_assoc,
      List.append_assoc, List.singleton_append, List.cons_append]

theorem printFrom_zero (r : Str) (vp : List Str) :
    printFrom 0 r vp = r ++ ['/'].intercalate vp := by
  cases vp with
  | nil => exact (List.append_nil r).symm
  | cons x vp =>
    rw [printFrom, if_neg (not_not.mpr rfl), printFrom_succ, intercalate_cons, List.append_assoc]

/-- The slash of the root, if there is one, and the names. -/
theorem getSimplifiedPath_eq (p : Str) : getSimplifiedPath p =
    (if p.head? = some '/' then ['/'] else []) ++ ['/'].intercalate (names p) := by
  cases p with
  | nil => rfl
  | cons c p => exact printFrom_zero _ _

/-- What is printed is read again. -/
theorem splitString_getSimplifiedPath (p : Str) :
    splitString (getSimplifiedPath p) ['/'] true = names p := by
  have hread : splitString (['/'].intercalate (names p)) ['/'] true = names p :=
    splitString_intercalate fun x hx => (name_of_mem_names hx).word
  rw [getSimplifiedPath_eq]
  split
  · exact hread
  · exact hread

theorem names_getSimplifiedPath (p : Str) : names (getSimplifiedPath p) = names p := by
  rw [names, splitString_getSimplifiedPath, foldl_enter_of_name fun x hx => name_of_mem_names hx,
    List.nil_append]

theorem head?_getSimplifiedPath (p : Str) :
    (getSimplifiedPath p).head? = some '/' ↔ p.head? = some '/' := by
  rw [getSimplifiedPath_eq]
  split
  · rename_i hroot
    exact iff_of_true rfl hroot
  · rename_i hroot
    refine iff_of_false ?_ hroot
    rw [List.nil_append]
    intro hslash
    cases hnames : names p with
    | nil =>
      rw [hnames] at hslash
      cases hslash
    | cons x vp =>
      have hx : Name x := name_of_mem_names (hnames ▸ List.mem_cons_self)
      rw [hnames, intercalate_cons, List.head?_append_of_ne_nil _ hx.ne_nil] at hslash
      exact hx.noSlash (List.mem_of_mem_head? hslash)

/-- A path as short as it can be: the root, or names with a slash in front of each. -/
structure Simplified (p : Str) : Prop where
  head : p.head? = some '/'
  plain : p = ['/'] ∨ p.getLast? ≠ some '/' ∧
    ∀ x ∈ p.tail.splitOn '/', x ≠ [] ∧ x ≠ ['.'] ∧ x ≠ ['.', '.']

/-- Behind a slash at the end there is an empty component. -/
theorem getLast?_of_splitOn {t : Str} (h : ∀ x ∈ t.splitOn '/', x ≠ []) :
    ('/' :: t).getLast? ≠ some '/' := by
  intro hlast
  obtain ⟨front, hfront⟩ := List.getLast?_eq_some_iff.mp hlast
  cases front with
  | nil =>
    rw [List.nil_append, List.cons.injEq] at hfront
    rw [hfront.2] at h
    exact h [] List.mem_cons_self rfl
  | cons c front =>
    rw [List.cons_append, List.cons.injEq] at hfront
    rw [hfront.2, List.splitOn_append_cons_self] at h
    exact h [] (List.mem_append_right _ List.mem_cons_self) rfl

theorem simplified_getSimplifiedPath (hroot : p.head? = some '/') :
    Simplified (getSimplifiedPath p) := by
  refine ⟨(head?_getSimplifiedPath p).mpr hroot, ?_⟩
  rw [getSimplifiedPath_eq, if_pos hroot, List.singleton_append, List.tail_cons]
  by_cases hnil : names p = []
  · rw [hnil]
    exact .inl rfl
  · have hsplit : (['/'].intercalate (names p)).splitOn '/' = names p :=
      List.splitOn_intercalate '/' (fun x hx => (name_of_mem_names hx).noSlash) hnil
    refine .inr ⟨?_, ?_⟩
    · apply getLast?_of_splitOn
      rw [hsplit]
      exact fun x hx => (name_of_mem_names hx).ne_nil
    · rw [hsplit]
      intro x hx
      have hname := name_of_mem_names hx
      exact ⟨hname.ne_nil, hname.ne_dot, hname.ne_dots⟩

/-- **Path simplification is lexically correct**, and there is nothing left for a second. -/
theorem getSimplifiedPath_correct :
    (∀ p : Str, p.head? = some '/' →
      Simplified (getSimplifiedPath p) ∧ location (getSimplifiedPath p) = location p) ∧
    ∀ p : Str, getSimplifiedPath (getSimplifiedPath p) = getSimplifiedPath p := by
  refine ⟨fun p hroot => ⟨simplified_getSimplifiedPath hroot, ?_⟩, ?_⟩
  · rw [location_eq, location_eq, names_getSimplifiedPath]
  · intro p
    rw [getSimplifiedPath_eq (getSimplifiedPath p), names_getSimplifiedPath]
    simp only [head?_getSimplifiedPath]
    exact (getSimplifiedPath_eq p).symm

/-- Above the root, and out of directories that are never named. -/
theorem getSimplifiedPath_of_parents :
    Simplified (getSimplifiedPath "//../a/./b/../..//c/".toList) ∧
      location (getSimplifiedPath "//../a/./b/../..//c/".toList) =
        location "//../a/./b/../..//c/".toList :=
  getSimplifiedPath_correct.1 _ (by decide)

end Location

/-! ## Extensions -/

section Extensions

variable {p : Str} {c : Char} {pos : Nat}

theorem rfind_eq_none_iff : rfind p c = none ↔ c ∉ p := by
  rw [rfind, Option.map_eq_none_iff, List.idxOf?_eq_none_iff, List.mem_reverse]

/-- The last place of a character. -/
theorem rfind_of_cut {front back : Str} (h : c ∉ back) :
    rfind (front ++ c :: back) c = some front.length := by
  have hback : ∀ y ∈ back.reverse, (y == c) = false := by
    intro y hy
    rw [beq_eq_false_iff_ne]
    rintro rfl
    exact h (List.mem_reverse.mp hy)
  have hfound : (front ++ c :: back).reverse.idxOf? c = some back.length := by
    rw [List.reverse_append, List.reverse_cons, List.append_assoc, List.idxOf?,
      List.findIdx?_append, List.findIdx?_eq_none_iff.mpr hback]
    simp [List.findIdx?_cons]
  rw [rfind, hfound, Option.map_some, List.length_append, List.length_cons]
  exact congrArg some (by omega)

theorem exists_last (h : c ∈ p) : ∃ front back, p = front ++ c :: back ∧ c ∉ back := by
  obtain ⟨back, front, hcut, hback⟩ := List.eq_append_cons_of_mem (List.mem_reverse.mpr h)
  refine ⟨front.reverse, back.reverse, ?_, fun hc => hback (List.mem_reverse.mp hc)⟩
  rw [← List.reverse_reverse p, hcut]
  simp

/-- The dot is the last character just when nothing is behind it. -/
theorem getLast?_of_cut {front back : Str} (h : c ∉ back) :
    (front ++ c :: back).getLast? = some c ↔ back = [] := by
  constructor
  · intro hlast
    by_contra hback
    rw [List.getLast?_append_of_ne_nil _ (List.cons_ne_nil c back),
      List.getLast?_cons_of_ne_nil hback] at hlast
    exact h (List.mem_of_getLast? hlast)
  · rintro rfl
    simp

/-- **The two extension functions** agree unless there is a dot and no slash; then they do only
where there is nothing behind the dot. -/
theorem replaceFileExt_getFileExt_iff (p : Str) (bWithDot : Bool) :
    replaceFileExt p (getFileExt p bWithDot) bWithDot = p ↔
      '.' ∉ p ∨ '/' ∈ p ∨ (bWithDot = false ∧ p.getLast? = some '.') := by
  unfold replaceFileExt getFileExt
  by_cases hdot : '.' ∈ p
  · obtain ⟨front, back, hcut, hback⟩ := exists_last hdot
    have hpos : rfind p '.' = some front.length := by rw [hcut, rfind_of_cut hback]
    by_cases hslash : '/' ∈ p
    · obtain ⟨dir, name, hdir, hname⟩ := exists_last hslash
      have hpos1 : rfind p '/' = some dir.length := by rw [hdir, rfind_of_cut hname]
      refine iff_of_true ?_ (.inr (.inl hslash))
      simp only [hpos, hpos1, Option.isSome_some, Bool.true_and]
      split
      · rfl
      · exact List.take_append_drop _ p
    · have hpos1 : rfind p '/' = none := rfind_eq_none_iff.mpr hslash
      have hlen : p.length = front.length + (back.length + 1) := by
        rw [hcut, List.length_append, List.length_cons]
      have hlast : p.getLast? = some '.' ↔ back.length = 0 := by
        rw [hcut, getLast?_of_cut hback, List.length_eq_zero_iff]
      simp only [hpos, hpos1, Option.isSome_none, Bool.false_and, below, if_true,
        Bool.false_eq_true, if_false, List.append_nil, List.take_eq_self_iff, hlast]
      cases bWithDot with
      | true => simp [hdot, hslash, hlen]
      | false => simp [hdot, hslash, hlen]
  · have hpos : rfind p '.' = none := rfind_eq_none_iff.mpr hdot
    simp only [hpos]
    exact iff_of_true trivial (.inl hdot)

/-- A file name without a directory. -/
theorem replaceFileExt_loses_ext : getFileExt "a.txt".toList false = [] ∧
    replaceFileExt "a.txt".toList (getFileExt "a.txt".toList false) false ≠ "a.txt".toList ∧
    replaceFileExt "a.txt".toList (getFileExt "a.txt".toList true) true ≠ "a.txt".toList := by
  decide

end Extensions

end UtilFile

end StormNet.Util
