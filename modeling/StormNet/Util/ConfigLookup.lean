/-
  Util/ConfigLookup.lean --- `CConfig::getCfg` and `CConfig::hasSubConfig`.

  The text is read a second time here, line by line, with nothing but the names of the open
  sections.  What `parseString` leaves is found at a path exactly as that reading says.
-/
import StormNet.Util.ConfigLine

set_option autoImplicit false

namespace StormNet.Util

open StormNet.Foundation
open StormNet.Foundation.Assoc (find assign)
open UtilString (trim splitString)

/-! ## The source -/

namespace UtilString

/-- The loop of `replace`; the next `skip` characters belong to a match. -/
def replaceLoop (sFrom sTo : Str) : Nat → Str → Str
  | _, [] => []
  | skip + 1, _ :: rest => replaceLoop sFrom sTo skip rest
  | 0, c :: rest =>
      if sFrom.isPrefixOf (c :: rest) then sTo ++ replaceLoop sFrom sTo (sFrom.length - 1) rest
      else c :: replaceLoop sFrom sTo 0 rest

/-- `replace`. -/
def replace (s sFrom sTo : Str) : Str :=
  if sFrom = [] then s else replaceLoop sFrom sTo 0 s

end UtilString

namespace CConfig

/-- `transformPath`. -/
def transformPath (sPath : Str) : Str :=
  UtilString.replace (UtilString.replace sPath ['<'] ['/']) ['>'] []

/-- The loop of `getSubConfigPtr`. -/
def descend (c : CConfig) : List Str → Option CConfig
  | [] => some c
  | sKey :: vPath => (find c.mSubConfig sKey).bind (fun subcfg => subcfg.descend vPath)

/-- `getSubConfigPtr`. -/
def getSubConfigPtr (c : CConfig) (sPath : Str) : Option CConfig :=
  c.descend (splitString (transformPath sPath) ['/'] true)

/-- `getConfigKeyPtr`: the key stands behind the last `/`. -/
def getConfigKeyPtr (c : CConfig) (sPath : Str) : Option Str :=
  let sPath := transformPath sPath
  if '/' ∈ sPath then
    (c.getSubConfigPtr (sPath.rdropWhile (· ≠ '/')).dropLast).bind
      (fun cfg => find cfg.mKeyValue (sPath.rtakeWhile (· ≠ '/')))
  else find c.mKeyValue sPath

/-- `hasSubConfig`. -/
def hasSubConfig (c : CConfig) (sPath : Str) : Bool := (c.getSubConfigPtr sPath).isSome

/-- `getCfg`. -/
def getCfg (c : CConfig) (sPath : Str) : Except Str Str :=
  match c.getConfigKeyPtr sPath with
  | none => .error ("[util_config]config key missing: ".toList ++ sPath)
  | some value => .ok value

/-- `getCfg` with a default. -/
def getCfgOr (c : CConfig) (sPath sDefault : Str) : Str :=
  match c.getConfigKeyPtr sPath with
  | none => sDefault
  | some value => value

end CConfig

/-! ## The reading -/

/-- What an accepted line says. -/
def said (line : Str) : Line :=
  let s := trim line
  if s = [] ∨ s.head? = some '#' then .blank
  else if s.head? = some '<' then
    if s.tail.head? = some '/' then .closing (s.drop 2).dropLast else .opening s.tail.dropLast
  else .keyValue (trim (s.takeWhile (· ≠ '='))) (trim (s.dropWhile (· ≠ '=')).tail)

namespace Line

/-- The open sections behind the line. -/
def behind (names : List Str) : Line → List Str
  | .opening sKey => names ++ [sKey]
  | .closing _ => names.dropLast
  | .blank | .keyValue _ _ => names

/-- The value that the line assigns to the key. -/
def assigned (sKey : Str) : Line → List Str
  | .keyValue sKey' sValue => if sKey' = sKey then [sValue] else []
  | .blank | .closing _ | .opening _ => []

/-- The section that the line opens. -/
def opened (names : List Str) : Line → List (List Str)
  | .opening sKey => [names ++ [sKey]]
  | .blank | .closing _ | .keyValue _ _ => []

end Line

/-- The values assigned to a key by lines while exactly the sections `path` are open, in order;
`names` are open in front of the lines. -/
def valuesAt (path : List Str) (sKey : Str) : List Str → List Str → List Str
  | _, [] => []
  | names, line :: lines =>
      (if names = path then (said line).assigned sKey else []) ++
        valuesAt path sKey ((said line).behind names) lines

/-- The sections that lines open. -/
def openedIn : List Str → List Str → List (List Str)
  | _, [] => []
  | names, line :: lines =>
      (said line).opened names ++ openedIn ((said line).behind names) lines

/-- The lines of a text. -/
def linesOf (sData : Str) : List Str := splitString sData newlines true

/-- The value of the last line of the text that assigns the key in the section. -/
def lastValue (sData : Str) (path : List Str) (sKey : Str) : Option Str :=
  (valuesAt path sKey [] (linesOf sData)).getLast?

/-- The section is opened somewhere in the text. -/
def Opens (sData : Str) (path : List Str) : Prop := path ∈ openedIn [] (linesOf sData)

/-! ## One line -/

theorem said_section {line m : Str} (hs : trim line = '<' :: (m ++ ['>'])) :
    said line = if m.head? = some '/' then .closing m.tail else .opening m := by
  unfold said
  rw [hs]
  cases m with
  | nil => rfl
  | cons c m =>
    have hdrop : (c :: (m ++ ['>'])).dropLast = c :: m := by
      rw [← List.cons_append, List.dropLast_concat]
    simp [hdrop]

/-- The reader of `parseString` reads a line as what it says. -/
theorem said_of_readLine {line : Str} {l : Line} (h : readLine line = .ok l) : said line = l := by
  have hread := h
  unfold readLine at h
  simp only at h
  split at h
  · rename_i hblank
    cases h
    exact if_pos hblank
  · rename_i hblank
    split at h
    · rename_i hless
      split at h
      · cases h
      · rename_i hform
        rw [not_or, not_not] at hform
        obtain ⟨m, hs, hm⟩ := section_form hless hform.1 hform.2
        rw [readLine_section hs hm] at hread
        rw [said_section hs]
        split at hread
        · rename_i hslash
          cases hread
          exact if_pos hslash
        · rename_i hslash
          cases hread
          exact if_neg hslash
    · rename_i hless
      have hsaid : said line = .keyValue (trim ((trim line).takeWhile (· ≠ '=')))
          (trim ((trim line).dropWhile (· ≠ '=')).tail) := by
        unfold said
        simp only [if_neg hblank, if_neg hless]
      rw [hsaid]
      split at h
      · rename_i hrest
        cases h
        have hwhole : (trim line).takeWhile (· ≠ '=') = trim line := by
          have happend := List.takeWhile_append_dropWhile (p := (· ≠ '=')) (l := trim line)
          rw [hrest, List.append_nil] at happend
          exact happend
        rw [hwhole, trim_trim, hrest]
        rfl
      · rename_i x rest hrest
        cases h
        rw [hrest]
        rfl

/-! ## What stands at a path -/

namespace CConfig

/-- The keys of the section at a path, if it is there. -/
def look (c : CConfig) (path : List Str) : Option (Str → Option Str) :=
  (c.descend path).map (fun d => find d.mKeyValue)

section Look

variable {c d : CConfig} {k v : Str} {path : List Str}

theorem look_nil (c : CConfig) : c.look [] = some (find c.mKeyValue) := rfl

theorem look_cons (c : CConfig) (k : Str) (path : List Str) :
    c.look (k :: path) = (find c.mSubConfig k).bind (fun d => d.look path) := by
  rw [look, descend, Option.map_bind]
  rfl

theorem look_setSub_cons (c : CConfig) (k : Str) (d : CConfig) (a : Str) (path : List Str) :
    (c.setSub k d).look (a :: path) = if a = k then d.look path else c.look (a :: path) := by
  rw [look_cons, look_cons, setSub, Assoc.find_assign]
  split <;> rfl

/-- The keys behind an assignment. -/
theorem look_assign_nil (c : CConfig) (vItem : List Str) (k v : Str) :
    { c with vItem := vItem, mKeyValue := assign c.mKeyValue k v }.look [] =
      some (fun a => if a = k then some v else find c.mKeyValue a) := by
  rw [look_nil]
  congr 1
  funext a
  exact Assoc.find_assign c.mKeyValue k a v

theorem look_assign_of_ne (c : CConfig) (vItem : List Str) (k v : Str) (path : List Str)
    (h : path ≠ []) :
    { c with vItem := vItem, mKeyValue := assign c.mKeyValue k v }.look path = c.look path := by
  cases path with
  | nil => exact absurd rfl h
  | cons a path => rw [look_cons, look_cons]

/-- A section that is put back as it was. -/
theorem look_setSub_of_find (h : find c.mSubConfig k = some d) (path : List Str) :
    (c.setSub k d).look path = c.look path := by
  cases path with
  | nil => rfl
  | cons a path =>
    rw [look_setSub_cons]
    split
    · rename_i hak
      rw [hak, look_cons, h]
      rfl
    · rfl

theorem look_empty (k : Str) :
    (empty k).look path = if path = [] then some (fun _ => none) else none := by
  cases path with
  | nil => rfl
  | cons a path => rfl

end Look

end CConfig

namespace Stack

open CConfig

/-- The names of the open sections. -/
def names (stk : Stack) : List Str := (stk.below.map (·.2)).reverse

theorem names_push (c t : CConfig) (k : Str) (below : List (CConfig × Str)) :
    names ⟨t, (c, k) :: below⟩ = names ⟨c, below⟩ ++ [k] := by
  simp [names]

/-- The top of the stack stands at the names of the open sections. -/
theorem look_bottom_names (stk : Stack) (path : List Str) :
    stk.bottom.look (stk.names ++ path) = stk.top.look path := by
  obtain ⟨top, below⟩ := stk
  induction below generalizing top path with
  | nil => rfl
  | cons frame below ih =>
    obtain ⟨parent, k⟩ := frame
    rw [names_push, List.append_assoc]
    have hih := ih ([k] ++ path) (parent.setSub k top)
    rw [List.singleton_append, look_setSub_cons, if_pos rfl] at hih
    exact hih

/-- Only what stands below the open sections depends on the top. -/
theorem look_bottom_congr {t t' : CConfig} {below : List (CConfig × Str)} {path : List Str}
    (h : ∀ rest, path = names ⟨t, below⟩ ++ rest → t.look rest = t'.look rest) :
    (bottom ⟨t, below⟩).look path = (bottom ⟨t', below⟩).look path := by
  induction below generalizing t t' path with
  | nil => exact h path rfl
  | cons frame below ih =>
    obtain ⟨parent, k⟩ := frame
    have hparent : ∀ rest, path = names ⟨parent.setSub k t, below⟩ ++ rest →
        (parent.setSub k t).look rest = (parent.setSub k t').look rest := by
      intro rest hrest
      cases rest with
      | nil => rfl
      | cons a rest =>
        rw [look_setSub_cons, look_setSub_cons]
        split
        · rename_i hak
          refine h rest ?_
          rw [names_push, hrest, hak]
          simp [names]
        · rfl
    exact ih hparent

/-- A change of the top at one place is a change of the whole at one place. -/
theorem look_bottom_update {t t' : CConfig} {below : List (CConfig × Str)} {place : List Str}
    {x : Option (Str → Option Str)} (hplace : t'.look place = x)
    (hrest : ∀ rest, rest ≠ place → t'.look rest = t.look rest) (path : List Str) :
    (bottom ⟨t', below⟩).look path =
      if path = names ⟨t, below⟩ ++ place then x else (bottom ⟨t, below⟩).look path := by
  split
  · rename_i hpath
    rw [hpath, ← hplace]
    exact look_bottom_names ⟨t', below⟩ place
  · rename_i hpath
    refine look_bottom_congr (fun rest hpath' => hrest rest (fun heq => hpath ?_))
    rw [hpath', heq]
    rfl

variable {stk stk' : Stack} {k v : Str}

/-- A section that is closed has gone back. -/
theorem closing_spec (h : stk.apply (.closing k) = .ok stk') :
    stk'.bottom = stk.bottom ∧ stk'.names = stk.names.dropLast := by
  obtain ⟨top, below⟩ := stk
  cases below with
  | nil => cases h
  | cons frame below =>
    obtain ⟨parent, sKey⟩ := frame
    simp only [apply, pop] at h
    split at h
    · cases h
    · cases h
      refine ⟨rfl, ?_⟩
      simp [names]

/-- A section that is opened is there, and has what it had. -/
theorem opening_spec (h : stk.apply (.opening k) = .ok stk') :
    stk'.names = stk.names ++ [k] ∧ ∀ path, stk'.bottom.look path =
      if path = stk.names ++ [k] then some ((stk.bottom.look path).getD (fun _ => none))
      else stk.bottom.look path := by
  obtain ⟨top, below⟩ := stk
  simp only [apply] at h
  split at h
  · cases h
  · split at h
    · rename_i subcfg hfind
      cases h
      refine ⟨names_push _ _ _ _, fun path => ?_⟩
      have hthere : (bottom ⟨top, below⟩).look (names ⟨top, below⟩ ++ [k]) =
          some (find subcfg.mKeyValue) := by
        rw [look_bottom_names ⟨top, below⟩ [k], look_cons, hfind]
        rfl
      have hsame : (bottom ⟨subcfg, (top, k) :: below⟩).look path =
          (bottom ⟨top, below⟩).look path :=
        look_bottom_congr (t := top.setSub k subcfg) (fun rest _ => look_setSub_of_find hfind rest)
      rw [hsame]
      split
      · rename_i hpath
        rw [hpath, hthere]
        rfl
      · rfl
    · rename_i hfind
      cases h
      refine ⟨names_push _ _ _ _, fun path => ?_⟩
      have hthere : (bottom ⟨top, below⟩).look (names ⟨top, below⟩ ++ [k]) = none := by
        rw [look_bottom_names ⟨top, below⟩ [k], look_cons, hfind]
        rfl
      let first := { top with vItem := top.vItem ++ [k] }.setSub k (empty k)
      have hnew : (bottom ⟨empty k, (first, k) :: below⟩).look path =
          if path = names ⟨top, below⟩ ++ [k] then some (fun _ => none)
          else (bottom ⟨top, below⟩).look path := by
        have hplace : (first.setSub k (empty k)).look [k] = some (fun _ => none) := by
          rw [look_setSub_cons, if_pos rfl]
          rfl
        refine look_bottom_update hplace (fun rest hrest => ?_) path
        cases rest with
        | nil => rfl
        | cons a rest =>
          rw [look_setSub_cons, look_setSub_cons, look_cons top]
          split
          · rename_i hak
            have hne : rest ≠ [] := fun hnil => hrest (by rw [hak, hnil])
            rw [hak, hfind, look_empty, if_neg hne]
            rfl
          · rw [look_cons]
      rw [hnew]
      split
      · rename_i hpath
        rw [hpath, hthere]
        rfl
      · rfl

/-- An assignment replaces one value in the section at the top. -/
theorem keyValue_spec (h : stk.apply (.keyValue k v) = .ok stk') :
    stk'.names = stk.names ∧ ∀ path, stk'.bottom.look path =
      if path = stk.names then some (fun a => if a = k then some v else
        (stk.bottom.look path).bind (fun f => f a))
      else stk.bottom.look path := by
  obtain ⟨top, below⟩ := stk
  simp only [apply] at h
  split at h
  · cases h
  · cases h
    refine ⟨rfl, fun path => ?_⟩
    have hthere : (bottom ⟨top, below⟩).look (names ⟨top, below⟩) = some (find top.mKeyValue) := by
      have hlook := look_bottom_names ⟨top, below⟩ []
      rwa [List.append_nil] at hlook
    rw [look_bottom_update (look_assign_nil top _ k v) (look_assign_of_ne top _ k v) path,
      List.append_nil]
    split
    · rename_i hpath
      rw [hpath, hthere]
      rfl
    · rfl

/-- The section at the top is there. -/
theorem isSome_look_names (stk : Stack) : (stk.bottom.look stk.names).isSome := by
  have hlook := stk.look_bottom_names []
  rw [List.append_nil] at hlook
  rw [hlook]
  rfl

theorem names_apply {l : Line} (h : stk.apply l = .ok stk') : stk'.names = l.behind stk.names := by
  cases l with
  | blank =>
    cases h
    rfl
  | closing k => exact (closing_spec h).2
  | opening k => exact (opening_spec h).1
  | keyValue k v => exact (keyValue_spec h).1

/-- What lines add: values, and sections. -/
structure Follows (stk stk' : Stack) (values : List Str → Str → List Str)
    (opened : List (List Str)) : Prop where
  values : ∀ path sKey, (stk'.bottom.look path).bind (fun f => f sKey) =
    (values path sKey).getLast?.or ((stk.bottom.look path).bind (fun f => f sKey))
  opened : ∀ path, (stk'.bottom.look path).isSome ↔
    (stk.bottom.look path).isSome ∨ path ∈ opened

theorem follows_refl (stk : Stack) : Follows stk stk (fun _ _ => []) [] where
  values _ _ := rfl
  opened path := by simp

theorem Follows.trans {stk'' : Stack} {values values' : List Str → Str → List Str}
    {opened opened' : List (List Str)} (h : Follows stk stk' values opened)
    (h' : Follows stk' stk'' values' opened') :
    Follows stk stk'' (fun path sKey => values path sKey ++ values' path sKey)
      (opened ++ opened') where
  values path sKey := by
    rw [h'.values, h.values, List.getLast?_append, Option.or_assoc]
  opened path := by
    rw [h'.opened, h.opened, List.mem_append, or_assoc]

theorem follows_apply {l : Line} (h : stk.apply l = .ok stk') :
    Follows stk stk' (fun path sKey => if stk.names = path then l.assigned sKey else [])
      (l.opened stk.names) := by
  cases l with
  | blank =>
    cases h
    exact ⟨fun path sKey => by simp [Line.assigned], fun path => by simp [Line.opened]⟩
  | closing k =>
    obtain ⟨hbottom, -⟩ := closing_spec h
    refine ⟨fun path sKey => ?_, fun path => ?_⟩
    · simp [Line.assigned, hbottom]
    · simp [Line.opened, hbottom]
  | opening k =>
    obtain ⟨-, hlook⟩ := opening_spec h
    refine ⟨fun path sKey => ?_, fun path => ?_⟩
    · rw [hlook]
      split
      · cases stk.bottom.look path <;> simp [Line.assigned]
      · simp [Line.assigned]
    · rw [hlook, Line.opened, List.mem_singleton]
      split
      · rename_i hpath
        simp [hpath]
      · rename_i hpath
        simp [hpath]
  | keyValue k v =>
    obtain ⟨-, hlook⟩ := keyValue_spec h
    refine ⟨fun path sKey => ?_, fun path => ?_⟩
    · rw [hlook]
      split
      · rename_i hpath
        rw [if_pos hpath.symm, Line.assigned, Option.bind_some]
        dsimp only
        by_cases hkey : sKey = k
        · rw [if_pos hkey, if_pos hkey.symm]
          rfl
        · rw [if_neg hkey, if_neg (Ne.symm hkey)]
          rfl
      · rename_i hpath
        rw [if_neg (Ne.symm hpath)]
        rfl
    · rw [hlook, Line.opened]
      split
      · rename_i hpath
        simp [hpath, stk.isSome_look_names]
      · simp

/-- What the lines of a text add is what their reading says. -/
theorem follows_parseLines {lines : List Str} (h : stk.parseLines lines = (stk', none)) :
    Follows stk stk' (fun path sKey => valuesAt path sKey stk.names lines)
      (openedIn stk.names lines) := by
  induction lines generalizing stk with
  | nil =>
    cases h
    exact follows_refl _
  | cons line lines ih =>
    rw [parseLines] at h
    cases hread : readLine line with
    | error what =>
      rw [hread] at h
      cases h
    | ok l =>
      rw [hread] at h
      simp only [Except.bind] at h
      cases happly : stk.apply l with
      | error what =>
        rw [happly] at h
        cases h
      | ok stk₁ =>
        rw [happly] at h
        have hrest := ih h
        rw [names_apply happly] at hrest
        have hboth := (follows_apply happly).trans hrest
        simp only [valuesAt, openedIn, said_of_readLine hread]
        exact hboth

end Stack

/-! ## Paths -/

/-- A name that can stand in a path: not empty, and without the characters of paths. -/
structure PathName (s : Str) : Prop where
  ne_nil : s ≠ []
  noSlash : '/' ∉ s
  noLess : '<' ∉ s
  noGreater : '>' ∉ s

/-- The names, each behind a `/`. -/
def pathText (names : List Str) : Str := names.flatMap (fun s => '/' :: s)

section Paths

variable {c : CConfig} {names : List Str} {sKey : Str}

theorem replace_of_notMem {s : Str} {x : Char} (h : x ∉ s) (sTo : Str) :
    UtilString.replace s [x] sTo = s := by
  unfold UtilString.replace
  rw [if_neg (List.cons_ne_nil x [])]
  induction s with
  | nil => rfl
  | cons a s ih =>
    rw [List.mem_cons, not_or] at h
    rw [UtilString.replaceLoop, if_neg, ih h.2]
    simp [List.isPrefixOf, h.1]

theorem notMem_pathText {x : Char} (hslash : x ≠ '/') (h : ∀ s ∈ names, x ∉ s) :
    x ∉ pathText names := by
  intro hx
  obtain ⟨s, hs, hmem⟩ := List.mem_flatMap.mp hx
  rcases List.mem_cons.mp hmem with hfirst | hlater
  · exact hslash hfirst
  · exact h s hs hlater

theorem transformPath_pathText (h : ∀ s ∈ names, PathName s) :
    CConfig.transformPath (pathText names) = pathText names := by
  unfold CConfig.transformPath
  rw [replace_of_notMem (notMem_pathText (by decide) fun s hs => (h s hs).noLess),
    replace_of_notMem (notMem_pathText (by decide) fun s hs => (h s hs).noGreater)]

/-- A path is split into its names. -/
theorem splitLoop_pathText (h : ∀ s ∈ names, PathName s) (piece : Str) :
    UtilString.splitLoop ['/'] true piece (pathText names) =
      (if piece.isEmpty then [] else [piece]) ++ names := by
  induction names generalizing piece with
  | nil => cases piece <;> rfl
  | cons s names ih =>
    have hs := h s List.mem_cons_self
    have hsep : ∀ x ∈ s, x ∉ ['/'] := by
      intro x hx heq
      rw [List.mem_singleton.mp heq] at hx
      exact hs.noSlash hx
    have hfull : s.isEmpty = false := List.isEmpty_eq_false_iff.mpr hs.ne_nil
    rw [pathText, List.flatMap_cons, List.cons_append, UtilString.splitLoop,
      if_pos List.mem_cons_self, UtilString.splitLoop_append hsep, List.nil_append,
      ← pathText, ih (fun s' hs' => h s' (List.mem_cons_of_mem s hs')), hfull]
    rfl

theorem getSubConfigPtr_pathText (h : ∀ s ∈ names, PathName s) (c : CConfig) :
    c.getSubConfigPtr (pathText names) = c.descend names := by
  unfold CConfig.getSubConfigPtr splitString
  rw [transformPath_pathText h, splitLoop_pathText h]
  rfl

/-- A text cut behind its last `/`. -/
theorem cut_behind_slash (h : '/' ∉ sKey) (a : Str) :
    (a ++ '/' :: sKey).rdropWhile (· ≠ '/') = a ++ ['/'] ∧
      (a ++ '/' :: sKey).rtakeWhile (· ≠ '/') = sKey := by
  have hnone : sKey.rdropWhile (· ≠ '/') = [] := by
    rw [List.rdropWhile_eq_nil_iff]
    intro x hx
    have hne : x ≠ '/' := fun heq => h (heq ▸ hx)
    exact decide_eq_true hne
  have hdrop : (a ++ '/' :: sKey).rdropWhile (· ≠ '/') = a ++ ['/'] := by
    rw [rdropWhile_append_cons (by simp), hnone]
  have hwhole := List.rdropWhile_append_rtakeWhile (p := (· ≠ '/')) (l := a ++ '/' :: sKey)
  rw [hdrop, List.append_assoc] at hwhole
  exact ⟨hdrop, List.cons.inj (List.append_cancel_left hwhole) |>.2⟩

/-- The last `/` of a path stands in front of the key. -/
theorem getConfigKeyPtr_pathText (hnames : ∀ s ∈ names, PathName s) (hkey : PathName sKey)
    (c : CConfig) : c.getConfigKeyPtr (pathText (names ++ [sKey])) =
      (c.look names).bind (fun f => f sKey) := by
  have hall : ∀ s ∈ names ++ [sKey], PathName s :=
    List.forall_mem_append.mpr ⟨hnames, List.forall_mem_singleton.mpr hkey⟩
  have htext : pathText (names ++ [sKey]) = pathText names ++ '/' :: sKey := by
    simp [pathText]
  obtain ⟨hdrop, htake⟩ := cut_behind_slash hkey.noSlash (pathText names)
  have hslash : '/' ∈ pathText names ++ '/' :: sKey :=
    List.mem_append_right _ List.mem_cons_self
  unfold CConfig.getConfigKeyPtr
  rw [transformPath_pathText hall, htext]
  simp only [if_pos hslash, hdrop, htake, List.dropLast_concat, getSubConfigPtr_pathText hnames]
  rw [CConfig.look, Option.bind_map]
  rfl

end Paths

/-! ## The result -/

namespace CConfig

variable {c : CConfig} {sData : Str}

/-- What a text leaves in a fresh configuration. -/
theorem look_of_parses (h : (empty []).parses sData = some c) :
    (∀ path sKey, (c.look path).bind (fun f => f sKey) = lastValue sData path sKey) ∧
      ∀ path, (c.look path).isSome ↔ path = [] ∨ Opens sData path := by
  have hlines : ∃ stk, Stack.parseLines ⟨empty [], []⟩ (linesOf sData) = (stk, none) ∧
      stk.bottom = c := by
    unfold parses parseString at h
    cases hparse : Stack.parseLines ⟨empty [], []⟩ (linesOf sData) with
    | mk stk what =>
      rw [linesOf] at hparse
      rw [hparse] at h
      cases what with
      | none => exact ⟨stk, rfl, Option.some.inj h⟩
      | some what => cases h
  obtain ⟨stk, hparse, hbottom⟩ := hlines
  have hfollows := Stack.follows_parseLines hparse
  rw [← hbottom]
  refine ⟨fun path sKey => ?_, fun path => ?_⟩
  · rw [hfollows.values]
    have hfresh : ((Stack.bottom ⟨empty [], []⟩).look path).bind (fun f => f sKey) = none := by
      show ((empty []).look path).bind _ = none
      rw [look_empty]
      split <;> rfl
    rw [hfresh, Option.or_none]
    rfl
  · rw [hfollows.opened]
    have hfresh : ((Stack.bottom ⟨empty [], []⟩).look path).isSome ↔ path = [] := by
      show ((empty []).look path).isSome ↔ _
      rw [look_empty]
      split
      · rename_i hnil
        simp [hnil]
      · rename_i hnot
        simp [hnot]
    rw [hfresh]
    rfl

/-- **A lookup returns what the file says.**  In a fresh configuration that has parsed a
text, `getCfg` on the path of a key finds the value of the last line that assigns the key
while exactly the sections of the path are open, and otherwise throws, or returns the
default; `hasSubConfig` holds on the path of a section if the text opens it. -/
theorem lookup_of_parses (sData : Str) (c : CConfig) (h : (empty []).parses sData = some c)
    (names : List Str) (hnames : ∀ s ∈ names, PathName s) :
    (∀ sKey, PathName sKey →
      c.getCfg (pathText (names ++ [sKey])) = (lastValue sData names sKey).elim
        (.error ("[util_config]config key missing: ".toList ++ pathText (names ++ [sKey]))) .ok ∧
      ∀ sDefault, c.getCfgOr (pathText (names ++ [sKey])) sDefault =
        (lastValue sData names sKey).getD sDefault) ∧
    (names ≠ [] → (c.hasSubConfig (pathText names) = true ↔ Opens sData names)) := by
  obtain ⟨hvalues, hopened⟩ := look_of_parses h
  constructor
  · intro sKey hkey
    have hptr := getConfigKeyPtr_pathText hnames hkey c
    rw [hvalues] at hptr
    unfold getCfg getCfgOr
    rw [hptr]
    cases lastValue sData names sKey <;> exact ⟨rfl, fun _ => rfl⟩
  · intro hne
    have hsub : (c.getSubConfigPtr (pathText names)).isSome = (c.look names).isSome := by
      rw [getSubConfigPtr_pathText hnames, look, Option.isSome_map]
    rw [hasSubConfig, hsub, hopened, or_iff_right hne]

/-- A section that is opened twice, with a key in it that is assigned twice. -/
def reopened : Str := "k=1\n<a>\n k = 2\n<b>\nk=3\n</b>\n</a>\n<a>\nk= 4 \n</a>".toList

/-- The second value of the key counts, its section is there, and another one is not. -/
theorem lookup_of_parses_of_reopened : ∃ c, (empty []).parses reopened = some c ∧
    c.getCfg (pathText ["a".toList, "k".toList]) = .ok "4".toList ∧
    c.getCfgOr (pathText ["b".toList, "k".toList]) "0".toList = "0".toList ∧
    c.hasSubConfig (pathText ["a".toList, "b".toList]) = true := by
  obtain ⟨c, hc⟩ := Option.isSome_iff_exists.mp (by decide : ((empty []).parses reopened).isSome)
  have ha : ∀ s ∈ ["a".toList], PathName s :=
    List.forall_mem_singleton.mpr ⟨by decide, by decide, by decide, by decide⟩
  have hb : ∀ s ∈ ["b".toList], PathName s :=
    List.forall_mem_singleton.mpr ⟨by decide, by decide, by decide, by decide⟩
  have hk : PathName "k".toList := ⟨by decide, by decide, by decide, by decide⟩
  have hsecond : lastValue reopened ["a".toList] "k".toList = some "4".toList := by decide
  have hnone : lastValue reopened ["b".toList] "k".toList = none := by decide
  have hopens : ["a".toList, "b".toList] ∈ openedIn [] (linesOf reopened) := by decide
  obtain ⟨hget, -⟩ := (lookup_of_parses reopened c hc ["a".toList] ha).1 "k".toList hk
  obtain ⟨-, hdefault⟩ := (lookup_of_parses reopened c hc ["b".toList] hb).1 "k".toList hk
  have hsub := (lookup_of_parses reopened c hc ["a".toList, "b".toList]
    (List.forall_mem_append.mpr ⟨ha, hb⟩)).2 (List.cons_ne_nil _ _)
  rw [hsecond] at hget
  rw [hnone] at hdefault
  exact ⟨c, hc, hget, hdefault "0".toList, hsub.mpr hopens⟩

end CConfig

end StormNet.Util
