/-
  Util/ConfigJoin.lean --- `CConfig::joinConfig`.

  The configuration is cleared before it is printed, so that what it printed is empty and only
  the other one is parsed into it.
-/
import StormNet.Util.ConfigLookup
import StormNet.Util.ConfigRoundTrip

set_option autoImplicit false

namespace StormNet.Util

open StormNet.Foundation

namespace CConfig

/-! ## The source -/

/-- The three calls of `clear`; `m_sNodeName` stays. -/
def clear (c : CConfig) : CConfig := { c with vItem := [], mKeyValue := [], mSubConfig := [] }

/-- `joinConfig`: what it leaves, and the text of an exception that passes through.  `config` is
another object; one that is joined with itself is cleared before it is printed, too. -/
def joinConfig (c config : CConfig) : CConfig × Option Str :=
  let c := c.clear
  c.parseString (c.toString 0 ++ config.toString 0)

/-! ## What a join is for -/

/-- The value of a key in the section at a path. -/
def value (c : CConfig) (path : List Str) (sKey : Str) : Option Str :=
  (c.look path).bind (fun f => f sKey)

/-- No name is a key in one configuration and a section in the other, at the same path. -/
def Compatible (a b : CConfig) : Prop :=
  ∀ path k, ((a.value path k).isSome → b.look (path ++ [k]) = none) ∧
    ((b.value path k).isSome → a.look (path ++ [k]) = none)

/-- The outcome of a join that keeps both: the second configuration has the last word, and
nothing is there that neither had. -/
structure Joined (a b : CConfig) (r : CConfig × Option Str) : Prop where
  returns : r.2 = none
  values : ∀ path sKey, r.1.value path sKey = (b.value path sKey).or (a.value path sKey)
  sections : ∀ path, (r.1.look path).isSome ↔ (a.look path).isSome ∨ (b.look path).isSome

/-- Every key path and every section of the first configuration is one of the second. -/
def CoveredBy (a b : CConfig) : Prop :=
  (∀ path sKey, (a.value path sKey).isSome → (b.value path sKey).isSome) ∧
    ∀ path, (a.look path).isSome → (b.look path).isSome

/-! ## What the code does -/

variable {a b c : CConfig}

/-- A cleared configuration prints nothing. -/
theorem toString_clear (c : CConfig) (iIndent : UInt32) : c.clear.toString iIndent = [] := by
  rw [toString_eq]
  rfl

/-- Without a name nothing is left of it. -/
theorem clear_eq_empty (h : c.sNodeName = []) : c.clear = empty [] := by
  rw [clear, h]
  rfl

/-- The second configuration takes the place of the first one. -/
theorem joinConfig_eq (ha : Runs parses (fun _ _ => True) (empty []) a)
    (hb : Runs parses (fun _ _ => True) (empty []) b) : a.joinConfig b = (b, none) := by
  have hname := (everywhere_of_runs ha).2
  show a.clear.parseString (a.clear.toString 0 ++ b.toString 0) = (b, none)
  rw [toString_clear, List.nil_append, clear_eq_empty hname]
  exact parseString_toString hb 0

/-- **When a join keeps both**: if and only if the second configuration alone has every key
path and every section of the first. -/
theorem joined_iff (a b : CConfig) (ha : Runs parses (fun _ _ => True) (empty []) a)
    (hb : Runs parses (fun _ _ => True) (empty []) b) :
    Joined a b (a.joinConfig b) ↔ CoveredBy a b := by
  rw [joinConfig_eq ha hb]
  constructor
  · intro h
    constructor
    · intro path sKey hkey
      rw [h.values path sKey, Option.isSome_or, hkey, Bool.or_true]
    · intro path hsection
      exact (h.sections path).mpr (.inl hsection)
  · intro h
    obtain ⟨hkeys, hsections⟩ := h
    refine ⟨rfl, ?_, ?_⟩
    · intro path sKey
      cases hvalue : b.value path sKey with
      | some v => rfl
      | none =>
        have hnot : ¬ (a.value path sKey).isSome := by
          intro hkey
          have hboth := hkeys path sKey hkey
          rw [hvalue] at hboth
          cases hboth
        rw [Option.not_isSome_iff_eq_none.mp hnot]
        rfl
    · intro path
      exact (or_iff_right_of_imp (hsections path)).symm

/-- One key, and a file that sets it again behind a section. -/
theorem joined_iff_of_override : ∃ a b, (empty []).parses "x = 1".toList = some a ∧
    (empty []).parses "<s>\n y = 2\n</s>\nx = 3".toList = some b ∧
    Joined a b (a.joinConfig b) := by
  have ha : (empty []).parses "x = 1".toList = some ⟨[], [['x']], [(['x'], ['1'])], []⟩ := by rfl
  have hb : (empty []).parses "<s>\n y = 2\n</s>\nx = 3".toList = some ⟨[], [['s'], ['x']],
      [(['x'], ['3'])], [(['s'], ⟨['s'], [['y']], [(['y'], ['2'])], []⟩)]⟩ := by rfl
  refine ⟨_, _, ha, hb, (joined_iff _ _ (.single trivial ha) (.single trivial hb)).mpr ⟨?_, ?_⟩⟩
  · intro path sKey hkey
    cases path with
    | nil =>
      rw [value, look_nil, Option.bind_some, Assoc.isSome_find_iff] at hkey ⊢
      exact hkey
    | cons s path => cases hkey
  · intro path hsection
    cases path with
    | nil => rfl
    | cons s path => cases hsection

/-- A key that only the first configuration has is lost. -/
theorem joinConfig_loses : ∃ a b, (empty []).parses "x = 1".toList = some a ∧
    (empty []).parses "y = 2".toList = some b ∧ Compatible a b ∧
    ¬ Joined a b (a.joinConfig b) := by
  have ha : (empty []).parses "x = 1".toList = some ⟨[], [['x']], [(['x'], ['1'])], []⟩ := by rfl
  have hb : (empty []).parses "y = 2".toList = some ⟨[], [['y']], [(['y'], ['2'])], []⟩ := by rfl
  refine ⟨_, _, ha, hb, ?_, ?_⟩
  · intro path k
    cases path with
    | nil => exact ⟨fun _ => rfl, fun _ => rfl⟩
    | cons s path => exact ⟨fun _ => rfl, fun _ => rfl⟩
  · intro h
    rw [joinConfig_eq (.single trivial ha) (.single trivial hb)] at h
    have hlost := h.values [] ['x']
    cases hlost

end CConfig

end StormNet.Util
