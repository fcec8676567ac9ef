/-
  Util/Config.lean --- `CConfig` of `util/util_config.cpp`: sections of keys and values.

  A `std::map` is a list of its pairs, the first one that came first.  The stack of
  `parseString` holds pointers; here it holds the configurations themselves, and one goes
  back into the map of its parent when it leaves the stack.  Only the top of the stack is
  read or written in between.
-/
import StormNet.Foundation.Assoc
import StormNet.Foundation.Trim
import StormNet.Util.UtilString

set_option autoImplicit false

namespace StormNet.Util

open StormNet.Foundation

/-- `CConfig`. -/
structure CConfig where
  /-- `m_sNodeName` -/
  sNodeName : Str
  /-- `m_vItem` -/
  vItem : List Str
  /-- `m_mKeyValue` -/
  mKeyValue : List (Str × Str)
  /-- `m_mSubConfig` -/
  mSubConfig : List (Str × CConfig)
  deriving Repr

namespace CConfig

/-! ## Parsing -/

/-- A configuration with nothing in it. -/
def empty (sNodeName : Str) : CConfig := ⟨sNodeName, [], [], []⟩

/-- `m_mSubConfig[sKey] = subcfg`. -/
def setSub (c : CConfig) (sKey : Str) (subcfg : CConfig) : CConfig :=
  { c with mSubConfig := Assoc.assign c.mSubConfig sKey subcfg }

end CConfig

/-- The separators of lines. -/
def newlines : Str := ['\r', '\n']

/-- What a line says, before the stack is looked at. -/
inductive Line where
  | blank
  /-- `</sKey>` -/
  | closing (sKey : Str)
  /-- `<sKey>` -/
  | opening (sKey : Str)
  /-- `sKey = sValue` -/
  | keyValue (sKey sValue : Str)
  deriving DecidableEq, Repr

/-- The part of the loop of `parseString` that only reads the line. -/
def readLine (line : Str) : Except Str Line :=
  let s := UtilString.trim line
  if s = [] ∨ s.head? = some '#' then .ok .blank
  else if s.head? = some '<' then
    if s.length ≤ 1 ∨ s.idxOf '>' ≠ s.length - 1 then
      .error ("[util_config]parse error: ".toList ++ s)
    else if s[1]? = some '/' then .ok (.closing ((s.drop 2).take (s.length - 3)))
    else .ok (.opening ((s.drop 1).take (s.length - 2)))
  else
    match s.dropWhile (· ≠ '=') with
    | [] => .ok (.keyValue s [])
    | _ :: rest =>
        .ok (.keyValue (UtilString.trim (s.takeWhile (· ≠ '='))) (UtilString.trim rest))

/-- `stk`: the section at its top, and below it each parent with the key of the section
above. -/
structure Stack where
  top : CConfig
  below : List (CConfig × Str)

namespace Stack

/-- `stk.pop()`, with what was written through the pointer. -/
def pop (stk : Stack) : Option Stack :=
  match stk.below with
  | [] => none
  | (parent, sKey) :: below => some ⟨parent.setSub sKey stk.top, below⟩

/-- The part of the loop of `parseString` behind the reading of the line. -/
def apply (stk : Stack) : Line → Except Str Stack
  | .blank => .ok stk
  | .closing sKey =>
      match stk.pop with
      | none => .error ("[util_config]key mismatch: ".toList ++ sKey)
      | some popped =>
          if stk.top.sNodeName ≠ sKey then .error ("[util_config]key mismatch: ".toList ++ sKey)
          else .ok popped
  | .opening sKey =>
      let cfg := stk.top
      if (Assoc.find cfg.mKeyValue sKey).isSome then
        .error ("[util_config]cannot override key: ".toList ++ sKey)
      else match Assoc.find cfg.mSubConfig sKey with
        | some subcfg => .ok ⟨subcfg, (cfg, sKey) :: stk.below⟩
        | none =>
            let cfg := { cfg with vItem := cfg.vItem ++ [sKey] }.setSub sKey (.empty sKey)
            .ok ⟨.empty sKey, (cfg, sKey) :: stk.below⟩
  | .keyValue sKey sValue =>
      let cfg := stk.top
      if (Assoc.find cfg.mSubConfig sKey).isSome then
        .error ("[util_config]cannot override subconf: ".toList ++ sKey)
      else .ok { stk with top := { cfg with
        vItem := if (Assoc.find cfg.mKeyValue sKey).isSome then cfg.vItem else cfg.vItem ++ [sKey]
        mKeyValue := Assoc.assign cfg.mKeyValue sKey sValue } }

/-- The loop of `parseString`, up to its end or to an exception. -/
def parseLines (stk : Stack) : List Str → Stack × Option Str
  | [] => (stk, none)
  | line :: lines =>
      match (readLine line).bind stk.apply with
      | .ok stk' => stk'.parseLines lines
      | .error what => (stk, some what)

/-- What is at the bottom of the stack once everything above has gone back. -/
def bottom (stk : Stack) : CConfig :=
  stk.below.foldl (fun subcfg frame => frame.1.setSub frame.2 subcfg) stk.top

end Stack

namespace CConfig

/-- `parseString`: what it leaves, and the text of its exception. -/
def parseString (c : CConfig) (sData : Str) : CConfig × Option Str :=
  let (stk, what) := Stack.parseLines ⟨c, []⟩ (UtilString.splitString sData newlines true)
  (stk.bottom, what)

/-- A call of `parseString` that succeeds. -/
def parses (c : CConfig) (sData : Str) : Option CConfig :=
  match c.parseString sData with
  | (c', none) => some c'
  | (_, some _) => none

/-! ## Printing -/

/-- What `toString` appends for one item, with the printed sections. -/
def itemString (mKeyValue : List (Str × Str)) (subStrings : List (Str × Str)) (iIndent : UInt32)
    (sKey : Str) : Str :=
  let sTab := UtilString.repeatN [' ', ' '] iIndent.toNat
  match Assoc.find mKeyValue sKey with
  | some sValue => sTab ++ sKey ++ " = ".toList ++ sValue ++ ['\n']
  | none =>
      match Assoc.find subStrings sKey with
      | some sub => sTab ++ '<' :: sKey ++ ['>', '\n'] ++ sub ++ sTab ++ '<' :: '/' :: sKey ++
          ['>', '\n']
      | none => []

mutual

/-- `toString`.  The sections are printed before their turn comes. -/
def toString : CConfig → UInt32 → Str
  | ⟨_, vItem, mKeyValue, mSubConfig⟩, iIndent =>
      vItem.flatMap (itemString mKeyValue (subStrings mSubConfig (iIndent + 1)) iIndent)

/-- The sections of a map, printed. -/
def subStrings : List (Str × CConfig) → UInt32 → List (Str × Str)
  | [], _ => []
  | (sKey, subcfg) :: rest, iIndent =>
      (sKey, subcfg.toString iIndent) :: subStrings rest iIndent

end

theorem find_subStrings (m : List (Str × CConfig)) (iIndent : UInt32) (sKey : Str) :
    Assoc.find (subStrings m iIndent) sKey = (Assoc.find m sKey).map (·.toString iIndent) := by
  induction m with
  | nil => rfl
  | cons p m ih =>
    obtain ⟨k, subcfg⟩ := p
    rw [subStrings, Assoc.find_cons, Assoc.find_cons, ih]
    split <;> rfl

theorem toString_eq (c : CConfig) (iIndent : UInt32) :
    c.toString iIndent = c.vItem.flatMap
      (itemString c.mKeyValue (subStrings c.mSubConfig (iIndent + 1)) iIndent) := by
  cases c
  rw [toString]

/-- The sections inside a configuration are smaller. -/
theorem sizeOf_find {m : List (Str × CConfig)} {sKey : Str} {subcfg : CConfig}
    (h : Assoc.find m sKey = some subcfg) : sizeOf subcfg < sizeOf m := by
  induction m with
  | nil => cases h
  | cons p m ih =>
    obtain ⟨k, first⟩ := p
    rw [Assoc.find_cons] at h
    simp only [List.cons.sizeOf_spec, Prod.mk.sizeOf_spec]
    split at h
    · cases h
      omega
    · have hrest := ih h
      omega

/-- Induction over the sections. -/
theorem induction {P : CConfig → Prop}
    (h : ∀ c, (∀ sKey subcfg, Assoc.find c.mSubConfig sKey = some subcfg → P subcfg) → P c)
    (c : CConfig) : P c := by
  apply h
  intro sKey subcfg hfind
  have hsize := sizeOf_find hfind
  have hless : sizeOf subcfg < sizeOf c := by
    obtain ⟨sNodeName, vItem, mKeyValue, mSubConfig⟩ := c
    simp only [CConfig.mk.sizeOf_spec]
    exact Nat.lt_of_lt_of_le hsize (Nat.le_add_left ..)
  exact induction h subcfg
termination_by sizeOf c

end CConfig

end StormNet.Util
