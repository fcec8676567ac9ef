/-
  Util/ConfigRoundTrip.lean --- `parseString` inverts `toString`.

  Printing and reading again meet the items of a configuration in the same order: the
  configuration comes up item by item, each section between its two lines.
-/
import Mathlib.Data.List.Nodup
import StormNet.Foundation.Transition
import StormNet.Util.ConfigLine

set_option autoImplicit false

namespace StormNet.Util

open StormNet.Foundation
open StormNet.Foundation.Assoc (find assign pick Ordered)
open UtilString (isspace trim repeatN splitString)

namespace CConfig

variable {c d : CConfig} {k v : Str} {P : CConfig → Prop}

/-! ## Every level -/

/-- `d` is `c` or a section in it, at any depth. -/
inductive Within (d : CConfig) : CConfig → Prop
  | refl : Within d d
  | inside {c subcfg : CConfig} {sKey : Str} :
      find c.mSubConfig sKey = some subcfg → Within d subcfg → Within d c

/-- `P` holds at every nesting level. -/
def Everywhere (P : CConfig → Prop) (c : CConfig) : Prop := ∀ d, Within d c → P d

theorem everywhere_iff : Everywhere P c ↔
    P c ∧ ∀ sKey subcfg, find c.mSubConfig sKey = some subcfg → Everywhere P subcfg := by
  constructor
  · intro h
    exact ⟨h c .refl, fun sKey subcfg hfind d hd => h d (.inside hfind hd)⟩
  · intro h d hd
    cases hd with
    | refl => exact h.1
    | inside hfind hd => exact h.2 _ _ hfind d hd

/-- What holds of one level. -/
structure Level (c : CConfig) : Prop where
  nodup : c.vItem.Nodup
  keyValues : Ordered c.vItem c.mKeyValue
  sections : Ordered c.vItem c.mSubConfig
  /-- an item is a key or a section -/
  one : ∀ k ∈ c.vItem, (find c.mKeyValue k).isSome ≠ (find c.mSubConfig k).isSome
  texts : ∀ k v, find c.mKeyValue k = some v → KeyText k ∧ ValueText v
  names : ∀ k subcfg, find c.mSubConfig k = some subcfg →
    SectionText k ∧ subcfg.sNodeName = k

theorem level_empty (sNodeName : Str) : (empty sNodeName).Level where
  nodup := List.nodup_nil
  keyValues := rfl
  sections := rfl
  one := fun _ hk => (nomatch hk)
  texts := fun _ _ hk => (nomatch hk)
  names := fun _ _ hk => (nomatch hk)

theorem everywhere_empty (sNodeName : Str) : Everywhere Level (empty sNodeName) :=
  everywhere_iff.mpr ⟨level_empty sNodeName, fun _ _ hk => (nomatch hk)⟩

theorem Level.not_mem (h : c.Level) (hkey : find c.mKeyValue k = none)
    (hsection : find c.mSubConfig k = none) : k ∉ c.vItem := by
  intro hmem
  apply h.one k hmem
  rw [hkey, hsection]
  rfl

/-- What an assigned key is found to be. -/
theorem texts_assign (h : c.Level) (hk : KeyText k) (hv : ValueText v) (k' v' : Str)
    (hfind : find (assign c.mKeyValue k v) k' = some v') : KeyText k' ∧ ValueText v' := by
  rw [Assoc.find_assign] at hfind
  split at hfind
  · rename_i heq
    cases hfind
    exact ⟨heq ▸ hk, hv⟩
  · exact h.texts k' v' hfind

/-- What a section that was put into the map is found to be. -/
theorem names_assign (h : c.Level) (hk : SectionText k) (hd : d.sNodeName = k) (k' : Str)
    (subcfg : CConfig) (hfind : find (assign c.mSubConfig k d) k' = some subcfg) :
    SectionText k' ∧ subcfg.sNodeName = k' := by
  rw [Assoc.find_assign] at hfind
  split at hfind
  · rename_i heq
    cases hfind
    exact ⟨heq ▸ hk, hd.trans heq.symm⟩
  · exact h.names k' subcfg hfind

/-- A key is assigned for the first time. -/
theorem Level.newKey (h : c.Level) (hnew : find c.mKeyValue k = none)
    (hfree : find c.mSubConfig k = none) (hk : KeyText k) (hv : ValueText v) :
    Level { c with vItem := c.vItem ++ [k], mKeyValue := assign c.mKeyValue k v } := by
  have hmem := h.not_mem hnew hfree
  refine ⟨List.concat_eq_append ▸ h.nodup.concat hmem, h.keyValues.append hmem,
    h.sections.skip hfree, ?_, texts_assign h hk hv, h.names⟩
  intro a ha
  show (find (assign c.mKeyValue k v) a).isSome ≠ _
  rcases List.mem_append.mp ha with hold | hlast
  · rw [Assoc.find_assign_of_ne fun heq : a = k => hmem (heq ▸ hold)]
    exact h.one a hold
  · rw [List.mem_singleton.mp hlast, Assoc.find_assign_self]
    show true ≠ (find c.mSubConfig k).isSome
    rw [hfree]
    exact Bool.noConfusion

/-- A key is assigned again. -/
theorem Level.oldKey (h : c.Level) (hold : (find c.mKeyValue k).isSome) (hk : KeyText k)
    (hv : ValueText v) : Level { c with mKeyValue := assign c.mKeyValue k v } := by
  refine ⟨h.nodup, h.keyValues.replace hold, h.sections, ?_, texts_assign h hk hv, h.names⟩
  intro a ha
  show (find (assign c.mKeyValue k v) a).isSome ≠ _
  rw [Assoc.isSome_find_assign hold]
  exact h.one a ha

/-- A section is opened for the first time. -/
theorem Level.newSection (h : c.Level) (hfree : find c.mKeyValue k = none)
    (hnew : find c.mSubConfig k = none) (hk : SectionText k) :
    Level ({ c with vItem := c.vItem ++ [k] }.setSub k (empty k)) := by
  have hmem := h.not_mem hfree hnew
  refine ⟨List.concat_eq_append ▸ h.nodup.concat hmem, h.keyValues.skip hfree,
    h.sections.append hmem, ?_, h.texts,
    fun k' subcfg hfind => names_assign h hk rfl k' subcfg hfind⟩
  intro a ha
  show _ ≠ (find (assign c.mSubConfig k (empty k)) a).isSome
  rcases List.mem_append.mp ha with hold | hlast
  · rw [Assoc.find_assign_of_ne fun heq : a = k => hmem (heq ▸ hold)]
    exact h.one a hold
  · rw [List.mem_singleton.mp hlast, Assoc.find_assign_self]
    show (find c.mKeyValue k).isSome ≠ true
    rw [hfree]
    exact Bool.noConfusion

/-- A section that is there goes back into its place. -/
theorem Level.setSub (h : c.Level) (hold : (find c.mSubConfig k).isSome) (hd : d.sNodeName = k) :
    (c.setSub k d).Level := by
  obtain ⟨subcfg, hfind⟩ := Option.isSome_iff_exists.mp hold
  refine ⟨h.nodup, h.keyValues, h.sections.replace hold, ?_, h.texts,
    names_assign h (h.names k subcfg hfind).1 hd⟩
  intro a ha
  show _ ≠ (find (assign c.mSubConfig k d) a).isSome
  rw [Assoc.isSome_find_assign hold]
  exact h.one a ha

/-- The levels of a section that is put into the map. -/
theorem everywhere_setSub (hlevel : (c.setSub k d).Level)
    (h : ∀ k' subcfg, find c.mSubConfig k' = some subcfg → Everywhere Level subcfg)
    (hd : Everywhere Level d) : Everywhere Level (c.setSub k d) := by
  rw [everywhere_iff]
  refine ⟨hlevel, ?_⟩
  intro k' subcfg hfind
  change find (assign c.mSubConfig k d) k' = some subcfg at hfind
  rw [Assoc.find_assign] at hfind
  split at hfind
  · cases hfind
    exact hd
  · exact h k' subcfg hfind

end CConfig

/-! ## The stack -/

namespace Stack

open CConfig

variable {name k v line : Str} {c cfg : CConfig} {below : List (CConfig × Str)}
variable {stk stk' : Stack}

/-- Every section on the stack is in order, and in the map of its parent under its name; the
one at the bottom is called `name`. -/
def SoundBelow (name : Str) : CConfig → List (CConfig × Str) → Prop
  | cfg, [] => Everywhere Level cfg ∧ cfg.sNodeName = name
  | cfg, (parent, sKey) :: below => Everywhere Level cfg ∧ cfg.sNodeName = sKey ∧
      (find parent.mSubConfig sKey).isSome ∧ SoundBelow name parent below

def Sound (name : Str) (stk : Stack) : Prop := SoundBelow name stk.top stk.below

theorem SoundBelow.levels (h : SoundBelow name cfg below) : Everywhere Level cfg := by
  cases below with
  | nil => exact h.1
  | cons frame below => exact h.1

/-- The top of the stack is changed. -/
theorem SoundBelow.change (h : SoundBelow name cfg below) (hc : Everywhere Level c)
    (hname : c.sNodeName = cfg.sNodeName) : SoundBelow name c below := by
  cases below with
  | nil => exact ⟨hc, hname.trans h.2⟩
  | cons frame below => exact ⟨hc, hname.trans h.2.1, h.2.2⟩

theorem SoundBelow.pop {parent : CConfig} (h : SoundBelow name cfg ((parent, k) :: below)) :
    SoundBelow name (parent.setSub k cfg) below := by
  obtain ⟨hcfg, hname, hold, hbelow⟩ := h
  have hparent := everywhere_iff.mp hbelow.levels
  have hlevel : (parent.setSub k cfg).Level := hparent.1.setSub hold hname
  exact hbelow.change (everywhere_setSub hlevel hparent.2 hcfg) rfl

theorem Sound.bottom (h : stk.Sound name) :
    Everywhere Level stk.bottom ∧ stk.bottom.sNodeName = name := by
  obtain ⟨cfg, below⟩ := stk
  change SoundBelow name cfg below at h
  induction below generalizing cfg with
  | nil => exact h
  | cons frame below ih => exact ih (frame.1.setSub frame.2 cfg) h.pop

theorem Sound.opening (h : stk.Sound name) (hk : SectionText k)
    (hstep : stk.apply (.opening k) = .ok stk') : stk'.Sound name := by
  obtain ⟨hlevel, hsubs⟩ := everywhere_iff.mp h.levels
  simp only [apply] at hstep
  split at hstep
  · cases hstep
  · rename_i hfree
    have hfree := Option.not_isSome_iff_eq_none.mp hfree
    split at hstep
    · rename_i subcfg hfind
      cases hstep
      exact ⟨hsubs k subcfg hfind, (hlevel.names k subcfg hfind).2, by rw [hfind]; rfl, h⟩
    · rename_i hnew
      cases hstep
      refine ⟨everywhere_empty k, rfl, ?_, h.change ?_ rfl⟩
      · show (find (assign stk.top.mSubConfig k (empty k)) k).isSome
        rw [Assoc.find_assign_self]
        rfl
      · exact everywhere_setSub (hlevel.newSection hfree hnew hk) hsubs (everywhere_empty k)

theorem Sound.keyValue (h : stk.Sound name) (hk : KeyText k) (hv : ValueText v)
    (hstep : stk.apply (.keyValue k v) = .ok stk') : stk'.Sound name := by
  obtain ⟨hlevel, hsubs⟩ := everywhere_iff.mp h.levels
  simp only [apply] at hstep
  split at hstep
  · cases hstep
  · rename_i hfree
    have hfree := Option.not_isSome_iff_eq_none.mp hfree
    cases hstep
    refine h.change (everywhere_iff.mpr ⟨?_, hsubs⟩) rfl
    split
    · rename_i hold
      exact hlevel.oldKey hold hk hv
    · rename_i hnew
      exact hlevel.newKey (Option.not_isSome_iff_eq_none.mp hnew) hfree hk hv

/-- One line. -/
theorem Sound.step (h : stk.Sound name) (hline : OneLine line)
    (hstep : (readLine line).bind stk.apply = .ok stk') : stk'.Sound name := by
  cases hread : readLine line with
  | error what =>
    rw [hread] at hstep
    cases hstep
  | ok said =>
    rw [hread] at hstep
    change stk.apply said = .ok stk' at hstep
    cases said with
    | blank =>
      cases hstep
      exact h
    | closing k =>
      obtain ⟨cfg, below⟩ := stk
      cases below with
      | nil => cases hstep
      | cons frame below =>
        simp only [apply, pop] at hstep
        split at hstep
        · cases hstep
        · cases hstep
          exact h.pop
    | opening k => exact h.opening (text_of_opening hline hread) hstep
    | keyValue k v =>
      obtain ⟨hk, hv⟩ := texts_of_keyValue hline hread
      exact h.keyValue hk hv hstep

/-- A whole text, also one that ends in an exception. -/
theorem Sound.parseLines {lines : List Str} (h : stk.Sound name)
    (hlines : ∀ line ∈ lines, OneLine line) : (stk.parseLines lines).1.Sound name := by
  induction lines generalizing stk with
  | nil => exact h
  | cons line lines ih =>
    rw [Stack.parseLines]
    split
    · rename_i stk' hstep
      have hnext := h.step (hlines line List.mem_cons_self) hstep
      exact ih hnext fun l hl => hlines l (List.mem_cons_of_mem line hl)
    · exact h

/-! ## Reading a printed text -/

/-- Reading the text takes the stack from one state to another. -/
def Reads (text : Str) (stk stk' : Stack) : Prop :=
  ∃ lines : List Str, text = lines.flatMap (· ++ ['\n']) ∧
    (∀ line ∈ lines, line ≠ [] ∧ OneLine line) ∧
    ∀ rest, stk.parseLines (lines ++ rest) = stk'.parseLines rest

theorem reads_nil (stk : Stack) : Reads [] stk stk :=
  ⟨[], rfl, fun _ hl => (nomatch hl), fun _ => rfl⟩

theorem Reads.append {text text' : Str} {stk'' : Stack} (h : Reads text stk stk')
    (h' : Reads text' stk' stk'') : Reads (text ++ text') stk stk'' := by
  obtain ⟨lines, rfl, hlines, hread⟩ := h
  obtain ⟨lines', rfl, hlines', hread'⟩ := h'
  refine ⟨lines ++ lines', List.flatMap_append.symm, ?_, ?_⟩
  · exact List.forall_mem_append.mpr ⟨hlines, hlines'⟩
  · intro rest
    rw [List.append_assoc, hread, hread']

/-- One line. -/
theorem reads_line {said : Line} (hne : line ≠ []) (hline : OneLine line)
    (hread : readLine line = .ok said) (hstep : stk.apply said = .ok stk') :
    Reads (line ++ ['\n']) stk stk' := by
  refine ⟨[line], (List.append_nil _).symm, List.forall_mem_singleton.mpr ⟨hne, hline⟩, ?_⟩
  intro rest
  have hbind : (readLine line).bind stk.apply = .ok stk' := by
    rw [hread]
    exact hstep
  rw [List.singleton_append, parseLines, hbind]

end Stack

namespace CConfig

variable {c : CConfig} {k v : Str} {done : List Str} {below : List (CConfig × Str)}

open Stack (Reads reads_nil reads_line)

/-- A configuration up to some of its items. -/
def upTo (c : CConfig) (done : List Str) : CConfig where
  sNodeName := c.sNodeName
  vItem := done
  mKeyValue := pick c.mKeyValue done
  mSubConfig := pick c.mSubConfig done

theorem Level.upTo_all (h : c.Level) : c.upTo c.vItem = c := by
  rw [upTo, h.keyValues, h.sections]
  cases c
  rfl

/-- An item that has not been met is not found. -/
theorem find_upTo (hk : k ∉ done) : find (c.upTo done).mKeyValue k = none ∧
    find (c.upTo done).mSubConfig k = none := by
  refine ⟨?_, ?_⟩
  · rw [upTo, Assoc.find_pick, if_neg hk]
  · rw [upTo, Assoc.find_pick, if_neg hk]

/-- The next item is a key. -/
theorem upTo_keyValue (hk : k ∉ done) (hkey : find c.mKeyValue k = some v)
    (hsection : find c.mSubConfig k = none) :
    Stack.apply ⟨c.upTo done, below⟩ (.keyValue k v) = .ok ⟨c.upTo (done ++ [k]), below⟩ := by
  obtain ⟨hnewKey, hnewSection⟩ := find_upTo (c := c) hk
  have hupTo : c.upTo (done ++ [k]) = { c.upTo done with
      vItem := done ++ [k]
      mKeyValue := assign (c.upTo done).mKeyValue k v } := by
    rw [Assoc.assign_of_none hnewKey]
    simp only [upTo, Assoc.pick_append, Assoc.pick_singleton_of_some hkey,
      Assoc.pick_singleton_of_none hsection, List.append_nil]
  simp only [Stack.apply, hnewKey, hnewSection, hupTo, Option.isSome_none]
  rfl

/-- The next item is a section: it is opened, and empty. -/
theorem upTo_opening (hk : k ∉ done) :
    Stack.apply ⟨c.upTo done, below⟩ (.opening k) = .ok ⟨empty k,
      (({ c.upTo done with vItem := done ++ [k] } : CConfig).setSub k (empty k), k) :: below⟩ := by
  obtain ⟨hnewKey, hnewSection⟩ := find_upTo (c := c) hk
  simp only [Stack.apply, hnewKey, hnewSection, Option.isSome_none]
  rfl

/-- When the section is closed, it is in its place. -/
theorem upTo_closing (hk : k ∉ done) (hkey : find c.mKeyValue k = none) {subcfg : CConfig}
    (hsection : find c.mSubConfig k = some subcfg) (hname : subcfg.sNodeName = k) :
    Stack.apply ⟨subcfg,
      (({ c.upTo done with vItem := done ++ [k] } : CConfig).setSub k (empty k), k) :: below⟩
      (.closing k) = .ok ⟨c.upTo (done ++ [k]), below⟩ := by
  have hupTo : c.upTo (done ++ [k]) =
      (({ c.upTo done with vItem := done ++ [k] } : CConfig).setSub k (empty k)).setSub k
        subcfg := by
    simp only [setSub, Assoc.assign_assign]
    rw [Assoc.assign_of_none (find_upTo hk).2]
    simp only [upTo, Assoc.pick_append, Assoc.pick_singleton_of_some hsection,
      Assoc.pick_singleton_of_none hkey, List.append_nil]
  rw [hupTo, Stack.apply, Stack.pop]
  simp only [hname, ne_eq, not_true_eq_false, if_false]

/-! ## The printed lines -/

theorem isspace_of_mem_indent (n : Nat) : ∀ c ∈ repeatN [' ', ' '] n, isspace c = true := by
  apply UtilString.isspace_of_mem_repeatN
  intro c hc
  have hblank : c = ' ' := by simpa using hc
  rw [hblank]
  rfl

theorem oneLine_indent (n : Nat) : OneLine (repeatN [' ', ' '] n) := by
  intro c hc
  obtain ⟨copy, hcopy, hc⟩ := List.mem_flatten.mp hc
  rw [List.eq_of_mem_replicate hcopy] at hc
  have hblank : c = ' ' := by simpa using hc
  rw [hblank]
  decide

theorem oneLine_section {tab s : Str} (hs : OneLine s) (htab : OneLine tab) :
    OneLine (tab ++ '<' :: (s ++ ['>'])) :=
  oneLine_append htab
    (oneLine_append (a := ['<']) (by decide) (oneLine_append hs (by decide)))

/-- A key is printed and read. -/
theorem reads_keyValue (h : c.Level) (n : Nat) (hk : k ∉ done)
    (hkey : find c.mKeyValue k = some v) (hsection : find c.mSubConfig k = none) :
    Reads (repeatN [' ', ' '] n ++ k ++ " = ".toList ++ v ++ ['\n']) ⟨c.upTo done, below⟩
      ⟨c.upTo (done ++ [k]), below⟩ := by
  obtain ⟨hkeyText, hvalueText⟩ := h.texts k v hkey
  refine reads_line ?_ ?_ (readLine_keyValue hkeyText hvalueText (isspace_of_mem_indent n))
    (upTo_keyValue hk hkey hsection)
  · simp
  · refine oneLine_append (oneLine_append (oneLine_append (oneLine_indent n) hkeyText.oneLine) ?_)
      hvalueText.oneLine
    decide

/-- A section is printed and read, when its contents are. -/
theorem reads_section (h : c.Level) (n : Nat) (hk : k ∉ done) (hkey : find c.mKeyValue k = none)
    {subcfg : CConfig} (hsection : find c.mSubConfig k = some subcfg) {text : Str}
    (hin : ∀ below, Reads text ⟨empty k, below⟩ ⟨subcfg, below⟩) :
    Reads (repeatN [' ', ' '] n ++ '<' :: k ++ ['>', '\n'] ++ text ++ repeatN [' ', ' '] n ++
      '<' :: '/' :: k ++ ['>', '\n']) ⟨c.upTo done, below⟩ ⟨c.upTo (done ++ [k]), below⟩ := by
  obtain ⟨hk', hname⟩ := h.names k subcfg hsection
  have hindent := isspace_of_mem_indent n
  have hopenLine := oneLine_section hk'.oneLine (oneLine_indent n)
  have hcloseLine := oneLine_section (oneLine_append (a := ['/']) (by decide) hk'.oneLine)
    (oneLine_indent n)
  have hopen : Reads _ ⟨c.upTo done, below⟩ _ :=
    reads_line (by simp) hopenLine (readLine_opening hk' hindent) (upTo_opening hk)
  have hclose : Reads _ _ ⟨c.upTo (done ++ [k]), below⟩ :=
    reads_line (by simp) hcloseLine (readLine_closing hk' hindent)
      (upTo_closing hk hkey hsection hname)
  have hall := (hopen.append (hin _)).append hclose
  simpa using hall

/-- The items that are left are printed and read. -/
theorem reads_items (h : c.Level) (n : UInt32)
    (hin : ∀ sKey subcfg, find c.mSubConfig sKey = some subcfg →
      ∀ below, Reads (subcfg.toString (n + 1)) ⟨empty sKey, below⟩ ⟨subcfg, below⟩)
    (todo : List Str) (hitems : c.vItem = done ++ todo) :
    Reads (todo.flatMap (itemString c.mKeyValue (subStrings c.mSubConfig (n + 1)) n))
      ⟨c.upTo done, below⟩ ⟨c, below⟩ := by
  induction todo generalizing done with
  | nil =>
    rw [List.append_nil] at hitems
    rw [← hitems, h.upTo_all]
    exact reads_nil _
  | cons k todo ih =>
    have hnext : c.vItem = (done ++ [k]) ++ todo := by
      rw [hitems, List.append_assoc, List.singleton_append]
    have hk : k ∉ done := by
      have hnodup := h.nodup
      rw [hnext] at hnodup
      have hfront := (List.nodup_append.mp hnodup).1
      rw [← List.concat_eq_append, List.nodup_concat] at hfront
      exact hfront.1
    have hone := h.one k (hitems ▸ List.mem_append_right _ List.mem_cons_self)
    rw [List.flatMap_cons]
    refine Reads.append ?_ (ih hnext)
    unfold itemString
    rw [find_subStrings]
    cases hkey : find c.mKeyValue k with
    | some v =>
      have hsection : find c.mSubConfig k = none := by
        rw [hkey] at hone
        cases hfind : find c.mSubConfig k with
        | none => rfl
        | some subcfg =>
          rw [hfind] at hone
          exact absurd rfl hone
      exact reads_keyValue h n.toNat hk hkey hsection
    | none =>
      cases hsection : find c.mSubConfig k with
      | none =>
        rw [hkey, hsection] at hone
        exact absurd rfl hone
      | some subcfg => exact reads_section h n.toNat hk hkey hsection (hin k subcfg hsection)

/-- What is printed of a configuration is read back, wherever the section stands. -/
theorem reads_toString (c : CConfig) (h : Everywhere Level c) (n : UInt32)
    (below : List (CConfig × Str)) :
    Reads (c.toString n) ⟨empty c.sNodeName, below⟩ ⟨c, below⟩ := by
  induction c using CConfig.induction generalizing n below with
  | h c ih =>
    obtain ⟨hlevel, hsubs⟩ := everywhere_iff.mp h
    rw [toString_eq]
    have hstart : c.vItem = [] ++ c.vItem := rfl
    refine reads_items hlevel n ?_ c.vItem hstart
    intro sKey subcfg hfind below
    rw [← (hlevel.names sKey subcfg hfind).2]
    exact ih sKey subcfg hfind (hsubs sKey subcfg hfind) (n + 1) below

/-! ## Configurations built by parsing -/

/-- Every item is met once, and is a key of exactly one of the two maps; the maps have no
other keys, and each key once. -/
structure ItemsOnce (c : CConfig) : Prop where
  once : c.vItem.Nodup
  one : ∀ k ∈ c.vItem, (k ∈ c.mKeyValue.map (·.1) ∧ k ∉ c.mSubConfig.map (·.1)) ∨
    (k ∉ c.mKeyValue.map (·.1) ∧ k ∈ c.mSubConfig.map (·.1))
  keyValues : (c.mKeyValue.map (·.1)).Nodup ∧ c.mKeyValue.map (·.1) ⊆ c.vItem
  sections : (c.mSubConfig.map (·.1)).Nodup ∧ c.mSubConfig.map (·.1) ⊆ c.vItem

theorem Level.itemsOnce (h : c.Level) : c.ItemsOnce where
  once := h.nodup
  one := by
    intro k hk
    have hone := h.one k hk
    rw [← Assoc.isSome_find_iff, ← Assoc.isSome_find_iff]
    cases hkey : (find c.mKeyValue k).isSome with
    | true =>
      rw [hkey] at hone
      exact .inl ⟨rfl, hone.symm⟩
    | false =>
      rw [hkey] at hone
      exact .inr ⟨Bool.false_ne_true, (Bool.eq_not_of_ne hone.symm)⟩
  keyValues := ⟨h.nodup.sublist h.keyValues.sublist, h.keyValues.sublist.subset⟩
  sections := ⟨h.nodup.sublist h.sections.sublist, h.sections.sublist.subset⟩

/-- A call of `parseString` keeps every level in order. -/
theorem everywhere_parses {c' : CConfig} {sData : Str} (h : Everywhere Level c)
    (hparses : c.parses sData = some c') :
    Everywhere Level c' ∧ c'.sNodeName = c.sNodeName := by
  have hsound : Stack.Sound c.sNodeName ⟨c, []⟩ := ⟨h, rfl⟩
  have hlines : ∀ line ∈ splitString sData newlines true, OneLine line :=
    fun line hline => UtilString.not_mem_of_mem_splitString hline
  unfold parses at hparses
  split at hparses
  · rename_i heq
    cases hparses
    have hbottom : c' = (Stack.parseLines ⟨c, []⟩ (splitString sData newlines true)).1.bottom :=
      (congrArg Prod.fst heq).symm
    rw [hbottom]
    exact (hsound.parseLines hlines).bottom
  · cases hparses

/-- A text that reads like a configuration parses to it. -/
theorem parseString_of_reads {text : Str} (h : Reads text ⟨empty [], []⟩ ⟨c, []⟩) :
    (empty []).parseString text = (c, none) := by
  obtain ⟨lines, rfl, hlines, hread⟩ := h
  have hsplit : splitString (lines.flatMap (· ++ ['\n'])) newlines true = lines :=
    UtilString.splitString_lines (by decide) hlines
  have hparse := hread []
  rw [List.append_nil] at hparse
  rw [parseString, hsplit, hparse]
  rfl

/-- What was built by parsing is in order, and has no name. -/
theorem everywhere_of_runs (h : Runs parses (fun _ _ => True) (empty []) c) :
    Everywhere Level c ∧ c.sNodeName = [] := by
  apply h.invariant (I := fun c => Everywhere Level c ∧ c.sNodeName = [])
  · intro x sData y hx _ hparses
    obtain ⟨hlevels, hname⟩ := everywhere_parses hx.1 hparses
    exact ⟨hlevels, hname.trans hx.2⟩
  · exact ⟨everywhere_empty [], rfl⟩

/-- Printed with any indent, it parses to itself. -/
theorem parseString_toString (h : Runs parses (fun _ _ => True) (empty []) c) (n : UInt32) :
    (empty []).parseString (c.toString n) = (c, none) := by
  obtain ⟨hlevels, hname⟩ := everywhere_of_runs h
  have hreads := reads_toString c hlevels n []
  rw [hname] at hreads
  exact parseString_of_reads hreads

/-- **Configuration text makes the round trip**: what was built by parsing has every item
once at every level, and printed with any indent it parses to itself. -/
theorem text_round_trip (h : Runs parses (fun _ _ => True) (empty []) c) :
    Everywhere ItemsOnce c ∧ ∀ n, (empty []).parseString (c.toString n) = (c, none) := by
  refine ⟨?_, parseString_toString h⟩
  intro d hd
  exact ((everywhere_of_runs h).1 d hd).itemsOnce

/-- A section that is reopened, an empty value, an empty key, and an `=` in a value. -/
theorem text_round_trip_of_reopened :
    ∃ c, Runs parses (fun _ _ => True) (empty []) c ∧
      c.toString 0 = "a = \n<s >\n  b = 2=3\n  c = 4\n</s >\n = v\n".toList ∧
      (Everywhere ItemsOnce c ∧ ∀ n, (empty []).parseString (c.toString n) = (c, none)) := by
  have hexec : ∃ c, Runs parses (fun _ _ => True) (empty []) c ∧
      decide (c.toString 0 =
        "a = \n<s >\n  b = 2=3\n  c = 4\n</s >\n = v\n".toList) = true :=
    exists_runs_of_schedule (empty [])
      ["# text\na\r\n<s >\n b=2=3\n</s >\n".toList, "= v\n<s >\nc = 4 ".toList] _
      (by decide +kernel)
  obtain ⟨c, hc, htext⟩ := hexec
  exact ⟨c, hc, of_decide_eq_true htext, text_round_trip hc⟩

end CConfig

end StormNet.Util
