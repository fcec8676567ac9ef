/-
  Framework/ProxyText.lean --- the ways to write an address for `ServiceProxy::parseFromString`.

  An endpoint is `tcp` and a list of options in any order, with blanks of any length between the
  words.  Whatever the words look like, the loop takes them two by two.
-/
import StormNet.Framework.ProxyString
import StormNet.Util.UtilText

set_option autoImplicit false

namespace StormNet.Framework

open StormNet.Util (Str)
open StormNet.Util.UtilString

namespace ProxyString

/-! ## Writing -/

/-- The separators in an endpoint. -/
def blanks : Str := [' ', '\t', '\r', '\n']

/-- A word that neither of the two splits cuts. -/
structure Plain (s : Str) : Prop where
  word : Word blanks s
  noColon : ':' ∉ s

/-- `-h host`, `-p port` and `-t value`. -/
inductive EndPointOption where
  | host (ip : Str)
  | port (n : Nat)
  | timeout (value : Str)
  deriving DecidableEq, Repr

namespace EndPointOption

def flag : EndPointOption → Str
  | .host _ => ['-', 'h']
  | .port _ => ['-', 'p']
  | .timeout _ => ['-', 't']

def arg : EndPointOption → Str
  | .host ip => ip
  | .port n => decimal n
  | .timeout value => value

/-- What the option does to the address. -/
def apply (a : Address) : EndPointOption → Address
  | .host ip => { a with ip := ip }
  | .port n => { a with port := n }
  | .timeout _ => a

def host? : EndPointOption → Option Str
  | .host ip => some ip
  | .port _ | .timeout _ => none

def port? : EndPointOption → Option Nat
  | .port n => some n
  | .host _ | .timeout _ => none

end EndPointOption

/-- An option with the blanks in front of its two words. -/
structure WrittenOption where
  before : Str
  option : EndPointOption
  between : Str
  deriving DecidableEq, Repr

/-- The two words with their blanks. -/
def WrittenOption.parts (o : WrittenOption) : List (Str × Str) :=
  [(o.before, o.option.flag), (o.between, o.option.arg)]

def writeEndPoint (options : List WrittenOption) : Str :=
  ['t', 'c', 'p'] ++ (options.flatMap WrittenOption.parts).flatMap (fun p => p.1 ++ p.2)

/-- The text is one of the endpoint: the options are one host, one port and any number of
values, in any order. -/
def Writes (a : Address) (desc : Str) : Prop :=
  ∃ (options : List WrittenOption) (values : List Str),
    (∀ o ∈ options, Gap blanks o.before ∧ Gap blanks o.between) ∧ (∀ v ∈ values, Plain v) ∧
    (options.map WrittenOption.option).Perm (.host a.ip :: .port a.port :: values.map .timeout) ∧
    desc = writeEndPoint options

/-- An address that can be written. -/
structure Writable (a : Address) : Prop where
  ip : Plain a.ip
  pos : 1 ≤ a.port
  lt : a.port < 2 ^ 32

/-! ## Reading -/

variable {a : Address} {desc : Str} {o : EndPointOption}

/-- A word that is known is checked character by character. -/
theorem plain_of_all {s : Str} (hne : s ≠ [])
    (h : s.all (fun c => decide (c ∉ blanks ∧ c ≠ ':')) = true) : Plain s := by
  have hall : ∀ c ∈ s, c ∉ blanks ∧ c ≠ ':' := fun c hc =>
    of_decide_eq_true (List.all_eq_true.mp h c hc)
  exact ⟨⟨hne, fun c hc => (hall c hc).1⟩, fun hc => (hall ':' hc).2 rfl⟩

theorem plain_decimal (n : Nat) : Plain (decimal n) := by
  have hall : blanks.all (fun x => x.isDigit = false) = true := by decide
  have hnone : ∀ x ∈ blanks, x.isDigit = false := fun x hx =>
    of_decide_eq_true (List.all_eq_true.mp hall x hx)
  refine ⟨⟨decimal_ne_nil n, ?_⟩, ?_⟩
  · intro c hc hblank
    exact ne_of_mem_decimal hc (hnone c hblank) rfl
  · intro hc
    exact ne_of_mem_decimal hc (by decide) rfl

/-- The words of the options of a writable address. -/
theorem plain_of_mem {values : List Str} (ha : Writable a) (hvalues : ∀ v ∈ values, Plain v)
    (ho : o ∈ EndPointOption.host a.ip :: .port a.port :: values.map .timeout) :
    Plain o.flag ∧ Plain o.arg := by
  have hflag : Plain o.flag := by
    cases o with
    | host _ => exact plain_of_all (List.cons_ne_nil _ _) rfl
    | port _ => exact plain_of_all (List.cons_ne_nil _ _) rfl
    | timeout _ => exact plain_of_all (List.cons_ne_nil _ _) rfl
  refine ⟨hflag, ?_⟩
  rcases List.mem_cons.mp ho with rfl | hrest
  · exact ha.ip
  · rcases List.mem_cons.mp hrest with rfl | htimeout
    · exact plain_decimal a.port
    · obtain ⟨v, hv, rfl⟩ := List.mem_map.mp htimeout
      exact hvalues v hv

/-- The loop goes through the options two words at a time. -/
theorem parseOptions_words {options : List EndPointOption}
    (h : ∀ o ∈ options, ∀ n, o = .port n → 1 ≤ n ∧ n < 2 ^ 32) (a : Address) :
    parseOptions a (options.flatMap (fun o => [o.flag, o.arg])) =
      some (options.foldl EndPointOption.apply a) := by
  induction options generalizing a with
  | nil => rfl
  | cons o options ih =>
    have hrest := ih (fun o' ho' => h o' (List.mem_cons_of_mem o ho'))
    rw [List.flatMap_cons, List.foldl_cons, ← hrest]
    cases o with
    | host ip => rfl
    | timeout value => rfl
    | port n =>
      obtain ⟨hpos, hlt⟩ := h (.port n) List.mem_cons_self n rfl
      show parseOptions { a with port := strtoUInt32 (decimal n) } _ = _
      rw [strtoUInt32_decimal hpos hlt]
      rfl

/-- The last host and the last port count. -/
theorem foldl_apply (options : List EndPointOption) (a : Address) :
    options.foldl EndPointOption.apply a =
      ⟨(options.filterMap EndPointOption.host?).getLast?.getD a.ip,
        (options.filterMap EndPointOption.port?).getLast?.getD a.port⟩ := by
  induction options generalizing a with
  | nil => rfl
  | cons o options ih =>
    rw [List.foldl_cons, ih, List.filterMap_cons, List.filterMap_cons]
    cases o with
    | host ip =>
      simp only [EndPointOption.apply, EndPointOption.host?, EndPointOption.port?,
        List.getLast?_cons, Option.getD_some]
    | port n =>
      simp only [EndPointOption.apply, EndPointOption.host?, EndPointOption.port?,
        List.getLast?_cons, Option.getD_some]
    | timeout value => rfl

section Written

variable {options : List WrittenOption} {values : List Str}

/-- What the values do not say is said by the host and the port alone. -/
theorem filterMap_of_perm {β : Type} {os : List EndPointOption} {f : EndPointOption → Option β}
    (hf : ∀ v, f (.timeout v) = none)
    (h : os.Perm (.host a.ip :: .port a.port :: values.map .timeout)) :
    (os.filterMap f).Perm ([EndPointOption.host a.ip, .port a.port].filterMap f) := by
  have hnone : (values.map EndPointOption.timeout).filterMap f = [] := by
    rw [List.filterMap_map]
    exact List.filterMap_eq_nil_iff.mpr (fun v _ => hf v)
  have hsplit : os.Perm ([.host a.ip, .port a.port] ++ values.map .timeout) := h
  have hperm := hsplit.filterMap f
  rwa [List.filterMap_append, hnone, List.append_nil] at hperm

/-- In any order. -/
theorem foldl_apply_of_perm {os : List EndPointOption}
    (h : os.Perm (.host a.ip :: .port a.port :: values.map .timeout)) (start : Address) :
    os.foldl EndPointOption.apply start = a := by
  have hhosts : os.filterMap EndPointOption.host? = [a.ip] :=
    List.perm_singleton.mp (filterMap_of_perm (fun _ => rfl) h)
  have hports : os.filterMap EndPointOption.port? = [a.port] :=
    List.perm_singleton.mp (filterMap_of_perm (fun _ => rfl) h)
  rw [foldl_apply, hhosts, hports]
  rfl

/-- The port is the only one. -/
theorem port_of_perm {os : List EndPointOption} (ha : Writable a)
    (h : os.Perm (.host a.ip :: .port a.port :: values.map .timeout)) :
    ∀ o ∈ os, ∀ n, o = .port n → 1 ≤ n ∧ n < 2 ^ 32 := by
  intro o ho n hn
  have hmem := h.subset ho
  rw [hn, List.mem_cons, List.mem_cons, List.mem_map] at hmem
  rcases hmem with hhost | hport | ⟨v, -, hv⟩
  · cases hhost
  · cases hport
    exact ⟨ha.pos, ha.lt⟩
  · cases hv

theorem length_words (os : List EndPointOption) :
    (os.flatMap (fun o => [o.flag, o.arg])).length = 2 * os.length := by
  induction os with
  | nil => rfl
  | cons o os ih =>
    rw [List.flatMap_cons, List.length_append, ih, List.length_cons]
    simp only [List.length_cons, List.length_nil]
    omega

/-- The blanks and the words of the options. -/
theorem parts_of_writes (ha : Writable a)
    (hgaps : ∀ o ∈ options, Gap blanks o.before ∧ Gap blanks o.between)
    (hvalues : ∀ v ∈ values, Plain v)
    (hperm : (options.map WrittenOption.option).Perm
      (.host a.ip :: .port a.port :: values.map .timeout)) :
    ∀ p ∈ options.flatMap WrittenOption.parts, Gap blanks p.1 ∧ Plain p.2 := by
  intro p hp
  obtain ⟨o, ho, hpo⟩ := List.mem_flatMap.mp hp
  have hplain : Plain o.option.flag ∧ Plain o.option.arg :=
    plain_of_mem ha hvalues (hperm.subset (List.mem_map_of_mem ho))
  rcases List.mem_cons.mp hpo with rfl | hpo
  · exact ⟨(hgaps o ho).1, hplain.1⟩
  · rw [List.mem_singleton.mp hpo]
    exact ⟨(hgaps o ho).2, hplain.2⟩

theorem plain_tcp : Plain ['t', 'c', 'p'] := plain_of_all (List.cons_ne_nil _ _) (by decide)

/-- The blanks split an endpoint into its words. -/
theorem splitString_writeEndPoint
    (h : ∀ p ∈ options.flatMap WrittenOption.parts, Gap blanks p.1 ∧ Plain p.2) :
    splitString (writeEndPoint options) blanks true = ['t', 'c', 'p'] ::
      (options.map WrittenOption.option).flatMap (fun o => [o.flag, o.arg]) := by
  unfold writeEndPoint
  rw [splitString_words plain_tcp.word (fun p hp => ⟨(h p hp).1, (h p hp).2.word⟩),
    List.map_flatMap, List.flatMap_map]
  rfl

/-- And there is no colon in it. -/
theorem word_writeEndPoint
    (h : ∀ p ∈ options.flatMap WrittenOption.parts, Gap blanks p.1 ∧ Plain p.2) :
    Word [':'] (writeEndPoint options) := by
  have hcolon : ':' ∉ writeEndPoint options := by
    intro hmem
    rcases List.mem_append.mp hmem with hfirst | hrest
    · exact plain_tcp.noColon hfirst
    · obtain ⟨p, hp, hc⟩ := List.mem_flatMap.mp hrest
      rcases List.mem_append.mp hc with hgap | hword
      · have hblank := (h p hp).1.onlySep ':' hgap
        exact absurd hblank (by decide)
      · exact (h p hp).2.noColon hword
  refine ⟨List.append_ne_nil_of_left_ne_nil plain_tcp.word.ne_nil _, ?_⟩
  intro c hc hsep
  rw [List.mem_singleton.mp hsep] at hc
  exact hcolon hc

end Written

/-- An endpoint is read as it was written. -/
theorem parseEndPoint_of_writes (ha : Writable a) (h : Writes a desc) :
    parseEndPoint desc = some a ∧ Word [':'] desc := by
  obtain ⟨options, values, hgaps, hvalues, hperm, rfl⟩ := h
  have hparts := parts_of_writes ha hgaps hvalues hperm
  refine ⟨?_, word_writeEndPoint hparts⟩
  have hlen : ((options.map WrittenOption.option).flatMap (fun o => [o.flag, o.arg])).length =
      2 * (values.length + 2) := by
    rw [length_words, hperm.length_eq, List.length_cons, List.length_cons, List.length_map]
  have hread := parseOptions_words (port_of_perm ha hperm) ⟨[], 0⟩
  rw [foldl_apply_of_perm hperm] at hread
  have hfull : (!a.ip.isEmpty && decide (a.port ≠ 0)) = true := by
    have hpos := ha.pos
    rw [List.isEmpty_eq_false_iff.mpr ha.ip.word.ne_nil, decide_eq_true (by omega)]
    rfl
  unfold parseEndPoint
  rw [show " \t\r\n".toList = blanks from rfl]
  simp only [splitString_writeEndPoint hparts, List.length_cons, hlen, List.tail_cons, hread]
  rw [if_neg (by omega), if_neg (by simp), Option.filter_some, if_pos hfull]

/-- **Endpoint strings parse back.**  Any number of endpoints, each written in any way, behind
a name without `@`: the parse succeeds without the registry, and pushes these endpoints in
order. -/
theorem parse_written (setName name : Str) (endPoints : List Address) (descs : List Str)
    (hname : '@' ∉ name) (haddr : ∀ a ∈ endPoints, Writable a)
    (h : List.Forall₂ Writes endPoints descs) :
    parseFromString (name ++ '@' :: List.intercalate [':'] descs) setName =
      some { setName := setName
             needLocator := false
             name := name ++ "Proxy".toList
             endPoints := endPoints } := by
  have hread : (∀ desc ∈ descs, Word [':'] desc) ∧ descs.mapM parseEndPoint = some endPoints := by
    induction h with
    | nil => exact ⟨fun _ hd => (nomatch hd), rfl⟩
    | @cons a desc endPoints descs hfirst _ ih =>
      obtain ⟨hwords, hlater⟩ := ih (fun a' ha' => haddr a' (List.mem_cons_of_mem a ha'))
      obtain ⟨hparse, hword⟩ := parseEndPoint_of_writes (haddr a List.mem_cons_self) hfirst
      refine ⟨List.forall_mem_cons.mpr ⟨hword, hwords⟩, ?_⟩
      rw [List.mapM_cons, hparse, hlater]
      rfl
  obtain ⟨hwords, hmap⟩ := hread
  have hat : '@' ∈ name ++ '@' :: List.intercalate [':'] descs :=
    List.mem_append_right _ List.mem_cons_self
  have hne : ∀ c ∈ name, decide (c ≠ '@') = true := by
    intro c hc
    refine decide_eq_true ?_
    intro heq
    exact hname (heq ▸ hc)
  have htake : (name ++ '@' :: List.intercalate [':'] descs).takeWhile (· ≠ '@') = name := by
    rw [List.takeWhile_append_of_pos hne, List.takeWhile_cons_of_neg (by simp), List.append_nil]
  have hdrop : (name ++ '@' :: List.intercalate [':'] descs).dropWhile (· ≠ '@') =
      '@' :: List.intercalate [':'] descs := by
    rw [List.dropWhile_append_of_pos hne, List.dropWhile_cons_of_neg (by simp)]
  unfold parseFromString
  simp only [if_pos hat, htake, hdrop, List.tail_cons]
  rw [show ":".toList = [':'] from rfl, splitString_intercalate hwords, hmap]
  rfl

/-- An endpoint with the port in front of the host, and a value that looks like an option. -/
def portFirst : List WrittenOption :=
  [⟨['\t'], .timeout ['-', 'h'], [' ']⟩, ⟨[' ', ' '], .port 4294967295, [' ']⟩,
    ⟨[' '], .host ['@'], [' ']⟩]

theorem parse_written_of_two : parseFromString
    "app.S@tcp -h a -p 80:tcp\t-t -h  -p 4294967295 -h @".toList [] =
      some { setName := [], needLocator := false, name := "app.SProxy".toList
             endPoints := [⟨['a'], 80⟩, ⟨['@'], 4294967295⟩] } := by
  have ha : Writable ⟨['a'], 80⟩ :=
    ⟨plain_of_all (List.cons_ne_nil _ _) (by decide), by decide, by decide⟩
  have hat : Writable ⟨['@'], 4294967295⟩ :=
    ⟨plain_of_all (List.cons_ne_nil _ _) (by decide), by decide, by decide⟩
  have hgap : Gap blanks [' '] := ⟨List.cons_ne_nil _ _, by simp [blanks]⟩
  have hfirst : Writes ⟨['a'], 80⟩
      (writeEndPoint [⟨[' '], .host ['a'], [' ']⟩, ⟨[' '], .port 80, [' ']⟩]) := by
    refine ⟨_, [], ?_, fun _ hv => (nomatch hv), List.Perm.refl _, rfl⟩
    simp [hgap]
  have hsecond : Writes ⟨['@'], 4294967295⟩ (writeEndPoint portFirst) := by
    refine ⟨portFirst, [['-', 'h']], ?_, ?_, by decide, rfl⟩
    · have htab : Gap blanks ['\t'] := ⟨List.cons_ne_nil _ _, by simp [blanks]⟩
      have htwo : Gap blanks [' ', ' '] := ⟨List.cons_ne_nil _ _, by simp [blanks]⟩
      simp [portFirst, hgap, htab, htwo]
    · exact List.forall_mem_singleton.mpr (plain_of_all (List.cons_ne_nil _ _) (by decide))
  exact parse_written [] "app.S".toList _ _ (by decide)
    (List.forall_mem_cons.mpr ⟨ha, List.forall_mem_singleton.mpr hat⟩)
    (.cons hfirst (.cons hsecond .nil))

end ProxyString

end StormNet.Framework
