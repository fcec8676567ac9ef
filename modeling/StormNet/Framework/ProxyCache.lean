/-
  Framework/ProxyCache.lean --- `ServiceProxyManager::stringToProxy` of
  `framework/storm_proxy_manager.h` on any number of threads.

  A call is cut where it gives `m_mutex` up: the lookup with the insertion, the parse, the
  erasure behind a failed parse.  A new proxy stands in `m_proxys` before it is parsed, and
  the key leaves the set name out; so what a lookup finds may be unparsed, deleted, or
  parsed for another set.

  `returned` is a record of the pointers handed out and of what they led to at that moment.
-/
import Mathlib.Logic.Function.Basic
import Mathlib.Data.Option.Defs
import StormNet.Foundation.Transition
import StormNet.Framework.ProxyString

set_option autoImplicit false

namespace StormNet.Framework

open StormNet.Foundation
open StormNet.Util (Str)
open Function (update)

/-! ## Data -/

/-- A `ServiceProxy*`; no reference is used twice. -/
abbrev ProxyRef := Nat

/-- A class of proxies: the `T` of `stringToProxy<T>`. -/
abbrev ProxyClass := Nat

/-- What has become of a proxy object. -/
inductive ProxyStatus where
  /-- `parseFromString` has not returned -/
  | parsing
  /-- `parseFromString` has returned true -/
  | parsed (fields : ProxyString)
  | deleted
  deriving DecidableEq, Repr

/-- The fields of a proxy whose parse has succeeded. -/
def ProxyStatus.fields : ProxyStatus → Option ProxyString
  | .parsed fields => some fields
  | _ => none

/-- A call `stringToProxy<cls>(serviceName, setName)`. -/
structure ProxyCall where
  cls : ProxyClass
  serviceName : Str
  setName : Str
  deriving DecidableEq, Repr

/-- A proxy object: the call that made it, with the `T` of its class, and what has become of
it. -/
structure Proxy where
  call : ProxyCall
  status : ProxyStatus
  deriving DecidableEq, Repr

/-- What the strings of a call parse to. -/
def ProxyCall.parse (call : ProxyCall) : Option ProxyString :=
  ProxyString.parseFromString call.serviceName call.setName

/-- Where a thread is in `stringToProxy`. -/
inductive CacheStage where
  | idle
  /-- the new proxy `r` is in the map, the mutex is free, `parseFromString` runs -/
  | parsing (call : ProxyCall) (r : ProxyRef)
  /-- the parse has failed and `r` is deleted, the erasure comes next -/
  | failed (call : ProxyCall) (r : ProxyRef)
  deriving DecidableEq, Repr

/-- The proxy that a thread has put into the map and not finished yet. -/
def CacheStage.holds : CacheStage → Option (ProxyCall × ProxyRef)
  | .idle => none
  | .parsing call r => some (call, r)
  | .failed call r => some (call, r)

/-- A pointer that a call has returned, what it led to at that moment, and whether it
stood in `m_proxys` then. -/
structure Handed where
  call : ProxyCall
  r : ProxyRef
  status : ProxyStatus
  listed : Bool
  deriving DecidableEq, Repr

/-- `ServiceProxyManager` with the proxies it has made and the threads in it. -/
structure ProxyManager where
  /-- `m_proxys` -/
  proxys : Str → Option ProxyRef
  proxy : ProxyRef → Proxy
  /-- the references from here on are not used yet -/
  next : ProxyRef
  stage : Nat → CacheStage
  returned : List Handed

namespace ProxyManager

/-! ## The steps -/

def new : ProxyManager where
  proxys _ := none
  proxy _ := ⟨⟨0, [], []⟩, .deleted⟩
  next := 0
  stage _ := .idle
  returned := []

/-- `return r` of a call; a NULL is not recorded. -/
def handOut (s : ProxyManager) (call : ProxyCall) (r : Option ProxyRef) : ProxyManager :=
  { s with returned := s.returned ++ r.toList.map (fun r =>
      ⟨call, r, (s.proxy r).status, decide (s.proxys call.serviceName = some r)⟩) }

/-- `dynamic_cast<T*>`, with `isA k T` for "`k` is `T` or derives from it".  The cast of a
deleted object reads freed memory and may hand the pointer out. -/
def dynamicCast (isA : ProxyClass → ProxyClass → Bool) (s : ProxyManager) (cls : ProxyClass)
    (r : ProxyRef) : Option ProxyRef :=
  if (s.proxy r).status = .deleted || isA (s.proxy r).call.cls cls then some r else none

/-- The locked part of `stringToProxy`. -/
def stringToProxy (isA : ProxyClass → ProxyClass → Bool) (s : ProxyManager) (tid : Nat)
    (call : ProxyCall) : Option ProxyManager :=
  if s.stage tid ≠ .idle then none
  else
    match s.proxys call.serviceName with
    | some r => some (s.handOut call (s.dynamicCast isA call.cls r))
    | none => some { s with
        proxy := update s.proxy s.next ⟨call, .parsing⟩
        proxys := update s.proxys call.serviceName (some s.next)
        stage := update s.stage tid (.parsing call s.next)
        next := s.next + 1 }

/-- The object `r` becomes `status`. -/
def become (s : ProxyManager) (r : ProxyRef) (status : ProxyStatus) : ProxyManager :=
  { s with proxy := update s.proxy r { s.proxy r with status := status } }

def goTo (s : ProxyManager) (tid : Nat) (stage : CacheStage) : ProxyManager :=
  { s with stage := update s.stage tid stage }

/-- `parseFromString` returns: `return proxy`, or `delete proxy`. -/
def parsed (s : ProxyManager) (tid : Nat) : Option ProxyManager :=
  match s.stage tid with
  | .parsing call r =>
      match call.parse with
      | some fields => some (((s.become r (.parsed fields)).goTo tid .idle).handOut call (some r))
      | none => some ((s.become r .deleted).goTo tid (.failed call r))
  | _ => none

/-- `m_proxys.erase(serviceName)` and `return NULL`. -/
def erase (s : ProxyManager) (tid : Nat) : Option ProxyManager :=
  match s.stage tid with
  | .failed call _ => some
      { (s.goTo tid .idle) with proxys := update s.proxys call.serviceName none }
  | _ => none

inductive Action where
  | stringToProxy (tid : Nat) (call : ProxyCall)
  | parsed (tid : Nat)
  | erase (tid : Nat)
  deriving DecidableEq, Repr

def step (isA : ProxyClass → ProxyClass → Bool) (s : ProxyManager) : Action → Option ProxyManager
  | .stringToProxy tid call => s.stringToProxy isA tid call
  | .parsed tid => s.parsed tid
  | .erase tid => s.erase tid

/-! ## What is asked for -/

end ProxyManager

/-- The pointer leads to a proxy in the map whose `parseFromString` has succeeded with the
strings of the call. -/
def Handed.AskedFor (a : Handed) : Prop :=
  a.status.fields.isSome ∧ a.status.fields = a.call.parse ∧ a.listed = true

instance (a : Handed) : Decidable a.AskedFor :=
  inferInstanceAs (Decidable (_ ∧ _ ∧ _))

namespace ProxyManager

/-- No thread is in the call that made `r`. -/
def Finished (s : ProxyManager) (r : ProxyRef) : Prop :=
  ∀ tid call, (s.stage tid).holds ≠ some (call, r)

/-- A call whose lookup hits and whose cast succeeds finds the proxy of a call that is over and
was for the same set. -/
def Settled (isA : ProxyClass → ProxyClass → Bool) (s : ProxyManager) : Action → Prop
  | .stringToProxy _ call =>
      ∀ r ∈ (s.proxys call.serviceName).bind (s.dynamicCast isA call.cls),
        s.Finished r ∧ (s.proxy r).call.setName = call.setName
  | _ => True

/-! ## What a step does -/

variable {isA : ProxyClass → ProxyClass → Bool} {s t : ProxyManager} {a : Action}

@[simp] theorem handOut_none (s : ProxyManager) (call : ProxyCall) : s.handOut call none = s := by
  simp [handOut]

theorem eq_of_dynamicCast {cls : ProxyClass} {r r' : ProxyRef}
    (h : s.dynamicCast isA cls r = some r') : r' = r := by
  unfold dynamicCast at h
  split at h
  · exact (Option.some.inj h).symm
  · cases h

/-- Everything a step can be. -/
inductive StepCases (isA : ProxyClass → ProxyClass → Bool) (s : ProxyManager) :
    Action → ProxyManager → Prop
  | hit {tid : Nat} {call : ProxyCall} {r : ProxyRef} (hidle : s.stage tid = .idle)
      (hfound : s.proxys call.serviceName = some r) :
      StepCases isA s (.stringToProxy tid call) (s.handOut call (s.dynamicCast isA call.cls r))
  | miss {tid : Nat} {call : ProxyCall} (hidle : s.stage tid = .idle)
      (hnone : s.proxys call.serviceName = none) :
      StepCases isA s (.stringToProxy tid call) { s with
        proxy := update s.proxy s.next ⟨call, .parsing⟩
        proxys := update s.proxys call.serviceName (some s.next)
        stage := update s.stage tid (.parsing call s.next)
        next := s.next + 1 }
  | parsed {tid : Nat} {call : ProxyCall} {r : ProxyRef} {fields : ProxyString}
      (hstage : s.stage tid = .parsing call r) (hparse : call.parse = some fields) :
      StepCases isA s (.parsed tid)
        (((s.become r (.parsed fields)).goTo tid .idle).handOut call (some r))
  | failed {tid : Nat} {call : ProxyCall} {r : ProxyRef}
      (hstage : s.stage tid = .parsing call r) (hparse : call.parse = none) :
      StepCases isA s (.parsed tid) ((s.become r .deleted).goTo tid (.failed call r))
  | erased {tid : Nat} {call : ProxyCall} {r : ProxyRef}
      (hstage : s.stage tid = .failed call r) :
      StepCases isA s (.erase tid)
        { (s.goTo tid .idle) with proxys := update s.proxys call.serviceName none }

theorem step_cases (h : step isA s a = some t) : StepCases isA s a t := by
  cases a with
  | stringToProxy tid call =>
    simp only [step, stringToProxy] at h
    split at h
    · cases h
    · rename_i hidle
      have hidle : s.stage tid = .idle := Decidable.not_not.mp hidle
      split at h
      · rename_i r hfound
        cases h
        exact .hit hidle hfound
      · rename_i hnone
        cases h
        exact .miss hidle hnone
  | parsed tid =>
    simp only [step, ProxyManager.parsed] at h
    split at h
    · rename_i call r hstage
      split at h
      · rename_i fields hparse
        cases h
        exact .parsed hstage hparse
      · rename_i hparse
        cases h
        exact .failed hstage hparse
    · cases h
  | erase tid =>
    simp only [step, ProxyManager.erase] at h
    split at h
    · rename_i call r hstage
      cases h
      exact .erased hstage
    · cases h

/-! ## Who holds what -/

/-- A proxy that is not finished stands in the map under its name, and one thread has it. -/
structure Inv (s : ProxyManager) : Prop where
  listed : ∀ tid call r, (s.stage tid).holds = some (call, r) →
    s.proxys call.serviceName = some r
  mapped : ∀ name r, s.proxys name = some r → r < s.next
  owner : ∀ tid tid' call call' r, (s.stage tid).holds = some (call, r) →
    (s.stage tid').holds = some (call', r) → tid = tid'

theorem inv_new : new.Inv :=
  ⟨fun _ _ _ h => (nomatch h), fun _ _ h => (nomatch h), fun _ _ _ _ _ h => (nomatch h)⟩

/-- The map and the stages decide; handing out and changing an object touch neither. -/
theorem Inv.frame (h : s.Inv) (hproxys : t.proxys = s.proxys) (hnext : t.next = s.next)
    (hstage : t.stage = s.stage) : t.Inv := by
  refine ⟨?_, ?_, ?_⟩
  · rw [hproxys, hstage]
    exact h.listed
  · rw [hproxys, hnext]
    exact h.mapped
  · rw [hstage]
    exact h.owner

/-- A thread that lets go of nothing but what it held. -/
theorem Inv.goTo (h : s.Inv) {tid : Nat} {stage : CacheStage}
    (hsub : ∀ held, stage.holds = some held → (s.stage tid).holds = some held) :
    (s.goTo tid stage).Inv := by
  have hback : ∀ tid' held, ((s.goTo tid stage).stage tid').holds = some held →
      (s.stage tid').holds = some held := by
    intro tid' held hheld
    simp only [ProxyManager.goTo, Function.update_apply] at hheld
    split at hheld
    · rename_i heq
      rw [heq]
      exact hsub held hheld
    · exact hheld
  refine ⟨?_, h.mapped, ?_⟩
  · intro tid' call r hheld
    exact h.listed tid' call r (hback tid' _ hheld)
  · intro tid' tid'' call call' r hheld hheld'
    exact h.owner tid' tid'' call call' r (hback tid' _ hheld) (hback tid'' _ hheld')

theorem Inv.miss (h : s.Inv) {tid : Nat} {call : ProxyCall}
    (hnone : s.proxys call.serviceName = none) (p : ProxyRef → Proxy) :
    Inv { s with
      proxy := p
      proxys := update s.proxys call.serviceName (some s.next)
      stage := update s.stage tid (.parsing call s.next)
      next := s.next + 1 } := by
  have hold : ∀ tid' call' r, (s.stage tid').holds = some (call', r) → r < s.next := by
    intro tid' call' r hheld
    exact h.mapped _ _ (h.listed tid' call' r hheld)
  -- what a thread holds now: the new proxy if it is the caller, else what it held before
  have hnow : ∀ tid' call' r,
      (update s.stage tid (.parsing call s.next) tid').holds = some (call', r) →
      (tid' = tid ∧ call' = call ∧ r = s.next) ∨
        (tid' ≠ tid ∧ (s.stage tid').holds = some (call', r)) := by
    intro tid' call' r hheld
    rw [Function.update_apply] at hheld
    split at hheld
    · rename_i heq
      cases hheld
      exact .inl ⟨heq, rfl, rfl⟩
    · rename_i hne
      exact .inr ⟨hne, hheld⟩
  refine ⟨?_, ?_, ?_⟩
  · intro tid' call' r hheld
    rcases hnow tid' call' r hheld with ⟨-, rfl, rfl⟩ | ⟨-, hheld'⟩
    · exact Function.update_self ..
    · have hlisted := h.listed tid' call' r hheld'
      show update s.proxys call.serviceName (some s.next) call'.serviceName = some r
      rw [Function.update_of_ne, hlisted]
      intro heq
      rw [heq, hnone] at hlisted
      cases hlisted
  · intro name r hmap
    show r < s.next + 1
    have hmap : update s.proxys call.serviceName (some s.next) name = some r := hmap
    rw [Function.update_apply] at hmap
    split at hmap
    · cases hmap
      exact Nat.lt_succ_self _
    · exact Nat.lt_succ_of_lt (h.mapped name r hmap)
  · intro tid' tid'' call' call'' r hheld hheld'
    rcases hnow tid' call' r hheld with ⟨rfl, -, rfl⟩ | ⟨-, h₁⟩
    · rcases hnow tid'' call'' _ hheld' with ⟨rfl, -, -⟩ | ⟨-, h₂⟩
      · rfl
      · exact absurd (hold _ _ _ h₂) (Nat.lt_irrefl _)
    · rcases hnow tid'' call'' r hheld' with ⟨-, -, rfl⟩ | ⟨-, h₂⟩
      · exact absurd (hold _ _ _ h₁) (Nat.lt_irrefl _)
      · exact h.owner tid' tid'' call' call'' r h₁ h₂

/-- An erasure removes the thread's own entry and nobody else's. -/
theorem Inv.erase (h : s.Inv) {tid : Nat} {call : ProxyCall} {r : ProxyRef}
    (hstage : s.stage tid = .failed call r) :
    Inv { (s.goTo tid .idle) with proxys := update s.proxys call.serviceName none } := by
  have hmine : (s.stage tid).holds = some (call, r) := by rw [hstage]; rfl
  have hidle : (s.goTo tid .idle).Inv := h.goTo (fun _ hheld => nomatch hheld)
  refine ⟨?_, ?_, hidle.owner⟩
  · intro tid' call' r' hheld
    have hlisted := hidle.listed tid' call' r' hheld
    show update s.proxys call.serviceName none call'.serviceName = some r'
    rw [Function.update_of_ne]
    · exact hlisted
    · intro heq
      have hlisted : s.proxys call'.serviceName = some r' := hlisted
      rw [heq, h.listed tid call r hmine] at hlisted
      cases hlisted
      have hne : tid' ≠ tid := by
        rintro rfl
        simp [ProxyManager.goTo, CacheStage.holds] at hheld
      have hheld : (s.stage tid').holds = some (call', r) := by
        simpa only [ProxyManager.goTo, Function.update_of_ne hne] using hheld
      exact hne (h.owner tid' tid call' call r hheld hmine)
  · intro name r' hmap
    have hmap : update s.proxys call.serviceName none name = some r' := hmap
    rw [Function.update_apply] at hmap
    split at hmap
    · cases hmap
    · exact h.mapped name r' hmap

theorem Inv.step (h : s.Inv) (hstep : ProxyManager.step isA s a = some t) : t.Inv := by
  cases step_cases hstep with
  | hit _ _ => exact h.frame rfl rfl rfl
  | miss _ hnone => exact h.miss hnone _
  | @parsed tid call r fields hstage hparse =>
    have hgo : ((s.become r (.parsed fields)).goTo tid .idle).Inv :=
      Inv.goTo (s := s.become r (.parsed fields)) (h.frame rfl rfl rfl)
        (fun _ hheld => nomatch hheld)
    exact hgo.frame rfl rfl rfl
  | @failed tid call r hstage hparse =>
    apply Inv.goTo (s := s.become r .deleted) (h.frame rfl rfl rfl)
    intro held hheld
    rw [show (s.become r .deleted).stage tid = s.stage tid from rfl, hstage]
    exact hheld
  | erased hstage => exact h.erase hstage

/-! ## What stands in the map -/

/-- A proxy that a thread has is its own and not parsed; any other one in the map is parsed with
the strings of the call that made it. -/
structure Made (s : ProxyManager) : Prop where
  own : ∀ tid call r, (s.stage tid).holds = some (call, r) →
    (s.proxy r).call = call ∧ (s.proxy r).status.fields = none
  name : ∀ name r, s.proxys name = some r → (s.proxy r).call.serviceName = name
  parsed : ∀ name r, s.proxys name = some r → s.Finished r →
    (s.proxy r).status.fields.isSome ∧ (s.proxy r).status.fields = (s.proxy r).call.parse

theorem made_new : new.Made :=
  ⟨fun _ _ _ h => (nomatch h), fun _ _ h => (nomatch h), fun _ _ h => (nomatch h)⟩

/-- What the others hold is none of the thread's business. -/
theorem holds_goTo_of_ne {tid tid' : Nat} {stage : CacheStage} (hne : tid' ≠ tid) :
    ((s.goTo tid stage).stage tid').holds = (s.stage tid').holds :=
  congrArg CacheStage.holds (Function.update_of_ne hne ..)

/-- A thread that goes on with what it had, or with nothing, leaves the rest as finished as it
was. -/
theorem finished_of_goTo {tid : Nat} {call : ProxyCall} {r r' : ProxyRef} {stage : CacheStage}
    (hmine : (s.stage tid).holds = some (call, r)) (hne : r' ≠ r)
    (h : (s.goTo tid stage).Finished r') : s.Finished r' := by
  intro tid' call' hheld
  by_cases htid : tid' = tid
  · rw [htid, hmine] at hheld
    cases hheld
    exact hne rfl
  · exact h tid' call' ((holds_goTo_of_ne htid).trans hheld)

theorem Made.miss (hinv : s.Inv) (h : s.Made) {tid : Nat} {call : ProxyCall}
    (hidle : s.stage tid = .idle) :
    Made { s with
      proxy := update s.proxy s.next ⟨call, .parsing⟩
      proxys := update s.proxys call.serviceName (some s.next)
      stage := update s.stage tid (.parsing call s.next)
      next := s.next + 1 } := by
  have hold : ∀ r, r < s.next → update s.proxy s.next ⟨call, .parsing⟩ r = s.proxy r :=
    fun r hr => Function.update_of_ne (Nat.ne_of_lt hr) ..
  have hnew : (update s.stage tid (.parsing call s.next) tid).holds = some (call, s.next) := by
    rw [Function.update_self]
    rfl
  -- what stands in the map is the new proxy or an older one
  have hcases : ∀ name r, update s.proxys call.serviceName (some s.next) name = some r →
      (name = call.serviceName ∧ r = s.next) ∨ s.proxys name = some r := by
    intro name r hmap
    rw [Function.update_apply] at hmap
    split at hmap
    · rename_i hname
      exact .inl ⟨hname, (Option.some.inj hmap).symm⟩
    · exact .inr hmap
  refine ⟨?_, ?_, ?_⟩
  · intro tid' call' r hheld
    by_cases htid : tid' = tid
    · rw [htid] at hheld
      obtain ⟨rfl, rfl⟩ := Prod.mk.inj (Option.some.inj (hnew.symm.trans hheld))
      simp only [Function.update_self, ProxyStatus.fields, and_self]
    · have hheld : (s.stage tid').holds = some (call', r) :=
        (congrArg CacheStage.holds (Function.update_of_ne htid ..)).symm.trans hheld
      have hlt := hinv.mapped _ _ (hinv.listed tid' call' r hheld)
      simp only [hold r hlt]
      exact h.own tid' call' r hheld
  · intro name r hmap
    rcases hcases name r hmap with ⟨rfl, rfl⟩ | hmap
    · simp only [Function.update_self]
    · simp only [hold r (hinv.mapped name r hmap)]
      exact h.name name r hmap
  · intro name r hmap hfinished
    rcases hcases name r hmap with ⟨-, rfl⟩ | hmap
    · exact absurd hnew (hfinished tid call)
    · simp only [hold r (hinv.mapped name r hmap)]
      refine h.parsed name r hmap fun tid' call' hheld => hfinished tid' call' ?_
      have htid : tid' ≠ tid := by
        rintro rfl
        rw [hidle] at hheld
        cases hheld
      show (update s.stage tid _ tid').holds = _
      rwa [Function.update_of_ne htid]

/-- The object of a thread is parsed or deleted. -/
theorem Made.become (hinv : s.Inv) (h : s.Made) {tid : Nat} {call : ProxyCall} {r : ProxyRef}
    (hmine : (s.stage tid).holds = some (call, r)) {status : ProxyStatus} {stage : CacheStage}
    (hstage : stage.holds = none ∧ status.fields.isSome ∧ status.fields = call.parse ∨
      stage.holds = some (call, r) ∧ status.fields = none) :
    ((s.become r status).goTo tid stage).Made := by
  let t := (s.become r status).goTo tid stage
  have hself : t.proxy r = { s.proxy r with status := status } := Function.update_self ..
  have hother : ∀ r', r' ≠ r → t.proxy r' = s.proxy r' := fun r' hr => Function.update_of_ne hr ..
  have hcall : ∀ r', (t.proxy r').call = (s.proxy r').call := by
    intro r'
    by_cases hr : r' = r
    · rw [hr, hself]
    · rw [hother r' hr]
  have hnow : (t.stage tid).holds = stage.holds := by
    rw [show t.stage tid = stage from Function.update_self ..]
  refine ⟨?_, ?_, ?_⟩
  · intro tid' call' r' hheld
    by_cases htid : tid' = tid
    · rw [htid, hnow] at hheld
      rcases hstage with ⟨hnone, -, -⟩ | ⟨hheld', hfields⟩
      · rw [hnone] at hheld
        cases hheld
      · obtain ⟨rfl, rfl⟩ := Prod.mk.inj (Option.some.inj (hheld'.symm.trans hheld))
        refine ⟨(hcall r).trans (h.own tid call r hmine).1, ?_⟩
        rw [hself]
        exact hfields
    · rw [holds_goTo_of_ne htid] at hheld
      have hr : r' ≠ r := by
        rintro rfl
        exact htid (hinv.owner tid' tid call' call r' hheld hmine)
      rw [hother r' hr]
      exact h.own tid' call' r' hheld
  · intro name r' hmap
    exact (congrArg ProxyCall.serviceName (hcall r')).trans (h.name name r' hmap)
  · intro name r' hmap hfinished
    by_cases hr : r' = r
    · subst hr
      rcases hstage with ⟨-, hsome, hparse⟩ | ⟨hheld, -⟩
      · rw [hcall, hself, (h.own tid call r' hmine).1]
        exact ⟨hsome, hparse⟩
      · exact absurd (hnow.trans hheld) (hfinished tid call)
    · rw [hother r' hr]
      exact h.parsed name r' hmap (finished_of_goTo (s := s.become r status) hmine hr hfinished)

theorem Made.erase (hinv : s.Inv) (h : s.Made) {tid : Nat} {call : ProxyCall} {r : ProxyRef}
    (hmine : (s.stage tid).holds = some (call, r)) :
    Made { (s.goTo tid .idle) with proxys := update s.proxys call.serviceName none } := by
  have hcases : ∀ name r', update s.proxys call.serviceName none name = some r' →
      r' ≠ r ∧ s.proxys name = some r' := by
    intro name r' hmap
    rw [Function.update_apply] at hmap
    split at hmap
    · cases hmap
    · rename_i hname
      refine ⟨?_, hmap⟩
      rintro rfl
      have hlisted := h.name _ r' (hinv.listed tid call r' hmine)
      exact hname ((h.name name r' hmap).symm.trans hlisted)
  refine ⟨?_, ?_, ?_⟩
  · intro tid' call' r' hheld
    by_cases htid : tid' = tid
    · rw [htid] at hheld
      simp [ProxyManager.goTo, CacheStage.holds] at hheld
    · exact h.own tid' call' r' ((holds_goTo_of_ne htid).symm.trans hheld)
  · intro name r' hmap
    exact h.name name r' (hcases name r' hmap).2
  · intro name r' hmap hfinished
    obtain ⟨hne, hmap⟩ := hcases name r' hmap
    exact h.parsed name r' hmap (finished_of_goTo hmine hne hfinished)

theorem Made.step (hinv : s.Inv) (h : s.Made) (hstep : ProxyManager.step isA s a = some t) :
    t.Made := by
  cases step_cases hstep with
  | hit _ _ => exact ⟨h.own, h.name, h.parsed⟩
  | miss hidle _ => exact h.miss hinv hidle
  | @parsed tid call r fields hstage hparse =>
    have hmine : (s.stage tid).holds = some (call, r) := by rw [hstage]; rfl
    have hmade : ((s.become r (.parsed fields)).goTo tid .idle).Made :=
      h.become hinv hmine (.inl ⟨rfl, rfl, hparse.symm⟩)
    exact ⟨hmade.own, hmade.name, hmade.parsed⟩
  | @failed tid call r hstage hparse =>
    have hmine : (s.stage tid).holds = some (call, r) := by rw [hstage]; rfl
    exact h.become hinv hmine (.inr ⟨rfl, rfl⟩)
  | @erased tid call r hstage => exact h.erase hinv (by rw [hstage]; rfl)

/-- What a lookup finds is parsed with the strings of a call just when the call that made it is
over and was for the same set. -/
theorem Made.parsed_iff (h : s.Made) {call : ProxyCall} {r : ProxyRef}
    (hfound : s.proxys call.serviceName = some r) :
    ((s.proxy r).status.fields.isSome ∧ (s.proxy r).status.fields = call.parse) ↔
      s.Finished r ∧ (s.proxy r).call.setName = call.setName := by
  have hname := h.name _ r hfound
  constructor
  · rintro ⟨hsome, hparse⟩
    have hfinished : s.Finished r := by
      intro tid call' hheld
      rw [(h.own tid call' r hheld).2] at hsome
      cases hsome
    obtain ⟨-, hmade⟩ := h.parsed _ r hfound hfinished
    obtain ⟨fields, hfields⟩ := Option.isSome_iff_exists.mp hsome
    rw [hfields] at hparse hmade
    exact ⟨hfinished, (ProxyString.setName_of_parse hmade.symm).symm.trans
      (ProxyString.setName_of_parse hparse.symm)⟩
  · rintro ⟨hfinished, hset⟩
    obtain ⟨hsome, hmade⟩ := h.parsed _ r hfound hfinished
    refine ⟨hsome, hmade.trans ?_⟩
    rw [ProxyCall.parse, hname, hset]
    rfl

/-! ## What is handed out -/

/-- Every pointer handed out was the one asked for. -/
def HandsOut (s : ProxyManager) : Prop := ∀ a ∈ s.returned, a.AskedFor

instance (s : ProxyManager) : Decidable s.HandsOut :=
  inferInstanceAs (Decidable (∀ a ∈ _, Handed.AskedFor a))

/-- A step hands out what was asked for if and only if its lookup, where it hits, finds the
proxy of a call that is over and was for the same set. -/
theorem handsOut_step_iff (hinv : s.Inv) (hmade : s.Made) (h : s.HandsOut)
    (hstep : ProxyManager.step isA s a = some t) : t.HandsOut ↔ Settled isA s a := by
  cases step_cases hstep with
  | @hit tid call r hidle hfound =>
    have hsettled : Settled isA s (.stringToProxy tid call) ↔
        ∀ r' ∈ s.dynamicCast isA call.cls r,
          s.Finished r' ∧ (s.proxy r').call.setName = call.setName := by
      rw [Settled, hfound, Option.bind_some]
    rw [hsettled]
    cases hcast : s.dynamicCast isA call.cls r with
    | none =>
      rw [handOut_none]
      exact iff_of_true h (fun _ hr => nomatch hr)
    | some r' =>
      obtain rfl := eq_of_dynamicCast hcast
      have hlast : (s.handOut call (some r')).HandsOut ↔ s.HandsOut ∧
          Handed.AskedFor ⟨call, r', (s.proxy r').status,
            decide (s.proxys call.serviceName = some r')⟩ := by
        simp only [HandsOut, handOut, List.forall_mem_append, Option.toList_some, List.map_cons,
          List.map_nil, List.forall_mem_singleton]
      have hasked : Handed.AskedFor ⟨call, r', (s.proxy r').status,
          decide (s.proxys call.serviceName = some r')⟩ ↔
          (s.proxy r').status.fields.isSome ∧ (s.proxy r').status.fields = call.parse := by
        simp [Handed.AskedFor, hfound]
      rw [hlast, hasked, hmade.parsed_iff hfound]
      simp [h]
  | @miss tid call hidle hnone =>
    refine iff_of_true h ?_
    intro r hr
    rw [hnone] at hr
    cases hr
  | @parsed tid call r fields hstage hparse =>
    refine iff_of_true ?_ trivial
    have hlisted : s.proxys call.serviceName = some r :=
      hinv.listed tid call r (by rw [hstage]; rfl)
    intro answer hanswer
    rcases List.mem_append.mp hanswer with hold | hnew
    · exact h answer hold
    · have hnew : answer = ⟨call, r, .parsed fields, true⟩ := by
        simpa [become, ProxyManager.goTo, hlisted] using hnew
      subst hnew
      exact ⟨rfl, hparse.symm, rfl⟩
  | failed _ _ => exact iff_of_true h trivial
  | erased _ => exact iff_of_true h trivial

/-- **The cache hands out what was asked for as long as every lookup that hits finds the proxy of
a call that is over and was for the same set, and no longer.** -/
theorem hands_out_what_was_asked_for (h : Runs (ProxyManager.step isA) (Settled isA) new s) :
    s.HandsOut ∧ ∀ a t, ProxyManager.step isA s a = some t →
      (t.HandsOut ↔ Settled isA s a) := by
  have hgood : s.Inv ∧ s.Made ∧ s.HandsOut := by
    apply h.invariant (I := fun s => s.Inv ∧ s.Made ∧ s.HandsOut) _
      ⟨inv_new, made_new, fun _ h => (nomatch h)⟩
    rintro s a t ⟨hinv, hmade, hs⟩ hsettled hstep
    exact ⟨hinv.step hstep, hmade.step hinv hstep,
      (handsOut_step_iff hinv hmade hs hstep).mpr hsettled⟩
  obtain ⟨hinv, hmade, hs⟩ := hgood
  exact ⟨hs, fun a t hstep => handsOut_step_iff hinv hmade hs hstep⟩

/-- Classes without heirs. -/
def sameClass (k cls : ProxyClass) : Bool := k = cls

/-- Two calls for one service and one set. -/
theorem hands_out_what_was_asked_for_twice :
    ∃ s, Runs (ProxyManager.step sameClass) (Settled sameClass) new s ∧ s.returned.length = 2 ∧
      s.HandsOut ∧ ∀ a t, ProxyManager.step sameClass s a = some t →
        (t.HandsOut ↔ Settled sameClass s a) := by
  let call : ProxyCall := ⟨1, "a.b.c".toList, "x".toList⟩
  have hfirst : ∃ s, Runs (ProxyManager.step sameClass) (Settled sameClass) new s ∧
      (∀ tid, s.stage tid = .idle) ∧ ∃ t, ProxyManager.step sameClass s
        (.stringToProxy 1 call) = some t ∧ t.returned.length = 2 ∧
        (s.proxy 0).call = call ∧ s.proxys call.serviceName = some 0 := by
    refine ⟨_, .tail (.single (a := .stringToProxy 0 call) ?_ rfl) (a := .parsed 0) trivial rfl,
      ?_, _, rfl, rfl, rfl, rfl⟩
    · intro r hr
      cases hr
    · intro tid
      simp only [ProxyManager.handOut, ProxyManager.goTo]
      by_cases htid : tid = 0
      · rw [htid, Function.update_self]
      · rw [Function.update_of_ne htid]
        exact Function.update_of_ne htid ..
  obtain ⟨s, hs, hidle, t, ht, hlen, hcall, hfound⟩ := hfirst
  have hsettled : Settled sameClass s (.stringToProxy 1 call) := by
    intro r hr
    rw [hfound, Option.bind_some] at hr
    obtain rfl := eq_of_dynamicCast hr
    refine ⟨fun tid call' hheld => ?_, by rw [hcall]⟩
    rw [hidle tid] at hheld
    cases hheld
  have hrun := hs.tail hsettled ht
  exact ⟨t, hrun, hlen, hands_out_what_was_asked_for hrun⟩

/-- The second caller asks for another set and gets the proxy of the first one; of a string
that does not parse the second caller gets the deleted proxy. -/
theorem another_proxy_handed_out :
    (∃ s, Runs (ProxyManager.step sameClass) (fun _ _ => True) new s ∧ ¬ s.HandsOut ∧
      s.returned.map (fun a => (a.call.setName, a.status.fields.map (·.setName))) =
        [("x".toList, some "x".toList), ("y".toList, some "x".toList)]) ∧
    ∃ s, Runs (ProxyManager.step sameClass) (fun _ _ => True) new s ∧ ¬ s.HandsOut ∧
      s.returned.map (fun a => (a.call.serviceName, a.status)) = [("a.b".toList, .deleted)] := by
  constructor
  · have hexec : ∃ s, Runs (ProxyManager.step sameClass) (fun _ _ => True) new s ∧
        decide (¬ s.HandsOut ∧
          s.returned.map (fun a => (a.call.setName, a.status.fields.map (·.setName))) =
            [("x".toList, some "x".toList), ("y".toList, some "x".toList)]) = true :=
      exists_runs_of_schedule new
        [.stringToProxy 0 ⟨1, "a.b.c".toList, "x".toList⟩, .parsed 0,
          .stringToProxy 1 ⟨1, "a.b.c".toList, "y".toList⟩] _ (by decide)
    obtain ⟨s, hs, hp⟩ := hexec
    exact ⟨s, hs, of_decide_eq_true hp⟩
  · have hexec : ∃ s, Runs (ProxyManager.step sameClass) (fun _ _ => True) new s ∧
        decide (¬ s.HandsOut ∧
          s.returned.map (fun a => (a.call.serviceName, a.status)) =
            [("a.b".toList, .deleted)]) = true :=
      exists_runs_of_schedule new
        [.stringToProxy 0 ⟨1, "a.b".toList, []⟩, .parsed 0, .stringToProxy 1 ⟨1, "a.b".toList, []⟩]
        _ (by decide)
    obtain ⟨s, hs, hp⟩ := hexec
    exact ⟨s, hs, of_decide_eq_true hp⟩

end ProxyManager

end StormNet.Framework
