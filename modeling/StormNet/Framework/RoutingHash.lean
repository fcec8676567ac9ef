/-
  Framework/RoutingHash.lean --- `ServiceProxy::hash`, `selectEndPoint` and the calls that
  lead to them, of `framework/storm_service_proxy.cpp`, on one thread.

  The code that `hash` is given lies in a cell of the thread, `m_hashCode`, shared by all its
  proxies, until a `selectEndPoint` with endpoints to choose from takes it out.  What other
  threads do to the endpoint lists and the counters is left open.

  `given` and `picks` are records; no function reads them.
-/
import Mathlib.Logic.Function.Basic
import StormNet.Foundation.Transition
import StormNet.Framework.ServiceProxy

set_option autoImplicit false

namespace StormNet.Framework

open StormNet.Foundation
open Function (update)

/-- The fields of a `ServiceProxy` that `selectEndPoint` reads. -/
structure RoutedProxy where
  /-- `m_activeEndPoints` -/
  active : List EndPoint
  /-- `m_sequeue` -/
  sequeue : UInt32
  deriving DecidableEq, Repr

/-! ## Selecting an endpoint -/

namespace RoutedProxy

/-- `m_activeEndPoints[code % m_activeEndPoints.size()]`: the code is converted to the
unsigned type of the size. -/
def byHash (p : RoutedProxy) (code : Int64) : Option EndPoint :=
  p.active[code.toUInt64.toNat % p.active.length]?

/-- `m_activeEndPoints[m_sequeue % m_activeEndPoints.size()]`. -/
def inTurn (p : RoutedProxy) : Option EndPoint :=
  p.active[p.sequeue.toNat % p.active.length]?

/-- `selectEndPoint`: the endpoint and what is left in the cell. -/
def selectEndPoint (p : RoutedProxy) (hashCode : Int64) : Option EndPoint × Int64 :=
  if p.active = [] then (none, hashCode)
  else if hashCode ≠ -1 then (p.byHash hashCode, -1)
  else (p.inTurn, -1)

end RoutedProxy

/-- A run of `selectEndPoint`: the code of the `hash` call on the same proxy that comes
immediately before the invocation, the proxy as `selectEndPoint` sees it, the result. -/
structure Pick where
  code : Option Int64
  proxy : RoutedProxy
  ep : Option EndPoint
  deriving DecidableEq, Repr

/-- Where the invocation of a pick should go: to the endpoint its code stands for, else to
the next one in turn. -/
def Pick.expected (k : Pick) : Option EndPoint :=
  match k.code with
  | some code => k.proxy.byHash code
  | none => k.proxy.inTurn

/-- One thread and the proxies it calls. -/
structure RoutingThread where
  /-- `ProxyThreadData::m_hashCode` -/
  hashCode : Int64
  proxy : Nat → RoutedProxy
  /-- the invocation that has its request id, with its proxy -/
  invoking : Option (Nat × RequestMessage)
  /-- the last call of the thread, if it was `hash`; for the invocation at hand the last
  call before it -/
  given : Option (Nat × Int64)
  picks : List Pick

namespace RoutingThread

/-! ## The operations of the source -/

def new : RoutingThread where
  hashCode := -1
  proxy _ := ⟨[], 0⟩
  invoking := none
  given := none
  picks := []

/-- `hash(code)` on the proxy `p`. -/
def hash (s : RoutingThread) (p : Nat) (code : Int64) : RoutingThread :=
  { s with hashCode := code, given := some (p, code) }

/-- `newRequest` and the beginning of `doInvoke` on the proxy `p`, up to the counter. -/
def invoke (s : RoutingThread) (p : Nat) (message : RequestMessage) : RoutingThread :=
  { s with
    proxy := update s.proxy p { s.proxy p with sequeue := (s.proxy p).sequeue + 1 }
    invoking := some (p, message) }

/-- `invokeType == InvokeType_OneWay && message->broadcast`. -/
def broadcasts (message : RequestMessage) : Prop :=
  message.invokeType = .oneWay ∧ message.broadcast = true

instance (message : RequestMessage) : Decidable (broadcasts message) :=
  inferInstanceAs (Decidable (_ ∧ _))

/-- The code given to the proxy `p` by the last call. -/
def codeFor (s : RoutingThread) (p : Nat) : Option Int64 :=
  (s.given.filter (·.1 = p)).map (·.2)

/-- `doInvoke` behind the counter: the broadcast, or `selectEndPoint`. -/
def dispatch (s : RoutingThread) (p : Nat) (message : RequestMessage) : RoutingThread :=
  if broadcasts message then { s with invoking := none, given := none }
  else
    let chosen := (s.proxy p).selectEndPoint s.hashCode
    { s with
      hashCode := chosen.2
      invoking := none
      given := none
      picks := s.picks ++ [⟨s.codeFor p, s.proxy p, chosen.1⟩] }

inductive Action where
  | hash (p : Nat) (code : Int64)
  /-- a call with `newRequest(type, cb, broadcast)` -/
  | invoke (p : Nat) (type : InvokeType) (cb broadcast : Bool)
  | dispatch
  /-- other threads change the list and the counter of a proxy -/
  | others (p : Nat) (proxy : RoutedProxy)
  deriving DecidableEq, Repr

/-- One step of the thread `tid`, or of the others. -/
def step (tid : Nat) (s : RoutingThread) : Action → Option RoutingThread
  | .hash p code => if s.invoking.isSome then none else some (s.hash p code)
  | .invoke p type cb broadcast =>
      if s.invoking.isSome then none
      else some (s.invoke p (newRequest type cb broadcast tid))
  | .dispatch => s.invoking.map (fun i => s.dispatch i.1 i.2)
  | .others p proxy => some { s with proxy := update s.proxy p proxy }

/-! ## What a code is for -/

/-- An invocation without a code goes to the next endpoint in turn; invocations with the
same code and the same list go to the same endpoint. -/
structure Routed (s : RoutingThread) : Prop where
  inTurn : ∀ k ∈ s.picks, k.code = none → k.ep = k.proxy.inTurn
  same : ∀ k ∈ s.picks, ∀ k' ∈ s.picks, k.code ≠ none → k.code = k'.code →
    k.proxy.active = k'.proxy.active → k.ep = k'.ep

/-- The invocation at hand goes through `selectEndPoint`, with endpoints to choose from. -/
def Selects (s : RoutingThread) (p : Nat) (message : RequestMessage) : Prop :=
  ¬ broadcasts message ∧ (s.proxy p).active ≠ []

instance (s : RoutingThread) (p : Nat) (message : RequestMessage) :
    Decidable (s.Selects p message) :=
  inferInstanceAs (Decidable (_ ∧ _))

/-- What `selectEndPoint` finds in the cell is what the call was given: nothing but -1 when
the last call was no `hash` on this proxy, a code other than -1 when it was. -/
def Given (s : RoutingThread) : Action → Prop
  | .dispatch => ∀ i ∈ s.invoking, s.Selects i.1 i.2 →
      if s.codeFor i.1 = none then s.hashCode = -1 else s.codeFor i.1 ≠ some (-1)
  | _ => True

instance (s : RoutingThread) : (a : Action) → Decidable (Given s a)
  | .dispatch => inferInstanceAs (Decidable (∀ i ∈ _, Selects _ _ _ → _))
  | .hash _ _ => instDecidableTrue
  | .invoke _ _ _ _ => instDecidableTrue
  | .others _ _ => instDecidableTrue

variable {s t : RoutingThread} {tid p : Nat} {a : Action}

/-! ## One selection -/

theorem selectEndPoint_of_empty (hashCode : Int64) {p : RoutedProxy} (h : p.active = []) :
    p.selectEndPoint hashCode = (none, hashCode) := if_pos h

theorem selectEndPoint_none {p : RoutedProxy} (h : p.active ≠ []) :
    p.selectEndPoint (-1) = (p.inTurn, -1) := by
  rw [RoutedProxy.selectEndPoint, if_neg h, if_neg (not_not_intro rfl)]

theorem selectEndPoint_code {hashCode : Int64} {p : RoutedProxy} (h : p.active ≠ [])
    (hcode : hashCode ≠ -1) : p.selectEndPoint hashCode = (p.byHash hashCode, -1) := by
  rw [RoutedProxy.selectEndPoint, if_neg h, if_pos hcode]

theorem expected_of_empty {k : Pick} (h : k.proxy.active = []) : k.expected = none := by
  unfold Pick.expected
  cases k.code with
  | none => simp [RoutedProxy.inTurn, h]
  | some code => simp [RoutedProxy.byHash, h]

/-- The pick that the invocation at hand leads to. -/
def pick (s : RoutingThread) (p : Nat) : Pick :=
  ⟨s.codeFor p, s.proxy p, ((s.proxy p).selectEndPoint s.hashCode).1⟩

/-- The code of the last call lies in the cell. -/
def Holds (s : RoutingThread) : Prop := ∀ p code, s.given = some (p, code) → s.hashCode = code

theorem Holds.codeFor (h : s.Holds) {code : Int64} (hcode : s.codeFor p = some code) :
    s.hashCode = code := by
  obtain ⟨⟨q, c⟩, hgiven, rfl⟩ := Option.map_eq_some_iff.mp hcode
  exact h q c (Option.mem_filter_iff.mp hgiven).1

/-- A selection that finds what was given goes where it should. -/
theorem pick_expected (h : s.Holds) {message : RequestMessage} (hbroad : ¬ broadcasts message)
    (hinv : s.invoking = some (p, message)) (hgiven : s.Given .dispatch) :
    (s.pick p).ep = (s.pick p).expected := by
  by_cases hempty : (s.proxy p).active = []
  · rw [expected_of_empty (k := s.pick p) hempty, pick, selectEndPoint_of_empty _ hempty]
  · have hcond := hgiven (p, message) hinv ⟨hbroad, hempty⟩
    cases hcode : s.codeFor p with
    | none =>
      rw [if_pos hcode] at hcond
      simp only [pick, Pick.expected, hcode, hcond, selectEndPoint_none hempty]
    | some code =>
      obtain rfl := h.codeFor hcode
      rw [if_neg (by simp [hcode])] at hcond
      have hne : s.hashCode ≠ -1 := by
        intro heq
        rw [hcode, heq] at hcond
        exact hcond rfl
      simp only [pick, Pick.expected, hcode, selectEndPoint_code hempty hne]

/-- A selection that finds a code of an earlier call follows it. -/
theorem pick_of_leftover {message : RequestMessage} (hselects : s.Selects p message)
    (hleft : s.hashCode ≠ -1) : (s.pick p).ep = (s.proxy p).byHash s.hashCode := by
  rw [pick, selectEndPoint_code hselects.2 hleft]

/-! ## Runs -/

/-- What every guarded run keeps. -/
structure Inv (s : RoutingThread) : Prop where
  holds : s.Holds
  expected : ∀ k ∈ s.picks, k.ep = k.expected

theorem inv_new : new.Inv :=
  ⟨fun _ _ h => (nomatch h), fun _ h => (nomatch h)⟩

theorem Inv.routed (h : s.Inv) : s.Routed where
  inTurn := by
    intro k hk hcode
    rw [h.expected k hk, Pick.expected, hcode]
  same := by
    intro k hk k' hk' hcode heq hactive
    obtain ⟨code, hsome⟩ := Option.ne_none_iff_exists'.mp hcode
    simp only [h.expected k hk, h.expected k' hk', Pick.expected, ← heq, hsome,
      RoutedProxy.byHash, hactive]

theorem Inv.dispatch (h : s.Inv) {message : RequestMessage}
    (hinv : s.invoking = some (p, message)) (hgiven : s.Given .dispatch) :
    (s.dispatch p message).Inv := by
  unfold RoutingThread.dispatch
  split
  · exact ⟨fun _ _ hnone => (nomatch hnone), h.expected⟩
  · rename_i hbroad
    refine ⟨fun _ _ hnone => (nomatch hnone), ?_⟩
    intro k hk
    rcases List.mem_append.mp hk with hold | hnew
    · exact h.expected k hold
    · rw [List.mem_singleton.mp hnew]
      exact pick_expected h.holds hbroad hinv hgiven

theorem Inv.step (h : s.Inv) (hgiven : s.Given a) (hstep : RoutingThread.step tid s a = some t) :
    t.Inv := by
  cases a with
  | hash p code =>
    obtain ⟨-, hstep⟩ := Option.ite_none_left_eq_some.mp hstep
    cases hstep
    refine ⟨?_, h.expected⟩
    intro q c heq
    cases heq
    rfl
  | invoke p type cb broadcast =>
    obtain ⟨-, hstep⟩ := Option.ite_none_left_eq_some.mp hstep
    cases hstep
    exact ⟨h.holds, h.expected⟩
  | dispatch =>
    obtain ⟨⟨p, message⟩, hinv, rfl⟩ := Option.map_eq_some_iff.mp hstep
    exact h.dispatch hinv hgiven
  | others p proxy =>
    cases hstep
    exact ⟨h.holds, h.expected⟩

/-- **A routing hash affects only the call it was given for, in every run in which no
selection finds the code of another call, or is given the code -1.** -/
theorem hash_for_its_call (h : Runs (RoutingThread.step tid) Given new s) : s.Routed := by
  have hinv : s.Inv := by
    apply h.invariant (I := Inv) _ inv_new
    intro s a t hs hgiven hstep
    exact hs.step hgiven hstep
  exact hinv.routed

/-- A call with a code, one without, one with the same code. -/
theorem hash_for_its_call_of_three :
    ∃ s, Runs (RoutingThread.step 7) Given new s ∧
      s.picks.map (·.ep) = [some 11, some 10, some 11] ∧ s.Routed := by
  have hexec : ∃ s, Runs (RoutingThread.step 7) Given new s ∧
      decide (s.picks.map (·.ep) = [some 11, some 10, some 11]) = true :=
    exists_runs_of_schedule new
      [.others 0 ⟨[10, 11], 0⟩, .hash 0 5, .invoke 0 .sync false false, .dispatch,
        .invoke 0 .async true false, .dispatch, .hash 0 5, .invoke 0 .sync false false, .dispatch]
      _ (by decide)
  obtain ⟨s, hs, hpicks⟩ := hexec
  exact ⟨s, hs, of_decide_eq_true hpicks, hash_for_its_call hs⟩

/-- The code of a broadcast stays in the cell, and the next call follows it. -/
theorem hash_for_the_next_call :
    ∃ s, Runs (RoutingThread.step 7) (fun _ _ => True) new s ∧ ¬ s.Routed ∧
      s.picks = [⟨none, ⟨[10, 11], 2⟩, some 11⟩] := by
  have hexec : ∃ s, Runs (RoutingThread.step 7) (fun _ _ => True) new s ∧
      decide (s.picks = [⟨none, ⟨[10, 11], 2⟩, some 11⟩]) = true :=
    exists_runs_of_schedule new
      [.others 0 ⟨[10, 11], 0⟩, .hash 0 1, .invoke 0 .async false true, .dispatch,
        .invoke 0 .sync false false, .dispatch] _ (by decide)
  obtain ⟨s, hs, hpicks⟩ := hexec
  have hpicks := of_decide_eq_true hpicks
  refine ⟨s, hs, fun hrouted => ?_, hpicks⟩
  have hturn := hrouted.inTurn ⟨none, ⟨[10, 11], 2⟩, some 11⟩ (by simp [hpicks]) rfl
  exact absurd hturn (by decide)

end RoutingThread

end StormNet.Framework
