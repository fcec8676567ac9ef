/-
  RpcGenerator/Dispatch.lean --- what the generated text of a service does with an id.

  The text is read line by line: the labels of the two switches, the calls behind them, the
  methods of the proxy, those that wait for the answer and the `async_` ones, and the ids they
  send.  A method of the proxy reaches the function of the same name, on the server and in the
  callback.
-/
import Mathlib.Data.List.Nodup
import StormNet.RpcGenerator.Parser

set_option autoImplicit false

namespace StormNet.RpcGenerator

open StormNet.Util UtilString

/-! ## Reading the text -/

/-- What stands between two texts, if the line begins with one and ends with the other. -/
def cut (front back line : Str) : Option Str :=
  if front.isPrefixOf line && back.isSuffixOf line then between front back line else none

/-- The function that a switch is in. -/
inductive Switch where
  | onRpcRequest
  | dispatch
  deriving DecidableEq, Repr

/-- How a method of the proxy calls. -/
inductive InvokeType where
  | sync
  | async
  deriving DecidableEq, Repr

/-- What a line says. -/
inductive Event where
  /-- `case i:` -/
  | label (i : Str)
  /-- the call of a function by `onRpcRequest`, or of a callback by `dispatch` -/
  | call (w : Switch) (name : Str)
  /-- the beginning of a method of the proxy -/
  | method (v : InvokeType) (name : Str)
  /-- `set_proto_id(i)` -/
  | argument (i : Str)
  deriving DecidableEq, Repr

/-- The beginning of a method of the proxy. -/
def methodFront (s : Service) : InvokeType → Str
  | .sync => "int32_t ".toList ++ s.m_serviceName ++ "Proxy::".toList
  | .async => "void ".toList ++ s.m_serviceName ++ "Proxy::async_".toList

/-- The method that begins with the line. -/
def methodOf (s : Service) (v : InvokeType) (line : Str) : Option Event :=
  if (methodFront s v).isPrefixOf line then
    some (.method v ((line.drop (methodFront s v).length).takeWhile (· ≠ '(')))
  else none

/-- The event of a line. -/
def event (s : Service) (line : Str) : Option Event :=
  (cut "\t\tcase ".toList ":".toList line).map .label <|>
  (cut "\t\t\tret = ".toList "(conn, __request, __response);".toList line).map
    (.call .onRpcRequest) <|>
  (cut "\t\t\tcallback_".toList "(ret, __response);".toList line).map (.call .dispatch) <|>
  (cut "\tmessage->req.set_proto_id(".toList ");".toList line).map .argument <|>
  methodOf s .sync line <|> methodOf s .async line

/-- The events of a text. -/
def events (s : Service) : List Event := (printServiceSource s).filterMap (event s)

/-- The call of a switch behind the label of an id. -/
def callBehind (w : Switch) (i : Str) : List Event → Option Str
  | .label j :: .call w' name :: es => if j = i ∧ w' = w then some name else callBehind w i es
  | _ :: es => callBehind w i es
  | [] => none

/-- The id that a method of the proxy sends. -/
def argumentOf (v : InvokeType) (name : Str) : List Event → Option Str
  | .method v' m :: .argument i :: es =>
      if v' = v ∧ m = name then some i else argumentOf v name es
  | _ :: es => argumentOf v name es
  | [] => none

/-! ## The parts of a text -/

section Parts

variable (s : Service) (f : Function)

theorem cut_append (front x back : Str) : cut front back (front ++ x ++ back) = some x := by
  have hfront : front.isPrefixOf (front ++ x ++ back) = true := by
    rw [List.isPrefixOf_iff_prefix, List.append_assoc]
    exact List.prefix_append _ _
  have hback : back.isSuffixOf (front ++ x ++ back) = true := by
    rw [List.isSuffixOf_iff_suffix]
    exact List.suffix_append _ _
  rw [cut, hfront, hback, between_append]
  rfl

/-- A line that ends otherwise. -/
theorem cut_of_back {front back line : Str} (h : back.isSuffixOf line = false) :
    cut front back line = none := by
  rw [cut, h, Bool.and_false]
  rfl

theorem isSuffixOf_append {back tail : Str}
    (h : ∀ x, back.reverse.isPrefixOf (tail.reverse ++ x) = false) (a : Str) :
    back.isSuffixOf (a ++ tail) = false := by
  rw [List.isSuffixOf, List.reverse_append]
  exact h _

/-- A line inside a `case` that ends like no call. -/
theorem event_of_tail {tail : Str} (x : Str)
    (hcall : ∀ y, "(conn, __request, __response);".toList.reverse.isPrefixOf
      (tail.reverse ++ y) = false)
    (hcallback : ∀ y, "(ret, __response);".toList.reverse.isPrefixOf
      (tail.reverse ++ y) = false) :
    event s (tab 3 (x ++ tail)) = none := by
  have hline : tab 3 (x ++ tail) = List.replicate 3 '\t' ++ x ++ tail :=
    (List.append_assoc ..).symm
  have hnoCall : cut "\t\t\tret = ".toList "(conn, __request, __response);".toList
      (tab 3 (x ++ tail)) = none := by
    rw [hline]
    exact cut_of_back (isSuffixOf_append hcall _)
  have hnoCallback : cut "\t\t\tcallback_".toList "(ret, __response);".toList
      (tab 3 (x ++ tail)) = none := by
    rw [hline]
    exact cut_of_back (isSuffixOf_append hcallback _)
  rw [event, hnoCall, hnoCallback]
  rfl

theorem event_request (x : Str) : event s (tab 3 (x ++ " __request;".toList)) = none :=
  event_of_tail s x (fun _ => rfl) (fun _ => rfl)

theorem event_response (x : Str) : event s (tab 3 (x ++ " __response;".toList)) = none :=
  event_of_tail s x (fun _ => rfl) (fun _ => rfl)

theorem event_case (i : Str) :
    event s (tab 2 ("case ".toList ++ i ++ ":".toList)) = some (.label i) := by
  have hcut : cut "\t\tcase ".toList ":".toList (tab 2 ("case ".toList ++ i ++ ":".toList)) =
      some i := cut_append "\t\tcase ".toList i ":".toList
  rw [event, hcut]
  rfl

theorem event_call (name : Str) :
    event s (tab 3 ("ret = ".toList ++ name ++ "(conn, __request, __response);".toList)) =
      some (.call .onRpcRequest name) := by
  have hcut : cut "\t\t\tret = ".toList "(conn, __request, __response);".toList
      (tab 3 ("ret = ".toList ++ name ++ "(conn, __request, __response);".toList)) = some name :=
    cut_append "\t\t\tret = ".toList name "(conn, __request, __response);".toList
  rw [event, hcut]
  rfl

theorem event_callback (name : Str) :
    event s (tab 3 ("callback_".toList ++ name ++ "(ret, __response);".toList)) =
      some (.call .dispatch name) := by
  have hcut : cut "\t\t\tcallback_".toList "(ret, __response);".toList
      (tab 3 ("callback_".toList ++ name ++ "(ret, __response);".toList)) = some name :=
    cut_append "\t\t\tcallback_".toList name "(ret, __response);".toList
  rw [event, hcut]
  rfl

theorem event_argument (i : Str) :
    event s (tab 1 ("message->req.set_proto_id(".toList ++ i ++ ");".toList)) =
      some (.argument i) := by
  have hcut : cut "\tmessage->req.set_proto_id(".toList ");".toList
      (tab 1 ("message->req.set_proto_id(".toList ++ i ++ ");".toList)) = some i :=
    cut_append "\tmessage->req.set_proto_id(".toList i ");".toList
  rw [event, hcut]
  rfl

theorem events_requestCase : (requestCase f).filterMap (event s) =
    [.label (decimal f.m_protoId), .call .onRpcRequest f.m_name] := by
  simp only [requestCase, List.filterMap_cons, event_case, event_request, event_response,
    event_call]
  rfl

theorem events_dispatchCase : (dispatchCase f).filterMap (event s) =
    [.label (decimal f.m_protoId), .call .dispatch f.m_name] := by
  simp only [dispatchCase, List.filterMap_cons, event_case, event_response, event_callback]
  rfl

/-- No other line begins like a method that waits. -/
theorem event_int (x : Str) : event s ('i' :: x) = methodOf s .sync ('i' :: x) := by
  have hevent : event s ('i' :: x) = (methodOf s .sync ('i' :: x) <|> none) := rfl
  rw [hevent]
  cases methodOf s .sync ('i' :: x) with
  | none => rfl
  | some e => rfl

/-- No other line begins like an `async_` method. -/
theorem event_void (x : Str) : event s ('v' :: x) = methodOf s .async ('v' :: x) := rfl

/-- The first line of a method, whose name ends with a bracket. -/
theorem methodOf_append (v : InvokeType) {name : Str} (hname : '(' ∉ name) (more : Str) :
    methodOf s v (methodFront s v ++ (name ++ '(' :: more)) = some (.method v name) := by
  have hfront : (methodFront s v).isPrefixOf (methodFront s v ++ (name ++ '(' :: more)) = true :=
    List.isPrefixOf_iff_prefix.mpr (List.prefix_append _ _)
  have htake : (name ++ '(' :: more).takeWhile (· ≠ '(') = name := by
    rw [List.takeWhile_append_of_pos]
    · simp
    · intro c hc
      exact decide_eq_true (fun h => hname (h ▸ hc))
  rw [methodOf, hfront, if_pos rfl, List.drop_left, htake]

theorem event_method (v : InvokeType) {name : Str} (hname : '(' ∉ name) (more : Str) :
    event s (methodFront s v ++ (name ++ '(' :: more)) = some (.method v name) := by
  have hmethod := methodOf_append s v hname more
  cases v with
  | sync => exact (event_int s ("nt32_t ".toList ++ s.m_serviceName ++ "Proxy::".toList ++
      (name ++ '(' :: more))).trans hmethod
  | async => exact (event_void s ("oid ".toList ++ s.m_serviceName ++ "Proxy::async_".toList ++
      (name ++ '(' :: more))).trans hmethod

theorem sync_line (front name x y z v w : Str) :
    front ++ (name ++ '(' :: (x ++ y ++ z ++ v ++ w)) =
      front ++ name ++ ('(' :: x) ++ y ++ z ++ v ++ w := by
  simp only [List.append_assoc, List.cons_append]

theorem async_line (front name x y z v : Str) :
    front ++ (name ++ '(' :: (x ++ y ++ z ++ v)) =
      front ++ name ++ ['('] ++ x ++ y ++ z ++ v := by
  simp only [List.append_assoc, List.cons_append, List.nil_append]

/-- Two lines part behind a service. -/
theorem isPrefixOf_parted (front name common : Str) {c d : Char} (x y z : Str) (hne : c ≠ d) :
    (front ++ name ++ (common ++ c :: x)).isPrefixOf
      (front ++ name ++ (common ++ d :: y) ++ z) = false := by
  rw [← Bool.not_eq_true, List.isPrefixOf_iff_prefix, List.append_assoc (front ++ name),
    List.prefix_append_right_inj, List.append_assoc common, List.prefix_append_right_inj,
    List.cons_append, List.cons_prefix_cons]
  rintro ⟨hcd, -⟩
  exact hne hcd

theorem events_proxyMethods (hname : '(' ∉ f.m_name) : (proxyMethods s f).filterMap (event s) =
    [.method .sync f.m_name, .argument (decimal f.m_protoId), .method .async f.m_name,
      .argument (decimal f.m_protoId)] := by
  have hsync := event_method s .sync hname ("const ".toList ++ f.m_inputClassName ++
    "& request, ".toList ++ f.m_outputClassName ++ "& response) \x7b".toList)
  have hasync := event_method s .async hname (s.m_serviceName ++
    "ProxyCallBack* cb, const ".toList ++ f.m_inputClassName ++
    "& request, bool broadcast) \x7b".toList)
  rw [sync_line] at hsync
  rw [async_line] at hasync
  have hargument := event_argument s (decimal f.m_protoId)
  refine (List.filterMap_cons_none rfl).trans ((List.filterMap_cons_some hsync).trans ?_)
  refine congrArg (List.cons _) ?_
  refine (List.filterMap_cons_none rfl).trans ((List.filterMap_cons_some hargument).trans ?_)
  refine congrArg (List.cons _) ?_
  iterate 9 refine (List.filterMap_cons_none rfl).trans ?_
  refine (List.filterMap_cons_some hasync).trans (congrArg (List.cons _) ?_)
  iterate 2 refine (List.filterMap_cons_none rfl).trans ?_
  refine (List.filterMap_cons_some hargument).trans ?_
  rfl

/-- The first line of `onRpcRequest` begins no method of the proxy. -/
theorem event_onRpcRequest (y z : Str) :
    event s ("int32_t ".toList ++ s.m_serviceName ++ (':' :: y) ++ z) = none := by
  have hfront : (methodFront s .sync).isPrefixOf
      ("int32_t ".toList ++ s.m_serviceName ++ (':' :: y) ++ z) = false :=
    isPrefixOf_parted "int32_t ".toList s.m_serviceName [] "roxy::".toList y z (by decide)
  exact (event_int s ("nt32_t ".toList ++ s.m_serviceName ++ (':' :: y) ++ z)).trans
    (if_neg (Bool.eq_false_iff.mp hfront))

/-- Nor does the first line of `dispatch`. -/
theorem event_dispatch (y z : Str) :
    event s ("void ".toList ++ s.m_serviceName ++ ("Proxy".toList ++ 'C' :: y) ++ z) = none := by
  have hfront : (methodFront s .async).isPrefixOf
      ("void ".toList ++ s.m_serviceName ++ ("Proxy".toList ++ 'C' :: y) ++ z) = false :=
    isPrefixOf_parted "void ".toList s.m_serviceName "Proxy".toList ":async_".toList y z
      (by decide)
  exact (event_void s ("oid ".toList ++ s.m_serviceName ++ ("Proxy".toList ++ 'C' :: y) ++
    z)).trans (if_neg (Bool.eq_false_iff.mp hfront))

/-- The lines that every service has say nothing. -/
theorem events_fixed :
    (printServiceSource { s with m_functions := [] }).filterMap (event s) = [] := by
  have hfirst := event_onRpcRequest s
    ":onRpcRequest(const storm::Connection& conn, const storm::RpcRequest& req, ".toList
    "storm::RpcResponse& resp) \x7b".toList
  have hdispatch := event_dispatch s "allBack::dispatch(storm::RequestMessage* req) \x7b".toList []
  rw [List.append_nil] at hdispatch
  refine (List.filterMap_cons_none hfirst).trans ?_
  iterate 9 refine (List.filterMap_cons_none rfl).trans ?_
  exact (List.filterMap_cons_none hdispatch).trans rfl

/-- What the cases of a switch say. -/
def switchEvents (w : Switch) (fs : List Function) : List Event :=
  fs.flatMap fun f => [.label (decimal f.m_protoId), .call w f.m_name]

/-- What the methods of a proxy say. -/
def proxyEvents (fs : List Function) : List Event :=
  fs.flatMap fun f => [.method .sync f.m_name, .argument (decimal f.m_protoId),
    .method .async f.m_name, .argument (decimal f.m_protoId)]

/-- What the text of a service says. -/
theorem events_eq (hnames : ∀ f ∈ s.m_functions, '(' ∉ f.m_name) : events s =
    switchEvents .onRpcRequest s.m_functions ++
      (switchEvents .dispatch s.m_functions ++ proxyEvents s.m_functions) := by
  have hmethods : s.m_functions.flatMap (fun f => (proxyMethods s f).filterMap (event s)) =
      proxyEvents s.m_functions :=
    List.flatMap_congr fun f hf => events_proxyMethods s f (hnames f hf)
  rw [events, filterMap_printServiceSource s (event s) (events_fixed s), hmethods]
  simp only [events_requestCase, events_dispatchCase, switchEvents]

end Parts

/-! ## What an id does -/

section Ids

variable (w : Switch) (v : InvokeType) (i name : Str) (es : List Event) (fs : List Function)

theorem callBehind_switchEvents : callBehind w i (switchEvents w fs ++ es) =
    ((fs.find? fun f => decimal f.m_protoId = i).map (·.m_name)).or (callBehind w i es) := by
  induction fs with
  | nil => rfl
  | cons f fs ih =>
    rw [switchEvents, List.flatMap_cons, List.append_assoc, List.cons_append,
      List.singleton_append, callBehind]
    by_cases hid : decimal f.m_protoId = i
    · rw [if_pos ⟨hid, rfl⟩, List.find?_cons_of_pos (by simpa using hid)]
      rfl
    · rw [if_neg (fun h => hid h.1), List.find?_cons_of_neg (by simpa using hid)]
      exact ih

/-- The cases of the other switch do not matter. -/
theorem callBehind_of_ne {w w' : Switch} (hne : w' ≠ w) :
    callBehind w i (switchEvents w' fs ++ es) = callBehind w i es := by
  induction fs with
  | nil => rfl
  | cons f fs ih =>
    rw [switchEvents, List.flatMap_cons, List.append_assoc, List.cons_append,
      List.singleton_append, callBehind, if_neg (fun h => hne h.2)]
    exact ih

theorem callBehind_proxyEvents : callBehind w i (proxyEvents fs) = none := by
  induction fs with
  | nil => rfl
  | cons f fs ih => exact ih

theorem argumentOf_switchEvents :
    argumentOf v name (switchEvents w fs ++ es) = argumentOf v name es := by
  induction fs with
  | nil => rfl
  | cons f fs ih => exact ih

theorem argumentOf_proxyEvents : argumentOf v name (proxyEvents fs) =
    (fs.find? fun f => f.m_name = name).map fun f => decimal f.m_protoId := by
  induction fs with
  | nil => rfl
  | cons f fs ih =>
    rw [proxyEvents, List.flatMap_cons]
    by_cases hname : f.m_name = name
    · rw [List.find?_cons_of_pos (by simpa using hname)]
      cases v with
      | sync => simp [argumentOf, hname]
      | async => simp [argumentOf, hname]
    · rw [List.find?_cons_of_neg (by simpa using hname), ← ih, proxyEvents]
      simp [argumentOf, hname]

end Ids

/-! ## A service -/

section Service

variable {s : Service}

/-- Both switches know the functions by their ids. -/
theorem callBehind_events (hnames : ∀ f ∈ s.m_functions, '(' ∉ f.m_name) (w : Switch) (i : Str) :
    callBehind w i (events s) =
      (s.m_functions.find? fun f => decimal f.m_protoId = i).map (·.m_name) := by
  rw [events_eq s hnames]
  cases w with
  | onRpcRequest =>
    rw [callBehind_switchEvents, callBehind_of_ne i _ _ (by decide), callBehind_proxyEvents,
      Option.or_none]
  | dispatch =>
    rw [callBehind_of_ne i _ _ (by decide), callBehind_switchEvents, callBehind_proxyEvents,
      Option.or_none]

theorem argumentOf_events (hnames : ∀ f ∈ s.m_functions, '(' ∉ f.m_name) (v : InvokeType)
    (name : Str) : argumentOf v name (events s) =
      (s.m_functions.find? fun f => f.m_name = name).map fun f => decimal f.m_protoId := by
  rw [events_eq s hnames, argumentOf_switchEvents, argumentOf_switchEvents,
    argumentOf_proxyEvents]

end Service

/-- The first element of its kind, where no other is of that kind. -/
theorem find?_of_nodup {α β : Type} [DecidableEq β] {l : List α} {g : α → β}
    (hl : (l.map g).Nodup) {x : α} (hx : x ∈ l) : l.find? (fun y => g y = g x) = some x := by
  obtain ⟨y, hy⟩ : ∃ y, l.find? (fun y => g y = g x) = some y :=
    Option.isSome_iff_exists.mp (List.find?_isSome.mpr ⟨x, hx, decide_eq_true rfl⟩)
  have hyx : g y = g x := by simpa using List.find?_some hy
  rw [hy, List.inj_on_of_nodup_map hl (List.mem_of_find?_eq_some hy) hx hyx]

/-- **Generated proxy and service agree.**  Each method of the proxy, the one that waits and the
`async_` one, sends an id behind which both switches have its own name, just when the ids are
distinct. -/
theorem dispatch_iff (s : Service) (hnames : ∀ f ∈ s.m_functions, '(' ∉ f.m_name)
    (hnodup : (s.m_functions.map (·.m_name)).Nodup) :
    (∀ f ∈ s.m_functions, ∀ v, ∃ i, argumentOf v f.m_name (events s) = some i ∧
      ∀ w, callBehind w i (events s) = some f.m_name) ↔
    (s.m_functions.map (·.m_protoId)).Nodup := by
  have hargument : ∀ f ∈ s.m_functions, ∀ v,
      argumentOf v f.m_name (events s) = some (decimal f.m_protoId) := by
    intro f hf v
    rw [argumentOf_events hnames, find?_of_nodup hnodup hf]
    rfl
  constructor
  · intro h
    refine List.Nodup.map_on ?_ (List.Nodup.of_map _ hnodup)
    intro f hf f' hf' hid
    obtain ⟨i, hi, hcall⟩ := h f hf .async
    obtain ⟨i', hi', hcall'⟩ := h f' hf' .async
    rw [hargument f hf, Option.some_inj] at hi
    rw [hargument f' hf', Option.some_inj] at hi'
    have hname : f.m_name = f'.m_name := by
      rw [← Option.some_inj, ← hcall .dispatch, ← hcall' .dispatch, ← hi, ← hi', hid]
    exact List.inj_on_of_nodup_map hnodup hf hf' hname
  · intro hids f hf v
    have hdecimal : (s.m_functions.map fun f => decimal f.m_protoId).Nodup := by
      have hmap := hids.map decimal_injective
      rwa [List.map_map] at hmap
    refine ⟨decimal f.m_protoId, hargument f hf v, fun w => ?_⟩
    rw [callBehind_events hnames, find?_of_nodup hdecimal hf]
    rfl

/-- A function of a service. -/
def pingFunction (name : Str) (protoId : Nat) : Function where
  m_name := name
  m_inputClassName := "EchoReq".toList
  m_inputParamName := "req".toList
  m_outputClassName := "EchoAck".toList
  m_outputParamName := "ack".toList
  m_protoId := protoId

/-- A service of two functions. -/
def pingService (first second : Nat) : Service where
  m_serviceName := "Ping".toList
  m_functions := [pingFunction "Echo".toList first, pingFunction "Stat".toList second]

theorem pingService_names (first second : Nat) :
    ∀ f ∈ (pingService first second).m_functions, '(' ∉ f.m_name := by
  simp [pingService, pingFunction]

theorem pingService_nodup (first second : Nat) :
    ((pingService first second).m_functions.map (·.m_name)).Nodup := by
  simp [pingService, pingFunction]

/-- Two functions of one id: the second reaches the first. -/
theorem dispatch_iff_two :
    (∀ f ∈ (pingService 1 2).m_functions, ∀ v, ∃ i,
      argumentOf v f.m_name (events (pingService 1 2)) = some i ∧
      ∀ w, callBehind w i (events (pingService 1 2)) = some f.m_name) ∧
    ¬ ∀ f ∈ (pingService 1 1).m_functions, ∀ v, ∃ i,
      argumentOf v f.m_name (events (pingService 1 1)) = some i ∧
      ∀ w, callBehind w i (events (pingService 1 1)) = some f.m_name := by
  constructor
  · exact (dispatch_iff _ (pingService_names 1 2) (pingService_nodup 1 2)).mpr
      (by simp [pingService, pingFunction])
  · rw [dispatch_iff _ (pingService_names 1 1) (pingService_nodup 1 1)]
    simp [pingService, pingFunction]

end StormNet.RpcGenerator
