/-
  RpcGenerator/Parser.lean --- the services of `rpc_generator/parser.cpp`, from the actions of
  `syntax.y` to the text of `printServiceSource`.

  `m_oss` is the list of its lines.  `m_curService` points into `m_services`, and is set again
  whenever that grows, so that an index stands for it.
-/
import StormNet.RpcGenerator.Lexical

set_option autoImplicit false

namespace StormNet.RpcGenerator

open StormNet.Util UtilString

/-! ## The source -/

structure Function where
  m_name : Str
  m_inputClassName : Str
  m_inputParamName : Str
  m_outputClassName : Str
  m_outputParamName : Str
  m_protoId : Nat

structure Service where
  m_serviceName : Str
  m_functions : List Function

/-- What the actions of the grammar change of a `Parser`. -/
structure Parser where
  m_services : List Service
  m_curService : Option Nat

/-- The texts of a `func_def`: five identifiers and the literal behind the equals sign. -/
structure FuncDef where
  funcName : Str
  inputClassName : Str
  inputParamName : Str
  outputClassName : Str
  outputParamName : Str
  literal : Str

/-- The texts of an `rpc_def`. -/
structure RpcDef where
  service : Str
  funcList : List FuncDef

namespace Parser

/-- `addNewService(service)`. -/
def addNewService (g : Parser) (service : Str) : Parser where
  m_services := g.m_services ++ [{ m_serviceName := service, m_functions := [] }]
  m_curService := some g.m_services.length

/-- `addNewFunction(..)`; an error ends the program. -/
def addNewFunction (g : Parser) (funcName inputClassName inputParamName outputClassName
    outputParamName : Str) (protoId : Nat) : Except Str Parser :=
  match g.m_curService with
  | none => .error "curService null".toList
  | some cur =>
      let f : Function :=
        { m_name := funcName
          m_inputClassName := inputClassName
          m_inputParamName := inputParamName
          m_outputClassName := outputClassName
          m_outputParamName := outputParamName
          m_protoId := protoId }
      .ok { g with
        m_services := g.m_services.modify cur fun s =>
          { s with m_functions := s.m_functions ++ [f] } }

end Parser

/-- An `int` that is given for a `uint32_t`. -/
def toUInt32 (v : Int) : Nat := (v % 2 ^ 32).toNat

/-- The action of `func_def`. -/
def funcDef (g : Parser) (d : FuncDef) : Except Str Parser :=
  g.addNewFunction d.funcName d.inputClassName d.inputParamName d.outputClassName
    d.outputParamName (toUInt32 (ival d.literal))

/-- The actions of `rpc_def`. -/
def rpcDef (g : Parser) (d : RpcDef) : Except Str Parser := do
  let g ← d.funcList.foldlM funcDef (g.addNewService d.service)
  return { g with m_curService := none }

/-- `tab(n)` in front of a text. -/
def tab (n : Nat) (text : Str) : Str := List.replicate n '\t' ++ text

/-- `case` of a function in the switch of `onRpcRequest`. -/
def requestCase (f : Function) : List Str :=
  [tab 2 ("case ".toList ++ decimal f.m_protoId ++ ":".toList),
    tab 2 "\x7b".toList,
    tab 3 (f.m_inputClassName ++ " __request;".toList),
    tab 3 (f.m_outputClassName ++ " __response;".toList),
    tab 3 "if (!__request.ParseFromString(req.request())) \x7b".toList,
    tab 4 "STORM_ERROR << \"error\";".toList,
    tab 4 "return ResponseStatus_CoderError;".toList,
    tab 3 "\x7d".toList,
    tab 3 ("ret = ".toList ++ f.m_name ++ "(conn, __request, __response);".toList),
    tab 3 "if (req.invoke_type() != InvokeType_OneWay) \x7b".toList,
    tab 4 "if (!__response.SerializeToString(resp.mutable_response())) \x7b".toList,
    tab 5 "STORM_ERROR << \"error\"; ".toList,
    tab 5 "return ResponseStatus_CoderError;".toList,
    tab 4 "\x7d".toList,
    tab 3 "\x7d".toList,
    tab 3 "break;".toList,
    tab 2 "\x7d".toList]

/-- `case` of a function in the switch of `dispatch`. -/
def dispatchCase (f : Function) : List Str :=
  [tab 2 ("case ".toList ++ decimal f.m_protoId ++ ":".toList),
    tab 2 "\x7b".toList,
    tab 3 (f.m_outputClassName ++ " __response;".toList),
    tab 3 "int32_t ret = decodeResponse(req, __response);".toList,
    tab 3 ("callback_".toList ++ f.m_name ++ "(ret, __response);".toList),
    tab 3 "break;".toList,
    tab 2 "\x7d".toList]

/-- The two methods of the proxy for a function. -/
def proxyMethods (s : Service) (f : Function) : List Str :=
  [[],
    "int32_t ".toList ++ s.m_serviceName ++ "Proxy::".toList ++ f.m_name ++ "(const ".toList ++
      f.m_inputClassName ++ "& request, ".toList ++ f.m_outputClassName ++
      "& response) \x7b".toList,
    tab 1 "storm::RequestMessage* message = newRequest(InvokeType_Sync);".toList,
    tab 1 ("message->req.set_proto_id(".toList ++ decimal f.m_protoId ++ ");".toList),
    tab 1 "request.SerializeToString(message->req.mutable_request());".toList,
    [],
    tab 1 "doInvoke(message);".toList,
    tab 1 "int32_t ret = decodeResponse(message, response);".toList,
    [],
    tab 1 "delRequest(message);".toList,
    tab 1 "return ret;".toList,
    "\x7d".toList,
    [],
    "void ".toList ++ s.m_serviceName ++ "Proxy::async_".toList ++ f.m_name ++ "(".toList ++
      s.m_serviceName ++ "ProxyCallBack* cb, const ".toList ++ f.m_inputClassName ++
      "& request, bool broadcast) \x7b".toList,
    tab 1 "storm::RequestMessage* message = newRequest(InvokeType_Async, cb, broadcast);".toList,
    tab 1 "uint32_t invokeType = message->invokeType;".toList,
    tab 1 ("message->req.set_proto_id(".toList ++ decimal f.m_protoId ++ ");".toList),
    tab 1 "request.SerializeToString(message->req.mutable_request());".toList,
    [],
    tab 1 "doInvoke(message);".toList,
    [],
    tab 1 "if (invokeType == InvokeType_OneWay) \x7b".toList,
    tab 2 "delRequest(message);".toList,
    tab 1 "\x7d".toList,
    "\x7d".toList]

/-- `printServiceSource(s)`. -/
def printServiceSource (s : Service) : List Str :=
  ["int32_t ".toList ++ s.m_serviceName ++
      "::onRpcRequest(const storm::Connection& conn, const storm::RpcRequest& req, ".toList ++
      "storm::RpcResponse& resp) \x7b".toList,
    tab 1 "int32_t ret = 0;".toList,
    tab 1 "switch (req.proto_id()) \x7b".toList] ++
  s.m_functions.flatMap requestCase ++
  [tab 2 "default:".toList,
    tab 3 "return ResponseStatus_NoProtoId;".toList,
    tab 1 "\x7d".toList,
    [],
    tab 1 "return ret;".toList,
    "\x7d".toList,
    [],
    "void ".toList ++ s.m_serviceName ++
      "ProxyCallBack::dispatch(storm::RequestMessage* req) \x7b".toList,
    tab 1 "uint32_t protoId = req->req.proto_id();".toList,
    tab 1 "switch (protoId) \x7b".toList] ++
  s.m_functions.flatMap dispatchCase ++
  [tab 2 "default:".toList,
    tab 2 "\x7b".toList,
    tab 3 "STORM_ERROR << \"unkown protoId \" << protoId;".toList,
    tab 2 "\x7d".toList,
    tab 1 "\x7d".toList,
    tab 1 "storm::ServiceProxy::delRequest(req);".toList,
    "\x7d".toList] ++
  s.m_functions.flatMap (proxyMethods s)

/-! ## The text of a service -/

/-- What a line has between two texts. -/
def between (front back line : Str) : Option Str :=
  if front.isPrefixOf line then
    some ((line.drop front.length).take (line.length - front.length - back.length))
  else none

/-- The labels of the switches. -/
def caseLabels (lines : List Str) : List Str :=
  lines.filterMap (between "\t\tcase ".toList ":".toList)

/-- The arguments of `set_proto_id`. -/
def protoIdArguments (lines : List Str) : List Str :=
  lines.filterMap (between "\tmessage->req.set_proto_id(".toList ");".toList)

theorem between_append (front x back : Str) : between front back (front ++ x ++ back) = some x := by
  have hfront : front.isPrefixOf (front ++ x ++ back) = true := by
    rw [List.isPrefixOf_iff_prefix, List.append_assoc]
    exact List.prefix_append _ _
  have hlen : (front ++ x ++ back).length - front.length - back.length = x.length := by
    rw [List.length_append, List.length_append]
    omega
  rw [between, if_pos hfront, hlen, List.append_assoc, List.drop_left, List.take_left]

section Lines

variable (s : Service) (f : Function)

theorem caseLabels_requestCase : caseLabels (requestCase f) = [decimal f.m_protoId] := by
  have hlabel := between_append "\t\tcase ".toList (decimal f.m_protoId) ":".toList
  exact congrArg Option.toList hlabel

theorem caseLabels_dispatchCase : caseLabels (dispatchCase f) = [decimal f.m_protoId] := by
  have hlabel := between_append "\t\tcase ".toList (decimal f.m_protoId) ":".toList
  exact congrArg Option.toList hlabel

theorem caseLabels_proxyMethods : caseLabels (proxyMethods s f) = [] := rfl

theorem protoIdArguments_requestCase : protoIdArguments (requestCase f) = [] := rfl

theorem protoIdArguments_dispatchCase : protoIdArguments (dispatchCase f) = [] := rfl

theorem protoIdArguments_proxyMethods :
    protoIdArguments (proxyMethods s f) = [decimal f.m_protoId, decimal f.m_protoId] := by
  have hargument := between_append "\tmessage->req.set_proto_id(".toList (decimal f.m_protoId)
    ");".toList
  exact congrArg (fun x : Option Str => x.toList ++ x.toList) hargument

/-- What is found in the text of a service is found in the parts of its functions, if there is
nothing of it in the text of one without functions. -/
theorem filterMap_printServiceSource {β : Type} (g : Str → Option β)
    (hfixed : (printServiceSource { s with m_functions := [] }).filterMap g = []) :
    (printServiceSource s).filterMap g =
      s.m_functions.flatMap (fun f => (requestCase f).filterMap g) ++
        (s.m_functions.flatMap (fun f => (dispatchCase f).filterMap g) ++
          s.m_functions.flatMap (fun f => (proxyMethods s f).filterMap g)) := by
  simp only [printServiceSource, List.filterMap_append, List.append_eq_nil_iff] at hfixed
  obtain ⟨⟨⟨⟨⟨hfirst, -⟩, hsecond⟩, -⟩, hthird⟩, -⟩ := hfixed
  simp only [printServiceSource, List.filterMap_append, List.filterMap_flatMap]
  rw [hfirst, hsecond, hthird, List.nil_append, List.append_nil, List.append_nil,
    List.append_assoc]

/-- Each function has its id as a label in both switches. -/
theorem caseLabels_printServiceSource : caseLabels (printServiceSource s) =
    s.m_functions.map (fun f => decimal f.m_protoId) ++
      s.m_functions.map (fun f => decimal f.m_protoId) := by
  have hparts : caseLabels (printServiceSource s) =
      s.m_functions.flatMap (fun f => caseLabels (requestCase f)) ++
        (s.m_functions.flatMap (fun f => caseLabels (dispatchCase f)) ++
          s.m_functions.flatMap (fun f => caseLabels (proxyMethods s f))) :=
    filterMap_printServiceSource s _ rfl
  have hproxy : s.m_functions.flatMap (fun f => caseLabels (proxyMethods s f)) = [] :=
    List.flatMap_eq_nil_iff.mpr fun f _ => caseLabels_proxyMethods s f
  simp only [hparts, hproxy, caseLabels_requestCase, caseLabels_dispatchCase, List.append_nil,
    List.map_eq_flatMap]

/-- Each function has its id as an argument in both methods of the proxy. -/
theorem protoIdArguments_printServiceSource : protoIdArguments (printServiceSource s) =
    s.m_functions.flatMap fun f => [decimal f.m_protoId, decimal f.m_protoId] := by
  have hparts : protoIdArguments (printServiceSource s) =
      s.m_functions.flatMap (fun f => protoIdArguments (requestCase f)) ++
        (s.m_functions.flatMap (fun f => protoIdArguments (dispatchCase f)) ++
          s.m_functions.flatMap (fun f => protoIdArguments (proxyMethods s f))) :=
    filterMap_printServiceSource s _ rfl
  have hrequest : s.m_functions.flatMap (fun f => protoIdArguments (requestCase f)) = [] :=
    List.flatMap_eq_nil_iff.mpr fun f _ => protoIdArguments_requestCase f
  have hdispatch : s.m_functions.flatMap (fun f => protoIdArguments (dispatchCase f)) = [] :=
    List.flatMap_eq_nil_iff.mpr fun f _ => protoIdArguments_dispatchCase f
  simp only [hparts, hrequest, hdispatch, protoIdArguments_proxyMethods, List.nil_append]

end Lines

/-! ## The actions of the grammar -/

/-- The function that a definition adds. -/
def FuncDef.toFunction (d : FuncDef) : Function where
  m_name := d.funcName
  m_inputClassName := d.inputClassName
  m_inputParamName := d.inputParamName
  m_outputClassName := d.outputClassName
  m_outputParamName := d.outputParamName
  m_protoId := toUInt32 (ival d.literal)

/-- The service that a definition adds. -/
def RpcDef.toService (d : RpcDef) : Service where
  m_serviceName := d.service
  m_functions := d.funcList.map FuncDef.toFunction

theorem modify_last {α : Type} (l : List α) (x : α) (f : α → α) :
    (l ++ [x]).modify l.length f = l ++ [f x] := by
  induction l with
  | nil => rfl
  | cons y l ih =>
    rw [List.cons_append, List.length_cons, List.modify_succ_cons, ih, List.cons_append]

/-- A function goes to the service that was added last. -/
theorem funcDef_last (services : List Service) (s : Service) (d : FuncDef) :
    funcDef ⟨services ++ [s], some services.length⟩ d =
      .ok ⟨services ++ [{ s with m_functions := s.m_functions ++ [d.toFunction] }],
        some services.length⟩ := by
  rw [funcDef, Parser.addNewFunction]
  simp only [modify_last]
  rfl

theorem foldlM_funcDef (services : List Service) (s : Service) (l : List FuncDef) :
    l.foldlM funcDef ⟨services ++ [s], some services.length⟩ =
      .ok ⟨services ++ [{ s with m_functions := s.m_functions ++ l.map FuncDef.toFunction }],
        some services.length⟩ := by
  induction l generalizing s with
  | nil =>
    rw [List.map_nil, List.append_nil]
    rfl
  | cons d l ih =>
    rw [List.foldlM_cons, funcDef_last]
    refine (ih _).trans ?_
    rw [List.map_cons, List.append_assoc, List.singleton_append]

/-- A definition adds its service, and no error is met. -/
theorem rpcDef_eq (g : Parser) (d : RpcDef) :
    rpcDef g d = .ok ⟨g.m_services ++ [d.toService], none⟩ := by
  rw [rpcDef, Parser.addNewService, foldlM_funcDef]
  rfl

/-! ## Ids -/

theorem toUInt32_eq_iff {v w : Int} (hv : Fits v) (hw : Fits w) :
    toUInt32 v = toUInt32 w ↔ v = w := by
  unfold Fits at hv hw
  unfold toUInt32
  omega

section Ids

variable {d : RpcDef} {v : FuncDef → Int}

/-- What the definitions say that the labels are. -/
def meantIds (v : FuncDef → Int) (d : RpcDef) : List Str :=
  d.funcList.map fun f => decimal (toUInt32 (v f))

theorem protoId_eq_iff {f : FuncDef} {w : Int} (h : Literal f.literal w) :
    f.toFunction.m_protoId = toUInt32 w ↔ SameInTen (unsigned f.literal) w.natAbs := by
  rw [← ival_eq_iff h]
  exact toUInt32_eq_iff (fits_ival f.literal) h.fits

/-- The ids that are generated for a definition. -/
def generatedIds (d : RpcDef) : List Str :=
  d.funcList.map fun f => decimal f.toFunction.m_protoId

theorem generatedIds_eq_iff (h : ∀ f ∈ d.funcList, Literal f.literal (v f)) :
    generatedIds d = meantIds v d ↔
      ∀ f ∈ d.funcList, SameInTen (unsigned f.literal) (v f).natAbs := by
  rw [generatedIds, meantIds, List.map_inj_left]
  refine forall₂_congr fun f hf => ?_
  rw [decimal_injective.eq_iff, protoId_eq_iff (h f hf)]

theorem caseLabels_toService (d : RpcDef) :
    caseLabels (printServiceSource d.toService) = generatedIds d ++ generatedIds d := by
  rw [caseLabels_printServiceSource, RpcDef.toService, List.map_map]
  rfl

theorem protoIdArguments_toService (d : RpcDef) :
    protoIdArguments (printServiceSource d.toService) =
      (generatedIds d).flatMap fun i => [i, i] := by
  rw [protoIdArguments_printServiceSource, RpcDef.toService, generatedIds, List.flatMap_map,
    List.flatMap_map]

/-- The text has the ids that are meant when every literal is the same in base ten. -/
theorem labels_iff (h : ∀ f ∈ d.funcList, Literal f.literal (v f)) :
    caseLabels (printServiceSource d.toService) = meantIds v d ++ meantIds v d ∧
      protoIdArguments (printServiceSource d.toService) =
        (meantIds v d).flatMap (fun i => [i, i]) ↔
      ∀ f ∈ d.funcList, SameInTen (unsigned f.literal) (v f).natAbs := by
  rw [← generatedIds_eq_iff h, caseLabels_toService, protoIdArguments_toService]
  constructor
  · rintro ⟨hlabels, -⟩
    refine List.append_inj_left hlabels ?_
    rw [generatedIds, meantIds, List.length_map, List.length_map]
  · intro hsame
    rw [hsame]
    exact ⟨rfl, rfl⟩

/-- Numbers that are meant and differ are different ids. -/
theorem ids_ne {f f' : FuncDef} {w w' : Int} (h : Literal f.literal w)
    (h' : Literal f'.literal w') (hsame : SameInTen (unsigned f.literal) w.natAbs)
    (hsame' : SameInTen (unsigned f'.literal) w'.natAbs) (hne : w ≠ w') :
    decimal f.toFunction.m_protoId ≠ decimal f'.toFunction.m_protoId := by
  intro heq
  have hid := decimal_injective heq
  rw [(protoId_eq_iff h).mpr hsame, (protoId_eq_iff h').mpr hsame',
    toUInt32_eq_iff h.fits h'.fits] at hid
  exact hne hid

/-- **Protocol ids** are the numbers that the literals denote just when these are the same in
base ten; then different numbers are different ids. -/
theorem protoIds_iff (g : Parser) (h : ∀ f ∈ d.funcList, Literal f.literal (v f)) :
    rpcDef g d = .ok ⟨g.m_services ++ [d.toService], none⟩ ∧
    (∀ f ∈ d.funcList,
      (ival f.literal = v f ↔ SameInTen (unsigned f.literal) (v f).natAbs)) ∧
    (caseLabels (printServiceSource d.toService) = meantIds v d ++ meantIds v d ∧
      protoIdArguments (printServiceSource d.toService) =
        (meantIds v d).flatMap (fun i => [i, i]) ↔
      ∀ f ∈ d.funcList, SameInTen (unsigned f.literal) (v f).natAbs) ∧
    ∀ f ∈ d.funcList, ∀ f' ∈ d.funcList, SameInTen (unsigned f.literal) (v f).natAbs →
      SameInTen (unsigned f'.literal) (v f').natAbs → v f ≠ v f' →
      decimal f.toFunction.m_protoId ≠ decimal f'.toFunction.m_protoId := by
  refine ⟨rpcDef_eq g d, fun f hf => ival_eq_iff (h f hf), labels_iff h, ?_⟩
  intro f hf f' hf' hsame hsame' hne
  exact ids_ne (h f hf) (h f' hf') hsame hsame' hne

end Ids

/-- A method with the names that `echo.rpc` has. -/
def echo (literal : Str) : FuncDef where
  funcName := "Echo".toList
  inputClassName := "EchoReq".toList
  inputParamName := "req".toList
  outputClassName := "EchoAck".toList
  outputParamName := "ack".toList
  literal := literal

/-- Both signs, and each base where it makes no difference. -/
theorem protoIds_of_four :
    let d : RpcDef := ⟨"EchoService".toList,
      [echo "+12".toList, echo "-2147483648".toList, echo "007".toList, echo "0X0".toList]⟩
    let ids := ["12".toList, "2147483648".toList, "7".toList, "0".toList]
    rpcDef ⟨[], none⟩ d = .ok ⟨[d.toService], none⟩ ∧
      caseLabels (printServiceSource d.toService) = ids ++ ids := by
  intro d ids
  have hliteral : ∀ f ∈ d.funcList, Literal f.literal ((denotes f.literal).getD 0) := by
    simp only [d, List.forall_mem_cons]
    exact ⟨⟨by decide, by decide, by decide⟩, ⟨by decide, by decide, by decide⟩,
      ⟨by decide, by decide, by decide⟩, ⟨by decide, by decide, by decide⟩, List.forall_mem_nil _⟩
  have hsame : ∀ f ∈ d.funcList, SameInTen (unsigned f.literal)
      ((denotes f.literal).getD 0).natAbs := by
    simp only [d, List.forall_mem_cons]
    exact ⟨by decide, by decide, by decide, by decide, List.forall_mem_nil _⟩
  obtain ⟨hdef, -, hlabels, -⟩ := protoIds_iff ⟨[], none⟩ hliteral
  have hids : meantIds (fun f => (denotes f.literal).getD 0) d = ids := by decide +kernel
  refine ⟨hdef, ?_⟩
  rw [(hlabels.mpr hsame).1, hids]

/-- Two methods with different ids get the same label, and one with a third id another one. -/
theorem protoIds_collide :
    Literal "0x1".toList 1 ∧ Literal "0x2".toList 2 ∧ Literal "010".toList 8 ∧
    ival "0x1".toList = 0 ∧ ival "0x2".toList = 0 ∧ ival "010".toList = 10 ∧
    caseLabels (printServiceSource (RpcDef.toService ⟨"EchoService".toList,
      [echo "0x1".toList, echo "0x2".toList, echo "010".toList]⟩)) =
      ["0".toList, "0".toList, "10".toList, "0".toList, "0".toList, "10".toList] := by
  refine ⟨⟨by decide, by decide, by decide⟩, ⟨by decide, by decide, by decide⟩,
    ⟨by decide, by decide, by decide⟩, by decide, by decide, by decide, by decide +kernel⟩

end StormNet.RpcGenerator
