/-
  Framework/RpcService.lean --- the two ends of a remote call: `StormService::onRequest` with a
  generated `onRpcRequest`, and `decodeResponse` behind the generated stubs.

  The classes that protobuf generates are parameters: what is used of them is that parsing
  undoes serializing.  A service is the list of its methods in the order of the file; an
  implementation may keep a state, and is told the connection.
-/
import Mathlib.Algebra.Group.Int.Defs
import StormNet.Framework.ServiceProxy
import StormNet.Framework.StormListener
import StormNet.Util.Protocol

set_option autoImplicit false

namespace StormNet.Framework

open StormNet.Foundation StormNet.Net StormNet.Util

/-! ## Messages -/

/-- `RpcRequest`. -/
structure RpcRequest where
  protoId : UInt32
  requestId : UInt32
  invokeType : UInt32
  request : List UInt8
  deriving DecidableEq, Repr

/-- The number of an `InvokeType`. -/
def InvokeType.code : InvokeType → UInt32
  | .sync => 0
  | .async => 1
  | .oneWay => 2

/-- The number of a `ResponseStatus`. -/
def ResponseStatus.code : ResponseStatus → Int32
  | .ok => 0
  | .timeOut => 30001
  | .netError => 30002
  | .coderError => 30003
  | .noProtoId => 30004
  | .error => 30005

theorem InvokeType.code_eq_iff {type type' : InvokeType} :
    type.code = type'.code ↔ type = type' := by
  cases type <;> cases type' <;> decide

/-- A message class: `SerializeToString`, which may refuse, and `ParseFromString`. -/
structure MessageClass (α : Type) where
  serialize : α → Option (List UInt8)
  parse : List UInt8 → Option α
  parse_serialize : ∀ {x bytes}, serialize x = some bytes → parse bytes = some x

/-- What a stub puts into the message; a refusal leaves the field empty. -/
def MessageClass.body {α : Type} (c : MessageClass α) (x : α) : List UInt8 :=
  (c.serialize x).getD []

/-- The value fits an `int32`. -/
def FitsInt32 (v : Int) : Prop := -2 ^ 31 ≤ v ∧ v < 2 ^ 31

/-- The classes of `rpc_proto.proto`.  Of an `RpcResponse` the client does not read `proto_id`. -/
structure RpcProto where
  writeRequest : RpcRequest → List UInt8
  parseRequest : List UInt8 → Option RpcRequest
  writeResponse : UInt32 → RpcResponse → List UInt8
  parseResponse : List UInt8 → Option RpcResponse
  parse_writeRequest : ∀ q, parseRequest (writeRequest q) = some q
  parse_writeResponse : ∀ protoId {r}, FitsInt32 r.ret →
    parseResponse (writeResponse protoId r) = some r

theorem RpcProto.writeRequest_inj (proto : RpcProto) {q q' : RpcRequest}
    (h : proto.writeRequest q = proto.writeRequest q') : q = q' := by
  have hparse := congrArg proto.parseRequest h
  rwa [proto.parse_writeRequest, proto.parse_writeRequest, Option.some.injEq] at hparse

/-- The bytes that `PacketProtocolLen::encode(msg)` gives to `send`. -/
def encoded (bytes : List UInt8) : List UInt8 :=
  ((PacketProtocolLen.encodeMessage bytes.length (some bytes)).map IoBuffer.contents).getD []

theorem encoded_eq {bytes : List UInt8} (h : bytes.length ≤ 65531) :
    encoded bytes = PacketProtocolLen.frame bytes := by
  have hlen : bytes.length + 4 < 2 ^ 32 := by omega
  obtain ⟨buffer, hbuffer, -, hcontents⟩ := PacketProtocolLen.encodeMessage_eq hlen
  rw [encoded, hbuffer, Option.map_some, Option.getD_some, hcontents]

/-! ## The server -/

/-- A method of a service: what the generator knows of it, and its implementation over the
state `σ` of the server. -/
structure Method (σ : Type) where
  protoId : UInt32
  Request : Type
  Response : Type
  request : MessageClass Request
  response : MessageClass Response
  call : σ → Connection → Request → σ × Int32 × Response

section Server

variable {σ : Type}

/-- The generated `onRpcRequest`: the state behind it, `ret`, and the field `response`. -/
def onRpcRequest (methods : List (Method σ)) (s : σ) (conn : Connection) (req : RpcRequest) :
    σ × Int32 × List UInt8 :=
  match methods.find? fun f => f.protoId = req.protoId with
  | none => (s, ResponseStatus.noProtoId.code, [])
  | some f =>
      match f.request.parse req.request with
      | none => (s, ResponseStatus.coderError.code, [])
      | some request =>
          let (s', ret, response) := f.call s conn request
          if req.invokeType ≠ InvokeType.oneWay.code then
            match f.response.serialize response with
            | none => (s', ResponseStatus.coderError.code, [])
            | some bytes => (s', ret, bytes)
          else (s', ret, [])

/-- The `RpcResponse` of a request, and the state behind it. -/
def respond (methods : List (Method σ)) (s : σ) (conn : Connection) (req : RpcRequest) :
    σ × RpcResponse :=
  let (s', ret, response) := onRpcRequest methods s conn req
  (s', { requestId := req.requestId, ret := ret.toInt, response := response })

/-- What `onRequest` does to the connection. -/
inductive Reply where
  /-- a one-way request is not answered -/
  | nothing
  | close (closeType : CloseType)
  | send (bytes : List UInt8)

/-- `StormService::onRequest`. -/
def onRequest (proto : RpcProto) (methods : List (Method σ)) (s : σ) (conn : Connection)
    (data : List UInt8) : σ × Reply :=
  match proto.parseRequest data with
  | none => (s, .close .packetError)
  | some req =>
      let (s', resp) := respond methods s conn req
      if req.invokeType = InvokeType.oneWay.code then (s', .nothing)
      else (s', .send (encoded (proto.writeResponse req.protoId resp)))

/-- A request that was written is answered, unless it is one-way. -/
theorem onRequest_writeRequest (proto : RpcProto) (methods : List (Method σ)) (s : σ)
    (conn : Connection) (q : RpcRequest) :
    (onRequest proto methods s conn (proto.writeRequest q)).1 = (respond methods s conn q).1 ∧
    ∀ bytes, (onRequest proto methods s conn (proto.writeRequest q)).2 = .send bytes →
      bytes = encoded (proto.writeResponse q.protoId (respond methods s conn q).2) := by
  simp only [onRequest, proto.parse_writeRequest]
  split
  · exact ⟨rfl, fun _ h => by cases h⟩
  · exact ⟨rfl, fun _ h => (Reply.send.inj h).symm⟩

/-! ## The client -/

/-- `decodeResponse`: the result, and the response if it was read.  `none` is the use of a
response that is not there. -/
def decodeResponse {α : Type} (c : MessageClass α) (message : RequestMessage) :
    Option (Int × Option α) :=
  if message.status ≠ .ok then some (message.status.code.toInt, none)
  else
    match message.resp with
    | none => none
    | some resp =>
        if resp.ret ≠ 0 then some (resp.ret, none)
        else
          match c.parse resp.response with
          | none => some (ResponseStatus.coderError.code.toInt, none)
          | some response => some (0, some response)

/-- What a caller in the server's own process would see of the method. -/
def Method.localCall (f : Method σ) (s : σ) (conn : Connection) (request : f.Request) :
    Int × Option f.Response :=
  let (_, ret, response) := f.call s conn request
  if ret.toInt ≠ 0 then (ret.toInt, none) else (0, some response)

/-- Each id selects one method, as the compiler demands of the labels of a `switch`. -/
def Distinct (methods : List (Method σ)) : Prop := (methods.map (·.protoId)).Nodup

/-! ## A call through the stubs -/

theorem find_of_distinct {methods : List (Method σ)} (h : Distinct methods) {f : Method σ}
    (hf : f ∈ methods) : methods.find? (fun g => g.protoId = f.protoId) = some f := by
  induction methods with
  | nil => cases hf
  | cons g methods ih =>
    rw [Distinct, List.map_cons, List.nodup_cons] at h
    obtain ⟨hg, hrest⟩ := h
    rcases List.mem_cons.mp hf with rfl | hf
    · exact List.find?_cons_of_pos (by simp)
    · have hne : g.protoId ≠ f.protoId := fun heq => hg (heq ▸ List.mem_map_of_mem hf)
      rw [List.find?_cons_of_neg (by simpa using hne)]
      exact ih hrest hf

theorem fitsInt32_toInt (v : Int32) : FitsInt32 v.toInt :=
  ⟨Int32.le_toInt v, Int32.toInt_lt v⟩

theorem fitsInt32_respond (methods : List (Method σ)) (s : σ) (conn : Connection)
    (req : RpcRequest) : FitsInt32 (respond methods s conn req).2.ret :=
  fitsInt32_toInt _

theorem requestId_respond (methods : List (Method σ)) (s : σ) (conn : Connection)
    (req : RpcRequest) : (respond methods s conn req).2.requestId = req.requestId := rfl

/-- The request of a stub runs its method, and the stub reads off the response what the call
would have returned in the server's own process. -/
theorem decodeResponse_respond {methods : List (Method σ)} (hdistinct : Distinct methods)
    {f : Method σ} (hf : f ∈ methods) {s : σ} {conn : Connection} {request : f.Request}
    {req : RpcRequest} (hid : req.protoId = f.protoId)
    (htype : req.invokeType ≠ InvokeType.oneWay.code)
    (hserial : f.request.serialize request = some req.request)
    (hresponse : (f.response.serialize (f.call s conn request).2.2).isSome)
    {message : RequestMessage} (hstatus : message.status = .ok)
    (hresp : message.resp = some (respond methods s conn req).2) :
    (respond methods s conn req).1 = (f.call s conn request).1 ∧
      decodeResponse f.response message = some (f.localCall s conn request) := by
  obtain ⟨bytes, hbytes⟩ := Option.isSome_iff_exists.mp hresponse
  have hcall : onRpcRequest methods s conn req =
      ((f.call s conn request).1, (f.call s conn request).2.1, bytes) := by
    rw [onRpcRequest, hid, find_of_distinct hdistinct hf]
    simp only [f.request.parse_serialize hserial, if_pos htype, hbytes]
  have hrespond : respond methods s conn req = ((f.call s conn request).1,
      { requestId := req.requestId, ret := (f.call s conn request).2.1.toInt,
        response := bytes }) := by
    rw [respond, hcall]
  rw [hrespond] at hresp ⊢
  refine ⟨rfl, ?_⟩
  simp only [decodeResponse, if_neg (not_not_intro hstatus), hresp, Method.localCall,
    f.response.parse_serialize hbytes]
  split <;> rfl

end Server

end StormNet.Framework
