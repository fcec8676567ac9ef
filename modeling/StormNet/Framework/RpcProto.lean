/-
  Framework/RpcProto.lean --- the two messages of `proto/rpc_proto.proto` on the wire.

  The fields are written in the order of their numbers; a reader takes them in any order, the
  last one of a number counts, and fields it does not know are passed over.
-/
import StormNet.Foundation.Wire
import StormNet.Framework.RpcService

set_option autoImplicit false

namespace StormNet.Framework

open StormNet.Foundation
open StormNet.Foundation.Wire (Field readFields writeFields readFields_writeFields)

/-- A field of an `RpcRequest`. -/
def RpcRequest.merge (q : RpcRequest) : Field → RpcRequest
  | ⟨1, .varint n⟩ => { q with protoId := .ofNat n }
  | ⟨2, .varint n⟩ => { q with requestId := .ofNat n }
  | ⟨3, .varint n⟩ => { q with invokeType := .ofNat n }
  | ⟨4, .bytes bs⟩ => { q with request := bs }
  | _ => q

def RpcRequest.fields (q : RpcRequest) : List Field :=
  [⟨1, .varint q.protoId.toNat⟩, ⟨2, .varint q.requestId.toNat⟩,
    ⟨3, .varint q.invokeType.toNat⟩, ⟨4, .bytes q.request⟩]

/-- A field of an `RpcResponse`; an `int32` is written with the bits of an `int64`. -/
def RpcResponse.merge (r : RpcResponse) : Field → RpcResponse
  | ⟨2, .varint n⟩ => { r with requestId := .ofNat n }
  | ⟨4, .bytes bs⟩ => { r with response := bs }
  | ⟨5, .varint n⟩ => { r with ret := Int.bmod n (2 ^ 32) }
  | _ => r

def RpcResponse.fields (protoId : UInt32) (r : RpcResponse) : List Field :=
  [⟨1, .varint protoId.toNat⟩, ⟨2, .varint r.requestId.toNat⟩, ⟨4, .bytes r.response⟩,
    ⟨5, .varint (r.ret % 2 ^ 64).toNat⟩]

theorem RpcRequest.merge_fields (q : RpcRequest) :
    q.fields.foldl RpcRequest.merge ⟨0, 0, 0, []⟩ = q := by
  simp only [RpcRequest.fields, List.foldl_cons, List.foldl_nil, RpcRequest.merge,
    UInt32.ofNat_toNat]

theorem RpcResponse.merge_fields (protoId : UInt32) {r : RpcResponse} (h : FitsInt32 r.ret) :
    (r.fields protoId).foldl RpcResponse.merge ⟨0, 0, []⟩ = r := by
  have hret : Int.bmod (((r.ret % 2 ^ 64).toNat : Nat) : Int) (2 ^ 32) = r.ret := by
    obtain ⟨hlow, hhigh⟩ := h
    have hpos : 0 ≤ r.ret % 2 ^ 64 := Int.emod_nonneg _ (by decide)
    have hsize : ((2 ^ 32 : Nat) : Int) = 2 ^ 32 := rfl
    rw [Int.toNat_of_nonneg hpos, Int.bmod_def, hsize]
    split <;> omega
  simp only [RpcResponse.fields, List.foldl_cons, List.foldl_nil, RpcResponse.merge,
    UInt32.ofNat_toNat, hret]

/-- The classes generated from `rpc_proto.proto`. -/
def rpcProto : RpcProto where
  writeRequest q := writeFields q.fields
  parseRequest bs := (readFields bs).map (List.foldl RpcRequest.merge ⟨0, 0, 0, []⟩)
  writeResponse protoId r := writeFields (r.fields protoId)
  parseResponse bs := (readFields bs).map (List.foldl RpcResponse.merge ⟨0, 0, []⟩)
  parse_writeRequest q := by
    rw [readFields_writeFields, Option.map_some, q.merge_fields]
    intro f hf
    simp only [RpcRequest.fields, List.mem_cons, List.not_mem_nil, or_false] at hf
    rcases hf with rfl | rfl | rfl | rfl <;> trivial
  parse_writeResponse protoId r h := by
    rw [readFields_writeFields, Option.map_some, RpcResponse.merge_fields protoId h]
    intro f hf
    simp only [RpcResponse.fields, List.mem_cons, List.not_mem_nil, or_false] at hf
    rcases hf with rfl | rfl | rfl | rfl <;> trivial

example : rpcProto.writeRequest ⟨1, 300, 0, [7, 8]⟩ =
    [0x08, 1, 0x10, 0xac, 2, 0x18, 0, 0x22, 2, 7, 8] := by decide

end StormNet.Framework
