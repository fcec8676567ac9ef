/-
  Framework/RpcExecution.lean --- what the services execute of what a proxy sends.

  A request is executed at most once, by the endpoint it was sent to; the endpoint takes the
  requests of a connection in the order in which they were sent.  A call that ends with
  `ResponseStatus_Ok` has the answer of that one execution, whatever is cut, lost, delayed or
  late.
-/
import StormNet.Foundation.Channel
import StormNet.Framework.RequestId
import StormNet.Framework.RpcProto
import StormNet.Framework.RpcSystem
import StormNet.Net.ReadPool

set_option autoImplicit false

namespace StormNet.Framework

open StormNet.Foundation StormNet.Net StormNet.Util
open StormNet.Util.PacketProtocolLen
open Function (update update_self update_of_ne)

/-! ## Reading -/

theorem framed_of_length {data : List UInt8} (h : data.length ≤ 65531) :
    lenDecoder.Framed frame data :=
  decodeFrame_frame h

theorem headersOk_of_framed {ps : List (List UInt8)}
    (h : ∀ p ∈ ps, lenDecoder.Framed frame p) : HeadersOk (ps.map frame).flatten := by
  induction ps with
  | nil => decide
  | cons p ps ih =>
    have hd : decodeFrame ((p :: ps).map frame).flatten = .packet p (ps.map frame).flatten :=
      h p List.mem_cons_self _
    have hmin := (decodeFrame_of_packet hd).2.2.1
    have hrest := ih fun q hq => h q (List.mem_cons_of_mem _ hq)
    intro n hn
    rw [headers_of_packet hd, List.mem_cons] at hn
    rcases hn with rfl | hn
    · exact hmin
    · exact hrest n hn

/-- A reader that waits holds less than a frame. -/
theorem length_of_less {bs : List UInt8} (h : decodeFrame bs = .less) : bs.length < 65536 := by
  unfold decodeFrame at h
  split at h
  · omega
  · split at h
    · cases h
    · split at h
      · cases h
      · split at h
        · unfold maxLen at *
          omega
        · cases h

/-- A socket that reads a stream of frames passes on the packets that are complete. -/
theorem receive_carries {b : IoBuffer} {flight : List UInt8} {ps : List (List UInt8)}
    {rs : List ReadResult} (hb : b.ReadBuffer)
    (h : lenDecoder.Carries frame b.contents flight ps) (hclose : closes rs = false)
    (hread : bytesRead rs <+: flight) (hsize : (bytesRead rs).length < 2 ^ 30) :
    ∃ qs left b', ps = qs ++ left ∧ receive b rs = (qs, some b') ∧ b'.ReadBuffer ∧
      lenDecoder.Carries frame b'.contents (flight.drop (bytesRead rs).length) left := by
  obtain ⟨more, rfl⟩ := hread
  obtain ⟨qs, left, held, hps, hdrain, hcarries⟩ := h.deliver rfl rfl
  have hheld := length_of_less h.waits
  have hok : HeadersOk (b.contents ++ bytesRead rs) := by
    have hall := headersOk_of_framed h.framed
    rw [← h.stream, ← List.append_assoc] at hall
    exact hall.of_append
  have hshows := handleReadWith_shows PacketProtocolLen.parses hb hclose hok
    (by rw [List.length_append]; omega) (Nat.lt_succ_self _)
  rw [handleReadWith_len, hdrain] at hshows
  obtain ⟨b', hb', hcontents, hbuf⟩ := hshows.kept rfl
  refine ⟨qs, left, b', hps, ?_, hbuf, ?_⟩
  · have hout := hshows.outputs_eq
    simp only [outputs, Bool.false_eq_true, if_false] at hout
    rw [receive]
    simp only [hout, hb', packetsBeforeClose_packets]
    exact congrArg (·, some b') (List.append_nil qs)
  · rw [hcontents, List.drop_left]
    exact hcarries

/-! ## A server -/

section Server

variable {σ : Type} {d : Deployment σ} {v : Server σ} {sent ups : Nat → List RpcRequest}

/-- The requests of the connection `n`. -/
def requestsOf (n : Nat) (queued : List (Nat × RpcRequest)) : List RpcRequest :=
  (queued.filter (·.1 = n)).map (·.2)

@[simp] theorem requestsOf_nil (n : Nat) : requestsOf n [] = [] := rfl

theorem requestsOf_append (n : Nat) (qs rs : List (Nat × RpcRequest)) :
    requestsOf n (qs ++ rs) = requestsOf n qs ++ requestsOf n rs := by
  rw [requestsOf, List.filter_append, List.map_append]
  rfl

theorem requestsOf_cons_self (n : Nat) (q : RpcRequest) (qs : List (Nat × RpcRequest)) :
    requestsOf n ((n, q) :: qs) = q :: requestsOf n qs := by
  simp [requestsOf]

theorem requestsOf_cons_of_ne {n k : Nat} (h : k ≠ n) (q : RpcRequest)
    (qs : List (Nat × RpcRequest)) : requestsOf n ((k, q) :: qs) = requestsOf n qs := by
  simp [requestsOf, h]

/-- No request is handed to two connections, or twice to one. -/
structure Apart (sent : Nat → List RpcRequest) : Prop where
  nodup : ∀ n, (sent n).Nodup
  one : ∀ n k q, q ∈ sent n → q ∈ sent k → n = k

theorem Apart.mem_send {n k : Nat} {q r : RpcRequest}
    (hr : r ∈ update sent n (sent n ++ [q]) k) : r ∈ sent k ∨ k = n ∧ r = q := by
  by_cases hk : k = n
  · subst hk
    rw [update_self, List.mem_append, List.mem_singleton] at hr
    exact hr.imp_right fun hr => ⟨rfl, hr⟩
  · rw [update_of_ne hk] at hr
    exact .inl hr

/-- One more request. -/
theorem Apart.send (h : Apart sent) {q : RpcRequest} (hnew : ∀ n, q ∉ sent n) (n : Nat) :
    Apart (update sent n (sent n ++ [q])) := by
  constructor
  · intro k
    by_cases hk : k = n
    · subst hk
      rw [update_self]
      exact (h.nodup k).append (List.nodup_singleton q) (by simpa using hnew k)
    · rw [update_of_ne hk]
      exact h.nodup k
  · intro k k' r hr hr'
    rcases mem_send hr with hr | ⟨hk, hrq⟩ <;> rcases mem_send hr' with hr' | ⟨hk', hrq'⟩
    · exact h.one k k' r hr hr'
    · exact absurd (hrq' ▸ hr) (hnew k)
    · exact absurd (hrq ▸ hr') (hnew k')
    · rw [hk, hk']

/-- A server against the requests `sent` to it on each connection, of which the last ones,
`ups`, are still in the stream. -/
structure Server.Inv (d : Deployment σ) (v : Server σ) (sent ups : Nat → List RpcRequest) :
    Prop where
  order : ∃ queued : List (Nat × RpcRequest),
    v.queue.map (fun p => (p.stream, p.data)) =
      queued.map (fun q => (q.1, d.proto.writeRequest q.2)) ∧
    ∀ n, (v.taken n ++ requestsOf n queued ++ ups n).Sublist (sent n)
  hand : ∀ w p, (v.worker w).hand = some p →
    ∃ q ∈ v.taken p.stream, p.data = d.proto.writeRequest q ∧ q ∉ v.executed.map (·.request)
  apart : ∀ w w' p p', (v.worker w).hand = some p → (v.worker w').hand = some p' →
    p.data = p'.data → w = w'
  once : (v.executed.map (·.request)).Nodup
  ran : ∀ e ∈ v.executed, (∃ n, e.request ∈ v.taken n) ∧
    e.response = (respond d.methods e.state e.conn e.request).2

namespace Server.Inv

/-- A request is sent on the connection `n`. -/
theorem send (h : v.Inv d sent ups) (n : Nat) (q : RpcRequest) :
    v.Inv d (update sent n (sent n ++ [q])) (update ups n (ups n ++ [q])) := by
  obtain ⟨queued, hqueue, horder⟩ := h.order
  refine { h with order := ⟨queued, hqueue, fun k => ?_⟩ }
  by_cases hk : k = n
  · subst hk
    rw [update_self, update_self, ← List.append_assoc]
    exact (horder k).append (List.Sublist.refl [q])
  · rw [update_of_ne hk, update_of_ne hk]
    exact horder k

/-- A packet comes out of the stream of the connection `n`. -/
theorem onPacket {q : RpcRequest} {n : Nat} {left : List RpcRequest} (h : v.Inv d sent ups)
    (hups : ups n = q :: left) (inLoop : Bool) (config : ServiceConfig) (conn : Connection) :
    (v.onPacket inLoop config n conn (d.proto.writeRequest q)).Inv d sent (update ups n left) := by
  obtain ⟨queued, hqueue, horder⟩ := h.order
  have hn := horder n
  rw [hups] at hn
  unfold Server.onPacket
  split
  · refine { h with order := ⟨queued, hqueue, fun k => ?_⟩ }
    by_cases hk : k = n
    · subst hk
      rw [update_self]
      exact ((List.sublist_cons_self q left).append_left _).trans hn
    · rw [update_of_ne hk]
      exact horder k
  · refine { h with order := ⟨queued ++ [(n, q)], ?_, fun k => ?_⟩ }
    · simp only [List.map_append, hqueue, List.map_singleton]
    · show (v.taken k ++ requestsOf k (queued ++ [(n, q)]) ++ update ups n left k).Sublist (sent k)
      rw [requestsOf_append]
      by_cases hk : k = n
      · subst hk
        rw [update_self, requestsOf_cons_self, requestsOf_nil, ← List.append_assoc,
          List.append_assoc _ [q], List.singleton_append]
        exact hn
      · rw [update_of_ne hk, requestsOf_cons_of_ne (Ne.symm hk), requestsOf_nil, List.append_nil]
        exact horder k

theorem onPackets (inLoop : Bool) (config : ServiceConfig) (conn : Connection) {n : Nat}
    {qs left : List RpcRequest} (h : v.Inv d sent ups) (hups : ups n = qs ++ left) :
    ((qs.map d.proto.writeRequest).foldl (Server.onPacket inLoop config n conn) v).Inv d sent
      (update ups n left) := by
  induction qs generalizing v ups with
  | nil =>
    rw [List.nil_append] at hups
    rw [← hups, Function.update_eq_self]
    exact h
  | cons q qs ih =>
    have hrest := ih (h.onPacket hups inLoop config conn) (update_self ..)
    rwa [Function.update_idem] at hrest

/-- What stands first in the queue is a request that was not taken yet. -/
theorem front (h : v.Inv d sent ups) (hapart : Apart sent) {packet : Received}
    {queue : List Received} (hq : v.queue = packet :: queue) :
    ∃ q queued, packet.data = d.proto.writeRequest q ∧
      queue.map (fun p => (p.stream, p.data)) =
        queued.map (fun q => (q.1, d.proto.writeRequest q.2)) ∧
      (∀ n, (update v.taken packet.stream (v.taken packet.stream ++ [q]) n ++
        requestsOf n queued ++ ups n).Sublist (sent n)) ∧ ∀ n, q ∉ v.taken n := by
  obtain ⟨queued, hqueue, horder⟩ := h.order
  rw [hq] at hqueue
  cases queued with
  | nil => cases hqueue
  | cons q queued =>
    obtain ⟨k, q⟩ := q
    rw [List.map_cons, List.map_cons, List.cons.injEq, Prod.mk.injEq] at hqueue
    obtain ⟨⟨hstream, hdata⟩, hrest⟩ := hqueue
    simp only at hstream hdata
    have hk := horder k
    rw [requestsOf_cons_self] at hk
    have hmem : q ∈ sent k := hk.subset (by simp)
    refine ⟨q, queued, hdata, hrest, fun n => ?_, fun n hn => ?_⟩
    · rw [hstream]
      by_cases hnk : n = k
      · subst hnk
        rwa [update_self, List.append_assoc _ [q], List.singleton_append]
      · have hn := horder n
        rw [requestsOf_cons_of_ne (Ne.symm hnk)] at hn
        rwa [update_of_ne hnk]
    · have hsent : q ∈ sent n := (horder n).subset (by simp [hn])
      obtain rfl := hapart.one n k q hsent hmem
      have hall := (hapart.nodup n).sublist ((List.sublist_append_left _ (ups n)).trans hk)
      exact List.disjoint_of_nodup_append hall hn List.mem_cons_self

/-- No service object has a request that was not taken. -/
theorem not_in_hand (h : v.Inv d sent ups) {q : RpcRequest} (hnew : ∀ n, q ∉ v.taken n)
    {w : Nat} {p : Received} (hhand : (v.worker w).hand = some p) :
    p.data ≠ d.proto.writeRequest q := by
  intro heq
  obtain ⟨q', hq', hdata, -⟩ := h.hand w p hhand
  rw [heq] at hdata
  exact hnew p.stream (d.proto.writeRequest_inj hdata ▸ hq')

/-- What was taken stays so. -/
theorem mem_taken {n k : Nat} {q r : RpcRequest} (h : r ∈ v.taken k) :
    r ∈ update v.taken n (v.taken n ++ [q]) k := by
  by_cases hk : k = n
  · subst hk
    rw [update_self]
    exact List.mem_append_left _ h
  · rwa [update_of_ne hk]

/-- A service object pops a packet. -/
theorem take (h : v.Inv d sent ups) (hapart : Apart sent) {w : Nat} {v' : Server σ}
    (hstep : v.take d.proto w = some v') : v'.Inv d sent ups := by
  unfold Server.take at hstep
  split at hstep
  · cases hstep
  cases hq : v.queue with
  | nil => simp [hq] at hstep
  | cons packet queue =>
    obtain ⟨q, queued, hdata, hqueue, horder, hnew⟩ := h.front hapart hq
    simp only [hq, Option.some.injEq] at hstep
    subst hstep
    have hread : (d.proto.parseRequest packet.data).toList = [q] := by
      rw [hdata, d.proto.parse_writeRequest]
      rfl
    rw [hread]
    have hother : ∀ w' p, w' ≠ w →
        ((update v.worker w { v.worker w with hand := some packet }) w').hand = some p →
          (v.worker w').hand = some p := by
      intro w' p hw hhand
      rwa [update_of_ne hw] at hhand
    have hmine : ∀ p, ((update v.worker w { v.worker w with hand := some packet }) w).hand =
        some p → p = packet := by
      intro p hhand
      rw [update_self] at hhand
      exact (Option.some.inj hhand).symm
    constructor
    · exact ⟨queued, hqueue, horder⟩
    · intro w' p hhand
      by_cases hw : w' = w
      · subst hw
        rw [hmine p hhand]
        refine ⟨q, by simp only [update_self, List.mem_append, List.mem_singleton, or_true],
          hdata, ?_⟩
        intro he
        obtain ⟨e, he, heq⟩ := List.mem_map.mp he
        obtain ⟨n, hn⟩ := (h.ran e he).1
        exact hnew n (heq ▸ hn)
      · obtain ⟨q', hq', hdata', hfresh⟩ := h.hand w' p (hother w' p hw hhand)
        exact ⟨q', mem_taken hq', hdata', hfresh⟩
    · intro w₁ w₂ p₁ p₂ h₁ h₂ hsame
      by_cases hw₁ : w₁ = w
      · by_cases hw₂ : w₂ = w
        · rw [hw₁, hw₂]
        · subst hw₁
          rw [hmine p₁ h₁, hdata] at hsame
          exact absurd hsame.symm (h.not_in_hand hnew (hother _ _ hw₂ h₂))
      · by_cases hw₂ : w₂ = w
        · subst hw₂
          rw [hmine p₂ h₂, hdata] at hsame
          exact absurd hsame (h.not_in_hand hnew (hother _ _ hw₁ h₁))
        · exact h.apart w₁ w₂ p₁ p₂ (hother _ _ hw₁ h₁) (hother _ _ hw₂ h₂) hsame
    · exact h.once
    · intro e he
      obtain ⟨⟨n, hn⟩, hresponse⟩ := h.ran e he
      exact ⟨⟨n, mem_taken hn⟩, hresponse⟩

/-- A service object has run `onRequest` on its packet. -/
theorem finish (h : v.Inv d sent ups) {w : Nat} {p : Received} {q : RpcRequest}
    (hhand : (v.worker w).hand = some p) (hdata : p.data = d.proto.writeRequest q) (state : σ) :
    (v.finish w state [⟨(v.worker w).state, p.conn, q,
      (respond d.methods (v.worker w).state p.conn q).2⟩]).Inv d sent ups := by
  obtain ⟨q', hq', hdata', hfresh⟩ := h.hand w p hhand
  obtain rfl := d.proto.writeRequest_inj (hdata.symm.trans hdata')
  have hother : ∀ w' p', ((update v.worker w { state := state, hand := none }) w').hand =
      some p' → w' ≠ w ∧ (v.worker w').hand = some p' := by
    intro w' p' hw'
    by_cases hw : w' = w
    · rw [hw, update_self] at hw'
      cases hw'
    · rw [update_of_ne hw] at hw'
      exact ⟨hw, hw'⟩
  refine ⟨h.order, ?_, ?_, ?_, ?_⟩
  · intro w' p' hw'
    obtain ⟨hw, hw'⟩ := hother w' p' hw'
    obtain ⟨q₁, hq₁, hdata₁, hfresh₁⟩ := h.hand w' p' hw'
    refine ⟨q₁, hq₁, hdata₁, ?_⟩
    rw [Server.finish, List.map_append, List.mem_append, List.map_singleton, List.mem_singleton]
    rintro (hold | hnew)
    · exact hfresh₁ hold
    · rw [hnew] at hdata₁
      exact hw (h.apart w' w p' p hw' hhand (hdata₁.trans hdata.symm))
  · intro w₁ w₂ p₁ p₂ h₁ h₂
    exact h.apart w₁ w₂ p₁ p₂ (hother _ _ h₁).2 (hother _ _ h₂).2
  · rw [Server.finish, List.map_append, List.map_singleton]
    exact h.once.append (List.nodup_singleton q) (by simpa using hfresh)
  · intro e he
    rcases List.mem_append.mp he with he | he
    · exact h.ran e he
    · rw [List.mem_singleton.mp he]
      exact ⟨⟨p.stream, hq'⟩, rfl⟩

end Server.Inv

theorem Server.executed_onPackets (inLoop : Bool) (config : ServiceConfig) (n : Nat)
    (conn : Connection) (packets : List (List UInt8)) (v : Server σ) :
    (packets.foldl (Server.onPacket inLoop config n conn) v).executed = v.executed := by
  induction packets generalizing v with
  | nil => rfl
  | cons data packets ih =>
    rw [List.foldl_cons, ih, Server.onPacket]
    split <;> rfl

end Server

/-! ## The system -/

namespace RpcSystem

variable {σ : Type} {d : Deployment σ} {s t : RpcSystem σ}

/-- The request `q` in the stream of `ep` is that of the call `m`. -/
structure Owns (s : RpcSystem σ) (ep : EndPoint) (q : RpcRequest) (m : Ref) : Prop where
  sent : (s.proxy.stage m).pastSend
  request : q = s.rpcRequest m
  ep : s.proxy.TwoWay m → (s.proxy.message m).ep = some ep

/-- The answer of an execution. -/
def Known (server : EndPoint → Server σ) (r : RpcResponse) : Prop :=
  ∃ ep, ∃ e ∈ (server ep).executed, e.response = r

/-- A packet with the answer of an execution. -/
def Answer (d : Deployment σ) (server : EndPoint → Server σ) (data : List UInt8) : Prop :=
  ∃ protoId r, data = d.proto.writeResponse protoId r ∧ FitsInt32 r.ret ∧ Known server r

/-- The way to a server, on every connection. -/
structure Upward (d : Deployment σ) (l : Link) (v : Server σ)
    (sent : Nat → List RpcRequest) : Prop where
  buffer : ∀ n, (l.up n).buffer.ReadBuffer
  stream : ∃ ups : Nat → List RpcRequest,
    (∀ n, lenDecoder.Carries frame (l.up n).buffer.contents (l.up n).bytes
      ((ups n).map d.proto.writeRequest)) ∧ v.Inv d sent ups

/-- The way back. -/
structure Downward (l : Link) (answer : List UInt8 → Prop) : Prop where
  buffer : l.downBuffer.ReadBuffer
  stream : ∃ downs, lenDecoder.Carries frame l.downBuffer.contents l.down downs ∧
    ∀ data ∈ downs, answer data

/-- The invariant of all runs. -/
structure Inv (d : Deployment σ) (s : RpcSystem σ) : Prop where
  proxy : s.proxy.Inv
  numbered : s.proxy.Numbered
  holds : s.proxy.Holds (Known s.server)
  active : s.proxy.activeEndPoints.Nodup
  apart : ∀ ep, Apart (s.sent ep)
  sent : ∀ ep n, ∀ q ∈ s.sent ep n, ∃ m, s.Owns ep q m
  up : ∀ ep, Upward d (s.link ep) (s.server ep) (s.sent ep)
  down : ∀ ep, Downward (s.link ep) (Answer d s.server)
  arrived : ∀ data ∈ s.arrived, Answer d s.server data

/-- What the runs are asked for: `m_sequeue` does not come round, a message fits a packet,
the endpoints are different objects, and no event reads 1 GiB. -/
def Guard (d : Deployment σ) (s : RpcSystem σ) : Action → Prop
  | .doInvoke m _ _ _ => s.proxy.NoWrap m ∧
      (s.proxy.stage m = .taken → (d.proto.writeRequest (s.rpcRequest m)).length ≤ 65531)
  | .endpoints active => active.Nodup
  | .toServer _ _ rs => (bytesRead rs).length < 2 ^ 30
  | .toClient _ rs => (bytesRead rs).length < 2 ^ 30
  | .run ep w _ =>
      let v := (s.server ep).worker w
      ∀ packet ∈ v.hand, ∀ req ∈ d.proto.parseRequest packet.data,
        (d.proto.writeResponse req.protoId
          (respond d.methods v.state packet.conn req).2).length ≤ 65531
  | _ => True

section Known

variable {server : EndPoint → Server σ} {ep : EndPoint} {v : Server σ} {r : RpcResponse}
  {data : List UInt8}

/-- What was executed stays so. -/
theorem Known.set (h : Known server r) (hexecuted : (server ep).executed ⊆ v.executed) :
    Known (update server ep v) r := by
  obtain ⟨ep', e, he, hr⟩ := h
  refine ⟨ep', e, ?_, hr⟩
  by_cases hep : ep' = ep
  · subst hep
    rw [update_self]
    exact hexecuted he
  · rwa [update_of_ne hep]

theorem Answer.set (h : Answer d server data)
    (hexecuted : (server ep).executed ⊆ v.executed) : Answer d (update server ep v) data := by
  obtain ⟨protoId, r, hdata, hfits, hr⟩ := h
  exact ⟨protoId, r, hdata, hfits, hr.set hexecuted⟩

end Known

theorem Downward.mono {l : Link} {answer answer' : List UInt8 → Prop} (h : Downward l answer)
    (himp : ∀ data, answer data → answer' data) : Downward l answer' := by
  obtain ⟨downs, hcarries, hdowns⟩ := h.stream
  exact ⟨h.buffer, downs, hcarries, fun data hdata => himp data (hdowns data hdata)⟩

theorem carries_reset (b : IoBuffer) : lenDecoder.Carries frame b.reset.contents [] [] := by
  rw [IoBuffer.contents_reset]
  exact StableDecoder.carries_nil rfl

/-- The streams to the server hold what they held. -/
theorem Upward.of_eq {l l' : Link} {v : Server σ} {sent : Nat → List RpcRequest}
    (h : Upward d l v sent) (hbuffer : ∀ n, (l'.up n).buffer = (l.up n).buffer)
    (hbytes : ∀ n, (l'.up n).bytes = (l.up n).bytes) : Upward d l' v sent := by
  obtain ⟨ups, hcarries, hserver⟩ := h.stream
  refine ⟨fun n => ?_, ups, fun n => ?_, hserver⟩
  · rw [hbuffer]
    exact h.buffer n
  · rw [hbuffer, hbytes]
    exact hcarries n

theorem Upward.shut {l : Link} {v : Server σ} {sent : Nat → List RpcRequest}
    (h : Upward d l v sent) (n : Nat) : Upward d (l.shut n) v sent := by
  have hstream : ∀ k, ((l.shut n).up k).buffer = (l.up k).buffer ∧
      ((l.shut n).up k).bytes = (l.up k).bytes := by
    intro k
    by_cases hk : k = n
    · rw [hk, Link.shut, Link.setUp]
      simp only [update_self, and_self]
    · rw [Link.shut, Link.setUp]
      simp only [update_of_ne hk, and_self]
  exact h.of_eq (fun k => (hstream k).1) (fun k => (hstream k).2)

/-- A request is sent on the proxy's connection. -/
theorem Upward.send {l : Link} {v : Server σ} {sent : Nat → List RpcRequest} {q : RpcRequest}
    (h : Upward d l v sent) (hsize : (d.proto.writeRequest q).length ≤ 65531) :
    Upward d (l.send (frame (d.proto.writeRequest q))) v
      (update sent l.current (sent l.current ++ [q])) := by
  obtain ⟨ups, hcarries, hserver⟩ := h.stream
  refine ⟨fun n => ?_, _, fun n => ?_, hserver.send l.current q⟩
  · by_cases hn : n = l.current
    · subst hn
      simp only [Link.send, Link.setUp, update_self]
      exact h.buffer l.current
    · simp only [Link.send, Link.setUp, update_of_ne hn]
      exact h.buffer n
  · by_cases hn : n = l.current
    · subst hn
      simp only [Link.send, Link.setUp, update_self, List.map_append]
      exact (hcarries l.current).send (framed_of_length hsize)
    · simp only [Link.send, Link.setUp, update_of_ne hn]
      exact hcarries n

/-- A piece of the stream of the connection `n` is read, and its packets are passed on. -/
theorem Upward.read {l : Link} {v v' : Server σ} {sent ups : Nat → List RpcRequest} {n : Nat}
    {left : List RpcRequest} {bytes : List UInt8} {b : IoBuffer} (h : Upward d l v sent)
    (hcarries : ∀ k, lenDecoder.Carries frame (l.up k).buffer.contents (l.up k).bytes
      ((ups k).map d.proto.writeRequest)) (hb : b.ReadBuffer)
    (hread : lenDecoder.Carries frame b.contents bytes (left.map d.proto.writeRequest))
    (hserver : v'.Inv d sent (update ups n left)) :
    Upward d (l.setUp n { l.up n with bytes := bytes, buffer := b }) v' sent := by
  refine ⟨fun k => ?_, _, fun k => ?_, hserver⟩
  · by_cases hk : k = n
    · subst hk
      simp only [Link.setUp, update_self]
      exact hb
    · simp only [Link.setUp, update_of_ne hk]
      exact h.buffer k
  · by_cases hk : k = n
    · subst hk
      simp only [Link.setUp, update_self]
      exact hread
    · simp only [Link.setUp, update_of_ne hk]
      exact hcarries k

theorem Downward.next {l : Link} {answer : List UInt8 → Prop} (h : Downward l answer) :
    Downward l.next answer :=
  ⟨(ReadPool.cleared_reset h.buffer).1, [], carries_reset _,
    fun _ hdata => absurd hdata List.not_mem_nil⟩

theorem Upward.reply {l : Link} {v : Server σ} {sent : Nat → List RpcRequest}
    (h : Upward d l v sent) (slot : Option Nat) (out : Reply) :
    Upward d (l.reply slot out) v sent := by
  unfold Link.reply
  split
  · exact h.shut _
  · split
    · exact h.of_eq (fun _ => rfl) (fun _ => rfl)
    · exact h
  · exact h

theorem Downward.reply {l : Link} {answer : List UInt8 → Prop} (h : Downward l answer)
    (slot : Option Nat) (out : Reply) (hout : ∀ bytes, out = .send bytes →
      ∃ data, bytes = encoded data ∧ data.length ≤ 65531 ∧ answer data) :
    Downward (l.reply slot out) answer := by
  unfold Link.reply
  split
  · exact ⟨h.buffer, h.stream⟩
  · split
    · obtain ⟨data, hbytes, hsize, hdata⟩ := hout _ rfl
      obtain ⟨downs, hcarries, hdowns⟩ := h.stream
      rw [hbytes, encoded_eq hsize]
      refine ⟨h.buffer, _, hcarries.send (framed_of_length hsize), ?_⟩
      intro data' hdata'
      rcases List.mem_append.mp hdata' with hdata' | hdata'
      · exact hdowns data' hdata'
      · rw [List.mem_singleton.mp hdata']
        exact hdata
    · exact h
  · exact h

/-! ### The steps -/

namespace Inv

/-- The proxy takes a step. -/
theorem setProxy (h : s.Inv d) {a : ServiceProxy.Action} {p : ServiceProxy}
    (hstep : ServiceProxy.Step d.proto.parseResponse d.netTid s.proxy a p)
    (hinv : p.Inv)
    (hwrap : ∀ m code now, a = .doInvoke m code now → s.proxy.NoWrap m)
    (hactive : p.activeEndPoints.Nodup)
    (hin : ∀ ep data resp, a = .onPacket ep data → d.proto.parseResponse data = some resp →
      Known s.server resp)
    {call : Ref → UInt32 × List UInt8}
    (hcall : ∀ m, (s.proxy.stage m).pastSend → call m = s.call m) :
    Inv d { s with proxy := p, call := call } := by
  refine { h with
    proxy := hinv
    numbered := h.numbered.step hstep hwrap
    holds := h.holds.step hstep hin
    active := hactive
    sent := ?_ }
  intro ep n q hq
  obtain ⟨m, hsent, hrequest, hep⟩ := h.sent ep n q hq
  obtain ⟨-, hid, htype, hkeep⟩ := hstep.keeps (Stage.pastTake_of_pastSend hsent)
  obtain ⟨hsent', hep'⟩ := hkeep hsent
  refine ⟨m, hsent', ?_, fun htwo => ?_⟩
  · rw [hrequest, rpcRequest, rpcRequest]
    simp only [hid, htype, hcall m hsent]
  · have htwo' : s.proxy.TwoWay m := by
      unfold ServiceProxy.TwoWay at htwo ⊢
      rwa [htype] at htwo
    exact hep'.trans (hep htwo')

/-- A request goes into the stream of an endpoint. -/
theorem send (h : s.Inv d) {q : RpcRequest} {ep : EndPoint} {m : Ref}
    (howns : s.Owns ep q m) (hnew : ∀ n, q ∉ s.sent ep n)
    (hsize : (d.proto.writeRequest q).length ≤ 65531) :
    (RpcSystem.send d.proto q s ep).Inv d := by
  let k := (s.link ep).current
  have hother : ∀ {ep'}, ep' ≠ ep → (RpcSystem.send d.proto q s ep).link ep' = s.link ep' ∧
      (RpcSystem.send d.proto q s ep).sent ep' = s.sent ep' :=
    fun hne => ⟨update_of_ne hne _ _, update_of_ne hne _ _⟩
  have hlink : (RpcSystem.send d.proto q s ep).link ep =
      (s.link ep).send (encoded (d.proto.writeRequest q)) := update_self _ _ _
  have hsent : (RpcSystem.send d.proto q s ep).sent ep =
      update (s.sent ep) k (s.sent ep k ++ [q]) := update_self _ _ _
  refine { h with apart := ?_, sent := ?_, up := ?_, down := ?_ }
  · intro ep'
    by_cases hep : ep' = ep
    · rw [hep, hsent]
      exact (h.apart ep).send hnew k
    · rw [(hother hep).2]
      exact h.apart ep'
  · intro ep' n q' hq'
    have hall : ∃ m', s.Owns ep' q' m' := by
      by_cases hep : ep' = ep
      · subst hep
        rw [hsent] at hq'
        rcases Apart.mem_send hq' with hq' | ⟨-, rfl⟩
        · exact h.sent ep' n q' hq'
        · exact ⟨m, howns⟩
      · rw [(hother hep).2] at hq'
        exact h.sent ep' n q' hq'
    obtain ⟨m', howns'⟩ := hall
    exact ⟨m', howns'.sent, howns'.request, howns'.ep⟩
  · intro ep'
    by_cases hep : ep' = ep
    · subst hep
      rw [hsent, hlink, encoded_eq hsize]
      exact (h.up ep').send hsize
    · rw [(hother hep).1, (hother hep).2]
      exact h.up ep'
  · intro ep'
    by_cases hep : ep' = ep
    · subst hep
      rw [hlink]
      exact ⟨(h.down ep').buffer, (h.down ep').stream⟩
    · rw [(hother hep).1]
      exact h.down ep'

/-- The same request goes to several endpoints. -/
theorem sends {eps : List EndPoint} {q : RpcRequest} {m : Ref} (h : s.Inv d)
    (howns : ∀ ep ∈ eps, s.Owns ep q m) (hnew : ∀ ep ∈ eps, ∀ n, q ∉ s.sent ep n)
    (hnodup : eps.Nodup) (hsize : (d.proto.writeRequest q).length ≤ 65531) :
    (eps.foldl (RpcSystem.send d.proto q) s).Inv d := by
  induction eps generalizing s with
  | nil => exact h
  | cons ep eps ih =>
    rw [List.nodup_cons] at hnodup
    have hfirst := h.send (howns ep List.mem_cons_self) (hnew ep List.mem_cons_self) hsize
    refine ih hfirst ?_ ?_ hnodup.2
    · intro ep' hep'
      obtain ⟨hsent, hrequest, hone⟩ := howns ep' (List.mem_cons_of_mem _ hep')
      exact ⟨hsent, hrequest, hone⟩
    · intro ep' hep'
      have hne : ep' ≠ ep := fun heq => hnodup.1 (heq ▸ hep')
      have hsame : (RpcSystem.send d.proto q s ep).sent ep' = s.sent ep' := update_of_ne hne _ _
      rw [hsame]
      exact hnew ep' (List.mem_cons_of_mem _ hep')

/-- A request is sent to no endpoint before its call is past the send. -/
theorem not_sent (h : s.Inv d) {m : Ref} (hstage : s.proxy.stage m = .taken) (ep : EndPoint)
    (n : Nat) : s.rpcRequest m ∉ s.sent ep n := by
  intro hq
  obtain ⟨m', hsent, hrequest, -⟩ := h.sent ep n _ hq
  have hm' : m = m' := h.numbered.apart m m' (by rw [hstage]; rfl)
    (Stage.pastTake_of_pastSend hsent) (congrArg RpcRequest.requestId hrequest)
  rw [← hm', hstage] at hsent
  cases hsent

/-- Behind the send a two-way request has the endpoint it was sent to. -/
theorem sent_of_targets {p p' : ServiceProxy} {m : Ref} {code : Int64} {now : UInt64}
    (hstep : p.doInvoke m code now = some p') {ep : EndPoint} (hep : ep ∈ targets p m code) :
    p.stage m = .taken ∧ (p'.stage m).pastSend ∧
      (p'.TwoWay m → (p'.message m).ep = some ep) := by
  by_cases hstage : p.stage m = .taken
  · refine ⟨hstage, ?_⟩
    rw [targets, if_neg (not_not_intro hstage)] at hep
    simp only [ServiceProxy.doInvoke, hstage] at hstep
    split at hep
    · rename_i hone
      rw [if_pos hone] at hstep
      rw [← Option.some.inj hstep]
      refine ⟨by simp only [update_self]; rfl, fun htwo => absurd hone.1 htwo⟩
    · rename_i hone
      rw [if_neg hone] at hstep
      cases hselect : p.selectEndPoint code with
      | none => simp [hselect] at hep
      | some ep' =>
        simp only [hselect, Option.some.injEq] at hstep
        simp only [hselect, Option.toList_some, List.mem_singleton] at hep
        rw [← hstep, hep]
        refine ⟨by simp only [update_self]; rfl, fun _ => by simp only [update_self]⟩
  · rw [targets, if_pos hstage] at hep
    cases hep

theorem doInvoke (h : s.Inv d) {m : Ref} {code : Int64} {now : UInt64} {lost : List EndPoint}
    (hguard : s.Guard d (.doInvoke m code now lost))
    (hstep : s.doInvoke d m code now lost = some t) : t.Inv d := by
  obtain ⟨p, hp, rfl⟩ := Option.map_eq_some_iff.mp hstep
  obtain ⟨hwrap, hsize⟩ := hguard
  have hcases : ServiceProxy.Step d.proto.parseResponse d.netTid s.proxy
      (.doInvoke m code now) p := ServiceProxy.step_doInvoke hp
  have hinner : s.proxy.step d.proto.parseResponse d.netTid (.doInvoke m code now) = some p := hp
  have hset : Inv d { s with proxy := p, call := s.call } := by
    refine h.setProxy hcases (h.proxy.step hinner) ?_ ?_ ?_ (fun _ _ => rfl)
    · intro m' code' now' ha
      injection ha with hm
      exact hm ▸ hwrap
    · rw [hcases.active (fun _ ha => by cases ha)]
      exact h.active
    · intro ep data resp ha
      cases ha
  have hmem : ∀ ep ∈ (targets s.proxy m code).filter (· ∉ lost), ep ∈ targets s.proxy m code :=
    fun ep hep => List.mem_of_mem_filter hep
  have hnodup : (targets s.proxy m code).Nodup := by
    unfold targets
    split
    · exact List.nodup_nil
    · split
      · exact h.active
      · cases s.proxy.selectEndPoint code with
        | none => exact List.nodup_nil
        | some ep => exact List.nodup_singleton ep
  by_cases hstage : s.proxy.stage m = .taken
  · apply hset.sends (m := m) ?_ ?_ (hnodup.filter _) (hsize hstage)
    · intro ep hep
      obtain ⟨-, hsent, hone⟩ := sent_of_targets hp (hmem ep hep)
      obtain ⟨-, hid, htype, -⟩ := hcases.keeps (m := m) (by rw [hstage]; rfl)
      refine ⟨hsent, ?_, hone⟩
      rw [rpcRequest, rpcRequest]
      simp only [hid, htype]
    · intro ep _
      exact h.not_sent hstage ep
  · have hnone : targets s.proxy m code = [] := if_pos hstage
    rw [hnone]
    exact hset

/-- The two ends of one stream change, and what has arrived of the answers. -/
theorem setEnds (h : s.Inv d) {ep : EndPoint} {l : Link} {v : Server σ}
    {arrived : List (List UInt8)} (hup : Upward d l v (s.sent ep))
    (hexecuted : (s.server ep).executed ⊆ v.executed)
    (hdown : Downward l (Answer d (update s.server ep v)))
    (harrived : ∀ data ∈ arrived, Answer d s.server data) :
    Inv d { s with
      link := update s.link ep l
      server := update s.server ep v
      arrived := arrived } := by
  refine { h with
    holds := h.holds.mono fun _ hr => hr.set hexecuted
    sent := ?_, up := ?_, down := ?_
    arrived := fun data hdata => (harrived data hdata).set hexecuted }
  · intro ep' n q hq
    obtain ⟨m, howns⟩ := h.sent ep' n q hq
    exact ⟨m, howns.sent, howns.request, howns.ep⟩
  · intro ep'
    by_cases hep : ep' = ep
    · subst hep
      simp only [update_self]
      exact hup
    · simp only [update_of_ne hep]
      exact h.up ep'
  · intro ep'
    by_cases hep : ep' = ep
    · subst hep
      simp only [update_self]
      exact hdown
    · simp only [update_of_ne hep]
      exact (h.down ep').mono fun data hdata => hdata.set hexecuted

/-- Only the stream changes. -/
theorem setLink (h : s.Inv d) {ep : EndPoint} {l : Link} {arrived : List (List UInt8)}
    (hup : Upward d l (s.server ep) (s.sent ep)) (hdown : Downward l (Answer d s.server))
    (harrived : ∀ data ∈ arrived, Answer d s.server data) :
    Inv d { s with link := update s.link ep l, arrived := arrived } := by
  have hsame : update s.server ep (s.server ep) = s.server := Function.update_eq_self ep s.server
  have hset := h.setEnds (v := s.server ep) hup (fun _ he => he) (by rwa [hsame]) harrived
  rwa [hsame] at hset

/-- The listener's socket of the connection `n` reads. -/
theorem toServer (h : s.Inv d) {ep : EndPoint} {n : Nat} {rs : List ReadResult}
    (hclose : closes rs = false) (hread : bytesRead rs <+: ((s.link ep).up n).bytes)
    (hsize : (bytesRead rs).length < 2 ^ 30) : (s.toServer d ep n rs).Inv d := by
  obtain ⟨ups, hcarries, hserver⟩ := (h.up ep).stream
  obtain ⟨qs, left, b', hups, hreceive, hbuf, hcarries'⟩ :=
    receive_carries ((h.up ep).buffer n) (hcarries n) hclose hread hsize
  obtain ⟨qs, left, hsplit, rfl, rfl⟩ := List.map_eq_append_iff.mp hups
  have hqueue := hserver.onPackets (d.inLoop ep) (d.config ep) ((s.link ep).up n).conn hsplit
  have hexecuted : (s.server ep).executed ⊆ ((qs.map d.proto.writeRequest).foldl
      (Server.onPacket (d.inLoop ep) (d.config ep) n ((s.link ep).up n).conn)
      (s.server ep)).executed := by
    rw [Server.executed_onPackets]
    exact fun _ he => he
  simp only [RpcSystem.toServer, hreceive]
  refine h.setEnds ((h.up ep).read hcarries hbuf hcarries' hqueue) hexecuted ?_ h.arrived
  exact Downward.mono ⟨(h.down ep).buffer, (h.down ep).stream⟩ fun _ hdata => hdata.set hexecuted

/-- The proxy's socket reads. -/
theorem toClient (h : s.Inv d) {ep : EndPoint} {rs : List ReadResult}
    (hclose : closes rs = false) (hread : bytesRead rs <+: (s.link ep).down)
    (hsize : (bytesRead rs).length < 2 ^ 30) : (s.toClient ep rs).Inv d := by
  obtain ⟨downs, hcarries, hdowns⟩ := (h.down ep).stream
  obtain ⟨qs, left, b', rfl, hreceive, hbuf, hcarries'⟩ :=
    receive_carries (h.down ep).buffer hcarries hclose hread hsize
  simp only [RpcSystem.toClient, hreceive]
  refine h.setLink ⟨(h.up ep).buffer, (h.up ep).stream⟩ ⟨hbuf, left, hcarries', ?_⟩ ?_
  · exact fun data hdata => hdowns data (List.mem_append_right _ hdata)
  · exact fun data hdata => hdowns data (List.mem_append_left _ hdata)

/-- A service object pops a packet. -/
theorem take (h : s.Inv d) {ep : EndPoint} {w : Nat} {v : Server σ}
    (hstep : (s.server ep).take d.proto w = some v) :
    Inv d { s with server := update s.server ep v } := by
  obtain ⟨ups, hcarries, hserver⟩ := (h.up ep).stream
  have hsame : update s.link ep (s.link ep) = s.link := Function.update_eq_self ep s.link
  have hexecuted : (s.server ep).executed ⊆ v.executed := by
    unfold Server.take at hstep
    split at hstep
    · cases hstep
    · split at hstep
      · cases hstep
      · rw [← Option.some.inj hstep]
        exact fun _ he => he
  have hset : Inv d { s with
      link := update s.link ep (s.link ep), server := update s.server ep v } :=
    h.setEnds ⟨(h.up ep).buffer, ups, hcarries, hserver.take (h.apart ep) hstep⟩ hexecuted
      ((h.down ep).mono fun data hdata => hdata.set hexecuted) h.arrived
  rwa [hsame] at hset

/-- A service object runs `onRequest`. -/
theorem run (h : s.Inv d) {ep : EndPoint} {w : Nat} {slot : Option Nat}
    (hguard : s.Guard d (.run ep w slot)) (hstep : s.run d ep w slot = some t) : t.Inv d := by
  obtain ⟨ups, hcarries, hserver⟩ := (h.up ep).stream
  obtain ⟨p, hhand, hrun⟩ := Option.bind_eq_some_iff.mp hstep
  obtain ⟨-, hrun⟩ := Option.ite_none_right_eq_some.mp hrun
  obtain ⟨q, -, hdata, -⟩ := hserver.hand w p hhand
  have hparse : d.proto.parseRequest p.data = some q := by
    rw [hdata]
    exact d.proto.parse_writeRequest q
  have hsize := hguard _ hhand q hparse
  obtain ⟨hstate, hout⟩ := onRequest_writeRequest d.proto d.methods
    ((s.server ep).worker w).state p.conn q
  have hfinish := hserver.finish hhand hdata
    (respond d.methods ((s.server ep).worker w).state p.conn q).1
  rw [← hdata] at hstate hout
  simp only [hstate, hparse, Option.toList_some, List.map_cons, List.map_nil,
    Option.some.injEq] at hrun
  subst hrun
  generalize hv : (s.server ep).finish w _ _ = v at hfinish ⊢
  have hexecuted : (s.server ep).executed ⊆ v.executed := by
    rw [← hv]
    exact fun _ he => List.mem_append_left _ he
  have hnew : Known (update s.server ep v)
      (respond d.methods ((s.server ep).worker w).state p.conn q).2 := by
    refine ⟨ep, ⟨((s.server ep).worker w).state, p.conn, q, _⟩, ?_, rfl⟩
    rw [update_self, ← hv]
    exact List.mem_append_right _ List.mem_cons_self
  have hup : Upward d (s.link ep) v (s.sent ep) := ⟨(h.up ep).buffer, ups, hcarries, hfinish⟩
  refine h.setEnds (hup.reply _ _) hexecuted ?_ h.arrived
  refine ((h.down ep).mono fun data hdata => hdata.set hexecuted).reply slot _ ?_
  intro bytes hbytes
  exact ⟨_, hout bytes hbytes, hsize, _, _, rfl, fitsInt32_respond _ _ _ _, hnew⟩

/-- The listener closes its socket of a connection. -/
theorem shut (h : s.Inv d) (ep : EndPoint) (n : Nat) :
    Inv d { s with link := update s.link ep ((s.link ep).shut n) } :=
  h.setLink ((h.up ep).shut n) ⟨(h.down ep).buffer, (h.down ep).stream⟩ h.arrived

/-- A step of the proxy that takes no id, gets no endpoints and hears no answer. -/
theorem ofProxy (h : s.Inv d) {a : ServiceProxy.Action} {p : ServiceProxy}
    (hstep : s.proxy.step d.proto.parseResponse d.netTid a = some p)
    (hinvoke : ∀ m code now, a ≠ .doInvoke m code now) (hactive : ∀ active, a ≠ .endpoints active)
    (hpacket : ∀ ep data, a ≠ .onPacket ep data) {call : Ref → UInt32 × List UInt8}
    (hcall : ∀ m, (s.proxy.stage m).pastSend → call m = s.call m) :
    Inv d { s with proxy := p, call := call } := by
  have hcases := ServiceProxy.step_cases hstep
  refine h.setProxy hcases (h.proxy.step hstep) (fun m code now ha => absurd ha (hinvoke m code now))
    ?_ (fun ep data _ ha => absurd ha (hpacket ep data)) hcall
  rw [hcases.active hactive]
  exact h.active

/-- The proxy's socket is closed. -/
theorem close (h : s.Inv d) {ep : EndPoint} {closeType : CloseType} {told : Bool}
    (hidle : s.proxy.net = .idle) :
    Inv d { s with
      proxy := if told then s.proxy.onClose ep closeType else s.proxy
      link := update s.link ep (s.link ep).next } := by
  have hlink : Inv d { s with link := update s.link ep (s.link ep).next } :=
    h.setLink ((h.up ep).of_eq (fun _ => rfl) (fun _ => rfl)) (h.down ep).next h.arrived
  cases told with
  | false => exact hlink
  | true =>
    have hstep : s.proxy.step d.proto.parseResponse d.netTid (.onClose ep closeType) =
        some (s.proxy.onClose ep closeType) := if_pos hidle
    exact hlink.ofProxy hstep (fun _ _ _ ha => by cases ha) (fun _ ha => by cases ha)
      (fun _ _ ha => by cases ha) (fun _ _ => rfl)

/-- A caller makes a message, and writes down what it asks. -/
theorem newRequest (h : s.Inv d) {m : Ref} {type : InvokeType} {cb broadcast : Bool} {tid : Nat}
    {p : ServiceProxy} (hstep : s.proxy.step d.proto.parseResponse d.netTid
      (.newRequest m type cb broadcast tid) = some p) (asked : UInt32 × List UInt8) :
    Inv d { s with proxy := p, call := update s.call m asked } := by
  refine h.ofProxy hstep (fun _ _ _ ha => by cases ha) (fun _ ha => by cases ha)
    (fun _ _ ha => by cases ha) (fun m' hsent => ?_)
  have hne : m' ≠ m := by
    rintro rfl
    cases ServiceProxy.step_cases hstep with
    | newRequest hfresh =>
      rw [hfresh] at hsent
      cases hsent
  exact update_of_ne hne _ _

/-- The proxy gets its endpoints. -/
theorem endpoints (h : s.Inv d) {active : List EndPoint} (hactive : active.Nodup) :
    Inv d { s with proxy := { s.proxy with activeEndPoints := active } } := by
  have hcases : ServiceProxy.Step d.proto.parseResponse d.netTid s.proxy (.endpoints active)
      { s.proxy with activeEndPoints := active } := .endpoints
  have hinner : s.proxy.step d.proto.parseResponse d.netTid (.endpoints active) =
      some { s.proxy with activeEndPoints := active } := rfl
  exact h.setProxy hcases (h.proxy.step hinner) (fun _ _ _ ha => by cases ha) hactive
    (fun _ _ _ ha => by cases ha) (fun _ _ => rfl)

/-- `onPacket` of the proxy gets the next of what has arrived. -/
theorem packet (h : s.Inv d) {ep : EndPoint} {data : List UInt8} {arrived : List (List UInt8)}
    {p : ServiceProxy} (harrived : s.arrived = data :: arrived)
    (hstep : s.proxy.step d.proto.parseResponse d.netTid (.onPacket ep data) = some p) :
    Inv d { s with proxy := p, arrived := arrived } := by
  have hcases := ServiceProxy.step_cases hstep
  have hall := h.arrived
  rw [harrived] at hall
  have hset : Inv d { s with proxy := p, call := s.call } := by
    refine h.setProxy hcases (h.proxy.step hstep) (fun _ _ _ ha => by cases ha)
      (by rw [hcases.active (fun _ ha => by cases ha)]; exact h.active) ?_ (fun _ _ => rfl)
    intro ep' data' resp ha hparse
    injection ha with _ hdata
    obtain ⟨protoId, r, hr, hfits, hknown⟩ := hall data List.mem_cons_self
    rw [← hdata, hr, d.proto.parse_writeResponse protoId hfits, Option.some.injEq] at hparse
    exact hparse ▸ hknown
  exact { hset with
    sent := fun ep' n q hq => by
      obtain ⟨m, howns⟩ := hset.sent ep' n q hq
      exact ⟨m, howns.sent, howns.request, howns.ep⟩
    arrived := fun data' hdata' => hall data' (List.mem_cons_of_mem _ hdata') }

/-- Every step. -/
theorem step (h : s.Inv d) {a : Action} (hguard : s.Guard d a) (hstep : s.step d a = some t) :
    t.Inv d := by
  cases a with
  | newRequest m type cb broadcast tid protoId request =>
    obtain ⟨p, hp, rfl⟩ := Option.map_eq_some_iff.mp hstep
    exact h.newRequest hp (protoId, request)
  | doInvoke m code now lost => exact h.doInvoke hguard hstep
  | endpoints active =>
    rw [← Option.some.inj hstep]
    exact h.endpoints hguard
  | proxy a =>
    obtain ⟨hinner, hstep⟩ := Option.ite_none_right_eq_some.mp hstep
    obtain ⟨p, hp, rfl⟩ := Option.map_eq_some_iff.mp hstep
    exact h.ofProxy hp (fun _ _ _ ha => by rw [ha] at hinner; cases hinner)
      (fun _ ha => by rw [ha] at hinner; cases hinner)
      (fun _ _ ha => by rw [ha] at hinner; cases hinner) (fun _ _ => rfl)
  | toServer ep n rs =>
    obtain ⟨⟨-, hclose, hread⟩, hread'⟩ := Option.ite_none_right_eq_some.mp hstep
    rw [← Option.some.inj hread']
    exact h.toServer hclose hread hguard
  | shut ep n =>
    rw [← Option.some.inj hstep]
    exact h.shut ep n
  | take ep w =>
    obtain ⟨v, hv, rfl⟩ := Option.map_eq_some_iff.mp hstep
    exact h.take hv
  | run ep w slot => exact h.run hguard hstep
  | toClient ep rs =>
    obtain ⟨hread, hstep⟩ := Option.ite_none_right_eq_some.mp hstep
    rw [← Option.some.inj hstep]
    exact h.toClient hread.2.2.1 hread.2.2.2 hguard
  | packet ep =>
    simp only [RpcSystem.step] at hstep
    cases harrived : s.arrived with
    | nil => simp [harrived] at hstep
    | cons data arrived =>
      simp only [harrived] at hstep
      obtain ⟨p, hp, rfl⟩ := Option.map_eq_some_iff.mp hstep
      exact h.packet harrived hp
  | close ep closeType told =>
    obtain ⟨hidle, hstep⟩ := Option.ite_none_right_eq_some.mp hstep
    rw [← Option.some.inj hstep]
    exact h.close hidle.2

end Inv

/-! ### Runs -/

theorem inv_new {active : List EndPoint} (hactive : active.Nodup)
    (conn : EndPoint → Nat → Connection) (start : σ) : (new active conn start).Inv d where
  proxy := ServiceProxy.inv_new active
  numbered := ServiceProxy.numbered_new active
  holds := ServiceProxy.holds_new _ active
  active := hactive
  apart _ := ⟨fun _ => List.nodup_nil, fun _ _ _ hq => absurd hq List.not_mem_nil⟩
  sent _ _ _ hq := absurd hq List.not_mem_nil
  up ep := by
    refine ⟨fun _ => IoBuffer.readBuffer_new (by decide) (by decide), fun _ => [], ?_, ?_⟩
    · exact fun _ => StableDecoder.carries_nil rfl
    · exact ⟨⟨[], rfl, fun _ => List.nil_sublist _⟩, fun _ _ h => (by cases h),
        fun _ _ _ _ h => (by cases h), List.nodup_nil, fun _ he => absurd he List.not_mem_nil⟩
  down ep := by
    refine ⟨IoBuffer.readBuffer_new (by decide) (by decide), [], ?_, ?_⟩
    · exact StableDecoder.carries_nil rfl
    · exact fun _ hdata => absurd hdata List.not_mem_nil
  arrived _ hdata := absurd hdata List.not_mem_nil

theorem inv_of_runs {active : List EndPoint} (hactive : active.Nodup)
    {conn : EndPoint → Nat → Connection} {start : σ}
    (h : Runs (step d) (Guard d) (new active conn start) s) : s.Inv d :=
  h.invariant (fun _ _ _ hi hg hstep => hi.step hg hstep) (inv_new hactive conn start)

/-- A request taken was sent by a call. -/
theorem Inv.owner (h : s.Inv d) {ep : EndPoint} {e : Execution σ}
    (he : e ∈ (s.server ep).executed) : ∃ m, s.Owns ep e.request m := by
  obtain ⟨ups, -, hserver⟩ := (h.up ep).stream
  obtain ⟨queued, -, horder⟩ := hserver.order
  obtain ⟨n, htaken⟩ := (hserver.ran e he).1
  apply h.sent ep n
  apply (horder n).subset
  rw [List.append_assoc]
  exact List.mem_append_left _ htaken

/-- Two executions of one two-way request are one. -/
theorem Inv.unique (h : s.Inv d) {ep ep' : EndPoint} {e e' : Execution σ}
    (he : e ∈ (s.server ep).executed) (he' : e' ∈ (s.server ep').executed)
    (hrequest : e.request = e'.request) (htype : e.request.invokeType ≠ InvokeType.oneWay.code) :
    ep = ep' ∧ e = e' := by
  obtain ⟨m, hsent, hm, hep⟩ := h.owner he
  obtain ⟨m', hsent', hm', hep'⟩ := h.owner he'
  have hid : (s.proxy.message m).requestId = (s.proxy.message m').requestId := by
    rw [hm, hm'] at hrequest
    exact congrArg RpcRequest.requestId hrequest
  have hmm := h.numbered.apart m m' (Stage.pastTake_of_pastSend hsent)
    (Stage.pastTake_of_pastSend hsent') hid
  subst hmm
  have htwo : s.proxy.TwoWay m := by
    intro hone
    rw [hm] at htype
    exact htype (congrArg InvokeType.code hone)
  have heq : ep = ep' := Option.some.inj ((hep htwo).symm.trans (hep' htwo))
  subst heq
  obtain ⟨ups, -, hserver⟩ := (h.up ep).stream
  exact ⟨rfl, List.inj_on_of_nodup_map hserver.once he he' hrequest⟩

/-- **A request is executed at most once, where it was sent, in the order of sending.**  In
every run an endpoint takes from each connection its requests in the order in which they were
sent on it; it executes none of them twice, and nothing else; and a two-way request is executed
at most once by all endpoints together. -/
theorem executed_at_most_once (d : Deployment σ) (active : List EndPoint)
    (hactive : active.Nodup) (conn : EndPoint → Nat → Connection) (start : σ) (s : RpcSystem σ)
    (h : Runs (step d) (Guard d) (new active conn start) s) :
    (∀ ep, (∀ n, ((s.server ep).taken n).Sublist (s.sent ep n)) ∧
      ((s.server ep).executed.map (·.request)).Nodup ∧
      ∀ e ∈ (s.server ep).executed, (∃ n, e.request ∈ (s.server ep).taken n) ∧
        ∃ m, (s.proxy.stage m).pastSend ∧ e.request = s.rpcRequest m) ∧
    ∀ ep ep' e e', e ∈ (s.server ep).executed → e' ∈ (s.server ep').executed →
      e.request = e'.request → e.request.invokeType ≠ InvokeType.oneWay.code →
      ep = ep' ∧ e = e' := by
  have hinv := inv_of_runs hactive h
  refine ⟨fun ep => ?_, fun ep ep' e e' he he' => hinv.unique he he'⟩
  obtain ⟨ups, -, hserver⟩ := (hinv.up ep).stream
  obtain ⟨queued, -, horder⟩ := hserver.order
  refine ⟨fun n => ?_, hserver.once, fun e he => ⟨(hserver.ran e he).1, ?_⟩⟩
  · have hn := horder n
    rw [List.append_assoc] at hn
    exact (List.sublist_append_left _ _).trans hn
  · obtain ⟨m, howns⟩ := hinv.owner he
    exact ⟨m, howns.sent, howns.request⟩

/-- **A call that ends well was executed once, and shows its caller what a local call shows.**
In every run a sync or async call that is finished with `ResponseStatus_Ok` was executed
exactly once, by the endpoint it was sent to; its response is the answer of that execution, and
the stub of its method returns what the method did on the state it found there. -/
theorem ok_call_executed_once (d : Deployment σ) (hdistinct : Distinct d.methods)
    (active : List EndPoint) (hactive : active.Nodup) (conn : EndPoint → Nat → Connection)
    (start : σ) (s : RpcSystem σ) (h : Runs (step d) (Guard d) (new active conn start) s) (m : Ref)
    (htwo : s.proxy.TwoWay m) (hfinished : s.proxy.finished m ≠ 0)
    (hok : (s.proxy.message m).status = .ok) :
    ∃ ep e, e ∈ (s.server ep).executed ∧ e.request = s.rpcRequest m ∧
      (s.proxy.message m).ep = some ep ∧ (s.proxy.message m).resp = some e.response ∧
      (∀ ep' e', e' ∈ (s.server ep').executed → e'.request = s.rpcRequest m →
        ep' = ep ∧ e' = e) ∧
      ∀ f ∈ d.methods, ∀ request, (s.call m).1 = f.protoId →
        f.request.serialize request = some (s.call m).2 →
        (f.response.serialize (f.call e.state e.conn request).2.2).isSome →
        decodeResponse f.response (s.proxy.message m) =
          some (f.localCall e.state e.conn request) := by
  have hinv := inv_of_runs hactive h
  obtain ⟨r, hr, hrid⟩ := hinv.proxy.own m hfinished hok
  obtain ⟨ep, e, he, rfl⟩ := hinv.holds.message m r hr
  obtain ⟨ups, -, hserver⟩ := (hinv.up ep).stream
  have hresponse := (hserver.ran e he).2
  obtain ⟨m', hsent, hrequest, hep⟩ := hinv.owner he
  have hsaved : (s.proxy.stage m).pastSave := by
    by_contra hnot
    exact hfinished (hinv.proxy.unsaved m (Bool.eq_false_iff.mpr hnot)).1
  have hmm : m' = m := by
    apply hinv.numbered.apart m' m (Stage.pastTake_of_pastSend hsent)
      (Stage.pastTake_of_pastSave hsaved)
    rw [hresponse, requestId_respond, hrequest] at hrid
    exact hrid
  subst hmm
  have htype : e.request.invokeType ≠ InvokeType.oneWay.code := by
    rw [hrequest]
    exact fun hone => htwo (InvokeType.code_eq_iff.mp hone)
  refine ⟨ep, e, he, hrequest, hep htwo, hr, ?_, ?_⟩
  · intro ep' e' he' hrequest'
    obtain ⟨hep', hee⟩ := hinv.unique he he' (hrequest.trans hrequest'.symm) htype
    exact ⟨hep'.symm, hee.symm⟩
  · intro f hf request hid hserial hsome
    rw [hresponse] at hr
    exact (decodeResponse_respond hdistinct hf (by rw [hrequest]; exact hid) htype
      (by rw [hrequest]; exact hserial) hsome hok hr).2

/-! ### One call -/

instance (s : RpcSystem σ) : ∀ a : Action, Decidable (s.Guard d a)
  | .doInvoke m _ _ _ => inferInstanceAs (Decidable ((s.proxy.stage m = .created → _) ∧ (_ → _)))
  | .endpoints active => inferInstanceAs (Decidable active.Nodup)
  | .toServer _ _ _ => inferInstanceAs (Decidable (_ < _))
  | .toClient _ _ => inferInstanceAs (Decidable (_ < _))
  | .run ep w _ => inferInstanceAs (Decidable (∀ packet ∈ ((s.server ep).worker w).hand,
      ∀ req ∈ d.proto.parseRequest packet.data, (d.proto.writeResponse req.protoId
        (respond d.methods ((s.server ep).worker w).state packet.conn req).2).length ≤ 65531))
  | .newRequest _ _ _ _ _ _ _ => isTrue trivial
  | .proxy _ => isTrue trivial
  | .take _ _ => isTrue trivial
  | .packet _ => isTrue trivial
  | .shut _ _ => isTrue trivial
  | .close _ _ _ => isTrue trivial

/-- `EchoReq` and `EchoAck`. -/
def echoMessage : MessageClass (List UInt8) where
  serialize msg := some (Wire.writeFields [⟨1, .bytes msg⟩])
  parse bs := (Wire.readFields bs).map (List.foldl (fun msg f =>
    match f with
    | ⟨1, .bytes bs⟩ => bs
    | _ => msg) [])
  parse_serialize h := by
    rw [← Option.some.inj h, Wire.readFields_writeFields]
    · rfl
    · intro f hf
      rw [List.mem_singleton.mp hf]
      trivial

/-- `Echo`, with the number of calls before it in front. -/
def echo : Method Nat where
  protoId := 1
  Request := List UInt8
  Response := List UInt8
  request := echoMessage
  response := echoMessage
  call count _ msg := (count + 1, 0, UInt8.ofNat count :: msg)

def echoDeployment : Deployment Nat where
  proto := rpcProto
  methods := [echo]
  inLoop _ := true
  config _ := ⟨10, 10, 60, 10⟩
  netTid := 9

/-- A sync call on one connection and an async one on the next.  The listener reads the second
connection first, then what is left on the first one; the answer to that reaches nobody. -/
def echoSchedule : List Action :=
  [.newRequest 0 .sync false false 2 1 [10, 1, 65], .newRequest 1 .async true false 3 1 [10, 1, 66],
    .doInvoke 1 (-1) 0 [], .doInvoke 0 (-1) 0 [], .doInvoke 0 (-1) 0 [], .close 7 .peer false,
    .doInvoke 1 (-1) 0 [], .doInvoke 0 (-1) 0 [], .doInvoke 1 (-1) 0 [],
    .toServer 7 0 [.data 0 [0, 0, 15, 8, 1]],
    .toServer 7 1 [.data 0 [0, 0, 15, 8, 1, 16, 0, 24, 1, 34, 3, 10, 1, 66]],
    .toServer 7 0 [.data 16 [1, 24, 0, 34, 3, 10, 1, 65]], .shut 7 0,
    .take 7 0, .run 7 0 (some 1), .take 7 0, .run 7 0 none,
    .toClient 7 [.data 0 [0, 0, 16, 8, 1, 16, 0, 34, 4, 10, 2, 0, 66, 40, 0]],
    .packet 7, .proxy .net, .proxy .net]

/-- Before the first call. -/
def echoStart : RpcSystem Nat := new [7] (fun _ n => ⟨UInt32.ofNat (n + 3), 5, "", 0, 0⟩) 0

/-- The async call was executed first, and is answered. -/
def EchoEnd (s : RpcSystem Nat) : Prop :=
  s.proxy.TwoWay 1 ∧ s.proxy.finished 1 ≠ 0 ∧ (s.proxy.message 1).status = .ok ∧
    s.call 1 = (1, [10, 1, 66]) ∧
    (s.server 7).executed.map (fun e => (e.state, e.request)) =
      [(0, ⟨1, 0, 1, [10, 1, 66]⟩), (1, ⟨1, 1, 0, [10, 1, 65]⟩)]

instance (s : RpcSystem Nat) : Decidable (EchoEnd s) := inferInstanceAs (Decidable (_ ∧ _))

theorem echo_run : ∃ s : RpcSystem Nat,
    Runs (step echoDeployment) (Guard echoDeployment) echoStart s ∧ EchoEnd s := by
  have hrun : ∃ s, Runs (step echoDeployment) (Guard echoDeployment) echoStart s ∧
      decide (EchoEnd s) = true :=
    exists_runs_of_schedule echoStart echoSchedule (fun s => decide (EchoEnd s))
      (by decide +kernel)
  obtain ⟨s, hs, hend⟩ := hrun
  exact ⟨s, hs, of_decide_eq_true hend⟩

theorem executed_at_most_once_echo : ∃ s : RpcSystem Nat, EchoEnd s ∧
    (∀ n, ((s.server 7).taken n).Sublist (s.sent 7 n)) ∧
    ((s.server 7).executed.map (·.request)).Nodup := by
  obtain ⟨s, hrun, hend⟩ := echo_run
  obtain ⟨heach, -⟩ := executed_at_most_once echoDeployment [7] (by decide) _ 0 s hrun
  exact ⟨s, hend, (heach 7).1, (heach 7).2.1⟩

theorem ok_call_executed_once_echo : ∃ (s : RpcSystem Nat) (ep : EndPoint) (e : Execution Nat),
    EchoEnd s ∧ e ∈ (s.server ep).executed ∧ (s.proxy.message 1).resp = some e.response ∧
    decodeResponse echoMessage (s.proxy.message 1) =
      some (echo.localCall e.state e.conn [66]) := by
  obtain ⟨s, hrun, hend⟩ := echo_run
  obtain ⟨htwo, hfinished, hok, hcall, -⟩ := id hend
  obtain ⟨ep, e, he, -, -, hresp, -, hstub⟩ := ok_call_executed_once echoDeployment
    (List.nodup_singleton _) [7] (by decide) _ 0 s hrun 1 htwo hfinished hok
  refine ⟨s, ep, e, hend, he, hresp, ?_⟩
  exact hstub echo (List.mem_singleton.mpr rfl) [66] (by rw [hcall]; rfl) (by rw [hcall]; decide)
    rfl

end RpcSystem

end StormNet.Framework
