import QuickRelay.Server.Handler
import QuickRelay.Server.Reply

/-! What one call on the handler can do: drop the datagram, replay a kept reply or
render a fresh one. -/
namespace QuickRelay.Server
open Lib Protocol
open Binding (SocketAddr ServerIdentity BindingResponsePlan)
open Transport (ConnectionId QueuedReply)

variable (crypto : Crypto)

namespace BindingHandler

/-- The plan of a request: a function of the request, its peer and the
configuration. -/
def planFor (h : BindingHandler) (msg : Message) (peer : SocketAddr) (identity : ServerIdentity) : BindingResponsePlan :=
  planForRequest msg peer (some identity) h.addresses

/-- The reply to a request that is not a retransmission. -/
def freshReply (h : BindingHandler) (msg : Message) (peer : SocketAddr) (identity : ServerIdentity) : Res Bytes :=
  renderPlan crypto (h.planFor msg peer identity) msg.txid identity

def withTransactions (h : BindingHandler) (c : TransactionCache) : BindingHandler := { h with transactions := c }

theorem freshReply_ok (h : BindingHandler) (msg : Message) (peer : SocketAddr) (identity : ServerIdentity) :
    ∃ out, h.freshReply crypto msg peer identity = .ok out := by
  obtain ⟨out, hout, -⟩ := renderPlan_reads crypto (planForRequest_decided msg peer identity h.addresses) msg.txid
  exact ⟨out, hout⟩

end BindingHandler

/-! ### UDP -/

/-- A Binding request over UDP, from a peer and to a handler that can answer. -/
structure UdpRequest (h : BindingHandler) (datagram src : Bytes) (msg : Message) (peer : SocketAddr)
    (identity : ServerIdentity) : Prop where
  parsed : parse datagram = .ok msg
  binding : msg.header.msgType = .bindingRequest
  peer : parsePeerAddr src = some peer
  identity : h.udpIdentity = some identity

def udpKey (msg : Message) (peer : SocketAddr) : TransactionKey := ⟨peer, msg.txid, none⟩

/-- The sender is attached and can be cloned. -/
def Live (h : BindingHandler) (env : Env) : Bool := h.udp.isSome && env.cloneOk

/-- What a datagram can lead to. -/
inductive StunCase (h : BindingHandler) (env : Env) (datagram src : Bytes) : BindingHandler → List Sent → Prop
  | dropped : (¬ ∃ msg peer identity, UdpRequest h datagram src msg peer identity) → StunCase h env datagram src h []
  | replayed {msg : Message} {peer : SocketAddr} {identity : ServerIdentity} {out : Bytes} :
      UdpRequest h datagram src msg peer identity → Live h env →
      (h.transactions.lookup env.lookupAt (udpKey msg peer)).1 = some out → env.sendOk →
      StunCase h env datagram src (h.withTransactions ((h.transactions.reap env.lookupAt).insert env.reapAt env.fileAt
        (udpKey msg peer) out)) [⟨peer, out⟩]
  | unsent {msg : Message} {peer : SocketAddr} {identity : ServerIdentity} {out : Bytes} :
      UdpRequest h datagram src msg peer identity → Live h env →
      (h.transactions.lookup env.lookupAt (udpKey msg peer)).1 = some out → ¬ env.sendOk →
      StunCase h env datagram src (h.withTransactions (h.transactions.reap env.lookupAt)) []
  | fresh {msg : Message} {peer : SocketAddr} {identity : ServerIdentity} {out : Bytes} :
      UdpRequest h datagram src msg peer identity → Live h env →
      (h.transactions.lookup env.lookupAt (udpKey msg peer)).1 = none → h.freshReply crypto msg peer identity = .ok out →
      StunCase h env datagram src (h.withTransactions ((h.transactions.reap env.lookupAt).insert env.reapAt env.fileAt
        (udpKey msg peer) out)) (if env.sendOk then [⟨peer, out⟩] else [])
  | pathless {msg : Message} {peer : SocketAddr} {identity : ServerIdentity} {out : Bytes} :
      UdpRequest h datagram src msg peer identity → ¬ Live h env → h.freshReply crypto msg peer identity = .ok out →
      StunCase h env datagram src (h.withTransactions (h.transactions.insert env.reapAt env.fileAt (udpKey msg peer) out)) []

theorem replyPath_eq {h : BindingHandler} {src : Bytes} {peer : SocketAddr} (hp : parsePeerAddr src = some peer)
    (env : Env) : (¬ Live h env ∧ h.replyPath env src = .none) ∨
      ∃ socket, Live h env ∧ h.replyPath env src = .udp socket peer := by
  cases hu : h.udp with
  | none => simp [BindingHandler.replyPath, Live, hu]
  | some socket =>
    cases hc : env.cloneOk
    · simp [BindingHandler.replyPath, Live, hu, hp, hc]
    · simp [BindingHandler.replyPath, Live, hu, hp, hc]

private theorem lookupLive_none (h : BindingHandler) (env : Env) (key : TransactionKey) :
    h.lookupLive env .none key = (none, h) := rfl

private theorem lookupLive_live (h : BindingHandler) (env : Env) (path : ReplyPath) (hp : path.isLive) (key : TransactionKey) :
    h.lookupLive env path key =
      ((h.transactions.lookup env.lookupAt key).1, h.withTransactions (h.transactions.reap env.lookupAt)) := by
  rw [BindingHandler.lookupLive, if_pos hp]
  rfl

/-- The sink keeps what it rendered, whatever becomes of it. -/
theorem sendPlan_ok (path : ReplyPath) (env : Env) {identity : ServerIdentity} {plan : BindingResponsePlan}
    {txid : TransactionId} {out : Bytes} (h : renderPlan crypto plan txid identity = .ok out) :
    ∃ sink, (ServerBindingSink.forPath path identity).sendPlan crypto env plan txid = .ok (sink, (path.send env out).2) ∧
      sink.rendered = some out ∧ sink.queued = (path.send env out).1.getD none := by
  simp only [ServerBindingSink.sendPlan, ServerBindingSink.forPath, h]
  rcases hs : path.send env out with ⟨_ | queue, sent⟩
  · exact ⟨_, rfl, rfl, rfl⟩
  · exact ⟨_, rfl, rfl, rfl⟩

theorem answerUdp_case {h h' : BindingHandler} {env : Env} {datagram src : Bytes} {msg : Message} {peer : SocketAddr}
    {identity : ServerIdentity} {sent : List Sent} (hr : UdpRequest h datagram src msg peer identity)
    (ha : h.answerUdp crypto env msg src peer identity = .ok (h', sent)) : StunCase crypto h env datagram src h' sent := by
  have hkey : BindingHandler.transactionKey src msg.txid = some (udpKey msg peer) := by
    rw [BindingHandler.transactionKey, hr.peer]
    rfl
  obtain ⟨out, hout⟩ := h.freshReply_ok crypto msg peer identity
  have hrender : renderPlan crypto (planForRequest msg peer (some identity) h.addresses) msg.txid identity = .ok out := hout
  simp only [BindingHandler.answerUdp, hkey] at ha
  rcases replyPath_eq hr.peer env with ⟨hl, hpath⟩ | ⟨socket, hl, hpath⟩
  · obtain ⟨sink, hsink, hren, -⟩ := sendPlan_ok crypto .none env hrender
    rw [hpath, lookupLive_none] at ha
    simp only [hsink, Outcome.ok_bind, Outcome.pure_eq, BindingHandler.filed, hren] at ha
    cases ha
    exact .pathless hr hl hout
  · rw [hpath, lookupLive_live _ _ _ rfl] at ha
    cases hlook : (h.transactions.lookup env.lookupAt (udpKey msg peer)).1 with
    | some replay =>
      rw [hlook] at ha
      by_cases hs : env.sendOk
      · simp only [BindingHandler.deliverReply, ReplyPath.isLive, ReplyPath.send, hs] at ha
        cases ha
        exact .replayed hr hl hlook hs
      · simp only [BindingHandler.deliverReply, ReplyPath.isLive, ReplyPath.send, hs] at ha
        cases ha
        exact .unsent hr hl hlook hs
    | none =>
      obtain ⟨sink, hsink, hren, -⟩ := sendPlan_ok crypto (.udp socket peer) env hrender
      rw [hlook] at ha
      simp only [hsink, Outcome.ok_bind, Outcome.pure_eq, BindingHandler.filed, hren] at ha
      cases ha
      have hsent : (ReplyPath.send (.udp socket peer) env out).2 = if env.sendOk then [⟨peer, out⟩] else [] := by
        rw [ReplyPath.send]
        split <;> rfl
      rw [hsent]
      exact .fresh hr hl hlook hout

theorem onStun_case {h h' : BindingHandler} {env : Env} {datagram src : Bytes} {sent : List Sent}
    (h1 : h.onStun crypto env datagram src = .ok (h', sent)) : StunCase crypto h env datagram src h' sent := by
  rw [BindingHandler.onStun] at h1
  cases hp : parse datagram with
  | panic =>
    rw [hp] at h1
    cases h1
  | err e =>
    rw [hp] at h1
    cases h1
    exact .dropped fun ⟨_, _, _, hr⟩ => by cases hp.symm.trans hr.parsed
  | ok msg =>
    rw [hp] at h1
    by_cases hb : msg.header.msgType = .bindingRequest
    · simp only [hb, ne_eq, not_true_eq_false, if_false] at h1
      cases hpeer : parsePeerAddr src with
      | none =>
        rw [hpeer] at h1
        cases h1
        exact .dropped fun ⟨_, _, _, hr⟩ => by cases hpeer.symm.trans hr.peer
      | some peer =>
        cases hid : h.udpIdentity with
        | none =>
          rw [hpeer, hid] at h1
          cases h1
          exact .dropped fun ⟨_, _, _, hr⟩ => by cases hid.symm.trans hr.identity
        | some identity =>
          rw [hpeer, hid] at h1
          exact answerUdp_case crypto ⟨hp, hb, hpeer, hid⟩ h1
    · simp only [hb, ne_eq, not_false_eq_true, if_true] at h1
      cases h1
      exact .dropped fun ⟨_, _, _, hr⟩ => by cases hp.symm.trans hr.parsed; exact hb hr.binding

/-- All a datagram gets is one reply to the peer it came from: the kept one, or else a
fresh one. -/
theorem onStun_sent {h h' : BindingHandler} {env : Env} {datagram src : Bytes} {sent : List Sent}
    (h1 : h.onStun crypto env datagram src = .ok (h', sent)) {s : Sent} (hs : s ∈ sent) :
    ∃ msg identity, UdpRequest h datagram src msg s.dst identity ∧ sent = [s] ∧
      ((h.transactions.lookup env.lookupAt (udpKey msg s.dst)).1 = some s.datagram ∨
        (h.transactions.lookup env.lookupAt (udpKey msg s.dst)).1 = none ∧
          h.freshReply crypto msg s.dst identity = .ok s.datagram) := by
  cases onStun_case crypto h1 with
  | dropped _ => cases hs
  | unsent _ _ _ _ => cases hs
  | pathless _ _ _ => cases hs
  | @replayed msg peer identity out hr _ hlook _ =>
    obtain rfl := List.mem_singleton.mp hs
    exact ⟨msg, identity, hr, rfl, .inl hlook⟩
  | @fresh msg peer identity out hr _ hlook hfresh =>
    by_cases hsend : env.sendOk
    · rw [if_pos hsend] at hs ⊢
      obtain rfl := List.mem_singleton.mp hs
      exact ⟨msg, identity, hr, rfl, .inr ⟨hlook, hfresh⟩⟩
    · rw [if_neg hsend] at hs
      cases hs

/-! ### Control connections -/

/-- A Binding request on an open control connection of a handler that can answer. -/
structure TcpRequest (h : BindingHandler) (datagram : Bytes) (id : ConnectionId) (msg : Message)
    (identity : ServerIdentity) : Prop where
  parsed : parse datagram = .ok msg
  binding : msg.header.msgType = .bindingRequest
  tracked : id ∈ h.conns
  identity : h.tcpIdentity = some identity

/-- A control connection is keyed by the address it reached. -/
def tcpKey (msg : Message) (identity : ServerIdentity) (id : ConnectionId) : TransactionKey :=
  ⟨identity.toSocketAddr, msg.txid, some id⟩

/-- What a frame on a control connection can lead to: nothing, or a kept or fresh reply
in the outbox. -/
inductive TcpCase (h : BindingHandler) (env : Env) (datagram : Bytes) (id : ConnectionId) : BindingHandler → Prop
  | dropped : (¬ ∃ msg identity, TcpRequest h datagram id msg identity) → TcpCase h env datagram id h
  | queued {msg : Message} {identity : ServerIdentity} {out : Bytes} : TcpRequest h datagram id msg identity →
      ((h.transactions.lookup env.lookupAt (tcpKey msg identity id)).1 = some out ∨
        (h.transactions.lookup env.lookupAt (tcpKey msg identity id)).1 = none ∧
          h.freshReply crypto msg identity.toSocketAddr identity = .ok out) →
      TcpCase h env datagram id ((h.enqueue ⟨id, out⟩).withTransactions
        ((h.transactions.reap env.lookupAt).insert env.reapAt env.fileAt (tcpKey msg identity id) out))

private theorem enqueue_withTransactions (h : BindingHandler) (c : TransactionCache) (reply : QueuedReply) :
    (h.withTransactions c).enqueue reply = (h.enqueue reply).withTransactions c := by
  by_cases hq : replyQueueCap ≤ h.outbox.length
  · rw [BindingHandler.enqueue, BindingHandler.enqueue, if_pos hq]
    exact if_pos hq
  · rw [BindingHandler.enqueue, BindingHandler.enqueue, if_neg hq]
    exact if_neg hq

private theorem enqueue_file (h : BindingHandler) (c : TransactionCache) (env : Env) (key : TransactionKey)
    (reply : QueuedReply) (out : Bytes) : ((h.withTransactions c).enqueue reply).file env key out =
      (h.enqueue reply).withTransactions (c.insert env.reapAt env.fileAt key out) := by
  rw [enqueue_withTransactions]
  rfl

theorem answerTcp_case {h h' : BindingHandler} {env : Env} {datagram : Bytes} {id : ConnectionId} {msg : Message}
    {identity : ServerIdentity} (hr : TcpRequest h datagram id msg identity)
    (ha : h.answerTcp crypto env msg id identity = .ok h') : TcpCase crypto h env datagram id h' := by
  obtain ⟨out, hout⟩ := h.freshReply_ok crypto msg identity.toSocketAddr identity
  have hrender : renderPlan crypto (planForRequest msg identity.toSocketAddr (some identity) h.addresses) msg.txid identity =
    .ok out := hout
  have hkey : (⟨identity.toSocketAddr, msg.txid, some id⟩ : TransactionKey) = tcpKey msg identity id := rfl
  simp only [BindingHandler.answerTcp, hkey, lookupLive_live h env (.tcp id) rfl] at ha
  cases hlook : (h.transactions.lookup env.lookupAt (tcpKey msg identity id)).1 with
  | some replay =>
    rw [hlook] at ha
    simp only [BindingHandler.deliverReply, ReplyPath.isLive, ReplyPath.send, Bool.not_true, Bool.false_eq_true,
      if_false, enqueue_file] at ha
    cases ha
    exact .queued hr (.inl hlook)
  | none =>
    obtain ⟨sink, hsink, hren, hq⟩ := sendPlan_ok crypto (.tcp id) env hrender
    have hq' : sink.queued = some ⟨id, out⟩ := hq
    rw [hlook] at ha
    simp only [hsink, Outcome.ok_bind, Outcome.pure_eq, hq', BindingHandler.filed, hren, enqueue_file] at ha
    cases ha
    exact .queued hr (.inr ⟨hlook, hout⟩)

theorem onTcpStun_case {h h' : BindingHandler} {env : Env} {datagram : Bytes} {id : ConnectionId}
    (h1 : h.onTcpStun crypto env datagram id = .ok h') : TcpCase crypto h env datagram id h' := by
  rw [BindingHandler.onTcpStun] at h1
  cases hp : parse datagram with
  | panic =>
    rw [hp] at h1
    cases h1
  | err e =>
    rw [hp] at h1
    cases h1
    exact .dropped fun ⟨_, _, hr⟩ => by cases hp.symm.trans hr.parsed
  | ok msg =>
    rw [hp] at h1
    by_cases hb : msg.header.msgType = .bindingRequest
    · simp only [hb, ne_eq, not_true_eq_false, if_false] at h1
      by_cases hc : id ∈ h.conns
      · simp only [hc, not_true_eq_false, if_false] at h1
        cases hid : h.tcpIdentity with
        | none =>
          rw [hid] at h1
          cases h1
          exact .dropped fun ⟨_, _, hr⟩ => by cases hid.symm.trans hr.identity
        | some identity =>
          rw [hid] at h1
          exact answerTcp_case crypto ⟨hp, hb, hc, hid⟩ h1
      · simp only [hc, not_false_eq_true, if_true] at h1
        cases h1
        exact .dropped fun ⟨_, _, hr⟩ => hc hr.tracked
    · simp only [hb, ne_eq, not_false_eq_true, if_true] at h1
      cases h1
      exact .dropped fun ⟨_, _, hr⟩ => by cases hp.symm.trans hr.parsed; exact hb hr.binding

/-! ### Every other call -/

/-- Only requests touch the kept replies. -/
theorem apply_transactions {h h' : BindingHandler} {ev : Event} {sent : List Sent}
    (h1 : h.apply crypto ev = .ok (h', sent)) (hu : ∀ env d src, ev ≠ .stun env d src)
    (ht : ∀ env d id, ev ≠ .tcpStun env d id) : h'.transactions = h.transactions := by
  cases ev with
  | stun env d src => exact absurd rfl (hu env d src)
  | tcpStun env d id => exact absurd rfl (ht env d id)
  | queueReply reply =>
    cases h1
    rw [BindingHandler.enqueue_eq]
  | setUdp socket =>
    cases h1
    rw [BindingHandler.setUdp_eq]
  | setTcpIdentity identity =>
    cases h1
    rw [BindingHandler.setTcpIdentity, BindingHandler.addAddress_eq]
  | setIdentity identity =>
    cases h1
    rw [BindingHandler.setIdentity, BindingHandler.addAddress_eq]
  | tcpConnect id | tcpError id | takeReply | setAddresses addresses =>
    cases h1
    rfl

/-! ### A handler on loopback and a request to it -/

def zeroTxid : TransactionId := ⟨zeros 12, rfl⟩

/-- A Binding request with an empty list. -/
def plainRequest : Bytes := frame 0x0001 0 zeroTxid (Tlv.encodeAll [])

def plainMessage : Message := messageOf .bindingRequest zeroTxid plainRequest [] []

theorem parse_plainRequest : parse plainRequest = .ok plainMessage := by decide +kernel

/-- The peer 10.0.0.7:50000. -/
def samplePeer : SocketAddr := ⟨.v4 ⟨[10, 0, 0, 7], rfl⟩, 50000⟩

/-- The octets of `samplePeer`. -/
def samplePeerOctets : Bytes := [10, 0, 0, 7, 0xC3, 0x50]

/-- The server's 127.0.0.1:3478. -/
def sampleIdentity : ServerIdentity := ⟨⟨zeros 12 ++ [127, 0, 0, 1], rfl⟩, true, 3478⟩

/-- A handler on 127.0.0.1:3478. -/
def sampleHandler : BindingHandler := BindingHandler.new.setUdp ⟨some sampleIdentity.toSocketAddr⟩

def sampleEnv : Env := ⟨true, true, 0, 0, 0⟩

end QuickRelay.Server
