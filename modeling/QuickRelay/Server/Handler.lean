import QuickRelay.Lib.Runs
import QuickRelay.Server.Cache
import QuickRelay.Server.Chain

/-! The Binding handler: what to answer, where to answer from, and the replies it
keeps. Sockets and the clock enter each call as an environment. -/
namespace QuickRelay.Server
open Lib Protocol
open Binding (SocketAddr ServerIdentity BindingResponsePlan)
open Transport (ConnectionId QueuedReply)

def replyQueueCap : Nat := 4096

/-- What the operating system answers during one call: whether the sender can be
cloned and a datagram sent, and the clock at the lookup, at the reap before filing and
at filing. -/
structure Env where
  cloneOk : Bool
  sendOk : Bool
  lookupAt : Nat
  reapAt : Nat
  fileAt : Nat
  deriving DecidableEq, Repr

/-- A bound datagram socket; `localAddr` is `local_addr().ok()`. -/
structure UdpSocket where
  localAddr : Option SocketAddr
  deriving DecidableEq, Repr

/-- A datagram put on the wire. -/
structure Sent where
  dst : SocketAddr
  datagram : Bytes
  deriving DecidableEq, Repr

inductive ReplyPath where
  | udp (socket : UdpSocket) (dst : SocketAddr)
  | tcp (id : ConnectionId)
  | none
  deriving DecidableEq, Repr

namespace ReplyPath

def isLive : ReplyPath → Bool
  | .none => false
  | _ => true

/-- What goes on the wire, and `none` for a failed write or the reply to queue. -/
def send (path : ReplyPath) (env : Env) (datagram : Bytes) : Option (Option QueuedReply) × List Sent :=
  match path with
  | .udp _ dst => if env.sendOk then (some .none, [⟨dst, datagram⟩]) else (.none, [])
  | .tcp id => (some (some ⟨id, datagram⟩), [])
  | .none => (some .none, [])

end ReplyPath

structure ServerBindingSink where
  replyPath : ReplyPath
  defaultIdentity : ServerIdentity
  rendered : Option Bytes
  queued : Option QueuedReply
  deriving DecidableEq, Repr

namespace ServerBindingSink

def forPath (path : ReplyPath) (defaultIdentity : ServerIdentity) : ServerBindingSink :=
  ⟨path, defaultIdentity, none, none⟩

def sendPlan (crypto : Crypto) (sink : ServerBindingSink) (env : Env) (plan : BindingResponsePlan) (txid : TransactionId) :
    Res (ServerBindingSink × List Sent) :=
  match renderPlan crypto plan txid sink.defaultIdentity with
  | .panic => .panic
  | .err _ => .ok (sink, [])
  | .ok datagram =>
    match sink.replyPath.send env datagram with
    | (some queue, sent) => .ok ({ sink with rendered := some datagram, queued := queue }, sent)
    | (none, sent) => .ok ({ sink with rendered := some datagram, replyPath := .none }, sent)

end ServerBindingSink

structure BindingHandler where
  udp : Option UdpSocket
  udpIdentity : Option ServerIdentity
  tcpIdentity : Option ServerIdentity
  addresses : List ServerIdentity
  conns : List ConnectionId
  outbox : List QueuedReply
  transactions : TransactionCache
  deriving DecidableEq

namespace BindingHandler

def new : BindingHandler := ⟨none, none, none, [], [], [], .empty⟩

def addAddress (h : BindingHandler) (identity : ServerIdentity) : BindingHandler :=
  if identity ∈ h.addresses then h else { h with addresses := h.addresses ++ [identity] }

theorem addAddress_eq (h : BindingHandler) (identity : ServerIdentity) :
    h.addAddress identity = { h with addresses := (h.addAddress identity).addresses } := by
  rw [addAddress]
  split <;> rfl

def setUdp (h : BindingHandler) (socket : UdpSocket) : BindingHandler :=
  let h := { h with udpIdentity := socket.localAddr.map identityOfSocket }
  let h := match h.udpIdentity with
    | some identity => h.addAddress identity
    | none => h
  { h with udp := some socket }

theorem setUdp_eq (h : BindingHandler) (socket : UdpSocket) : h.setUdp socket =
    { h with
      udp := some socket
      udpIdentity := socket.localAddr.map identityOfSocket
      addresses := (h.setUdp socket).addresses } := by
  rw [setUdp]
  cases socket.localAddr with
  | none => rfl
  | some addr =>
    dsimp only [Option.map_some]
    rw [addAddress_eq]

def setTcpIdentity (h : BindingHandler) (identity : ServerIdentity) : BindingHandler :=
  { h with tcpIdentity := some identity }.addAddress identity

def setIdentity (h : BindingHandler) (identity : ServerIdentity) : BindingHandler :=
  { h with udpIdentity := some identity, tcpIdentity := some identity }.addAddress identity

def setAddresses (h : BindingHandler) (addresses : List ServerIdentity) : BindingHandler :=
  { h with addresses := addresses }

def noteConnect (h : BindingHandler) (id : ConnectionId) : BindingHandler :=
  { h with conns := h.conns.insert id }

/-- What is queued for a connection goes with it. -/
def forget (h : BindingHandler) (id : ConnectionId) : BindingHandler :=
  { h with conns := h.conns.filter (· ≠ id), outbox := h.outbox.filter (·.id ≠ id) }

def queueNext (h : BindingHandler) : Option QueuedReply × BindingHandler :=
  (h.outbox.head?, { h with outbox := h.outbox.tail })

def replyPath (h : BindingHandler) (env : Env) (raw : Bytes) : ReplyPath :=
  match h.udp with
  | some socket =>
    match parsePeerAddr raw with
    | some dst => if env.cloneOk then .udp socket dst else .none
    | none => .none
  | none => .none

def transactionKey (raw : Bytes) (txid : TransactionId) : Option TransactionKey :=
  (parsePeerAddr raw).map fun peer => ⟨peer, txid, none⟩

def enqueue (h : BindingHandler) (reply : QueuedReply) : BindingHandler :=
  if replyQueueCap ≤ h.outbox.length then h else { h with outbox := h.outbox ++ [reply] }

theorem enqueue_eq (h : BindingHandler) (reply : QueuedReply) : h.enqueue reply =
    { h with outbox := h.outbox ++ if h.outbox.length < replyQueueCap then [reply] else [] } := by
  rw [enqueue]
  by_cases hfull : replyQueueCap ≤ h.outbox.length
  · rw [if_pos hfull, if_neg (Nat.not_lt.mpr hfull), List.append_nil]
  · rw [if_neg hfull, if_pos (Nat.lt_of_not_le hfull)]

def file (h : BindingHandler) (env : Env) (key : TransactionKey) (datagram : Bytes) : BindingHandler :=
  { h with transactions := h.transactions.insert env.reapAt env.fileAt key datagram }

def deliverReply (h : BindingHandler) (env : Env) (path : ReplyPath) (key : TransactionKey) (datagram : Bytes) :
    BindingHandler × List Sent :=
  if !path.isLive then (h, [])
  else match path.send env datagram with
    | (none, sent) => (h, sent)
    | (some (some payload), sent) => ((h.enqueue payload).file env key datagram, sent)
    | (some none, sent) => (h.file env key datagram, sent)

/-- What the sink rendered is kept, sent or not. -/
def filed (h : BindingHandler) (env : Env) (sink : ServerBindingSink) (key : TransactionKey) : BindingHandler :=
  match sink.rendered with
  | some rendered => h.file env key rendered
  | none => h

/-- A live path looks its transaction up. -/
def lookupLive (h : BindingHandler) (env : Env) (path : ReplyPath) (key : TransactionKey) :
    Option Bytes × BindingHandler :=
  if path.isLive then
    let (replay, transactions) := h.transactions.lookup env.lookupAt key
    (replay, { h with transactions := transactions })
  else (none, h)

/-- The answer to a Binding request over UDP. -/
def answerUdp (crypto : Crypto) (h : BindingHandler) (env : Env) (msg : Message) (srcAddr : Bytes) (peer : SocketAddr)
    (defaultIdentity : ServerIdentity) : Res (BindingHandler × List Sent) :=
  let plan := planForRequest msg peer (some defaultIdentity) h.addresses
  match transactionKey srcAddr msg.txid with
  -- `unreachable!`: the peer was parsed before
  | none => .panic
  | some key =>
    let path := h.replyPath env srcAddr
    match h.lookupLive env path key with
    | (some replay, h) => .ok (h.deliverReply env path key replay)
    | (none, h) => do
      let (sink, sent) ← (ServerBindingSink.forPath path defaultIdentity).sendPlan crypto env plan msg.txid
      return (h.filed env sink key, sent)

def onStun (crypto : Crypto) (h : BindingHandler) (env : Env) (datagram srcAddr : Bytes) :
    Res (BindingHandler × List Sent) :=
  match parse datagram with
  | .panic => .panic
  | .err _ => .ok (h, [])
  | .ok msg =>
    if msg.header.msgType ≠ .bindingRequest then .ok (h, [])
    else match parsePeerAddr srcAddr, h.udpIdentity with
      | some peer, some defaultIdentity => h.answerUdp crypto env msg srcAddr peer defaultIdentity
      | _, _ => .ok (h, [])

/-- The answer to a Binding request on a control connection. -/
def answerTcp (crypto : Crypto) (h : BindingHandler) (env : Env) (msg : Message) (id : ConnectionId)
    (defaultIdentity : ServerIdentity) : Res BindingHandler :=
  let peer := defaultIdentity.toSocketAddr
  let plan := planForRequest msg peer (some defaultIdentity) h.addresses
  let key : TransactionKey := ⟨peer, msg.txid, some id⟩
  match h.lookupLive env (.tcp id) key with
  | (some replay, h) => .ok (h.deliverReply env (.tcp id) key replay).1
  | (none, h) => do
    let (sink, _) ← (ServerBindingSink.forPath (.tcp id) defaultIdentity).sendPlan crypto env plan msg.txid
    let h := match sink.queued with
      | some reply => h.enqueue reply
      | none => h
    return h.filed env sink key

def onTcpStun (crypto : Crypto) (h : BindingHandler) (env : Env) (datagram : Bytes) (id : ConnectionId) :
    Res BindingHandler :=
  match parse datagram with
  | .panic => .panic
  | .err _ => .ok h
  | .ok msg =>
    if msg.header.msgType ≠ .bindingRequest then .ok h
    else if id ∉ h.conns then .ok h
    else match h.tcpIdentity with
      | some defaultIdentity => h.answerTcp crypto env msg id defaultIdentity
      | none => .ok h

end BindingHandler

/-! ### Runs -/

/-- A call on the handler. -/
inductive Event where
  | stun (env : Env) (datagram srcAddr : Bytes)
  | tcpConnect (id : ConnectionId)
  | tcpStun (env : Env) (datagram : Bytes) (id : ConnectionId)
  | tcpError (id : ConnectionId)
  | takeReply
  | queueReply (reply : QueuedReply)
  | setUdp (socket : UdpSocket)
  | setTcpIdentity (identity : ServerIdentity)
  | setIdentity (identity : ServerIdentity)
  | setAddresses (addresses : List ServerIdentity)
  deriving DecidableEq, Repr

/-- The handler after a call, and what the call put on the wire. -/
def BindingHandler.apply (crypto : Crypto) (h : BindingHandler) : Event → Res (BindingHandler × List Sent)
  | .stun env datagram srcAddr => h.onStun crypto env datagram srcAddr
  | .tcpConnect id => .ok (h.noteConnect id, [])
  | .tcpStun env datagram id => do return (← h.onTcpStun crypto env datagram id, [])
  | .tcpError id => .ok (h.forget id, [])
  | .takeReply => .ok (h.queueNext.2, [])
  | .queueReply reply => .ok (h.enqueue reply, [])
  | .setUdp socket => .ok (h.setUdp socket, [])
  | .setTcpIdentity identity => .ok (h.setTcpIdentity identity, [])
  | .setIdentity identity => .ok (h.setIdentity identity, [])
  | .setAddresses addresses => .ok (h.setAddresses addresses, [])

/-- One call that returns. -/
def Step (crypto : Crypto) (h : BindingHandler) (ev : Event) (h' : BindingHandler) : Prop :=
  ∃ sent, h.apply crypto ev = .ok (h', sent)

end QuickRelay.Server
