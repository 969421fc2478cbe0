import QuickRelay.Server.Provenance

/-! The mapped address of a success response: which address the server reports. -/
namespace QuickRelay.Server
open Lib Protocol
open Binding (SocketAddr ServerIdentity BindingResponsePlan)

variable (crypto : Crypto)

/-- A decided success maps the identity the plan answers as, an address of this host. -/
theorem find_mapped {default : ServerIdentity} {addresses : List ServerIdentity} {plan : BindingResponsePlan}
    (h : Decided default addresses plan) (hs : messageTypeOf plan = .bindingSuccess) {m : Message}
    (hm : m.attributes = planAttributes plan default) :
    m.find AttrCode.xorMappedAddress.asU16 =
        some (.xorMappedAddress (addressOf (plan.replyIdentity default).toSocketAddr)) ∧
      (plan.replyIdentity default = default ∨ plan.replyIdentity default ∈ addresses) := by
  cases h with
  | rejected codes hne hl => cases hs
  | known hk =>
    cases hk with
    | failed code => cases hs
    | mapped software =>
      refine ⟨?_, .inl rfl⟩
      rw [Message.find, hm, planAttributes_success, ← mappedAttr_eq]
      rfl
    | moved id software hid =>
      refine ⟨?_, .inr hid⟩
      rw [Message.find, hm, planAttributes_success, ← mappedAttr_eq]
      rfl

theorem outcome_of_success {plan : BindingResponsePlan} (h : messageTypeOf plan = .bindingSuccess) :
    plan.outcome = .success := by
  rw [messageTypeOf] at h
  split at h
  case h_1 hs => exact hs
  case h_2 => cases h

/-- Whichever peer sends a request, a success answers as the same identity. -/
theorem replyIdentity_peer (msg : Message) {peer peer' : SocketAddr} {source : Option ServerIdentity}
    {addresses : List ServerIdentity} (h : (planForRequest msg peer source addresses).outcome = .success)
    (h' : (planForRequest msg peer' source addresses).outcome = .success) (default : ServerIdentity) :
    (planForRequest msg peer' source addresses).replyIdentity default =
      (planForRequest msg peer source addresses).replyIdentity default := by
  rw [planForRequest] at h h' ⊢
  rw [planForRequest, Binding.decide_success h, Binding.decide_success h']
  rfl

/-- A reply reads back as the plan it was rendered from. -/
theorem freshReply_reads {h : BindingHandler} {msg : Message} {peer : SocketAddr} {identity : ServerIdentity} {out : Bytes}
    (ho : h.freshReply crypto msg peer identity = .ok out) {m : Message} (hm : parse out = .ok m) :
    m.header.msgType = messageTypeOf (h.planFor msg peer identity) ∧ m.txid = msg.txid ∧
      m.attributes = planAttributes (h.planFor msg peer identity) identity := by
  obtain ⟨out', hout, -, m', hm', hr⟩ :=
    renderPlan_reads crypto (planForRequest_decided msg peer identity h.addresses) msg.txid
  obtain rfl : out' = out := Outcome.ok.inj (hout.symm.trans ho)
  obtain rfl : m' = m := Outcome.ok.inj (hm'.symm.trans hm)
  exact hr

/-- The mapped address of a fresh reply. -/
theorem freshReply_mapped {h : BindingHandler} {msg : Message} {peer : SocketAddr} {identity : ServerIdentity}
    {out : Bytes} (ho : h.freshReply crypto msg peer identity = .ok out) {m : Message} (hm : parse out = .ok m)
    (hsuccess : m.header.msgType = .bindingSuccess) {a : MappedAddress}
    (ha : m.find AttrCode.xorMappedAddress.asU16 = some (.xorMappedAddress a)) :
    a = addressOf ((h.planFor msg peer identity).replyIdentity identity).toSocketAddr ∧
      ((h.planFor msg peer identity).replyIdentity identity = identity ∨
        (h.planFor msg peer identity).replyIdentity identity ∈ h.addresses) ∧
      ∀ peer', (h.planFor msg peer' identity).outcome = .success →
        (h.planFor msg peer' identity).replyIdentity identity = (h.planFor msg peer identity).replyIdentity identity := by
  obtain ⟨htype, -, hattrs⟩ := freshReply_reads crypto ho hm
  have hsucc : messageTypeOf (h.planFor msg peer identity) = .bindingSuccess := htype.symm.trans hsuccess
  obtain ⟨hfind, hown⟩ := find_mapped (planForRequest_decided msg peer identity h.addresses) hsucc hattrs
  refine ⟨?_, hown, fun peer' hpeer => replyIdentity_peer msg (outcome_of_success hsucc) hpeer identity⟩
  exact Attribute.xorMappedAddress.inj (Option.some.inj (ha.symm.trans hfind))

/-- What a success response over UDP maps is the address of the server identity the
answer leaves as, and the same for every peer: the UDP identity, or the entry of the
listen list that CHANGE-REQUEST resolved to. A replayed response is that of the
transaction's earlier request. -/
theorem mapped_is_server {hist : History} {h h' : BindingHandler} (hrun : Run (Step crypto) .new hist h) {env : Env}
    {datagram src : Bytes} {sent : List Sent} (hs : h.onStun crypto env datagram src = .ok (h', sent)) {s : Sent}
    (hmem : s ∈ sent) {m : Message} (hm : parse s.datagram = .ok m) (hsuccess : m.header.msgType = .bindingSuccess)
    {a : MappedAddress} (ha : m.find AttrCode.xorMappedAddress.asU16 = some (.xorMappedAddress a)) :
    parsePeerAddr src = some s.dst ∧ ∃ g env₀ datagram₀ src₀ msg identity,
      ((g, .stun env₀ datagram₀ src₀) = (h, Event.stun env datagram src) ∨
        (h.transactions.lookup env.lookupAt (udpKey msg s.dst)).1 = some s.datagram ∧
          (g, .stun env₀ datagram₀ src₀) ∈ hist) ∧
      UdpRequest g datagram₀ src₀ msg s.dst identity ∧ msg.txid = m.txid ∧
      a = addressOf ((g.planFor msg s.dst identity).replyIdentity identity).toSocketAddr ∧
      ((g.planFor msg s.dst identity).replyIdentity identity = identity ∨
        (g.planFor msg s.dst identity).replyIdentity identity ∈ g.addresses) ∧
      ∀ peer, (g.planFor msg peer identity).outcome = .success →
        (g.planFor msg peer identity).replyIdentity identity = (g.planFor msg s.dst identity).replyIdentity identity := by
  obtain ⟨msg, identity, hr, -, hcase⟩ := onStun_sent crypto hs hmem
  refine ⟨hr.peer, ?_⟩
  rcases hcase with hlook | ⟨-, hfresh⟩
  · cases (run_rendered crypto hrun).lookup hlook with
    | tcp _ _ hkey _ => cases congrArg TransactionKey.connection hkey
    | @udp g env₀ datagram₀ src₀ msg₀ peer identity₀ hg hr₀ hkey _ hout =>
      obtain rfl : s.dst = peer := congrArg TransactionKey.peer hkey
      have hkey' : udpKey msg s.dst = udpKey msg₀ s.dst := hkey
      exact ⟨g, env₀, datagram₀, src₀, msg₀, identity₀, .inr ⟨hkey' ▸ hlook, hg⟩, hr₀,
        (freshReply_reads crypto hout hm).2.1.symm, freshReply_mapped crypto hout hm hsuccess ha⟩
  · exact ⟨h, env, datagram, src, msg, identity, .inl rfl, hr, (freshReply_reads crypto hfresh hm).2.1.symm,
      freshReply_mapped crypto hfresh hm hsuccess ha⟩

/-- The success response to `plainRequest`: it maps 127.0.0.1:3478. -/
def plainReply : Bytes :=
  [0x01, 0x01, 0x00, 0x0C, 0x21, 0x12, 0xA4, 0x42, 0, 0, 0, 0, 0, 0, 0, 0, 0, 0, 0, 0, 0x00, 0x20, 0x00, 0x08, 0x00, 0x01,
    0x2C, 0x84, 0x5E, 0x12, 0xA4, 0x43]

def plainReplyValue : Bytes := [0x00, 0x01, 0x2C, 0x84, 0x5E, 0x12, 0xA4, 0x43]

theorem plainReplyValue_fits : plainReplyValue.length < 65536 := by decide

theorem plainReplyValue_aligned : ([] : Bytes).length = padding plainReplyValue.length := rfl

def plainReplyTlv : Tlv where
  code := 0x0020
  value := plainReplyValue
  pad := []
  value_lt := plainReplyValue_fits
  pad_length := plainReplyValue_aligned

def plainReplyMessage : Message :=
  messageOf .bindingSuccess zeroTxid plainReply [plainReplyTlv] [.xorMappedAddress (addressOf sampleIdentity.toSocketAddr)]

theorem parse_plainReply : parse plainReply = .ok plainReplyMessage := by decide +kernel

theorem plainReply_mapped : plainReplyMessage.find AttrCode.xorMappedAddress.asU16 =
    some (.xorMappedAddress (addressOf sampleIdentity.toSocketAddr)) := by decide +kernel

theorem sampleHandler_run : Run (Step signedResponseCrypto) .new [(.new, .setUdp ⟨some sampleIdentity.toSocketAddr⟩)]
    sampleHandler :=
  Run.snoc .refl ⟨[], rfl⟩

theorem plainRequest_answered : sampleHandler.onStun signedResponseCrypto sampleEnv plainRequest samplePeerOctets =
    .ok (sampleHandler.withTransactions (TransactionCache.empty.insert 0 0 (udpKey plainMessage samplePeer) plainReply),
      [⟨samplePeer, plainReply⟩]) := by decide +kernel

theorem plainReply_is_server : ∃ (g : BindingHandler) (msg : Message) (identity : ServerIdentity),
    addressOf sampleIdentity.toSocketAddr =
      addressOf ((g.planFor msg samplePeer identity).replyIdentity identity).toSocketAddr ∧
    ((g.planFor msg samplePeer identity).replyIdentity identity = identity ∨
      (g.planFor msg samplePeer identity).replyIdentity identity ∈ g.addresses) := by
  obtain ⟨-, g, _, _, _, msg, identity, -, -, -, ha, hown, -⟩ := mapped_is_server signedResponseCrypto sampleHandler_run
    plainRequest_answered List.mem_cons_self parse_plainReply rfl plainReply_mapped
  exact ⟨g, msg, identity, ha, hown⟩

theorem plainReply_not_peer : ¬ ∀ (crypto : Crypto) (hist : History) (h h' : BindingHandler) (env : Env)
    (datagram src : Bytes) (sent : List Sent) (s : Sent) (m : Message) (a : MappedAddress) (peer : SocketAddr),
    Run (Step crypto) .new hist h → h.onStun crypto env datagram src = .ok (h', sent) → s ∈ sent →
    parse s.datagram = .ok m → m.header.msgType = .bindingSuccess →
    m.find AttrCode.xorMappedAddress.asU16 = some (.xorMappedAddress a) → parsePeerAddr src = some peer →
    a = addressOf peer := by
  intro hall
  have hpeer := hall _ _ _ _ _ _ _ _ _ _ _ samplePeer sampleHandler_run plainRequest_answered List.mem_cons_self
    parse_plainReply rfl plainReply_mapped rfl
  exact absurd (addressOf_inj hpeer) (by decide)

end QuickRelay.Server
