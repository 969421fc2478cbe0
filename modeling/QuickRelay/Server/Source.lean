import QuickRelay.Server.Mapped

/-! The socket a reply over UDP leaves from, against the identity its plan answers as. -/
namespace QuickRelay.Server
open Lib Protocol
open Binding (SocketAddr ServerIdentity BindingResponsePlan)

variable (crypto : Crypto)

/-- The local address of the socket that a reply to this datagram is sent on. -/
def BindingHandler.leavesFrom (h : BindingHandler) (env : Env) (src : Bytes) : Option SocketAddr :=
  match h.replyPath env src with
  | .udp socket _ => socket.localAddr
  | .tcp _ | .none => none

/-- The CHANGE-REQUEST of a request; one without it asks for nothing. -/
def changeOf (msg : Message) : Binding.ChangeRequest := (extractChangeRequest msg).getD .none

/-- The request passes every check, asks for another source, and `id` is the first listen
address to satisfy it. -/
structure Honored (msg : Message) (peer : SocketAddr) (default : ServerIdentity) (addresses : List ServerIdentity)
    (id : ServerIdentity) : Prop where
  understood : reported msg = []
  family : ((extractOtherAddress msg).bind fun other => (Binding.validateOtherAddress other peer.family).error) = none
  ice : Binding.validateIce (extractIce msg) peer.family = none
  asked : (changeOf msg).isEmpty = false
  found : (changeOf msg).findSource peer default addresses = some id

theorem Honored.moved {msg : Message} {peer : SocketAddr} {default id : ServerIdentity} {addresses : List ServerIdentity}
    (h : Honored msg peer default addresses id) : id.toSocketAddr ≠ default.toSocketAddr :=
  (Binding.ChangeRequest.findSource_some h.found).2.moved h.asked

/-! ### The source of a plan -/

theorem Honored.source {msg : Message} {peer : SocketAddr} {default id : ServerIdentity} {addresses : List ServerIdentity}
    (h : Honored msg peer default addresses id) :
    (planForRequest msg peer (some default) addresses).source = .explicit id := by
  have hresolve : ((changeOf msg).resolve peer (some default) addresses).source = some id := by
    rw [Binding.ChangeRequest.resolve_source, h.asked, h.found]
    rfl
  have hknown : Binding.decideKnown (factsOf msg peer) (some default) addresses =
      Binding.decideChange (factsOf msg peer) (some default) addresses := by
    simp only [Binding.decideKnown, factsOf, h.family, h.ice]
  rw [planForRequest_eq, if_neg (not_not_intro h.understood), hknown, Binding.decideChange_source rfl]
  change Binding.ChangeSource.named ((changeOf msg).resolve peer (some default) addresses).source = _
  rw [hresolve]
  rfl

theorem unhonored_source {msg : Message} {peer : SocketAddr} {default : ServerIdentity} {addresses : List ServerIdentity}
    (h : ∀ id, ¬ Honored msg peer default addresses id) :
    (planForRequest msg peer (some default) addresses).source = .default := by
  rw [planForRequest_eq]
  by_cases hunderstood : reported msg = []
  · rw [if_neg (not_not_intro hunderstood), Binding.decideKnown]
    split
    case h_1 => rfl
    case h_2 hfamily =>
      split
      case h_1 => rfl
      case h_2 hice =>
        rw [Binding.decideChange_source rfl]
        change Binding.ChangeSource.named ((changeOf msg).resolve peer (some default) addresses).source = _
        rw [Binding.ChangeRequest.resolve_source]
        cases hasked : (changeOf msg).isEmpty with
        | true => rfl
        | false =>
          cases hfound : (changeOf msg).findSource peer default addresses with
          | none => rfl
          | some id => exact absurd ⟨hunderstood, hfamily, hice, hasked, hfound⟩ (h id)
  · rw [if_pos hunderstood]
    rfl

/-! ### The sender's address -/

theorem identityOfSocket_toSocketAddr (a : SocketAddr) : (identityOfSocket a).toSocketAddr = a := by
  obtain ⟨ip, port⟩ := a
  cases ip with
  | v4 octets =>
    have hlast : (zeros 12 ++ octets.val).drop 12 = octets.val := List.drop_left' (zeros_length 12)
    simp only [identityOfSocket, ServerIdentity.toSocketAddr, ServerIdentity.toIp, ServerIdentity.lastFour, hlast, if_true]
  | v6 octets => rfl

/-- The UDP identity is the sender's own address. -/
def Paired (h : BindingHandler) : Prop := h.udpIdentity = (h.udp.bind UdpSocket.localAddr).map identityOfSocket

/-- Every call but `set_identity` leaves the identity with the sender's address. -/
theorem apply_paired {h h' : BindingHandler} {ev : Event} {sent : List Sent} (h1 : h.apply crypto ev = .ok (h', sent))
    (hset : ∀ id, ev ≠ .setIdentity id) (hp : Paired h) : Paired h' := by
  have hkept : ∀ g : BindingHandler, g.udp = h.udp → g.udpIdentity = h.udpIdentity → Paired g := by
    intro g hudp hid
    rw [Paired, hudp, hid]
    exact hp
  cases ev with
  | stun env datagram src =>
    cases onStun_case crypto h1 with
    | dropped _ => exact hp
    | replayed _ _ _ _ => exact hkept _ rfl rfl
    | unsent _ _ _ _ => exact hkept _ rfl rfl
    | fresh _ _ _ _ => exact hkept _ rfl rfl
    | pathless _ _ _ => exact hkept _ rfl rfl
  | tcpStun env datagram id =>
    obtain ⟨g, hg, heq⟩ := Outcome.bind_eq_ok.mp h1
    cases heq
    cases onTcpStun_case crypto hg with
    | dropped _ => exact hp
    | @queued msg identity out _ _ =>
      rw [BindingHandler.enqueue_eq]
      exact hkept _ rfl rfl
  | queueReply reply =>
    cases h1
    rw [BindingHandler.enqueue_eq]
    exact hkept _ rfl rfl
  | setUdp socket =>
    cases h1
    rw [BindingHandler.setUdp_eq]
    rfl
  | setTcpIdentity identity =>
    cases h1
    rw [BindingHandler.setTcpIdentity, BindingHandler.addAddress_eq]
    exact hkept _ rfl rfl
  | setIdentity identity => exact absurd rfl (hset identity)
  | tcpConnect id | tcpError id | takeReply | setAddresses addresses =>
    cases h1
    exact hkept _ rfl rfl

/-- So a handler that is given its sender, and no identity apart from it, answers as its
sender's address. -/
theorem run_paired {hist : History} {h : BindingHandler} (hrun : Run (Step crypto) .new hist h)
    (hset : ∀ e ∈ hist, ∀ id, e.2 ≠ .setIdentity id) : Paired h := by
  induction hrun with
  | refl => rfl
  | snoc hrun hstep ih =>
    obtain ⟨sent, h1⟩ := hstep
    exact apply_paired crypto h1 (hset _ (List.mem_concat_self ..)) (ih fun e he => hset e (List.mem_append_left _ he))

/-! ### Where a reply leaves from -/

theorem leavesFrom_live {h : BindingHandler} {env : Env} {src : Bytes} {peer : SocketAddr} (hp : parsePeerAddr src = some peer)
    (hl : Live h env) : h.leavesFrom env src = h.udp.bind UdpSocket.localAddr := by
  rw [Live, Bool.and_eq_true, Option.isSome_iff_exists] at hl
  obtain ⟨⟨socket, hudp⟩, hclone⟩ := hl
  have hpath : h.replyPath env src = .udp socket peer := by
    simp only [BindingHandler.replyPath, hudp, hp]
    exact if_pos hclone
  rw [BindingHandler.leavesFrom, hpath, hudp]
  rfl

/-- Only a handler with a sender sends. -/
theorem sent_live {h h' : BindingHandler} {env : Env} {datagram src : Bytes} {sent : List Sent}
    (h1 : h.onStun crypto env datagram src = .ok (h', sent)) (hs : sent ≠ []) : Live h env := by
  cases onStun_case crypto h1 with
  | dropped _ => exact absurd rfl hs
  | replayed _ hl _ _ => exact hl
  | unsent _ _ _ _ => exact absurd rfl hs
  | fresh _ hl _ _ => exact hl
  | pathless _ _ _ => exact absurd rfl hs

theorem Paired.leavesFrom {h : BindingHandler} (hp : Paired h) {env : Env} {src : Bytes} {peer : SocketAddr}
    (hpeer : parsePeerAddr src = some peer) (hl : Live h env) {default : ServerIdentity}
    (hd : h.udpIdentity = some default) : h.leavesFrom env src = some default.toSocketAddr := by
  obtain ⟨addr, haddr, hid⟩ := Option.map_eq_some_iff.mp (hp.symm.trans hd)
  rw [leavesFrom_live hpeer hl, haddr, ← hid, identityOfSocket_toSocketAddr]

/-- **Source**: a reply leaves from the address its plan answers as exactly when the sender
is bound to the default identity and no change is honored, or is itself bound to the
address a honored change names. In a handler that answers as its sender's address, that is
when no change is honored. -/
theorem reply_source {h h' : BindingHandler} {env : Env} {datagram src : Bytes} {sent : List Sent} {msg : Message}
    {peer : SocketAddr} {default : ServerIdentity} (h1 : h.onStun crypto env datagram src = .ok (h', sent))
    (hs : sent ≠ []) (hr : UdpRequest h datagram src msg peer default) :
    (h.leavesFrom env src = some ((h.planFor msg peer default).replyIdentity default).toSocketAddr ↔
      (h.leavesFrom env src = some default.toSocketAddr ∧ ∀ id, ¬ Honored msg peer default h.addresses id) ∨
        ∃ id, Honored msg peer default h.addresses id ∧ h.leavesFrom env src = some id.toSocketAddr) ∧
    (Paired h → (h.leavesFrom env src = some ((h.planFor msg peer default).replyIdentity default).toSocketAddr ↔
      ∀ id, ¬ Honored msg peer default h.addresses id)) := by
  rw [BindingHandler.planFor, BindingResponsePlan.replyIdentity]
  by_cases hhonored : ∃ id, Honored msg peer default h.addresses id
  · obtain ⟨id, hid⟩ := hhonored
    rw [hid.source]
    constructor
    · constructor
      · intro hleaves
        exact .inr ⟨id, hid, hleaves⟩
      · rintro (⟨-, hnone⟩ | ⟨id', hid', hleaves⟩)
        · exact absurd hid (hnone id)
        · obtain rfl : id' = id := Option.some.inj (hid'.found.symm.trans hid.found)
          exact hleaves
    · intro hpaired
      rw [hpaired.leavesFrom hr.peer (sent_live crypto h1 hs) hr.identity]
      refine iff_of_false (fun hleaves => ?_) fun hnone => hnone id hid
      exact hid.moved (Option.some.inj hleaves).symm
  · have hnone : ∀ id, ¬ Honored msg peer default h.addresses id := not_exists.mp hhonored
    rw [unhonored_source hnone]
    constructor
    · constructor
      · intro hleaves
        exact .inl ⟨hleaves, hnone⟩
      · rintro (⟨hleaves, -⟩ | ⟨id, hid, -⟩)
        · exact hleaves
        · exact absurd hid (hnone id)
    · intro hpaired
      rw [hpaired.leavesFrom hr.peer (sent_live crypto h1 hs) hr.identity]
      exact iff_of_true rfl hnone

/-- `plainRequest` asks for no change, and its answer leaves from 127.0.0.1:3478. -/
theorem plainRequest_source : sampleHandler.leavesFrom sampleEnv samplePeerOctets =
    some ((sampleHandler.planFor plainMessage samplePeer sampleIdentity).replyIdentity sampleIdentity).toSocketAddr :=
  ((reply_source signedResponseCrypto plainRequest_answered (List.cons_ne_nil _ _)
    ⟨parse_plainRequest, rfl, rfl, rfl⟩).2 rfl).mpr fun _ hid => Bool.false_ne_true hid.asked.symm

/-! ### A change of port -/

/-- The server's second address, 127.0.0.1:3479. -/
def secondIdentity : ServerIdentity := { sampleIdentity with port := 3479 }

/-- A handler that listens on both addresses and sends from the first. -/
def twoHandler : BindingHandler :=
  (BindingHandler.new.setAddresses [sampleIdentity, secondIdentity]).setUdp ⟨some sampleIdentity.toSocketAddr⟩

def portValue : Bytes := [0, 0, 0, 2]

theorem portValue_fits : portValue.length < 65536 := by decide

theorem portValue_aligned : ([] : Bytes).length = padding portValue.length := rfl

/-- CHANGE-REQUEST with the flag that asks for another port. -/
def portTlv : Tlv where
  code := 0x0003
  value := portValue
  pad := []
  value_lt := portValue_fits
  pad_length := portValue_aligned

def portRequest : Bytes := frame 0x0001 8 zeroTxid (Tlv.encodeAll [portTlv])

def portMessage : Message := messageOf .bindingRequest zeroTxid portRequest [portTlv] [.changeRequest 2]

theorem parse_portRequest : parse portRequest = .ok portMessage := by decide +kernel

/-- The success response that maps 127.0.0.1:3479. -/
def portReply : Bytes :=
  [0x01, 0x01, 0x00, 0x0C, 0x21, 0x12, 0xA4, 0x42, 0, 0, 0, 0, 0, 0, 0, 0, 0, 0, 0, 0, 0x00, 0x20, 0x00, 0x08, 0x00, 0x01,
    0x2C, 0x85, 0x5E, 0x12, 0xA4, 0x43]

theorem portRequest_answered : twoHandler.onStun signedResponseCrypto sampleEnv portRequest samplePeerOctets =
    .ok (twoHandler.withTransactions (TransactionCache.empty.insert 0 0 (udpKey portMessage samplePeer) portReply),
      [⟨samplePeer, portReply⟩]) := by decide +kernel

theorem portRequest_planned : (twoHandler.planFor portMessage samplePeer sampleIdentity).replyIdentity sampleIdentity =
    secondIdentity := by decide +kernel

/-- The answer to `portRequest` says 127.0.0.1:3479 and leaves from 127.0.0.1:3478. -/
theorem portReply_unmoved : ¬ ∀ (crypto : Crypto) (h h' : BindingHandler) (env : Env) (datagram src : Bytes)
    (sent : List Sent) (msg : Message) (peer : SocketAddr) (default : ServerIdentity),
    h.onStun crypto env datagram src = .ok (h', sent) → sent ≠ [] → UdpRequest h datagram src msg peer default →
    h.leavesFrom env src = some ((h.planFor msg peer default).replyIdentity default).toSocketAddr := by
  intro hall
  have hrequest : UdpRequest twoHandler portRequest samplePeerOctets portMessage samplePeer sampleIdentity :=
    ⟨parse_portRequest, rfl, rfl, rfl⟩
  have hleaves := hall _ _ _ _ _ _ _ _ _ _ portRequest_answered (List.cons_ne_nil _ _) hrequest
  rw [portRequest_planned] at hleaves
  exact absurd hleaves (by decide)

end QuickRelay.Server
