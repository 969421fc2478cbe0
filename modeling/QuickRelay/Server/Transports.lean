import QuickRelay.Server.Mapped

/-! One request, two transports: the answer over UDP and the answer on a control
connection. -/
namespace QuickRelay.Server
open Lib Protocol
open Binding (SocketAddr ServerIdentity BindingResponsePlan)
open Transport (ConnectionId)

variable (crypto : Crypto)

/-- A handler that answers over UDP as an identity and has kept no reply. -/
structure FreshUdp (h : BindingHandler) (identity : ServerIdentity) (addresses : List ServerIdentity) : Prop where
  identity : h.udpIdentity = some identity
  sender : h.udp.isSome
  addresses : h.addresses = addresses
  transactions : h.transactions = .empty

/-- A handler that answers a control connection as an identity, has kept no reply and
queued none. -/
structure FreshTcp (h : BindingHandler) (identity : ServerIdentity) (addresses : List ServerIdentity) (id : ConnectionId) :
    Prop where
  identity : h.tcpIdentity = some identity
  tracked : id ∈ h.conns
  addresses : h.addresses = addresses
  transactions : h.transactions = .empty
  outbox : h.outbox = []

/-! ### The decision -/

/-- Of its peer a plan depends on the address family. -/
theorem planForRequest_family (msg : Message) {peer peer' : SocketAddr} (h : peer.family = peer'.family)
    (source : Option ServerIdentity) (addresses : List ServerIdentity) :
    planForRequest msg peer source addresses = planForRequest msg peer' source addresses := by
  have hchange : Binding.decideChange (factsOf msg peer) source addresses =
      Binding.decideChange (factsOf msg peer') source addresses := rfl
  have hfamily : (factsOf msg peer).peer.family = (factsOf msg peer').peer.family := h
  rw [planForRequest_eq, planForRequest_eq, Binding.decideKnown, Binding.decideKnown, hchange, hfamily]
  rfl

/-! ### Calls that return -/

theorem answerUdp_ok {h : BindingHandler} {env : Env} {datagram src : Bytes} {msg : Message} {peer : SocketAddr}
    {identity : ServerIdentity} (hr : UdpRequest h datagram src msg peer identity) :
    ∃ r, h.answerUdp crypto env msg src peer identity = .ok r := by
  have hkey : BindingHandler.transactionKey src msg.txid = some (udpKey msg peer) := by
    rw [BindingHandler.transactionKey, hr.peer]
    rfl
  obtain ⟨out, hout⟩ := h.freshReply_ok crypto msg peer identity
  obtain ⟨sink, hsink, -⟩ := sendPlan_ok crypto (h.replyPath env src) env hout
  simp only [BindingHandler.answerUdp, hkey]
  rcases h.lookupLive env (h.replyPath env src) (udpKey msg peer) with ⟨_ | replay, g⟩
  · have hplan : h.planFor msg peer identity = planForRequest msg peer (some identity) h.addresses := rfl
    rw [hplan] at hsink
    simp only [hsink, Outcome.ok_bind]
    exact ⟨_, rfl⟩
  · exact ⟨_, rfl⟩

theorem answerTcp_ok (h : BindingHandler) (env : Env) (msg : Message) (id : ConnectionId) (identity : ServerIdentity) :
    ∃ r, h.answerTcp crypto env msg id identity = .ok r := by
  obtain ⟨out, hout⟩ := h.freshReply_ok crypto msg identity.toSocketAddr identity
  obtain ⟨sink, hsink, -⟩ := sendPlan_ok crypto (.tcp id) env hout
  simp only [BindingHandler.answerTcp]
  rcases h.lookupLive env (.tcp id) ⟨identity.toSocketAddr, msg.txid, some id⟩ with ⟨_ | replay, g⟩
  · have hplan : h.planFor msg identity.toSocketAddr identity =
      planForRequest msg identity.toSocketAddr (some identity) h.addresses := rfl
    rw [hplan] at hsink
    simp only [hsink, Outcome.ok_bind]
    exact ⟨_, rfl⟩
  · exact ⟨_, rfl⟩

/-- Only a datagram the parser panics on makes a handler panic. -/
theorem onStun_ok (h : BindingHandler) (env : Env) {datagram : Bytes} (hp : parse datagram ≠ .panic) (src : Bytes) :
    ∃ r, h.onStun crypto env datagram src = .ok r := by
  rw [BindingHandler.onStun]
  cases hparse : parse datagram with
  | panic => exact absurd hparse hp
  | err e => exact ⟨_, rfl⟩
  | ok msg =>
    by_cases hb : msg.header.msgType = .bindingRequest
    · simp only [hb, ne_eq, not_true_eq_false, if_false]
      cases hpeer : parsePeerAddr src with
      | none => exact ⟨_, rfl⟩
      | some peer =>
        cases hid : h.udpIdentity with
        | none => exact ⟨_, rfl⟩
        | some identity => exact answerUdp_ok crypto ⟨hparse, hb, hpeer, hid⟩
    · simp only [hb, ne_eq, not_false_eq_true, if_true]
      exact ⟨_, rfl⟩

theorem onTcpStun_ok (h : BindingHandler) (env : Env) {datagram : Bytes} (hp : parse datagram ≠ .panic) (id : ConnectionId) :
    ∃ r, h.onTcpStun crypto env datagram id = .ok r := by
  rw [BindingHandler.onTcpStun]
  cases hparse : parse datagram with
  | panic => exact absurd hparse hp
  | err e => exact ⟨_, rfl⟩
  | ok msg =>
    by_cases hb : msg.header.msgType = .bindingRequest
    · simp only [hb, ne_eq, not_true_eq_false, if_false]
      by_cases hc : id ∈ h.conns
      · simp only [hc, not_true_eq_false, if_false]
        cases h.tcpIdentity with
        | none => exact ⟨_, rfl⟩
        | some identity => exact answerTcp_ok crypto h env msg id identity
      · simp only [hc, not_false_eq_true, if_true]
        exact ⟨_, rfl⟩
    · simp only [hb, ne_eq, not_false_eq_true, if_true]
      exact ⟨_, rfl⟩

/-! ### Fresh handlers -/

/-- The datagram is a Binding request. -/
def Asks (datagram : Bytes) (msg : Message) : Prop := parse datagram = .ok msg ∧ msg.header.msgType = .bindingRequest

/-- The only entry of a cache. -/
def Only (c : TransactionCache) (key : TransactionKey) (d : Bytes) (fileAt : Nat) : Prop :=
  c.entries = [(key, ⟨d, fileAt + transactionTimeout⟩)]

theorem only_inserted {c : TransactionCache} (h : c = .empty) (lookupAt reapAt fileAt : Nat) (key : TransactionKey) (d : Bytes) :
    Only ((c.reap lookupAt).insert reapAt fileAt key d) key d fileAt := by
  rw [h]
  rfl

theorem lookup_empty {c : TransactionCache} (h : c = .empty) (now : Nat) (key : TransactionKey) : (c.lookup now key).1 = none := by
  rw [h]
  rfl

theorem onStun_fresh {h h' : BindingHandler} {identity : ServerIdentity} {addresses : List ServerIdentity}
    (hf : FreshUdp h identity addresses) {env : Env} (hc : env.cloneOk) (hs : env.sendOk) {datagram src : Bytes}
    {peer : SocketAddr} (hp : parsePeerAddr src = some peer) {sent : List Sent}
    (h1 : h.onStun crypto env datagram src = .ok (h', sent)) :
    ((∀ msg, ¬ Asks datagram msg) ∧ h' = h ∧ sent = []) ∨
      ∃ msg d, Asks datagram msg ∧ h.freshReply crypto msg peer identity = .ok d ∧ sent = [⟨peer, d⟩] ∧
        Only h'.transactions (udpKey msg peer) d env.fileAt := by
  have hlive : Live h env := by
    rw [Live, hf.sender, hc]
    rfl
  have hkept : ∀ {key : TransactionKey} {out : Bytes}, (h.transactions.lookup env.lookupAt key).1 ≠ some out := by
    intro key out hlook
    rw [lookup_empty hf.transactions] at hlook
    cases hlook
  cases onStun_case crypto h1 with
  | dropped hno => exact .inl ⟨fun msg hasks => hno ⟨msg, peer, identity, hasks.1, hasks.2, hp, hf.identity⟩, rfl, rfl⟩
  | replayed _ _ hlook _ => exact absurd hlook hkept
  | unsent _ _ hlook _ => exact absurd hlook hkept
  | pathless _ hdead _ => exact absurd hlive hdead
  | @fresh msg peer' identity' out hr _ _ hfresh =>
    obtain rfl : peer' = peer := Option.some.inj (hr.peer.symm.trans hp)
    obtain rfl : identity' = identity := Option.some.inj (hr.identity.symm.trans hf.identity)
    exact .inr ⟨msg, out, ⟨hr.parsed, hr.binding⟩, hfresh, if_pos hs, only_inserted hf.transactions _ _ _ _ _⟩

theorem onTcpStun_fresh {g g' : BindingHandler} {identity : ServerIdentity} {addresses : List ServerIdentity}
    {id : ConnectionId} (hf : FreshTcp g identity addresses id) {env : Env} {datagram : Bytes}
    (h1 : g.onTcpStun crypto env datagram id = .ok g') : ((∀ msg, ¬ Asks datagram msg) ∧ g' = g) ∨
      ∃ msg d, Asks datagram msg ∧ g.freshReply crypto msg identity.toSocketAddr identity = .ok d ∧ g'.outbox = [⟨id, d⟩] ∧
        Only g'.transactions (tcpKey msg identity id) d env.fileAt := by
  cases onTcpStun_case crypto h1 with
  | dropped hno => exact .inl ⟨fun msg hasks => hno ⟨msg, identity, hasks.1, hasks.2, hf.tracked, hf.identity⟩, rfl⟩
  | @queued msg identity' out hr hout =>
    obtain rfl : identity' = identity := Option.some.inj (hr.identity.symm.trans hf.identity)
    have hbox : (g.enqueue ⟨id, out⟩).outbox = [⟨id, out⟩] := by
      rw [BindingHandler.enqueue, hf.outbox]
      rfl
    rcases hout with hlook | ⟨-, hfresh⟩
    · rw [lookup_empty hf.transactions] at hlook
      cases hlook
    · exact .inr ⟨msg, out, ⟨hr.parsed, hr.binding⟩, hfresh, hbox, only_inserted hf.transactions _ _ _ _ _⟩

/-! ### The same answer -/

/-- What the two calls come to: both panic, neither answers and nothing changes, or both
answer with the same datagram and keep it. -/
inductive SameAnswer (h g : BindingHandler) (env env' : Env) (datagram : Bytes) (peer : SocketAddr) (identity : ServerIdentity)
    (id : ConnectionId) : Res (BindingHandler × List Sent) → Res BindingHandler → Prop
  | panicked : SameAnswer h g env env' datagram peer identity id .panic .panic
  | silent : (∀ msg, ¬ Asks datagram msg) → SameAnswer h g env env' datagram peer identity id (.ok (h, [])) (.ok g)
  | answered {msg : Message} {d : Bytes} {h' g' : BindingHandler} : Asks datagram msg → g'.outbox = [⟨id, d⟩] →
      Only h'.transactions (udpKey msg peer) d env.fileAt → Only g'.transactions (tcpKey msg identity id) d env'.fileAt →
      SameAnswer h g env env' datagram peer identity id (.ok (h', [⟨peer, d⟩])) (.ok g')

theorem calls_agree {h g : BindingHandler} {identity : ServerIdentity} {addresses : List ServerIdentity} {id : ConnectionId}
    (hu : FreshUdp h identity addresses) (ht : FreshTcp g identity addresses id) {env : Env} (env' : Env) (hc : env.cloneOk)
    (hs : env.sendOk) {src : Bytes} {peer : SocketAddr} (hp : parsePeerAddr src = some peer)
    (hfam : peer.family = identity.toSocketAddr.family) (datagram : Bytes) :
    SameAnswer h g env env' datagram peer identity id (h.onStun crypto env datagram src)
      (g.onTcpStun crypto env' datagram id) := by
  by_cases hparse : parse datagram = .panic
  · have hudp : h.onStun crypto env datagram src = .panic := by
      rw [BindingHandler.onStun, hparse]
    have htcp : g.onTcpStun crypto env' datagram id = .panic := by
      rw [BindingHandler.onTcpStun, hparse]
    rw [hudp, htcp]
    exact .panicked
  · obtain ⟨⟨h', sent⟩, hudp⟩ := onStun_ok crypto h env hparse src
    obtain ⟨g', htcp⟩ := onTcpStun_ok crypto g env' hparse id
    rw [hudp, htcp]
    rcases onStun_fresh crypto hu hc hs hp hudp with ⟨hno, rfl, rfl⟩ | ⟨msg, d, hasks, hfresh, rfl, honly⟩
    · rcases onTcpStun_fresh crypto ht htcp with ⟨-, rfl⟩ | ⟨msg, d, hasks, -⟩
      · exact .silent hno
      · exact absurd hasks (hno msg)
    · rcases onTcpStun_fresh crypto ht htcp with ⟨hno, -⟩ | ⟨msg', d', hasks', hfresh', hbox, honly'⟩
      · exact absurd hasks (hno msg)
      · obtain rfl : msg' = msg := Outcome.ok.inj (hasks'.1.symm.trans hasks.1)
        have hplan : h.planFor msg' peer identity = g.planFor msg' identity.toSocketAddr identity := by
          rw [BindingHandler.planFor, BindingHandler.planFor, hu.addresses, ht.addresses]
          exact planForRequest_family msg' hfam (some identity) addresses
        rw [BindingHandler.freshReply, hplan] at hfresh
        obtain rfl : d' = d := Outcome.ok.inj (hfresh'.symm.trans hfresh)
        exact .answered hasks hbox honly honly'

/-- **Transports**: a fresh handler sends a datagram to a UDP peer exactly when a fresh one
with the same identity and listen list queues the same datagram for a control connection;
then each keeps that datagram and nothing else, and otherwise neither does anything. -/
theorem same_answer {h g : BindingHandler} {identity : ServerIdentity} {addresses : List ServerIdentity} {id : ConnectionId}
    (hu : FreshUdp h identity addresses) (ht : FreshTcp g identity addresses id) {env env' : Env} (hc : env.cloneOk)
    (hs : env.sendOk) {src : Bytes} {peer : SocketAddr} (hp : parsePeerAddr src = some peer)
    (hfam : peer.family = identity.toSocketAddr.family) (datagram : Bytes) :
    (∀ d, (∃ h', h.onStun crypto env datagram src = .ok (h', [⟨peer, d⟩])) ↔
      ∃ g', g.onTcpStun crypto env' datagram id = .ok g' ∧ g'.outbox = [⟨id, d⟩]) ∧
    SameAnswer h g env env' datagram peer identity id (h.onStun crypto env datagram src)
      (g.onTcpStun crypto env' datagram id) := by
  have hsame := calls_agree crypto hu ht env' hc hs hp hfam datagram
  refine ⟨fun d => ?_, hsame⟩
  generalize h.onStun crypto env datagram src = r at hsame
  generalize g.onTcpStun crypto env' datagram id = r' at hsame
  cases hsame with
  | panicked =>
    refine iff_of_false ?_ ?_
    · rintro ⟨h', hudp⟩
      cases hudp
    · rintro ⟨g', htcp, -⟩
      cases htcp
  | silent =>
    refine iff_of_false ?_ ?_
    · rintro ⟨h', hudp⟩
      cases hudp
    · rintro ⟨g', htcp, hbox⟩
      cases htcp
      rw [ht.outbox] at hbox
      cases hbox
  | @answered msg d' h' g' _ hbox _ _ =>
    constructor
    · rintro ⟨h'', hudp⟩
      cases hudp
      exact ⟨g', rfl, hbox⟩
    · rintro ⟨g'', htcp, hbox'⟩
      cases htcp
      rw [hbox] at hbox'
      cases hbox'
      exact ⟨h', rfl⟩

/-- A handler on 127.0.0.1:3478 with one control connection. -/
def tcpHandler : BindingHandler := (BindingHandler.new.setTcpIdentity sampleIdentity).noteConnect ⟨0⟩

theorem tcpHandler_fresh : FreshTcp tcpHandler sampleIdentity [sampleIdentity] ⟨0⟩ :=
  ⟨rfl, List.mem_cons_self .., rfl, rfl, rfl⟩

/-- `plainReply` answers `plainRequest` over TCP as it does over UDP. -/
theorem plainReply_queued : ∃ g, tcpHandler.onTcpStun signedResponseCrypto sampleEnv plainRequest ⟨0⟩ = .ok g ∧
    g.outbox = [⟨⟨0⟩, plainReply⟩] :=
  ((same_answer signedResponseCrypto (⟨rfl, rfl, rfl, rfl⟩ : FreshUdp sampleHandler sampleIdentity [sampleIdentity])
    tcpHandler_fresh rfl rfl (rfl : parsePeerAddr samplePeerOctets = some samplePeer) rfl plainRequest).1 plainReply).mp
    ⟨_, plainRequest_answered⟩

end QuickRelay.Server
