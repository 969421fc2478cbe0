import QuickRelay.Server.Mapped

/-! How many octets an answer has for each octet of the datagram it answers. -/
namespace QuickRelay.Server
open Lib Protocol
open Binding (SocketAddr ServerIdentity BindingResponsePlan)

variable (crypto : Crypto)

/-! ### Fresh replies -/

theorem scanned_length (msg : Message) : (scanned msg).length ≤ msg.attributes.length + msg.unknown.length := by
  rw [scanned, offending, List.length_append, List.length_map, List.length_map]
  exact Nat.add_le_add_right (List.length_filter_le _ _) _

/-- Every attribute costs the request four octets. -/
theorem attributes_length {datagram : Bytes} {msg : Message} (h : parse datagram = .ok msg) :
    20 + 4 * msg.attributes.length ≤ datagram.length ∧ msg.unknown.length ≤ msg.attributes.length := by
  obtain ⟨ty, t, txid, ts, attrs, -, -, rfl, hacc, rfl⟩ := parse_eq_ok.mp h
  have hlen := hacc.decoded.length_eq
  have h4 := Tlv.four_mul_length_le ts
  have hf := List.length_filterMap_le unknownOf ts
  rw [frame_length]
  exact ⟨by simp only [messageOf]; omega, by simp only [messageOf]; omega⟩

/-- A plan echoes SOFTWARE only if the request has it. -/
theorem software_requested {msg : Message} {peer : SocketAddr} {default : ServerIdentity} {addresses : List ServerIdentity}
    (hs : (planForRequest msg peer (some default) addresses).outcome = .success)
    (h : (planForRequest msg peer (some default) addresses).includeSoftware) : msg.attributes ≠ [] := by
  intro hnil
  rw [planForRequest] at hs h
  rw [Binding.decide_success hs] at h
  have hreq := Binding.decideChange_software rfl h
  rw [factsOf, Message.find, hnil] at hreq
  cases hreq

/-- The codes a plan names are those the scan reports. -/
theorem named_eq_reported {msg : Message} {peer : SocketAddr} {default : ServerIdentity} {addresses : List ServerIdentity}
    {codes : List UInt16} (h : (planForRequest msg peer (some default) addresses).unknownAttributes = some codes) :
    codes = reported msg := by
  rw [planForRequest_eq] at h
  by_cases hr : reported msg ≠ []
  · rw [if_pos hr] at h
    exact (Option.some.inj h).symm
  · rw [if_neg hr, (Binding.decideKnown_shape rfl default addresses).unknownAttributes] at h
    cases h

/-- An attribute is scanned at most twice. -/
theorem reported_length_le {datagram : Bytes} {msg : Message} (h : parse datagram = .ok msg) :
    (reported msg).length ≤ 2 * msg.attributes.length := by
  have hscan := scanned_length msg
  have hu := (attributes_length h).2
  have hfilter : (reported msg).length ≤ (scanned msg).length :=
    Nat.le_trans (List.length_filter_le _ _) (List.length_take_le' _ _)
  omega

/-- What a plan's attributes take at most is covered by three times the request. -/
theorem replyBound_le {datagram : Bytes} {msg : Message} (hp : parse datagram = .ok msg) (peer : SocketAddr)
    (default : ServerIdentity) (addresses : List ServerIdentity) :
    20 + replyBound (planForRequest msg peer (some default) addresses) ≤ 3 * datagram.length := by
  have hnamed := @named_eq_reported msg peer default addresses
  have hsoft := @software_requested msg peer default addresses
  obtain ⟨h4, -⟩ := attributes_length hp
  have hr := reported_length_le hp
  have hd := planForRequest_decided msg peer default addresses
  generalize planForRequest msg peer (some default) addresses = plan at hnamed hsoft hd
  have success : ∀ source software, plan = (BindingResponsePlan.success source).withSoftware software →
      20 + (24 + if software then 20 else 0) ≤ 3 * datagram.length := by
    rintro source software rfl
    cases software with
    | false => simp only [Bool.false_eq_true, if_false]; omega
    | true =>
      have hpos := List.length_pos_of_ne_nil (hsoft rfl rfl)
      simp only [if_true]
      omega
  cases hd with
  | rejected codes hne _ =>
    have hcodes : codes = reported msg := hnamed rfl
    have hpos := List.length_pos_of_ne_nil hne
    rw [← hcodes] at hr
    change 20 + (28 + (6 + 2 * codes.length)) ≤ 3 * datagram.length
    omega
  | known hs =>
    cases hs with
    | failed code =>
      change 20 + (28 + 0) ≤ 3 * datagram.length
      omega
    | mapped software => exact success _ software rfl
    | moved id software _ => exact success _ software rfl

/-- A fresh reply has at most three times the octets of its request. -/
theorem freshReply_length {h : BindingHandler} {datagram : Bytes} {msg : Message} {peer : SocketAddr}
    {identity : ServerIdentity} {out : Bytes} (hp : parse datagram = .ok msg)
    (ho : h.freshReply crypto msg peer identity = .ok out) : out.length ≤ 3 * datagram.length := by
  obtain ⟨out', hout, hlen, -⟩ := renderPlan_reads crypto (planForRequest_decided msg peer identity h.addresses) msg.txid
  obtain rfl : out' = out := Outcome.ok.inj (hout.symm.trans ho)
  exact Nat.le_trans hlen (replyBound_le hp peer identity h.addresses)

/-! ### Whole runs -/

/-- The octets put on the wire. -/
def octets (sent : List Sent) : Nat := (sent.map fun s => s.datagram.length).sum

/-- A Binding request of a transaction that the handler can answer. -/
def IsRequest (h : BindingHandler) (datagram src : Bytes) (key : TransactionKey) : Prop :=
  ∃ msg peer identity, UdpRequest h datagram src msg peer identity ∧ udpKey msg peer = key

/-- A datagram whose transaction has a kept reply is not shorter than the transaction's
earlier requests, those aside that were themselves answered from the cache. -/
def NotShorter (hist : History) (h : BindingHandler) (env : Env) (datagram src : Bytes) : Prop :=
  ∀ key, IsRequest h datagram src key → (h.transactions.lookup env.lookupAt key).1.isSome →
    ∀ g env₀ datagram₀ src₀, (g, .stun env₀ datagram₀ src₀) ∈ hist → IsRequest g datagram₀ src₀ key →
      (Live g env₀ → (g.transactions.lookup env₀.lookupAt key).1 = none) → datagram₀.length ≤ datagram.length

/-- One such call of a run sends no more than three times what it got. -/
theorem onStun_octets {hist : History} {h h' : BindingHandler} {env : Env} {datagram src : Bytes} {sent : List Sent}
    (hrun : Run (Step crypto) .new hist h) (hcond : NotShorter hist h env datagram src)
    (hs : h.onStun crypto env datagram src = .ok (h', sent)) : octets sent ≤ 3 * datagram.length := by
  rcases sent with _ | ⟨s, rest⟩
  · exact Nat.zero_le _
  obtain ⟨msg, identity, hr, hone, hc⟩ := onStun_sent crypto hs List.mem_cons_self
  rw [hone, octets, List.map_singleton, List.sum_singleton]
  rcases hc with hlook | ⟨-, hfresh⟩
  · cases (run_rendered crypto hrun).lookup hlook with
    | tcp _ _ hkey _ => cases congrArg TransactionKey.connection hkey
    | udp hg hr₀ hkey hnew hout =>
      -- the kept reply was sized by the earlier request, which is no longer than this one
      have hle := hcond _ ⟨msg, s.dst, identity, hr, rfl⟩ (by rw [hlook]; rfl) _ _ _ _ hg ⟨_, _, _, hr₀, hkey.symm⟩ hnew
      exact Nat.le_trans (freshReply_length crypto hr₀.parsed hout) (Nat.mul_le_mul_left 3 hle)
  · exact freshReply_length crypto hr.parsed hfresh

/-- **Amplification**: in every run of a new handler in which no datagram is shorter than
the request whose kept reply it gets, every datagram is answered with at most three times
its octets. -/
theorem run_octets {hist : History} {h : BindingHandler} (hrun : Run (Step crypto) .new hist h)
    (hcond : ∀ pre g env datagram src post, hist = pre ++ (g, .stun env datagram src) :: post →
      NotShorter pre g env datagram src) {g g' : BindingHandler} {env : Env} {datagram src : Bytes} {sent : List Sent}
    (hmem : (g, .stun env datagram src) ∈ hist) (hs : g.onStun crypto env datagram src = .ok (g', sent)) :
    octets sent ≤ 3 * datagram.length := by
  obtain ⟨pre, post, rfl⟩ := List.append_of_mem hmem
  obtain ⟨_, hpre, -, -⟩ := hrun.split
  exact onStun_octets crypto hpre (hcond pre g env datagram src post rfl) hs

/-- A Binding request with three unregistered attributes. -/
def stuffedRequest : Bytes :=
  [0x00, 0x01, 0x00, 0x0C, 0x21, 0x12, 0xA4, 0x42, 0, 0, 0, 0, 0, 0, 0, 0, 0, 0, 0, 0, 0xFF, 0x00, 0x00, 0x00, 0xFF, 0x00,
    0x00, 0x00, 0xFF, 0x00, 0x00, 0x00]

/-- Its reply: error 420 and six codes. -/
def stuffedReply : Bytes :=
  [0x01, 0x11, 0x00, 0x2C, 0x21, 0x12, 0xA4, 0x42, 0, 0, 0, 0, 0, 0, 0, 0, 0, 0, 0, 0, 0x00, 0x09, 0x00, 0x15, 0x00, 0x00,
    0x04, 0x14, 0x55, 0x6E, 0x6B, 0x6E, 0x6F, 0x77, 0x6E, 0x20, 0x41, 0x74, 0x74, 0x72, 0x69, 0x62, 0x75, 0x74, 0x65, 0x00,
    0x00, 0x00, 0x00, 0x0A, 0x00, 0x0C, 0xFF, 0x00, 0xFF, 0x00, 0xFF, 0x00, 0xFF, 0x00, 0xFF, 0x00, 0xFF, 0x00]

/-- The handler that has answered `stuffedRequest`. -/
def stuffedHandler : BindingHandler :=
  sampleHandler.withTransactions (TransactionCache.empty.insert 0 0 (udpKey plainMessage samplePeer) stuffedReply)

theorem stuffedRequest_answered : sampleHandler.onStun signedResponseCrypto sampleEnv stuffedRequest samplePeerOctets =
    .ok (stuffedHandler, [⟨samplePeer, stuffedReply⟩]) := by decide +kernel

theorem stuffedRequest_again : stuffedHandler.onStun signedResponseCrypto sampleEnv stuffedRequest samplePeerOctets =
    .ok (stuffedHandler, [⟨samplePeer, stuffedReply⟩]) := by decide +kernel

/-- The request once more: its kept reply is no more than three times as long. -/
theorem stuffedReply_octets : octets [⟨samplePeer, stuffedReply⟩] ≤ 3 * stuffedRequest.length := by
  have hfirst : Step signedResponseCrypto sampleHandler (.stun sampleEnv stuffedRequest samplePeerOctets) stuffedHandler :=
    ⟨_, stuffedRequest_answered⟩
  have hrun : Run (Step signedResponseCrypto) .new [(.new, .setUdp ⟨some sampleIdentity.toSocketAddr⟩),
      (sampleHandler, .stun sampleEnv stuffedRequest samplePeerOctets),
      (stuffedHandler, .stun sampleEnv stuffedRequest samplePeerOctets)] stuffedHandler :=
    (sampleHandler_run.snoc hfirst).snoc ⟨_, stuffedRequest_again⟩
  refine run_octets signedResponseCrypto hrun ?_ (List.mem_cons_of_mem _ (List.mem_cons_of_mem _ List.mem_cons_self))
    stuffedRequest_again
  intro pre g env datagram src post hsplit key _ _ g₀ env₀ datagram₀ src₀ hmem _ _
  have hsame : ∀ f e d a, (f, Event.stun e d a) ∈ pre ++ (g, .stun env datagram src) :: post → d = stuffedRequest := by
    rw [← hsplit]
    intro f e d a hmem
    rcases List.mem_cons.mp hmem with heq | hmem
    · cases heq
    rcases List.mem_cons.mp hmem with heq | hmem
    · cases heq
      rfl
    · cases List.mem_singleton.mp hmem
      rfl
  rw [hsame _ _ _ _ (List.mem_append_left _ hmem), hsame _ _ _ _ (List.mem_append_right _ List.mem_cons_self)]

theorem stuffedReply_replayed : stuffedHandler.onStun signedResponseCrypto sampleEnv plainRequest samplePeerOctets =
    .ok (stuffedHandler, [⟨samplePeer, stuffedReply⟩]) := by decide +kernel

/-- Twenty octets under the same transaction get sixty-four. -/
theorem stuffedReply_amplifies : ¬ ∀ (crypto : Crypto) (hist : History) (h h' : BindingHandler) (env : Env)
    (datagram src : Bytes) (sent : List Sent), Run (Step crypto) .new hist h →
    h.onStun crypto env datagram src = .ok (h', sent) → octets sent ≤ 3 * datagram.length := by
  intro hall
  have hstep : Step signedResponseCrypto sampleHandler (.stun sampleEnv stuffedRequest samplePeerOctets) stuffedHandler :=
    ⟨_, stuffedRequest_answered⟩
  exact absurd (hall _ _ _ _ _ _ _ _ (sampleHandler_run.snoc hstep) stuffedReply_replayed) (by decide +kernel)

end QuickRelay.Server
