import QuickRelay.Server.Transports

/-! Which replies are kept. A replay that cannot be sent is not filed again; a fresh reply is
filed whether it was sent or not, and a control connection's whether the outbox took it or not. -/
namespace QuickRelay.Server
open Lib Protocol
open Binding (SocketAddr ServerIdentity)
open Transport (ConnectionId)

/-- What a call may do to the kept replies, given the octets it handed over. -/
structure Remembers (c c' : TransactionCache) (now : Nat) (delivered : List Bytes) : Prop where
  undelivered : delivered = [] → c' = c ∨ c' = c.reap now
  filed : ∀ e ∈ c'.entries, e ∉ c.entries → e.2.datagram ∈ delivered

section
variable {c : TransactionCache} {now : Nat} {delivered : List Bytes}

theorem Remembers.refl : Remembers c c now delivered where
  undelivered _ := .inl rfl
  filed _ he hn := absurd he hn

theorem Remembers.reap : Remembers c (c.reap now) now delivered where
  undelivered _ := .inr rfl
  filed _ he hn := absurd (TransactionCache.mem_reap.mp he).1 hn

/-- A reply that was handed over may be filed. -/
theorem Remembers.insert {out : Bytes} (hout : out ∈ delivered) (reapAt fileAt : Nat) (key : TransactionKey) :
    Remembers c ((c.reap now).insert reapAt fileAt key out) now delivered where
  undelivered h := by
    rw [h] at hout
    cases hout
  filed e he hn := by
    rcases TransactionCache.mem_insert he with rfl | ⟨he, -⟩
    · exact hout
    · exact absurd (TransactionCache.mem_reap.mp he).1 hn

/-- An entry filed after every deadline of the cache is a new one. -/
theorem Remembers.mem {c' : TransactionCache} {key : TransactionKey} {out : Bytes} {deadline : Nat}
    (h : Remembers c c' now delivered) (he : (key, ⟨out, deadline⟩) ∈ c'.entries)
    (hlate : ∀ e ∈ c.entries, e.2.deadline < deadline) : out ∈ delivered :=
  h.filed _ he fun hold => Nat.lt_irrefl _ (hlate _ hold)

end

/-- Filed late enough, an entry outlasts every entry of the cache. -/
theorem exists_outlasting (c : TransactionCache) : ∃ t, ∀ e ∈ c.entries, e.2.deadline < t + transactionTimeout := by
  induction c.entries with
  | nil => exact ⟨0, fun _ he => by cases he⟩
  | cons e l ih =>
    obtain ⟨t, ht⟩ := ih
    refine ⟨max t (e.2.deadline + 1), fun e' he' => ?_⟩
    rcases List.mem_cons.mp he' with rfl | he'
    · omega
    · have := ht e' he'
      omega

/-! ### One call -/

theorem UdpRequest.unique {h : BindingHandler} {datagram src : Bytes} {msg msg' : Message} {peer peer' : SocketAddr}
    {identity identity' : ServerIdentity} (hr : UdpRequest h datagram src msg peer identity)
    (hr' : UdpRequest h datagram src msg' peer' identity') : msg = msg' ∧ peer = peer' :=
  ⟨Outcome.ok.inj (hr.parsed.symm.trans hr'.parsed), Option.some.inj (hr.peer.symm.trans hr'.peer)⟩

variable (crypto : Crypto)

/-- The handler has a path to the peer of every request it answers, and either the datagram is
sent or the transaction's reply is still kept. -/
def UdpDelivers (h : BindingHandler) (env : Env) (datagram src : Bytes) : Prop :=
  ∀ msg peer identity, UdpRequest h datagram src msg peer identity →
    Live h env ∧ (env.sendOk ∨ (h.transactions.lookup env.lookupAt (udpKey msg peer)).1.isSome)

/-- The outbox has room for the answer to a request. -/
def TcpDelivers (h : BindingHandler) (datagram : Bytes) (id : ConnectionId) : Prop :=
  ∀ msg identity, TcpRequest h datagram id msg identity → h.outbox.length < replyQueueCap

theorem udp_remembers {h h' : BindingHandler} {env : Env} {datagram src : Bytes} {sent : List Sent}
    (hd : UdpDelivers h env datagram src) {fileAt : Nat}
    (hs : h.onStun crypto { env with fileAt := fileAt } datagram src = .ok (h', sent)) :
    Remembers h.transactions h'.transactions env.lookupAt (sent.map Sent.datagram) := by
  cases onStun_case crypto hs with
  | dropped _ => exact .refl
  | replayed _ _ _ _ => exact .insert (by simp) _ _ _
  | unsent _ _ _ _ => exact .reap
  | fresh hr _ hl _ =>
    rcases (hd _ _ _ hr).2 with hsend | hkept
    · rw [if_pos hsend]
      exact .insert (by simp) _ _ _
    · rw [hl] at hkept
      cases hkept
  | pathless hr hdead _ => exact absurd (hd _ _ _ hr).1 hdead

/-- Filed late enough, an unsent reply stands out. -/
theorem udp_delivers {h : BindingHandler} {env : Env} {datagram src : Bytes}
    (hall : ∀ fileAt h' sent, h.onStun crypto { env with fileAt := fileAt } datagram src = .ok (h', sent) →
      Remembers h.transactions h'.transactions env.lookupAt (sent.map Sent.datagram)) :
    UdpDelivers h env datagram src := by
  intro msg peer identity hr
  obtain ⟨t, hlate⟩ := exists_outlasting h.transactions
  obtain ⟨⟨h', sent⟩, hs⟩ := onStun_ok crypto h { env with fileAt := t } (Outcome.ne_panic_of_eq_ok hr.parsed) src
  have hrem := hall t h' sent hs
  cases onStun_case crypto hs with
  | dropped hn => exact absurd ⟨msg, peer, identity, hr⟩ hn
  | replayed hr' hlive hl _ =>
    obtain ⟨rfl, rfl⟩ := hr.unique hr'
    exact ⟨hlive, .inr (by rw [hl]; rfl)⟩
  | unsent hr' hlive hl _ =>
    obtain ⟨rfl, rfl⟩ := hr.unique hr'
    exact ⟨hlive, .inr (by rw [hl]; rfl)⟩
  | fresh hr' hlive _ _ =>
    refine ⟨hlive, .inl ?_⟩
    have hmem := hrem.mem (TransactionCache.mem_insert_self _ _ _ _ _) hlate
    by_contra hsend
    rw [if_neg hsend] at hmem
    cases hmem
  | pathless _ _ _ =>
    have hmem := hrem.mem (TransactionCache.mem_insert_self _ _ _ _ _) hlate
    cases hmem

/-- The octets a call put into the outbox. -/
def outboxed (h h' : BindingHandler) : List Bytes := (h'.outbox.drop h.outbox.length).map (·.payload)

theorem outboxed_enqueue (h : BindingHandler) (c : TransactionCache) (reply : Transport.QueuedReply) :
    outboxed h ((h.enqueue reply).withTransactions c) =
      if h.outbox.length < replyQueueCap then [reply.payload] else [] := by
  have houtbox : ((h.enqueue reply).withTransactions c).outbox = (h.enqueue reply).outbox := rfl
  rw [outboxed, houtbox, BindingHandler.enqueue_eq]
  split <;> simp

theorem tcp_remembers {h h' : BindingHandler} {env : Env} {datagram : Bytes} {id : ConnectionId}
    (hd : TcpDelivers h datagram id) {fileAt : Nat}
    (hs : h.onTcpStun crypto { env with fileAt := fileAt } datagram id = .ok h') :
    Remembers h.transactions h'.transactions env.lookupAt (outboxed h h') := by
  cases onTcpStun_case crypto hs with
  | dropped _ => exact .refl
  | queued hr _ =>
    rw [outboxed_enqueue, if_pos (hd _ _ hr)]
    exact .insert (by simp) _ _ _

theorem tcp_delivers {h : BindingHandler} {env : Env} {datagram : Bytes} {id : ConnectionId}
    (hall : ∀ fileAt h', h.onTcpStun crypto { env with fileAt := fileAt } datagram id = .ok h' →
      Remembers h.transactions h'.transactions env.lookupAt (outboxed h h')) : TcpDelivers h datagram id := by
  intro msg identity hr
  obtain ⟨t, hlate⟩ := exists_outlasting h.transactions
  obtain ⟨h', hs⟩ := onTcpStun_ok crypto h { env with fileAt := t } (Outcome.ne_panic_of_eq_ok hr.parsed) id
  have hrem := hall t h' hs
  cases onTcpStun_case crypto hs with
  | dropped hn => exact absurd ⟨msg, identity, hr⟩ hn
  | queued _ _ =>
    have hmem := hrem.mem (TransactionCache.mem_insert_self _ _ _ _ _) hlate
    by_contra hfull
    rw [outboxed_enqueue, if_neg hfull] at hmem
    cases hmem

/-- **Kept replies**: whenever the clock reads at filing, a call remembers what it delivered and
nothing else exactly under the conditions above. -/
theorem remembers_iff_delivers :
    (∀ (h : BindingHandler) (env : Env) (datagram src : Bytes),
      (∀ fileAt h' sent, h.onStun crypto { env with fileAt := fileAt } datagram src = .ok (h', sent) →
        Remembers h.transactions h'.transactions env.lookupAt (sent.map Sent.datagram)) ↔
      UdpDelivers h env datagram src) ∧
    ∀ (h : BindingHandler) (env : Env) (datagram : Bytes) (id : ConnectionId),
      (∀ fileAt h', h.onTcpStun crypto { env with fileAt := fileAt } datagram id = .ok h' →
        Remembers h.transactions h'.transactions env.lookupAt (outboxed h h')) ↔
      TcpDelivers h datagram id :=
  ⟨fun _ _ _ _ => ⟨udp_delivers crypto, fun hd _ _ _ hs => udp_remembers crypto hd hs⟩,
    fun _ _ _ _ => ⟨tcp_delivers crypto, fun hd _ _ hs => tcp_remembers crypto hd hs⟩⟩

/-- The sending fails. -/
def brokenEnv : Env := { sampleEnv with sendOk := false }

/-- A reply that never left is kept for the retransmission. -/
theorem unsent_reply_kept : ¬ ∀ (crypto : Crypto) (h h' : BindingHandler) (env : Env) (datagram src : Bytes)
    (sent : List Sent), h.onStun crypto env datagram src = .ok (h', sent) →
    Remembers h.transactions h'.transactions env.lookupAt (sent.map Sent.datagram) := by
  intro hall
  have hr : UdpRequest sampleHandler plainRequest samplePeerOctets plainMessage samplePeer sampleIdentity :=
    ⟨parse_plainRequest, rfl, rfl, rfl⟩
  have hd : UdpDelivers sampleHandler brokenEnv plainRequest samplePeerOctets :=
    udp_delivers signedResponseCrypto fun t h' sent hs =>
      hall signedResponseCrypto sampleHandler h' { brokenEnv with fileAt := t } plainRequest samplePeerOctets sent hs
  rcases (hd plainMessage samplePeer sampleIdentity hr).2 with hsend | hkept
  · cases hsend
  · exact absurd hkept (by decide)

end QuickRelay.Server
