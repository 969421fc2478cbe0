import QuickRelay.Server.Mapped

/-! Retransmissions: while a reply is kept, its transaction is answered with it and
nothing else. -/
namespace QuickRelay.Server
open Lib Protocol
open Binding (SocketAddr ServerIdentity BindingResponsePlan)
open Transport (ConnectionId QueuedReply)

variable (crypto : Crypto)

/-- A reply is kept under the transaction and not past its deadline. -/
def Unexpired (h : BindingHandler) (key : TransactionKey) (now : Nat) : Prop :=
  ∃ e, (key, e) ∈ h.transactions.entries ∧ now < e.deadline

/-- A call that finds the sender attached, and the transaction's reply unexpired if it is
a request of that transaction. -/
def Serves (key : TransactionKey) (h : BindingHandler) : Event → Prop
  | .stun env datagram src => Live h env ∧ ∀ msg peer identity, UdpRequest h datagram src msg peer identity →
      udpKey msg peer = key → Unexpired h key env.lookupAt
  | .tcpStun env datagram id => ∀ msg identity, TcpRequest h datagram id msg identity →
      tcpKey msg identity id = key → Unexpired h key env.lookupAt
  | _ => True

/-- All along a run the reply of the transaction stays in the cache. -/
structure Kept (key : TransactionKey) (hist : History) (h : BindingHandler) : Prop where
  served : ∀ p ∈ hist, Serves key p.1 p.2
  during : ∀ p ∈ hist, key ∈ p.1.transactions.keys
  final : key ∈ h.transactions.keys

theorem mem_keys {c : TransactionCache} {key : TransactionKey} : key ∈ c.keys ↔ ∃ e, (key, e) ∈ c.entries := by
  simp [TransactionCache.keys, Assoc.keys]

theorem lookup_of_unexpired {h : BindingHandler} {key : TransactionKey} {now : Nat} {d : Bytes} {t : Nat}
    (he : (key, ⟨d, t⟩) ∈ h.transactions.entries) (hu : Unexpired h key now) :
    (h.transactions.lookup now key).1 = some d := by
  obtain ⟨e, he', hlt⟩ := hu
  obtain rfl := Assoc.unique h.transactions.distinct he he'
  exact TransactionCache.lookup_eq_some.mpr ⟨t, he, hlt⟩

/-- A reap leaves the transaction's reply or drops it. -/
theorem kept_reap {c : TransactionCache} {key : TransactionKey} {d : Bytes} {t now : Nat}
    (he : (key, ⟨d, t⟩) ∈ c.entries) (hk : key ∈ (c.reap now).keys) : ∃ t', (key, ⟨d, t'⟩) ∈ (c.reap now).entries := by
  obtain ⟨e, he'⟩ := mem_keys.mp hk
  obtain rfl := Assoc.unique c.distinct he (TransactionCache.mem_reap.mp he').1
  exact ⟨t, he'⟩

/-- Filing leaves the transaction's reply, drops it, or files the same octets again. -/
theorem kept_insert {c : TransactionCache} {key key' : TransactionKey} {d out : Bytes} {t now reapAt fileAt : Nat}
    (he : (key, ⟨d, t⟩) ∈ c.entries) (hk : key ∈ ((c.reap now).insert reapAt fileAt key' out).keys)
    (hout : key' = key → out = d) : ∃ t', (key, ⟨d, t'⟩) ∈ ((c.reap now).insert reapAt fileAt key' out).entries := by
  obtain ⟨e, he'⟩ := mem_keys.mp hk
  rcases TransactionCache.mem_insert he' with heq | ⟨hmem, -⟩
  · obtain ⟨rfl, rfl⟩ := Prod.mk.inj heq
    obtain rfl := hout rfl
    exact ⟨_, he'⟩
  · obtain rfl := Assoc.unique c.distinct he (TransactionCache.mem_reap.mp hmem).1
    exact ⟨t, he'⟩

/-- One call keeps the transaction's octets, if it keeps the transaction at all. -/
theorem step_kept {h h' : BindingHandler} {ev : Event} {key : TransactionKey} {d : Bytes} {t : Nat}
    (he : (key, ⟨d, t⟩) ∈ h.transactions.entries) (hserve : Serves key h ev) (hs : Step crypto h ev h')
    (hk : key ∈ h'.transactions.keys) : ∃ t', (key, ⟨d, t'⟩) ∈ h'.transactions.entries := by
  obtain ⟨sent, hs⟩ := hs
  have hlook : ∀ {now : Nat} {key' : TransactionKey} {out : Bytes}, (key' = key → Unexpired h key now) →
      (h.transactions.lookup now key').1 = some out → key' = key → out = d := by
    rintro now _ out hu hl rfl
    exact Option.some.inj (hl.symm.trans (lookup_of_unexpired he (hu rfl)))
  have hfresh : ∀ {now : Nat} {key' : TransactionKey} {out : Bytes}, (key' = key → Unexpired h key now) →
      (h.transactions.lookup now key').1 = none → key' = key → out = d := by
    rintro now _ out hu hl rfl
    cases hl.symm.trans (lookup_of_unexpired he (hu rfl))
  cases ev with
  | stun env datagram src =>
    obtain ⟨hlive, hu⟩ := hserve
    cases onStun_case crypto hs with
    | dropped _ => exact ⟨t, he⟩
    | replayed hr _ hl _ => exact kept_insert he hk (hlook (hu _ _ _ hr) hl)
    | unsent _ _ _ _ => exact kept_reap he hk
    | fresh hr _ hl _ => exact kept_insert he hk (hfresh (hu _ _ _ hr) hl)
    | pathless _ hdead _ => exact absurd hlive hdead
  | tcpStun env datagram id =>
    obtain ⟨h1, htcp, heq⟩ := Outcome.bind_eq_ok.mp hs
    cases heq
    cases onTcpStun_case crypto htcp with
    | dropped _ => exact ⟨t, he⟩
    | queued hr hout =>
      rcases hout with hl | ⟨hl, -⟩
      · exact kept_insert he hk (hlook (hserve _ _ hr) hl)
      · exact kept_insert he hk (hfresh (hserve _ _ hr) hl)
  | _ =>
    rw [apply_transactions crypto hs (by simp) (by simp)]
    exact ⟨t, he⟩

/-- All along such a run the transaction's octets stay the same. -/
theorem run_kept {h₀ h : BindingHandler} {hist : History} {key : TransactionKey} {d : Bytes} {t : Nat}
    (he : (key, ⟨d, t⟩) ∈ h₀.transactions.entries) (hr : Run (Step crypto) h₀ hist h) (hk : Kept key hist h) :
    ∃ t', (key, ⟨d, t'⟩) ∈ h.transactions.entries := by
  induction hr with
  | refl => exact ⟨t, he⟩
  | @snoc hist g h ev _ hs ih =>
    have hmem : (g, ev) ∈ hist ++ [(g, ev)] := List.mem_append_right hist List.mem_cons_self
    obtain ⟨t', he'⟩ := ih
      { served := fun p hp => hk.served p (List.mem_append_left _ hp)
        during := fun p hp => hk.during p (List.mem_append_left _ hp)
        final := hk.during _ hmem }
    exact step_kept crypto he' (hk.served _ hmem) hs hk.final

/-! ### Answers -/

/-- The octets that answer a request: the kept ones, or else a function of the request,
its peer and the configuration. -/
def answerTo (h : BindingHandler) (key : TransactionKey) (now : Nat) (msg : Message) (peer : SocketAddr)
    (identity : ServerIdentity) : Res Bytes :=
  match (h.transactions.lookup now key).1 with
  | some kept => .ok kept
  | none => renderPlan crypto (planForRequest msg peer (some identity) h.addresses) msg.txid identity

theorem answerTo_of_case {h : BindingHandler} {key : TransactionKey} {now : Nat} {msg : Message} {peer : SocketAddr}
    {identity : ServerIdentity} {out : Bytes} (hc : (h.transactions.lookup now key).1 = some out ∨
      (h.transactions.lookup now key).1 = none ∧ h.freshReply crypto msg peer identity = .ok out) :
    answerTo crypto h key now msg peer identity = .ok out := by
  rw [answerTo]
  rcases hc with hl | ⟨hl, hf⟩
  · rw [hl]
  · rw [hl]
    exact hf

theorem onStun_answers {h h' : BindingHandler} {env : Env} {datagram src : Bytes} {sent : List Sent} {msg : Message}
    {peer : SocketAddr} {identity : ServerIdentity} (hs : h.onStun crypto env datagram src = .ok (h', sent))
    (hr : UdpRequest h datagram src msg peer identity) (hlive : Live h env) :
    ∃ out, answerTo crypto h (udpKey msg peer) env.lookupAt msg peer identity = .ok out ∧
      sent = if env.sendOk then [⟨peer, out⟩] else [] := by
  have same : ∀ {msg' peer' identity'}, UdpRequest h datagram src msg' peer' identity' →
      msg' = msg ∧ peer' = peer ∧ identity' = identity := fun hr' =>
    ⟨Outcome.ok.inj (hr'.parsed.symm.trans hr.parsed), Option.some.inj (hr'.peer.symm.trans hr.peer),
      Option.some.inj (hr'.identity.symm.trans hr.identity)⟩
  cases onStun_case crypto hs with
  | dropped hno => exact absurd ⟨msg, peer, identity, hr⟩ hno
  | pathless _ hdead _ => exact absurd hlive hdead
  | @replayed _ _ _ out hr' _ hl hsend =>
    obtain ⟨rfl, rfl, rfl⟩ := same hr'
    exact ⟨out, answerTo_of_case crypto (.inl hl), (if_pos hsend).symm⟩
  | @unsent _ _ _ out hr' _ hl hsend =>
    obtain ⟨rfl, rfl, rfl⟩ := same hr'
    exact ⟨out, answerTo_of_case crypto (.inl hl), (if_neg hsend).symm⟩
  | @fresh _ _ _ out hr' _ hl hf =>
    obtain ⟨rfl, rfl, rfl⟩ := same hr'
    exact ⟨out, answerTo_of_case crypto (.inr ⟨hl, hf⟩), rfl⟩

theorem onTcpStun_answers {h h' : BindingHandler} {env : Env} {datagram : Bytes} {id : ConnectionId} {msg : Message}
    {identity : ServerIdentity} (hs : h.onTcpStun crypto env datagram id = .ok h')
    (hr : TcpRequest h datagram id msg identity) :
    ∃ out, answerTo crypto h (tcpKey msg identity id) env.lookupAt msg identity.toSocketAddr identity = .ok out ∧
      h'.outbox = (h.enqueue ⟨id, out⟩).outbox := by
  cases onTcpStun_case crypto hs with
  | dropped hno => exact absurd ⟨msg, identity, hr⟩ hno
  | @queued msg' identity' out hr' hc =>
    obtain rfl : msg' = msg := Outcome.ok.inj (hr'.parsed.symm.trans hr.parsed)
    obtain rfl : identity' = identity := Option.some.inj (hr'.identity.symm.trans hr.identity)
    exact ⟨out, answerTo_of_case crypto hc, rfl⟩

/-- The handler answers unexpired requests of a transaction with the octets `d`. -/
structure AnswersWith (h : BindingHandler) (key : TransactionKey) (d : Bytes) : Prop where
  udp : ∀ env datagram src h' sent msg peer identity, h.onStun crypto env datagram src = .ok (h', sent) →
    UdpRequest h datagram src msg peer identity → Live h env → udpKey msg peer = key → Unexpired h key env.lookupAt →
    sent = if env.sendOk then [⟨peer, d⟩] else []
  tcp : ∀ env datagram id h' msg identity, h.onTcpStun crypto env datagram id = .ok h' →
    TcpRequest h datagram id msg identity → tcpKey msg identity id = key → Unexpired h key env.lookupAt →
    h'.outbox = (h.enqueue ⟨id, d⟩).outbox

/-- The handler answers a request that it keeps no reply for with what the request, its
peer and the configuration make of it. -/
structure AnswersAnew (h : BindingHandler) : Prop where
  udp : ∀ env datagram src h' sent msg peer identity, h.onStun crypto env datagram src = .ok (h', sent) →
    UdpRequest h datagram src msg peer identity → Live h env →
    (h.transactions.lookup env.lookupAt (udpKey msg peer)).1 = none →
    ∃ out, renderPlan crypto (planForRequest msg peer (some identity) h.addresses) msg.txid identity = .ok out ∧
      sent = if env.sendOk then [⟨peer, out⟩] else []
  tcp : ∀ env datagram id h' msg identity, h.onTcpStun crypto env datagram id = .ok h' →
    TcpRequest h datagram id msg identity → (h.transactions.lookup env.lookupAt (tcpKey msg identity id)).1 = none →
    ∃ out, renderPlan crypto (planForRequest msg identity.toSocketAddr (some identity) h.addresses) msg.txid identity =
      .ok out ∧ h'.outbox = (h.enqueue ⟨id, out⟩).outbox

theorem answersWith_of_kept {h : BindingHandler} {key : TransactionKey} {d : Bytes} {t : Nat}
    (he : (key, ⟨d, t⟩) ∈ h.transactions.entries) : AnswersWith crypto h key d where
  udp env datagram src h' sent msg peer identity hs hr hlive hkey hu := by
    obtain ⟨out, hout, hsent⟩ := onStun_answers crypto hs hr hlive
    rw [answerTo, hkey, lookup_of_unexpired he hu] at hout
    cases hout
    exact hsent
  tcp env datagram id h' msg identity hs hr hkey hu := by
    obtain ⟨out, hout, hbox⟩ := onTcpStun_answers crypto hs hr
    rw [answerTo, hkey, lookup_of_unexpired he hu] at hout
    cases hout
    exact hbox

theorem answersAnew (h : BindingHandler) : AnswersAnew crypto h where
  udp env datagram src h' sent msg peer identity hs hr hlive hl := by
    obtain ⟨out, hout, hsent⟩ := onStun_answers crypto hs hr hlive
    rw [answerTo, hl] at hout
    exact ⟨out, hout, hsent⟩
  tcp env datagram id h' msg identity hs hr hl := by
    obtain ⟨out, hout, hbox⟩ := onTcpStun_answers crypto hs hr
    rw [answerTo, hl] at hout
    exact ⟨out, hout, hbox⟩

/-- **Retransmissions**: a reply once filed answers every later request of its
transaction while it is kept, whatever happens in between; a transaction without a kept
reply is answered from the request, its peer and the configuration alone. -/
theorem retransmission_identical :
    (∀ (h₀ h : BindingHandler) (hist : History) (key : TransactionKey) (d : Bytes) (t : Nat),
      (key, ⟨d, t⟩) ∈ h₀.transactions.entries → Run (Step crypto) h₀ hist h → Kept key hist h → AnswersWith crypto h key d) ∧
    ∀ h : BindingHandler, AnswersAnew crypto h := by
  refine ⟨?_, answersAnew crypto⟩
  intro h₀ h hist key d t hfiled hrun hkept
  obtain ⟨t', he⟩ := run_kept crypto hfiled hrun hkept
  exact answersWith_of_kept crypto he

/-- The handler that has answered `plainRequest`. -/
def answeredHandler : BindingHandler :=
  sampleHandler.withTransactions (TransactionCache.empty.insert 0 0 (udpKey plainMessage samplePeer) plainReply)

theorem answeredHandler_filed :
    (udpKey plainMessage samplePeer, ⟨plainReply, 0 + transactionTimeout⟩) ∈ answeredHandler.transactions.entries :=
  TransactionCache.mem_insert_self _ _ _ _ _

/-- Its reply outlives a change of the listen list. -/
theorem answeredHandler_answers : AnswersWith signedResponseCrypto (answeredHandler.setAddresses [])
    (udpKey plainMessage samplePeer) plainReply := by
  have hkey : udpKey plainMessage samplePeer ∈ answeredHandler.transactions.keys := mem_keys.mpr ⟨_, answeredHandler_filed⟩
  have hrun : Run (Step signedResponseCrypto) answeredHandler [(answeredHandler, .setAddresses [])]
      (answeredHandler.setAddresses []) := Run.snoc .refl ⟨[], rfl⟩
  refine (retransmission_identical signedResponseCrypto).1 _ _ _ _ _ _ answeredHandler_filed hrun ⟨?_, ?_, hkey⟩
  · intro p hp
    rw [List.mem_singleton.mp hp]
    trivial
  · intro p hp
    rw [List.mem_singleton.mp hp]
    exact hkey

end QuickRelay.Server
