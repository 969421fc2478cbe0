import QuickRelay.Lib.Memo
import QuickRelay.Server.Calls

/-! The server without its memory: what a request is owed is a function of the request, its
peer and the configuration, and the replies the handler keeps never show. -/
namespace QuickRelay.Server
open Lib Protocol
open Binding (SocketAddr ServerIdentity)
open Transport (ConnectionId QueuedReply)
open Transport.EventLoop hiding Step History

variable (crypto : Crypto)

/-- What may ask for a reply: a datagram and the raw form of its peer, or a packet on a
control connection. -/
inductive Query where
  | udp (datagram src : Bytes)
  | tcp (datagram : Bytes) (id : ConnectionId)
  deriving DecidableEq, Repr

def bindingRequest (datagram : Bytes) : Option Message :=
  match parse datagram with
  | .ok msg => if msg.header.msgType = .bindingRequest then some msg else none
  | _ => none

/-- A Binding request, and no panic or error on the way. -/
theorem bindingRequest_eq_some {datagram : Bytes} {msg : Message} :
    bindingRequest datagram = some msg ↔ parse datagram = .ok msg ∧ msg.header.msgType = .bindingRequest := by
  rw [bindingRequest]
  cases parse datagram with
  | ok m =>
    by_cases hb : m.header.msgType = .bindingRequest
    · simp only [hb, if_true, Option.some.injEq, Outcome.ok.injEq]
      exact ⟨fun h => ⟨h, h ▸ hb⟩, fun h => h.1⟩
    · simp only [hb, if_false, Outcome.ok.injEq]
      exact ⟨nofun, fun ⟨h, hb'⟩ => absurd (h ▸ hb') hb⟩
  | err e => simp
  | panic => simp

namespace Service

/-- The reply to a Binding request. -/
def reply (s : Service) (msg : Message) (peer : SocketAddr) (identity : ServerIdentity) : Option Bytes :=
  match renderPlan crypto (planForRequest msg peer (some identity) s.addresses) msg.txid identity with
  | .ok out => some out
  | _ => none

/-- The transaction of a query and the reply it is owed, if it is a Binding request that
this service can answer. -/
def answer (s : Service) : Query → Option (TransactionKey × Bytes)
  | .udp datagram src => do
    let msg ← bindingRequest datagram
    let peer ← parsePeerAddr src
    let identity ← s.udpIdentity
    let out ← s.reply crypto msg peer identity
    return (udpKey msg peer, out)
  | .tcp datagram id => do
    let msg ← bindingRequest datagram
    let identity ← s.tcpIdentity
    let out ← s.reply crypto msg identity.toSocketAddr identity
    return (tcpKey msg identity id, out)

/-- The kept replies as a memo table of the service. -/
def memo (s : Service) : Memo Query (Option TransactionKey) (Option Bytes) where
  answer q := (s.answer crypto q).map Prod.snd
  key q := (s.answer crypto q).map Prod.fst

/-- What goes on the wire for a query over UDP. -/
def sends (s : Service) (env : Env) (q : Query) : List Sent :=
  if s.udp.isSome ∧ env.cloneOk ∧ env.sendOk then ((s.answer crypto q).map fun a => ⟨a.1.peer, a.2⟩).toList else []

/-- What is queued for a packet on an open control connection, if the outbox has room. -/
def queues (s : Service) (outbox : List QueuedReply) (datagram : Bytes) (id : ConnectionId) : List QueuedReply :=
  if outbox.length < replyQueueCap then ((s.answer crypto (.tcp datagram id)).map fun a => ⟨id, a.2⟩).toList else []

end Service

/-! ### One call -/

theorem reply_of_fresh {h : BindingHandler} {msg : Message} {peer : SocketAddr} {identity : ServerIdentity} {out : Bytes}
    (hf : h.freshReply crypto msg peer identity = .ok out) : h.service.reply crypto msg peer identity = some out := by
  have hout : renderPlan crypto (planForRequest msg peer (some identity) h.service.addresses) msg.txid identity = .ok out := hf
  rw [Service.reply, hout]

theorem answer_udp {h : BindingHandler} {datagram src : Bytes} {msg : Message} {peer : SocketAddr}
    {identity : ServerIdentity} {out : Bytes} (hr : UdpRequest h datagram src msg peer identity)
    (hf : h.freshReply crypto msg peer identity = .ok out) :
    h.service.answer crypto (.udp datagram src) = some (udpKey msg peer, out) := by
  have hid : h.service.udpIdentity = some identity := hr.identity
  simp only [Service.answer, bindingRequest_eq_some.mpr ⟨hr.parsed, hr.binding⟩, hr.peer, hid, reply_of_fresh crypto hf,
    Option.bind_eq_bind, Option.bind_some, Option.pure_def]

theorem answer_udp_none {h : BindingHandler} {datagram src : Bytes}
    (hno : ¬ ∃ msg peer identity, UdpRequest h datagram src msg peer identity) :
    h.service.answer crypto (.udp datagram src) = none := by
  rw [Option.eq_none_iff_forall_ne_some]
  intro a ha
  simp only [Service.answer, Option.bind_eq_bind, Option.bind_eq_some_iff] at ha
  obtain ⟨msg, hmsg, peer, hpeer, identity, hid, -⟩ := ha
  obtain ⟨hparsed, hbinding⟩ := bindingRequest_eq_some.mp hmsg
  exact hno ⟨msg, peer, identity, hparsed, hbinding, hpeer, hid⟩

theorem answer_tcp {h : BindingHandler} {datagram : Bytes} {id : ConnectionId} {msg : Message}
    {identity : ServerIdentity} {out : Bytes} (hr : TcpRequest h datagram id msg identity)
    (hf : h.freshReply crypto msg identity.toSocketAddr identity = .ok out) :
    h.service.answer crypto (.tcp datagram id) = some (tcpKey msg identity id, out) := by
  have hid : h.service.tcpIdentity = some identity := hr.identity
  simp only [Service.answer, bindingRequest_eq_some.mpr ⟨hr.parsed, hr.binding⟩, hid, reply_of_fresh crypto hf,
    Option.bind_eq_bind, Option.bind_some, Option.pure_def]

theorem answer_tcp_none {h : BindingHandler} {datagram : Bytes} {id : ConnectionId} (hid : id ∈ h.conns)
    (hno : ¬ ∃ msg identity, TcpRequest h datagram id msg identity) : h.service.answer crypto (.tcp datagram id) = none := by
  rw [Option.eq_none_iff_forall_ne_some]
  intro a ha
  simp only [Service.answer, Option.bind_eq_bind, Option.bind_eq_some_iff] at ha
  obtain ⟨msg, hmsg, identity, hidentity, -⟩ := ha
  obtain ⟨hparsed, hbinding⟩ := bindingRequest_eq_some.mp hmsg
  exact hno ⟨msg, identity, hparsed, hbinding, hid, hidentity⟩

/-- What the handler keeps, as the memo table has it. -/
def Retains (c : TransactionCache) (k : Option TransactionKey) (d : Option Bytes) : Prop :=
  ∃ key out t, k = some key ∧ d = some out ∧ (key, ⟨out, t⟩) ∈ c.entries

theorem retains_lookup {c : TransactionCache} {now : Nat} {key : TransactionKey} {out : Bytes}
    (h : (c.lookup now key).1 = some out) : Retains c (some key) (some out) := by
  obtain ⟨t, he, -⟩ := TransactionCache.lookup_eq_some.mp h
  exact ⟨key, out, t, rfl, rfl, he⟩

theorem retains_reap {c : TransactionCache} {now : Nat} {k : Option TransactionKey} {d : Option Bytes}
    (h : Retains (c.reap now) k d) : Retains c k d := by
  obtain ⟨key, out, t, hk, hd, he⟩ := h
  exact ⟨key, out, t, hk, hd, (TransactionCache.mem_reap.mp he).1⟩

theorem retains_insert {c : TransactionCache} {reapAt fileAt : Nat} {key : TransactionKey} {out : Bytes}
    {k : Option TransactionKey} {d : Option Bytes} (h : Retains (c.insert reapAt fileAt key out) k d) :
    Retains c k d ∨ k = some key ∧ d = some out := by
  obtain ⟨key', out', t, rfl, rfl, he⟩ := h
  rcases TransactionCache.mem_insert he with heq | ⟨he, -⟩
  · cases heq
    exact .inr ⟨rfl, rfl⟩
  · exact .inl ⟨key', out', t, rfl, rfl, he⟩

section Call
variable {h h' : BindingHandler} {env : Env} {datagram : Bytes} {asked : List Query}
  (hsound : (h.service.memo crypto).Sound asked (Retains h.transactions))
include hsound

/-- A kept reply is the one that is owed. -/
theorem lookup_owed {q : Query} {key : TransactionKey} {out new : Bytes} {now : Nat}
    (hsettled : (h.service.memo crypto).Settled asked q) (hans : h.service.answer crypto q = some (key, new))
    (hl : (h.transactions.lookup now key).1 = some out) : out = new := by
  have hkey : (h.service.memo crypto).key q = some key := by simp only [Service.memo, hans, Option.map_some]
  have heq : some out = (h.service.memo crypto).answer q :=
    Memo.Responds.eq (.inl (hkey ▸ retains_lookup hl)) hsound hsettled
  simpa only [Service.memo, hans, Option.map_some, Option.some.injEq] using heq

/-- A reply that is owed or kept may be filed. -/
theorem insert_retains {q : Query} {key : TransactionKey} {out new : Bytes} {c : TransactionCache}
    (hans : h.service.answer crypto q = some (key, new)) (hout : Retains h.transactions (some key) (some out) ∨ out = new)
    (hsub : ∀ k d, Retains c k d → Retains h.transactions k d) (reapAt fileAt : Nat) :
    (h.service.memo crypto).Sound (asked ++ [q]) (Retains (c.insert reapAt fileAt key out)) := by
  have hkey : (h.service.memo crypto).key q = some key := by simp only [Service.memo, hans, Option.map_some]
  have hanswer : (h.service.memo crypto).answer q = some new := by simp only [Service.memo, hans, Option.map_some]
  have hmore := hsound.mono fun q' hq' => List.mem_append_left [q] hq'
  refine hmore.keep (d := some out) (List.mem_append_right _ (List.mem_singleton.mpr rfl)) ?_ fun k d hd => ?_
  · rcases hout with hkept | rfl
    · exact .inl (hkey ▸ hkept)
    · exact .inr hanswer.symm
  · rw [hkey]
    rcases retains_insert hd with hd | hd
    · exact .inl (hsub k d hd)
    · exact .inr hd

/-- A datagram is answered as the service owes it. -/
theorem onStun_owed {src : Bytes} {sent : List Sent} (hsettled : (h.service.memo crypto).Settled asked (.udp datagram src))
    (hs : h.onStun crypto env datagram src = .ok (h', sent)) : sent = h.service.sends crypto env (.udp datagram src) := by
  have hlive : Live h env = true ↔ h.service.udp.isSome ∧ env.cloneOk := by
    rw [Live, Bool.and_eq_true]
    rfl
  cases onStun_case crypto hs with
  | dropped hno =>
    rw [Service.sends, answer_udp_none crypto hno]
    simp
  | @replayed msg peer identity out hr hl hlook hsend =>
    obtain ⟨new, hnew⟩ := h.freshReply_ok crypto msg peer identity
    have hans := answer_udp crypto hr hnew
    obtain rfl := lookup_owed crypto hsound hsettled hans hlook
    rw [Service.sends, if_pos ⟨(hlive.mp hl).1, (hlive.mp hl).2, hsend⟩, hans]
    rfl
  | unsent hr hl hlook hsend => rw [Service.sends, if_neg fun hall => hsend hall.2.2]
  | fresh hr hl hlook hf =>
    by_cases hsend : env.sendOk
    · rw [if_pos hsend, Service.sends, if_pos ⟨(hlive.mp hl).1, (hlive.mp hl).2, hsend⟩, answer_udp crypto hr hf]
      rfl
    · rw [if_neg hsend, Service.sends, if_neg fun hall => hsend hall.2.2]
  | pathless hr hdead hf => rw [Service.sends, if_neg fun hall => hdead (hlive.mpr ⟨hall.1, hall.2.1⟩)]

/-- What is kept after a datagram was owed to it or kept before. -/
theorem onStun_retains {src : Bytes} {sent : List Sent} (hs : h.onStun crypto env datagram src = .ok (h', sent)) :
    (h.service.memo crypto).Sound (asked ++ [.udp datagram src]) (Retains h'.transactions) := by
  have hmore := hsound.mono fun q hq => List.mem_append_left [.udp datagram src] hq
  cases onStun_case crypto hs with
  | dropped _ => exact hmore
  | @replayed msg peer identity out hr hl hlook hsend =>
    obtain ⟨new, hnew⟩ := h.freshReply_ok crypto msg peer identity
    exact insert_retains crypto hsound (answer_udp crypto hr hnew) (.inl (retains_lookup hlook)) (fun _ _ => retains_reap) _ _
  | unsent _ _ _ _ => exact hmore.forget fun _ _ => retains_reap
  | fresh hr _ _ hf => exact insert_retains crypto hsound (answer_udp crypto hr hf) (.inr rfl) (fun _ _ => retains_reap) _ _
  | pathless hr _ hf => exact insert_retains crypto hsound (answer_udp crypto hr hf) (.inr rfl) (fun _ _ hd => hd) _ _

/-- A packet on an open control connection is answered as the service owes it. -/
theorem onTcpStun_owed {id : ConnectionId} (hsettled : (h.service.memo crypto).Settled asked (.tcp datagram id))
    (hid : id ∈ h.conns) (hs : h.onTcpStun crypto env datagram id = .ok h') :
    h'.outbox = h.outbox ++ h.service.queues crypto h.outbox datagram id := by
  cases onTcpStun_case crypto hs with
  | dropped hno =>
    rw [Service.queues, answer_tcp_none crypto hid hno]
    simp
  | @queued msg identity out hr hout =>
    have hans : h.service.answer crypto (.tcp datagram id) = some (tcpKey msg identity id, out) := by
      rcases hout with hlook | ⟨-, hf⟩
      · obtain ⟨new, hnew⟩ := h.freshReply_ok crypto msg identity.toSocketAddr identity
        have hans := answer_tcp crypto hr hnew
        rwa [lookup_owed crypto hsound hsettled hans hlook]
      · exact answer_tcp crypto hr hf
    change (h.enqueue ⟨id, out⟩).outbox = _
    rw [BindingHandler.enqueue_eq, Service.queues, hans]
    rfl

/-- And so is what is kept after a packet. -/
theorem onTcpStun_retains {id : ConnectionId} (hs : h.onTcpStun crypto env datagram id = .ok h') :
    (h.service.memo crypto).Sound (asked ++ [.tcp datagram id]) (Retains h'.transactions) := by
  cases onTcpStun_case crypto hs with
  | dropped _ => exact hsound.mono fun q hq => List.mem_append_left _ hq
  | @queued msg identity out hr hout =>
    obtain ⟨new, hnew⟩ := h.freshReply_ok crypto msg identity.toSocketAddr identity
    refine insert_retains crypto hsound (answer_tcp crypto hr hnew) ?_ (fun _ _ => retains_reap) _ _
    rcases hout with hlook | ⟨-, hf⟩
    · exact .inl (retains_lookup hlook)
    · exact .inr (Outcome.ok.inj (hf.symm.trans hnew))

end Call

/-! ### Whole runs -/

def Event.query : Event → Option Query
  | .stun _ datagram src => some (.udp datagram src)
  | .tcpStun _ datagram id => some (.tcp datagram id)
  | _ => none

/-- What a run was asked. -/
def queries (hist : History) : List Query := hist.filterMap fun p => p.2.query

theorem queries_snoc (hist : History) (h : BindingHandler) (ev : Event) : queries (hist ++ [(h, ev)]) = queries hist ++ ev.query.toList := by
  rw [queries, List.filterMap_append]
  cases hq : ev.query <;> simp [queries, hq]

/-- One call of a run keeps what is owed. -/
theorem step_retains {h h' : BindingHandler} {ev : Event} {asked : List Query}
    (hsound : (h.service.memo crypto).Sound asked (Retains h.transactions)) (hs : Step crypto h ev h') :
    (h.service.memo crypto).Sound (asked ++ ev.query.toList) (Retains h'.transactions) := by
  obtain ⟨sent, hs⟩ := hs
  by_cases hu : ∃ env datagram src, ev = .stun env datagram src
  · obtain ⟨env, datagram, src, rfl⟩ := hu
    exact onStun_retains crypto hsound hs
  by_cases ht : ∃ env datagram id, ev = .tcpStun env datagram id
  · obtain ⟨env, datagram, id, rfl⟩ := ht
    obtain ⟨h1, htcp, heq⟩ := Outcome.bind_eq_ok.mp hs
    cases heq
    exact onTcpStun_retains crypto hsound htcp
  · rw [apply_transactions crypto hs (fun env d src he => hu ⟨env, d, src, he⟩) fun env d id he => ht ⟨env, d, id, he⟩]
    exact hsound.mono fun q hq => List.mem_append_left _ hq

/-- In a run of traffic from an empty cache, whatever is kept was owed. -/
theorem run_retains {h₀ h : BindingHandler} {hist : History} (hrun : Run (Step crypto) h₀ hist h)
    (h0 : h₀.transactions = .empty) (ht : ∀ p ∈ hist, p.2.traffic) :
    (h₀.service.memo crypto).Sound (queries hist) (Retains h.transactions) := by
  induction hrun with
  | refl =>
    refine Memo.sound_empty fun k d ⟨key, out, t, _, _, he⟩ => ?_
    rw [h0] at he
    cases he
  | @snoc hist g h ev hr hs ih =>
    have ht' : ∀ p ∈ hist, p.2.traffic := fun p hp => ht p (List.mem_append_left _ hp)
    have hsound := ih ht'
    rw [← run_service crypto hr ht'] at hsound ⊢
    rw [queries_snoc]
    exact step_retains crypto hsound hs

end QuickRelay.Server
