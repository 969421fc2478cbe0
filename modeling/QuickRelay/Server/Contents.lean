import QuickRelay.Protocol.Lookup
import QuickRelay.Server.Process
import QuickRelay.Server.ReplyOrder

/-! What replies carry: addresses of the process, its own words, and of a peer's only what
that peer sent. -/
namespace QuickRelay.Server
open Lib Protocol
open Binding (IpAddr SocketAddr ServerIdentity BindingResponsePlan)
open Transport (ConnectionId QueuedReply)
open Transport.EventLoop hiding Step History

variable (crypto : Crypto)

/-- Who a query comes from and a reply goes to. -/
inductive Party where
  | peer (addr : SocketAddr)
  | connection (id : ConnectionId)
  deriving DecidableEq, Repr

def Query.datagram : Query → Bytes
  | .udp datagram _ => datagram
  | .tcp datagram _ => datagram

def Query.party : Query → Option Party
  | .udp _ src => (parsePeerAddr src).map .peer
  | .tcp _ id => some (.connection id)

def TransactionKey.party (k : TransactionKey) : Party :=
  match k.connection with
  | some id => .connection id
  | none => .peer k.peer

/-- The replies that a step sends or queues, and to whom. -/
def handedOut (p : Loop BindingHandler × (Answer Env × Act)) : List (Party × Bytes) :=
  match p.2.2, p.2.1 with
  | .stun datagram src, .recv env _ =>
    match p.1.worker.handler.onStun crypto env datagram src with
    | .ok (_, sent) => sent.map fun s => (.peer s.dst, s.datagram)
    | _ => []
  | _, _ => (enqueued crypto p).map fun r => (.connection r.id, r.payload)

/-- What a reply to the request may say. -/
inductive OwnWords (addresses : List ServerIdentity) (msg : Message) : Attribute → Prop
  | errorCode (code : Binding.ErrorCode) : OwnWords addresses msg (errorCodeAttr code)
  | unknownAttributes {codes : List UInt16} : codes.length ≤ scratchLen → (∀ c ∈ codes, msg.has c) →
      OwnWords addresses msg (.unknownAttributes codes)
  | xorMappedAddress {id : ServerIdentity} : id ∈ addresses → OwnWords addresses msg (.xorMappedAddress (identityAttr id))
  | software : OwnWords addresses msg (.software softwareName)

/-- A response to the request, in words of the server's own down to the padding. -/
structure Discloses (addresses : List ServerIdentity) (msg : Message) (d : Bytes) (m : Message) : Prop where
  reads : parse d = .ok m
  response : m.header.msgType ∈ [MessageType.bindingSuccess, .bindingError]
  txid : m.txid = msg.txid
  words : ∀ a ∈ m.attributes, OwnWords addresses msg a
  encoding : buildResponse crypto m.header.msgType.bits m.txid m.attributes none false = .ok d

/-! ### A rendered reply -/

theorem reported_has {msg : Message} {c : UInt16} (h : c ∈ reported msg) : msg.has c := by
  have hscanned : c ∈ scanned msg := List.mem_of_mem_take (List.mem_filter.mp h).1
  rw [Message.has, Bool.or_eq_true, List.any_eq_true, List.any_eq_true]
  rcases List.mem_append.mp hscanned with hoffends | hunknown
  · obtain ⟨a, ha, rfl⟩ := List.mem_map.mp hoffends
    exact .inl ⟨a, (List.mem_filter.mp ha).1, beq_self_eq_true _⟩
  · obtain ⟨u, hu, rfl⟩ := List.mem_map.mp hunknown
    exact .inr ⟨u, hu, beq_self_eq_true _⟩

theorem shape_ownWords {default : ServerIdentity} {addresses : List ServerIdentity} {plan : BindingResponsePlan}
    (h : Binding.Shape default addresses plan) (hd : default ∈ addresses) (msg : Message) :
    ∀ a ∈ planAttributes plan default, OwnWords addresses msg a := by
  intro a ha
  cases h with
  | failed code =>
    have hattrs : planAttributes (.error code) default = [errorCodeAttr code] := by cases code <;> rfl
    rw [hattrs, List.mem_singleton] at ha
    rw [ha]
    exact .errorCode code
  | mapped software =>
    rcases List.mem_cons.mp ha with rfl | ha
    · exact .xorMappedAddress hd
    · cases software with
      | false => cases ha
      | true =>
        rw [List.mem_singleton.mp ha]
        exact .software
  | moved id software hid =>
    rcases List.mem_cons.mp ha with rfl | ha
    · exact .xorMappedAddress hid
    · cases software with
      | false => cases ha
      | true =>
        rw [List.mem_singleton.mp ha]
        exact .software

theorem plan_ownWords (msg : Message) (peer : SocketAddr) {identity : ServerIdentity} {addresses : List ServerIdentity}
    (hd : identity ∈ addresses) :
    ∀ a ∈ planAttributes (planForRequest msg peer (some identity) addresses) identity, OwnWords addresses msg a := by
  rw [planForRequest_eq]
  split
  case isTrue =>
    intro a ha
    rcases List.mem_cons.mp ha with rfl | ha
    · exact .errorCode .unknownAttribute
    · rw [List.mem_singleton.mp ha]
      exact .unknownAttributes (reported_length msg) fun c hc => reported_has hc
  case isFalse => exact shape_ownWords (Binding.decideKnown_shape rfl identity addresses) hd msg

/-- The service knows the identities it answers as. -/
structure Service.Listed (s : Service) : Prop where
  udp : ∀ id, s.udpIdentity = some id → id ∈ s.addresses
  tcp : ∀ id, s.tcpIdentity = some id → id ∈ s.addresses

theorem reply_discloses {s : Service} {msg : Message} {peer : SocketAddr} {identity : ServerIdentity} {out : Bytes}
    (hd : identity ∈ s.addresses) (h : s.reply crypto msg peer identity = some out) :
    ∃ m, Discloses crypto s.addresses msg out m := by
  obtain ⟨d, hrender, -, m, hm, htype, htxid, hattrs⟩ :=
    renderPlan_reads crypto (planForRequest_decided msg peer identity s.addresses) msg.txid
  rw [Service.reply, hrender] at h
  cases h
  refine ⟨m, hm, ?_, htxid, ?_, ?_⟩
  · rw [htype, messageTypeOf]
    split <;> simp
  · rw [hattrs]
    exact plan_ownWords msg peer hd
  · rw [htype, htxid, hattrs]
    exact hrender

/-- An answer is to the party that asks, in the server's own words. -/
theorem answer_discloses {s : Service} (hs : s.Listed) {q : Query} {key : TransactionKey} {out : Bytes}
    (h : s.answer crypto q = some (key, out)) :
    q.party = some key.party ∧ ∃ msg, parse q.datagram = .ok msg ∧ msg.txid = key.txid ∧
      ∃ m, Discloses crypto s.addresses msg out m := by
  cases q with
  | udp datagram src =>
    simp only [Service.answer, Option.bind_eq_bind, Option.bind_eq_some_iff, Option.pure_def, Option.some.injEq] at h
    obtain ⟨msg, hmsg, peer, hpeer, identity, hid, out', hreply, heq⟩ := h
    cases heq
    have hparty : (Query.udp datagram src).party = some (.peer peer) := by
      rw [Query.party, hpeer]
      rfl
    exact ⟨hparty, msg, (bindingRequest_eq_some.mp hmsg).1, rfl, reply_discloses crypto (hs.udp _ hid) hreply⟩
  | tcp datagram id =>
    simp only [Service.answer, Option.bind_eq_bind, Option.bind_eq_some_iff, Option.pure_def, Option.some.injEq] at h
    obtain ⟨msg, hmsg, identity, hid, out', hreply, heq⟩ := h
    cases heq
    exact ⟨rfl, msg, (bindingRequest_eq_some.mp hmsg).1, rfl, reply_discloses crypto (hs.tcp _ hid) hreply⟩

/-! ### What is handed out -/

/-- A reply that was owed to a query asked before or just now, in the transaction of the last
one. -/
def Answering (s : Service) (asked : List Query) (q : Query) (party : Party) (d : Bytes) : Prop :=
  ∃ key new, s.answer crypto q = some (key, new) ∧ key.party = party ∧
    ∃ q' ∈ asked ++ [q], s.answer crypto q' = some (key, d)

section Call
variable {h h' : BindingHandler} {env : Env} {datagram : Bytes} {asked : List Query}

/-- A kept reply was an answer. -/
theorem kept_answering (hsound : (h.service.memo crypto).Sound asked (Retains h.transactions)) {q : Query} {key : TransactionKey}
    {out new : Bytes} {now : Nat} (hans : h.service.answer crypto q = some (key, new))
    (hl : (h.transactions.lookup now key).1 = some out) : Answering crypto h.service asked q key.party out := by
  obtain ⟨q', hq', hkey, hanswer⟩ := hsound _ _ (retains_lookup hl)
  obtain ⟨⟨key', out'⟩, hans', hk⟩ := Option.map_eq_some_iff.mp hkey
  have ho : (h.service.answer crypto q').map Prod.snd = some out := hanswer
  rw [hans', Option.map_some, Option.some.injEq] at ho
  cases hk
  cases ho
  exact ⟨_, _, hans, rfl, q', List.mem_append_left _ hq', hans'⟩

theorem fresh_answering {q : Query} {key : TransactionKey} {out : Bytes} (hans : h.service.answer crypto q = some (key, out)) :
    Answering crypto h.service asked q key.party out :=
  ⟨_, _, hans, rfl, q, List.mem_append_right _ (List.mem_singleton.mpr rfl), hans⟩

variable (hsound : (h.service.memo crypto).Sound asked (Retains h.transactions))
include hsound

theorem onStun_handed {src : Bytes} {sent : List Sent} (hs : h.onStun crypto env datagram src = .ok (h', sent)) :
    ∀ s ∈ sent, Answering crypto h.service asked (.udp datagram src) (.peer s.dst) s.datagram := by
  intro s hmem
  cases onStun_case crypto hs with
  | dropped _ => cases hmem
  | @replayed msg peer identity out hr _ hlook _ =>
    obtain ⟨new, hnew⟩ := h.freshReply_ok crypto msg peer identity
    rw [List.mem_singleton.mp hmem]
    exact kept_answering crypto hsound (answer_udp crypto hr hnew) hlook
  | unsent _ _ _ _ => cases hmem
  | fresh hr _ _ hf =>
    split at hmem
    case isTrue =>
      rw [List.mem_singleton.mp hmem]
      exact fresh_answering crypto (answer_udp crypto hr hf)
    case isFalse => cases hmem
  | pathless _ _ _ => cases hmem

theorem onTcpStun_handed {id : ConnectionId} (hs : h.onTcpStun crypto env datagram id = .ok h') :
    ∀ r ∈ h'.outbox.drop h.outbox.length, Answering crypto h.service asked (.tcp datagram id) (.connection r.id) r.payload := by
  intro r hmem
  cases onTcpStun_case crypto hs with
  | dropped _ =>
    rw [List.drop_length] at hmem
    cases hmem
  | @queued msg identity out hr hout =>
    change r ∈ (h.enqueue ⟨id, out⟩).outbox.drop h.outbox.length at hmem
    rw [BindingHandler.enqueue_eq] at hmem
    dsimp only at hmem
    rw [List.drop_left] at hmem
    split at hmem
    case isTrue =>
      rw [List.mem_singleton.mp hmem]
      rcases hout with hlook | ⟨-, hf⟩
      · obtain ⟨new, hnew⟩ := h.freshReply_ok crypto msg identity.toSocketAddr identity
        exact kept_answering crypto hsound (answer_tcp crypto hr hnew) hlook
      · exact fresh_answering crypto (answer_tcp crypto hr hf)
    case isFalse => cases hmem

end Call

/-- Whatever a step hands out answers the query that it took to the handler. -/
theorem handedOut_answering {p : Loop BindingHandler × (Answer Env × Act)} {asked : List Query}
    (hsound : (p.1.worker.handler.service.memo crypto).Sound asked (Retains p.1.worker.handler.transactions)) :
    ∀ out ∈ handedOut crypto p, ∃ q, queryOf p = some q ∧
      Answering crypto p.1.worker.handler.service asked q out.1 out.2 := by
  obtain ⟨s, answer, act⟩ := p
  intro out hout
  cases act with
  | idle | refuse _ | read _ _ | write _ | connect _ _ | drop _ | place _ | skip _ | putBack _ => cases hout
  | stun datagram src =>
    cases answer with
    | recv env received =>
      simp only [handedOut] at hout
      split at hout
      case h_1 g sent hs =>
        obtain ⟨sent', hsent, rfl⟩ := List.mem_map.mp hout
        exact ⟨_, rfl, onStun_handed crypto hsound hs sent' hsent⟩
      case h_2 => cases hout
    | _ => cases hout
  | tcpStun payload id =>
    cases answer with
    | call env =>
      simp only [handedOut, enqueued] at hout
      split at hout
      case h_1 g hs =>
        obtain ⟨r, hr, rfl⟩ := List.mem_map.mp hout
        exact ⟨_, rfl, onTcpStun_handed crypto hsound (serverHandler_onTcpStun crypto hs) r hr⟩
      case h_2 => cases hout
    | _ => cases hout

/-! ### The addresses of a worker -/

/-- A listen address that names one. -/
def concrete (address : SocketAddr) : Option ServerIdentity :=
  if isUnspecified address.ip || address.port == 0 then none else some (identityOfSocket address)

theorem mem_join {addresses : List ServerIdentity} {joining : Option ServerIdentity} {id : ServerIdentity} :
    id ∈ join addresses joining ↔ id ∈ addresses ∨ joining = some id := by
  cases joining with
  | none => simp [join]
  | some identity =>
    rw [join]
    split
    case isTrue hmem =>
      refine ⟨.inl, ?_⟩
      rintro (h | heq)
      · exact h
      · cases heq
        exact hmem
    case isFalse => rw [List.mem_append, List.mem_singleton, Option.some.injEq, eq_comm]

theorem join_nodup {addresses : List ServerIdentity} (h : addresses.Nodup) (joining : Option ServerIdentity) :
    (join addresses joining).Nodup := by
  cases joining with
  | none => exact h
  | some identity =>
    rw [join]
    split
    case isTrue => exact h
    case isFalse hnot => exact List.nodup_append.mpr ⟨h, List.nodup_singleton _, by
      intro a ha b hb
      rw [List.mem_singleton.mp hb]
      exact fun heq => hnot (heq ▸ ha)⟩

theorem mem_foldl_join {joining : List (Option ServerIdentity)} {addresses : List ServerIdentity} {id : ServerIdentity} :
    id ∈ joining.foldl join addresses ↔ id ∈ addresses ∨ some id ∈ joining := by
  induction joining generalizing addresses with
  | nil => simp
  | cons o joining ih => rw [List.foldl_cons, ih, mem_join, List.mem_cons, or_assoc, eq_comm (a := some id)]

theorem foldl_join_nodup {joining : List (Option ServerIdentity)} {addresses : List ServerIdentity} (h : addresses.Nodup) :
    (joining.foldl join addresses).Nodup := by
  induction joining generalizing addresses with
  | nil => exact h
  | cons o joining ih => exact ih (join_nodup h o)

theorem listenIdentities_join (listeners : List SocketAddr) :
    listenIdentities listeners = (listeners.map concrete).foldl join [] := by
  rw [listenIdentities, List.foldl_map]
  refine congrArg (fun f => listeners.foldl f []) (funext fun addresses => funext fun address => ?_)
  rw [concrete]
  by_cases hwild : isUnspecified address.ip || address.port == 0
  · rw [if_pos hwild, if_pos hwild]
    rfl
  · rw [if_neg hwild, if_neg hwild]
    rfl

theorem startHandler_addresses (listeners : List SocketAddr) (sender : Option UdpSocket) (tcp : Option ServerIdentity) :
    (startHandler (listenIdentities listeners) sender tcp).service.addresses =
      (listeners.map concrete ++ [sender.bind UdpSocket.identity, tcp]).foldl join [] := by
  rw [startHandler_service, List.foldl_append, ← listenIdentities_join]
  rfl

theorem startHandler_listed (addresses : List ServerIdentity) (sender : Option UdpSocket) (tcp : Option ServerIdentity) :
    (startHandler addresses sender tcp).service.Listed := by
  rw [startHandler_service]
  exact ⟨fun id hid => mem_join.mpr (.inl (mem_join.mpr (.inr hid))), fun id hid => mem_join.mpr (.inr hid)⟩

/-- An address of the worker's: a listen address that names one, or that of its sender or its
listener. -/
inductive RunningWorker.Own (listeners : List SocketAddr) (w : RunningWorker) (id : ServerIdentity) : Prop
  | configured {address : SocketAddr} : address ∈ listeners → concrete address = some id → Own listeners w id
  | sender {socket : Socket} : w.sender = some socket → identityOfSocket socket.addr = id → Own listeners w id
  | listener {socket : Socket} : w.listener = some socket → identityOfSocket socket.addr = id → Own listeners w id

/-- The addresses that a worker answers with: its own, each once, no configured one missing. -/
structure RunningWorker.Listens (listeners : List SocketAddr) (w : RunningWorker) : Prop where
  nodup : w.loop.worker.handler.service.addresses.Nodup
  own : ∀ id ∈ w.loop.worker.handler.service.addresses, w.Own listeners id
  configured : ∀ address ∈ listeners, ∀ id, concrete address = some id → id ∈ w.loop.worker.handler.service.addresses

theorem localAddr_eq_some {named : Bool} {socket : Socket} {addr : SocketAddr} (h : localAddr named socket = some addr) :
    socket.addr = addr := by
  rw [localAddr, Option.ite_none_right_eq_some] at h
  exact Option.some.inj h.2

theorem RunningWorker.Launched.listens {listeners : List SocketAddr} {w : RunningWorker} (h : w.Launched listeners) :
    w.Listens listeners := by
  obtain ⟨named, named', hloop⟩ := h
  have haddresses := startHandler_addresses listeners (w.sender.map fun s => ⟨localAddr named s⟩)
    ((w.listener.bind (localAddr named')).map identityOfSocket)
  have heq : w.loop.worker.handler.service.addresses = _ := (congrArg (fun l => l.worker.handler.service.addresses) hloop).trans haddresses
  refine ⟨?_, fun id hid => ?_, fun address haddress id hid => ?_⟩
  · rw [heq]
    exact foldl_join_nodup List.nodup_nil
  · rw [heq, mem_foldl_join, List.mem_append, List.mem_map] at hid
    rcases hid with hid | ⟨address, haddress, hid⟩ | hid
    · cases hid
    · exact .configured haddress hid
    · rcases List.mem_cons.mp hid with hid | hid
      · obtain ⟨socket, hsocket, hid⟩ := Option.bind_eq_some_iff.mp hid.symm
        obtain ⟨s, hs, rfl⟩ := Option.map_eq_some_iff.mp hsocket
        obtain ⟨addr, haddr, hid⟩ := Option.map_eq_some_iff.mp hid
        exact .sender hs (localAddr_eq_some haddr ▸ hid)
      · obtain ⟨addr, haddr, hid⟩ := Option.map_eq_some_iff.mp (List.mem_singleton.mp hid).symm
        obtain ⟨s, hs, haddr⟩ := Option.bind_eq_some_iff.mp haddr
        exact .listener hs (localAddr_eq_some haddr ▸ hid)
  · rw [heq, mem_foldl_join]
    exact .inr (List.mem_append_left _ (List.mem_map.mpr ⟨address, haddress, hid⟩))

/-! ### The process -/

/-- **What replies carry**: whatever the process sends or queues goes to the party whose query
is being handled. It is a response to a query of that party's, this one or an earlier one of
the same transaction to the same worker, and all it says is an error code, which of the
request's attributes are unknown, an address of the worker's own and the name of the software:
nothing that another party sent, and no octet besides. -/
theorem process_discloses {listeners : List SocketAddr} {workers : Nat} {answers : Nat → StartAnswers}
    {running : List RunningWorker} (hserve : serve listeners workers answers = .ok running)
    {hist : List ((Fin running.length → Loop BindingHandler) × (Fin running.length × (Answer Env × Act)))}
    {s : Fin running.length → Loop BindingHandler}
    (hrun : Run (Together (Transport.EventLoop.Step (serverHandler crypto))) (fun i => (running.get i).loop) hist s) :
    (∀ i, (running.get i).Listens listeners) ∧
    ∀ before p after, hist = before ++ p :: after → ∀ out ∈ handedOut crypto (p.1 p.2.1, p.2.2),
      ∃ q msg, queryOf (p.1 p.2.1, p.2.2) = some q ∧ q.party = some out.1 ∧ parse q.datagram = .ok msg ∧
      ∃ q' ∈ askedOf ((before ++ [p]).flatMap (memberOf p.2.1)), q'.party = some out.1 ∧
      ∃ msg' m, parse q'.datagram = .ok msg' ∧ msg'.txid = msg.txid ∧
        Discloses crypto (running.get p.2.1).loop.worker.handler.service.addresses msg' out.2 m := by
  refine ⟨fun i => (serve_launched hserve i).listens, ?_⟩
  rintro before ⟨ws, i, label⟩ after rfl out hout
  obtain ⟨u, hbefore, -, -⟩ := hrun.split
  obtain ⟨sender, tcp, udp, listener, heq⟩ := (serve_launched hserve i).loop
  have hmember := hbefore.member i
  dsimp only at hmember hout ⊢
  rw [heq] at hmember ⊢
  obtain ⟨hservice, hsound⟩ := worker_sound crypto hmember
  obtain ⟨q, hq, key, new, hans, hparty, q', hq', hans'⟩ := handedOut_answering crypto hsound out hout
  have hlisted : (ws i).worker.handler.service.Listed := hservice ▸ startHandler_listed _ sender tcp
  obtain ⟨hasker, msg, hmsg, htxid, -⟩ := answer_discloses crypto hlisted hans
  obtain ⟨hasker', msg', hmsg', htxid', m, hm⟩ := answer_discloses crypto hlisted hans'
  refine ⟨q, msg, hq, hparty ▸ hasker, hmsg, q', ?_, hparty ▸ hasker', msg', m, hmsg', htxid'.trans htxid.symm, ?_⟩
  · rw [List.flatMap_append, List.flatMap_singleton, memberOf, if_pos rfl, askedOf, List.filterMap_append,
      List.filterMap_cons_some hq]
    exact hq'
  · rw [hservice] at hm
    exact hm

def neighbour : SocketAddr := ⟨.v4 ⟨[10, 0, 0, 8], rfl⟩, 50000⟩

/-- Two peers ask in turn under one transaction id, the first of them twice. -/
def turnsTaken : List (Answer Env) :=
  [.clock false 0, .silent, .poll (some [⟨eventUdp, true, false, false, false, false⟩]) false, .silent,
    .recv sampleEnv (.datagram plainRequest samplePeer), .recv sampleEnv (.datagram plainRequest neighbour),
    .recv sampleEnv (.datagram plainRequest samplePeer)]

theorem turnsTaken_handed : (soleWorker.loop.exec (serverHandler signedResponseCrypto) turnsTaken).map
      (fun r => (r.1.flatMap (handedOut signedResponseCrypto)).map Prod.fst) =
    some [.peer samplePeer, .peer neighbour, .peer samplePeer] := by
  decide +kernel

/-- Each gets a response of its own, the third one a kept one. -/
theorem turnsTaken_disclosed : ∃ (hist : List ((Fin pair.length → Loop BindingHandler) × (Fin pair.length × (Answer Env × Act)))),
    ((hist.flatMap (memberOf ⟨1, Nat.lt_add_one 1⟩)).flatMap (handedOut signedResponseCrypto)).map Prod.fst =
        [.peer samplePeer, .peer neighbour, .peer samplePeer] ∧
      ∀ p ∈ hist, ∀ out ∈ handedOut signedResponseCrypto (p.1 p.2.1, p.2.2), ∃ (q : Query) (msg m : Message),
        q.party = some out.1 ∧ parse q.datagram = .ok msg ∧
        Discloses signedResponseCrypto (pair.get p.2.1).loop.worker.handler.service.addresses msg out.2 m := by
  obtain ⟨⟨hist, s⟩, hexec, hhanded⟩ := Option.map_eq_some_iff.mp turnsTaken_handed
  have hsecond : Run (Transport.EventLoop.Step (serverHandler signedResponseCrypto))
      ((fun i : Fin pair.length => (pair.get i).loop) ⟨1, Nat.lt_add_one 1⟩) hist s := Loop.exec_run hexec
  refine ⟨hist.map (aloneAt (fun i => (pair.get i).loop) ⟨1, Nat.lt_add_one 1⟩), ?_, fun p hp out hout => ?_⟩
  · rw [member_alone, if_pos rfl]
    exact hhanded
  · obtain ⟨before, after, heq⟩ := List.append_of_mem hp
    obtain ⟨-, hdiscloses⟩ := process_discloses signedResponseCrypto serve_pair (Run.alone hsecond)
    obtain ⟨-, -, -, -, -, q, -, hparty, msg, m, hmsg, -, hm⟩ := hdiscloses before p after heq out hout
    exact ⟨q, msg, m, hparty, hmsg, hm⟩

end QuickRelay.Server
