import QuickRelay.Server.Startup
import QuickRelay.Server.Stateless

/-! The whole process: workers side by side, each with its own cache. Whichever of them a
request comes to, it gets what it is owed. -/
namespace QuickRelay.Server
open Lib Protocol
open Binding (SocketAddr ServerIdentity)
open Transport (ConnectionId QueuedReply)
open Transport.EventLoop hiding Step History

variable (crypto : Crypto)

/-- The query that a step takes to the handler. -/
def queryOf (p : Loop BindingHandler × (Answer Env × Act)) : Option Query :=
  match p.2.2, p.2.1 with
  | .stun datagram src, .recv _ _ => some (.udp datagram src)
  | .tcpStun payload id, .call _ => some (.tcp payload id)
  | _, _ => none

/-- What a worker was asked. -/
def askedOf (hist : LoopHistory) : List Query := hist.filterMap queryOf

/-- A step that takes a query to the handler gets the reply that is owed: on the wire over
UDP, in the outbox on a control connection. -/
def Owed (s : Service) (p : Loop BindingHandler × (Answer Env × Act)) : Prop :=
  match p.2.2, p.2.1 with
  | .stun datagram src, .recv env _ =>
    ∃ g, p.1.worker.handler.onStun crypto env datagram src = .ok (g, s.sends crypto env (.udp datagram src))
  | .tcpStun payload id, .call env =>
    ∃ g, p.1.worker.handler.onTcpStun crypto env payload id = .ok g ∧
      g.outbox = p.1.worker.handler.outbox ++ s.queues crypto p.1.worker.handler.outbox payload id
  | _, _ => True

theorem queries_calls (hist : LoopHistory) : queries (hist.flatMap calls) = askedOf hist := by
  induction hist with
  | nil => rfl
  | cons p hist ih =>
    rw [List.flatMap_cons, queries, List.filterMap_append, askedOf, List.filterMap_cons, ← askedOf, ← ih, ← queries]
    obtain ⟨s, answer, act⟩ := p
    cases act with
    | idle | refuse _ | read _ _ | write _ | connect _ _ | drop _ | place _ | skip _ | putBack _ => rfl
    | stun _ _ => cases answer <;> rfl
    | tcpStun _ _ => cases answer <;> rfl

/-- What a worker keeps in a run was an answer to what it was asked. -/
theorem worker_sound {config : WorkerConfig} {addresses : List ServerIdentity} {sender : Option UdpSocket}
    {tcp : Option ServerIdentity} {udp listener : Bool} {before : LoopHistory} {s : Loop BindingHandler}
    (hbefore : ServerRun crypto config (startHandler addresses sender tcp) udp listener before s) :
    s.worker.handler.service = (startHandler addresses sender tcp).service ∧
      (s.worker.handler.service.memo crypto).Sound (askedOf before) (Retains s.worker.handler.transactions) := by
  have hcalls := run_calls crypto hbefore
  have htraffic : ∀ c ∈ before.flatMap calls, c.2.traffic := by
    intro c hc
    obtain ⟨q, -, hq⟩ := List.mem_flatMap.mp hc
    exact calls_traffic hq
  have hservice : s.worker.handler.service = (startHandler addresses sender tcp).service := run_service crypto hcalls htraffic
  have hsound := run_retains crypto hcalls (startHandler_transactions addresses sender tcp) htraffic
  rw [queries_calls] at hsound
  rw [hservice]
  exact ⟨rfl, hsound⟩

/-- A worker answers a query as it would without its cache, as long as the query's transaction
was asked nothing else before. -/
theorem worker_owed {config : WorkerConfig} {addresses : List ServerIdentity} {sender : Option UdpSocket}
    {tcp : Option ServerIdentity} {udp listener : Bool} {before : LoopHistory} {p : Loop BindingHandler × (Answer Env × Act)}
    {u : Loop BindingHandler} (hbefore : ServerRun crypto config (startHandler addresses sender tcp) udp listener before p.1)
    (hstep : Transport.EventLoop.Step (serverHandler crypto) p.1 p.2 u)
    (hsettled : ∀ q, queryOf p = some q → ((startHandler addresses sender tcp).service.memo crypto).Settled (askedOf before) q) :
    Owed crypto (startHandler addresses sender tcp).service p := by
  obtain ⟨⟨w, phase⟩, answer, act⟩ := p
  obtain ⟨w', phase'⟩ := u
  obtain ⟨hservice, hsound⟩ := worker_sound crypto hbefore
  dsimp only at hservice hsound
  rw [← hservice] at hsettled ⊢
  have hdoes := step_does (serverHandler crypto) hstep
  dsimp only at hdoes
  cases act with
  | stun datagram src =>
    cases hdoes with
    | stun _ hstun =>
      obtain ⟨sent, hs⟩ := serverHandler_onStun crypto hstun
      obtain rfl := onStun_owed crypto hsound (hsettled _ rfl) hs
      exact ⟨_, hs⟩
  | tcpStun payload id =>
    cases hdoes with
    | tcpStun _ hget htcp =>
      have hs := serverHandler_onTcpStun crypto htcp
      obtain ⟨hc, ho⟩ := startHandler_queue addresses sender tcp
      have hid : id ∈ w.handler.conns := ((run_agrees crypto hc ho hbefore).conns id).mpr ⟨_, hget⟩
      exact ⟨_, hs, onTcpStun_owed crypto hsound (hsettled _ rfl) hid hs⟩
  | _ => trivial

/-! ### Every worker of the process -/

/-- The worker's loop as `start_worker` leaves it: the handler knows the listen list, and the
addresses of its own sockets as far as the system names them. -/
def RunningWorker.Launched (listeners : List SocketAddr) (w : RunningWorker) : Prop :=
  ∃ named named' : Bool, w.loop = startLoop defaultConfig (startHandler (listenIdentities listeners)
    (w.sender.map fun s => ⟨localAddr named s⟩) ((w.listener.bind (localAddr named')).map identityOfSocket))
    w.udp.isSome w.listener.isSome

theorem startWorker_launched {a : StartAnswers} {handle : Nat} {listening : SocketAddr} {listeners : List SocketAddr}
    {w : RunningWorker} (h : startWorker a handle listening listeners = .ok (some w)) : w.Launched listeners := by
  simp only [startWorker] at h
  split at h
  case isTrue => cases h
  case isFalse =>
    split at h
    case isTrue => cases h
    case isFalse =>
      split at h
      case isTrue => cases h
      case isFalse =>
        split at h
        case isTrue => cases h
        case isFalse =>
          cases h
          exact ⟨_, _, rfl⟩

theorem startWorkers_launched {listeners : List SocketAddr} {listening : Nat → SocketAddr} {answers : Nat → StartAnswers}
    {index count : Nat} {running : List RunningWorker}
    (h : startWorkers listeners listening answers index count = .ok running) : ∀ w ∈ running, w.Launched listeners := by
  induction count generalizing index running with
  | zero =>
    cases h
    intro w hw
    cases hw
  | succ count ih =>
    rw [startWorkers] at h
    split at h
    case h_1 => cases h
    case h_2 worker hworker =>
      split at h
      case h_1 => cases h
      case h_2 rest hrest =>
        cases h
        intro w hw
        rcases List.mem_append.mp hw with hw | hw
        · rw [Option.mem_toList] at hw
          cases hw
          exact startWorker_launched hworker
        · exact ih hrest w hw

theorem RunningWorker.Launched.loop {listeners : List SocketAddr} {w : RunningWorker} (h : w.Launched listeners) :
    ∃ sender tcp udp listener, w.loop =
      startLoop defaultConfig (startHandler (listenIdentities listeners) sender tcp) udp listener := by
  obtain ⟨named, named', heq⟩ := h
  exact ⟨_, _, _, _, heq⟩

theorem serve_launched {listeners : List SocketAddr} {workers : Nat} {answers : Nat → StartAnswers} {running : List RunningWorker}
    (h : serve listeners workers answers = .ok running) (i : Fin running.length) : (running.get i).Launched listeners := by
  obtain ⟨listening, hstart⟩ := serve_ok h
  exact startWorkers_launched hstart _ (List.get_mem running i)

/-! ### Configuration -/

/-- An identity that joins the listen list. -/
def join (addresses : List ServerIdentity) : Option ServerIdentity → List ServerIdentity
  | some identity => if identity ∈ addresses then addresses else addresses ++ [identity]
  | none => addresses

def UdpSocket.identity (s : UdpSocket) : Option ServerIdentity := s.localAddr.map identityOfSocket

theorem addAddress_join (h : BindingHandler) (identity : ServerIdentity) :
    (h.addAddress identity).addresses = join h.addresses (some identity) := by
  rw [BindingHandler.addAddress, join]
  split <;> rfl

/-- A worker's configuration: the listen list, which its own identities join. -/
theorem startHandler_service (addresses : List ServerIdentity) (sender : Option UdpSocket) (tcp : Option ServerIdentity) :
    (startHandler addresses sender tcp).service =
      ⟨sender, sender.bind UdpSocket.identity, tcp, join (join addresses (sender.bind UdpSocket.identity)) tcp⟩ := by
  have hudp : (udpHandler addresses sender).service =
      ⟨sender, sender.bind UdpSocket.identity, none, join addresses (sender.bind UdpSocket.identity)⟩ := by
    cases sender with
    | none => rfl
    | some socket =>
      obtain ⟨localAddr⟩ := socket
      cases localAddr with
      | none => rfl
      | some addr =>
        rw [udpHandler, BindingHandler.setUdp]
        dsimp only [Option.map_some]
        rw [BindingHandler.addAddress_eq, BindingHandler.service]
        dsimp only
        rw [addAddress_join]
        rfl
  cases tcp with
  | none => exact hudp
  | some identity =>
    rw [startHandler, BindingHandler.setTcpIdentity, BindingHandler.addAddress_eq, BindingHandler.service]
    dsimp only
    rw [addAddress_join]
    rw [BindingHandler.service, Service.mk.injEq] at hudp
    obtain ⟨h1, h2, -, h4⟩ := hudp
    dsimp only
    rw [h1, h2, h4]

/-- Only the two identities of a worker show in what it answers. -/
theorem answer_eq {addresses : List ServerIdentity} {sender sender' : Option UdpSocket} {tcp : Option ServerIdentity}
    (h : sender.bind UdpSocket.identity = sender'.bind UdpSocket.identity) (q : Query) :
    (startHandler addresses sender tcp).service.answer crypto q = (startHandler addresses sender' tcp).service.answer crypto q := by
  rw [startHandler_service, startHandler_service, h]
  cases q <;> rfl

/-- **Statelessness**: in every run of the process's workers side by side, whatever the
operating system answers them and however their steps interleave, a query gets what the
service owes it and nothing else, as if no worker kept a reply, unless its own transaction was
asked something else before; and workers of the same identities owe the same, so it does not
show which of them was asked. -/
theorem process_stateless {listeners : List SocketAddr} {workers : Nat} {answers : Nat → StartAnswers}
    {running : List RunningWorker} (hserve : serve listeners workers answers = .ok running)
    {hist : List ((Fin running.length → Loop BindingHandler) × (Fin running.length × (Answer Env × Act)))}
    {s : Fin running.length → Loop BindingHandler}
    (hrun : Run (Together (Transport.EventLoop.Step (serverHandler crypto))) (fun i => (running.get i).loop) hist s) :
    (∀ before p after, hist = before ++ p :: after →
      (∀ q, queryOf (p.1 p.2.1, p.2.2) = some q → ((running.get p.2.1).loop.worker.handler.service.memo crypto).Settled
        (askedOf (before.flatMap (memberOf p.2.1))) q) →
      Owed crypto (running.get p.2.1).loop.worker.handler.service (p.1 p.2.1, p.2.2)) ∧
    ∀ i j, (running.get i).loop.worker.handler.udpIdentity = (running.get j).loop.worker.handler.udpIdentity →
      (running.get i).loop.worker.handler.tcpIdentity = (running.get j).loop.worker.handler.tcpIdentity →
      ∀ q, (running.get i).loop.worker.handler.service.answer crypto q = (running.get j).loop.worker.handler.service.answer crypto q := by
  have hloop := fun i => (serve_launched hserve i).loop
  constructor
  · rintro before ⟨ws, i, label⟩ after rfl hsettled
    obtain ⟨u, hbefore, ⟨t, hstep, -⟩, -⟩ := hrun.split
    obtain ⟨sender, tcp, udp, listener, heq⟩ := hloop i
    have hmember := hbefore.member i
    dsimp only at hmember hstep hsettled ⊢
    rw [heq] at hmember hsettled ⊢
    exact worker_owed crypto hmember hstep hsettled
  · intro i j hudp htcp q
    obtain ⟨sender, tcp, udp, listener, heq⟩ := hloop i
    obtain ⟨sender', tcp', udp', listener', heq'⟩ := hloop j
    rw [heq, heq'] at hudp htcp ⊢
    have hi := startHandler_service (listenIdentities listeners) sender tcp
    have hj := startHandler_service (listenIdentities listeners) sender' tcp'
    have htcp' : tcp = tcp' :=
      (congrArg Service.tcpIdentity hi).symm.trans (htcp.trans (congrArg Service.tcpIdentity hj))
    subst htcp'
    exact answer_eq crypto
      ((congrArg Service.udpIdentity hi).symm.trans (hudp.trans (congrArg Service.udpIdentity hj))) q

/-- One of two workers on one address reads a request, and the same one again. -/
def requestRepeated : List (Answer Env) :=
  [.clock false 0, .silent, .poll (some [⟨eventUdp, true, false, false, false, false⟩]) false, .silent,
    .recv sampleEnv (.datagram plainRequest samplePeer), .recv sampleEnv (.datagram plainRequest samplePeer)]

/-- `soleWorker` and another one on the same address. -/
def pair : List RunningWorker :=
  [soleWorker, { soleWorker with
    udp := some ⟨3, anyAddress⟩, listener := some ⟨5, anyAddress⟩, sender := some ⟨4, anyAddress⟩ }]

theorem serve_pair : serve [anyAddress] 2 (fun _ => willing) = .ok pair := rfl

theorem requestRepeated_asked : (soleWorker.loop.exec (serverHandler signedResponseCrypto) requestRepeated).map
      (fun r => (askedOf r.1, acts r.1, r.2.worker.handler.transactions.entries.length)) =
    some ([.udp plainRequest samplePeerOctets, .udp plainRequest samplePeerOctets],
      [.idle, .idle, .idle, .idle, .stun plainRequest samplePeerOctets, .stun plainRequest samplePeerOctets], 1) := by
  decide +kernel

/-- The second time the reply is a kept one. -/
theorem requestRepeated_owed : ∃ (hist : List ((Fin pair.length → Loop BindingHandler) × (Fin pair.length × (Answer Env × Act)))),
    acts (hist.flatMap (memberOf ⟨1, Nat.lt_add_one 1⟩)) =
        [.idle, .idle, .idle, .idle, .stun plainRequest samplePeerOctets, .stun plainRequest samplePeerOctets] ∧
      ∀ p ∈ hist, Owed signedResponseCrypto (pair.get p.2.1).loop.worker.handler.service (p.1 p.2.1, p.2.2) := by
  obtain ⟨⟨hist, s⟩, hexec, hasked⟩ := Option.map_eq_some_iff.mp requestRepeated_asked
  obtain ⟨hqueries, hrest⟩ := Prod.mk.inj hasked
  obtain ⟨hacts, -⟩ := Prod.mk.inj hrest
  have hsecond : Run (Transport.EventLoop.Step (serverHandler signedResponseCrypto))
      ((fun i : Fin pair.length => (pair.get i).loop) ⟨1, Nat.lt_add_one 1⟩) hist s := Loop.exec_run hexec
  have htogether := Run.alone (s := fun i : Fin pair.length => (pair.get i).loop) hsecond
  -- whoever is asked, it is that query
  have hsole : ∀ i, ∀ q ∈ askedOf ((hist.map (aloneAt (fun i => (pair.get i).loop) ⟨1, Nat.lt_add_one 1⟩)).flatMap (memberOf i)),
      q = .udp plainRequest samplePeerOctets := by
    intro i q hq
    rw [member_alone] at hq
    split at hq
    case isTrue =>
      dsimp only at hqueries
      rw [hqueries] at hq
      exact (List.mem_cons.mp hq).elim id List.mem_singleton.mp
    case isFalse => cases hq
  refine ⟨hist.map (aloneAt (fun i => (pair.get i).loop) ⟨1, Nat.lt_add_one 1⟩), ?_, fun p hp => ?_⟩
  · rw [member_alone, if_pos rfl]
    exact hacts
  · obtain ⟨before, after, heq⟩ := List.append_of_mem hp
    refine (process_stateless signedResponseCrypto serve_pair htogether).1 before p after heq fun q hq r hr _ => ?_
    have hsole := hsole p.2.1
    rw [heq, List.flatMap_append, List.flatMap_cons, memberOf, if_pos rfl, List.singleton_append, askedOf,
      List.filterMap_append, List.filterMap_cons_some hq] at hsole
    rw [hsole q (List.mem_append_right _ List.mem_cons_self), hsole r (List.mem_append_left _ hr)]

end QuickRelay.Server
