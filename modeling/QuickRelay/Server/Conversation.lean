import QuickRelay.Server.HalfClose
import QuickRelay.Server.Process
import QuickRelay.Server.Wakeup
import QuickRelay.Transport.PeerStream

/-! The two ends of a control connection: what a peer hears is a function of what it said. -/
namespace QuickRelay.Server
open Lib Protocol
open Binding (ServerIdentity)
open Transport (ConnectionId QueuedReply Payload frames)
open Transport.EventLoop hiding Step History

variable (crypto : Crypto)

/-! ### What a packet is owed -/

/-- The reply to a packet on a control connection. -/
def Service.respond (s : Service) (payload : Bytes) : Option Bytes := do
  let msg ← bindingRequest payload
  let identity ← s.tcpIdentity
  s.reply crypto msg identity.toSocketAddr identity

/-- It does not depend on the connection, whose name is in the key alone. -/
theorem answer_respond (s : Service) (payload : Bytes) (id : ConnectionId) :
    (s.answer crypto (.tcp payload id)).map Prod.snd = s.respond crypto payload := by
  rw [Service.answer, Service.respond]
  cases bindingRequest payload with
  | none => rfl
  | some msg =>
    cases s.tcpIdentity with
    | none => rfl
    | some identity =>
      simp only [Option.bind_eq_bind, Option.bind_some]
      cases s.reply crypto msg identity.toSocketAddr identity <;> rfl

theorem answer_key {s : Service} {payload : Bytes} {id : ConnectionId} {a : TransactionKey × Bytes}
    (h : s.answer crypto (.tcp payload id) = some a) :
    ∃ msg, parse payload = .ok msg ∧ a.1.txid = msg.txid ∧ a.1.connection = some id := by
  simp only [Service.answer, Option.bind_eq_bind, Option.bind_eq_some_iff] at h
  obtain ⟨msg, hmsg, identity, -, out, -, heq⟩ := h
  cases heq
  exact ⟨msg, (bindingRequest_eq_some.mp hmsg).1, rfl, rfl⟩

theorem answer_udp_key {s : Service} {datagram src : Bytes} {a : TransactionKey × Bytes}
    (h : s.answer crypto (.udp datagram src) = some a) : a.1.connection = none := by
  simp only [Service.answer, Option.bind_eq_bind, Option.bind_eq_some_iff] at h
  obtain ⟨msg, -, peer, -, identity, -, out, -, heq⟩ := h
  cases heq
  rfl

/-- Each transaction id is in one packet. -/
def OneEach (packets : List Bytes) : Prop :=
  ∀ a ∈ packets, ∀ b ∈ packets, ∀ m m', parse a = .ok m → parse b = .ok m' → m.txid = m'.txid → a = b

/-- A connection's transactions are its own. -/
theorem OneEach.settled {s : Service} {asked : List Query} {packets : List Bytes} {id : ConnectionId} {payload : Bytes}
    (h : OneEach packets) (hmem : payload ∈ packets) (hasked : ∀ d, .tcp d id ∈ asked → d ∈ packets) :
    (s.memo crypto).Settled asked (.tcp payload id) := by
  intro q hq hkey
  simp only [Service.memo] at hkey ⊢
  cases hans : s.answer crypto (.tcp payload id) with
  | none =>
    rw [hans, Option.map_none, Option.map_eq_none_iff] at hkey
    rw [hkey]
  | some a =>
    rw [hans, Option.map_some, Option.map_eq_some_iff] at hkey
    obtain ⟨b, hb, heq⟩ := hkey
    obtain ⟨msg, hparse, htxid, hconn⟩ := answer_key crypto hans
    cases q with
    | udp datagram src =>
      have hnone := answer_udp_key crypto hb
      rw [heq, hconn] at hnone
      cases hnone
    | tcp d id' =>
      obtain ⟨msg', hparse', htxid', hconn'⟩ := answer_key crypto hb
      rw [heq, hconn] at hconn'
      cases hconn'
      rw [heq, htxid] at htxid'
      obtain rfl := h d (hasked d hq) payload hmem msg' msg hparse' hparse htxid'.symm
      rw [← hans, hb]

/-! ### What a connection's packets get -/

/-- The outbox has room whenever a packet of the connection is handed over. -/
def Spared (id : ConnectionId) (hist : LoopHistory) : Prop :=
  ∀ p ∈ hist, ∀ payload, p.2.2 = .tcpStun payload id → p.1.worker.handler.outbox.length < replyQueueCap

theorem packetsOn_asked {id : ConnectionId} {hist : LoopHistory} {d : Bytes} (h : .tcp d id ∈ askedOf hist) :
    d ∈ packetsOn id hist := by
  obtain ⟨⟨s, answer, act⟩, hp, hq⟩ := List.mem_filterMap.mp h
  refine List.mem_filterMap.mpr ⟨act, List.mem_map.mpr ⟨_, hp, rfl⟩, ?_⟩
  cases act with
  | tcpStun payload i =>
    cases answer with
    | call env =>
      cases hq
      exact if_pos rfl
    | _ => cases hq
  | stun datagram src => cases answer <;> cases hq
  | _ => cases hq

theorem packetsOn_self (s : Loop BindingHandler) (answer : Answer Env) (payload : Bytes) (id : ConnectionId) :
    packetsOn id [(s, (answer, .tcpStun payload id))] = [payload] := by
  simp [packetsOn, acts]

theorem packetsOn_other (id : ConnectionId) {s : Loop BindingHandler} {label : Answer Env × Act}
    (h : ∀ payload, label.2 ≠ .tcpStun payload id) : packetsOn id [(s, label)] = [] := by
  obtain ⟨answer, act⟩ := label
  cases act with
  | tcpStun payload i =>
    have hne : i ≠ id := by
      rintro rfl
      exact h payload rfl
    simp [packetsOn, acts, hne]
  | _ => rfl

/-- What is queued for a packet is what it is owed. -/
theorem queues_own (service : Service) (outbox : List QueuedReply) (payload : Bytes) (id : ConnectionId) :
    ((service.queues crypto outbox payload id).filter (·.id = id)).map QueuedReply.payload =
      if outbox.length < replyQueueCap then [payload].filterMap (service.respond crypto) else [] := by
  rw [Service.queues]
  split
  case isTrue =>
    have hans := answer_respond crypto service payload id
    cases hq : service.answer crypto (.tcp payload id) with
    | none =>
      rw [hq] at hans
      rw [List.filterMap_cons_none hans.symm]
      rfl
    | some a =>
      rw [hq] at hans
      rw [List.filterMap_cons_some hans.symm]
      simp
  case isFalse => rfl

/-- A packet gets what it is owed, or nothing if the outbox is full. -/
theorem step_responds (service : Service) {s s' : Loop BindingHandler} {label : Answer Env × Act} {id : ConnectionId}
    (hs : Transport.EventLoop.Step (serverHandler crypto) s label s')
    (hanswered : Answered crypto (packetsOn id [(s, label)]) ((enqueued crypto (s, label)).filter (·.id = id)))
    (howed : ∀ payload, label.2 = .tcpStun payload id → Owed crypto service (s, label)) :
    (((enqueued crypto (s, label)).filter (·.id = id)).map QueuedReply.payload).Sublist
        ((packetsOn id [(s, label)]).filterMap (service.respond crypto)) ∧
      (Spared id [(s, label)] → ((enqueued crypto (s, label)).filter (·.id = id)).map QueuedReply.payload =
        (packetsOn id [(s, label)]).filterMap (service.respond crypto)) := by
  by_cases hpacket : ∃ payload, label.2 = .tcpStun payload id
  · obtain ⟨payload, hact⟩ := hpacket
    obtain ⟨answer, act⟩ := label
    obtain rfl : act = .tcpStun payload id := hact
    have hdoes := step_does (serverHandler crypto) hs
    have hown := howed payload rfl
    obtain ⟨w, phase⟩ := s
    obtain ⟨w', phase'⟩ := s'
    cases hdoes with
    | @tcpStun _ env _ _ c h' _ _ htcp =>
      obtain ⟨g, hg, hout⟩ := hown
      obtain rfl : g = h' := Outcome.ok.inj (hg.symm.trans (serverHandler_onTcpStun crypto htcp))
      have henq : enqueued crypto (⟨w, phase⟩, (.call env, .tcpStun payload id)) =
          service.queues crypto w.handler.outbox payload id := by
        simp only [enqueued, htcp, hout, List.drop_left]
      rw [henq, queues_own, packetsOn_self]
      split
      case isTrue => exact ⟨.refl _, fun _ => rfl⟩
      case isFalse hfull =>
        exact ⟨List.nil_sublist _, fun hroom => absurd (hroom _ (List.mem_singleton_self _) payload rfl) hfull⟩
  · have hnone := packetsOn_other (s := s) id fun payload hact => hpacket ⟨payload, hact⟩
    rw [hnone] at hanswered ⊢
    obtain ⟨asked, hsub, hall⟩ := hanswered
    obtain rfl := List.sublist_nil.mp hsub
    rw [List.forall₂_nil_left_iff.mp hall]
    exact ⟨.slnil, fun _ => rfl⟩

/-- What is queued for a connection is what its packets are owed, less those that found the
outbox full. -/
theorem run_responds {config : WorkerConfig} {addresses : List ServerIdentity} {sender : Option UdpSocket}
    {tcp : Option ServerIdentity} {udp listener : Bool} {hist : LoopHistory} {s : Loop BindingHandler} {id : ConnectionId}
    (hrun : ServerRun crypto config (startHandler addresses sender tcp) udp listener hist s) (hone : OneEach (packetsOn id hist)) :
    ((enqueuedFor crypto id hist).map QueuedReply.payload).Sublist
        ((packetsOn id hist).filterMap ((startHandler addresses sender tcp).service.respond crypto)) ∧
      (Spared id hist → (enqueuedFor crypto id hist).map QueuedReply.payload =
        (packetsOn id hist).filterMap ((startHandler addresses sender tcp).service.respond crypto)) := by
  obtain ⟨hc, ho⟩ := startHandler_queue addresses sender tcp
  have h0 := startHandler_transactions addresses sender tcp
  refine hrun.invariant (P := fun hist _ => OneEach (packetsOn id hist) →
    ((enqueuedFor crypto id hist).map QueuedReply.payload).Sublist
        ((packetsOn id hist).filterMap ((startHandler addresses sender tcp).service.respond crypto)) ∧
      (Spared id hist → (enqueuedFor crypto id hist).map QueuedReply.payload =
        (packetsOn id hist).filterMap ((startHandler addresses sender tcp).service.respond crypto)))
    (fun _ => ⟨.slnil, fun _ => rfl⟩) ?_ hone
  intro hist t label u hr ih hs hone
  have hd := step_does (serverHandler crypto) hs
  have hkept := (run_replies crypto hc ho h0 hr).kept
  have hsplit := packetsOn_snoc id hist (t, label)
  obtain ⟨hsub, heq⟩ := ih fun a ha b hb => hone a (by rw [hsplit]; exact List.mem_append_left _ ha) b
    (by rw [hsplit]; exact List.mem_append_left _ hb)
  have hnow := step_responds crypto (startHandler addresses sender tcp).service hs (step_answered crypto hkept hd id)
    fun payload hact => worker_owed crypto hr hs fun q hq => ?_
  · rw [hsplit, enqueuedFor_snoc, List.map_append, List.filterMap_append]
    refine ⟨hsub.append hnow.1, fun hroom => ?_⟩
    rw [heq fun p hp => hroom p (List.mem_append_left _ hp), hnow.2 fun p hp => hroom p (List.mem_append_right _ hp)]
  · obtain ⟨answer, act⟩ := label
    obtain rfl : act = .tcpStun payload id := hact
    cases answer with
    | call env =>
      cases hq
      refine hone.settled crypto ?_ fun d hd => ?_
      · rw [hsplit, packetsOn_self]
        exact List.mem_append_right _ (List.mem_singleton_self _)
      · rw [hsplit]
        exact List.mem_append_left _ (packetsOn_asked hd)
    | _ => cases hq

/-! ### Both ends -/

/-- The loop's part of a run of the system. -/
def loopSide (x : System BindingHandler × Signal Env) : LoopHistory :=
  match x.2 with
  | .arrival _ => []
  | .loop label => [(x.1.loop, label)]

theorem run_loopSide {s₀ s : System BindingHandler} {hist : List (System BindingHandler × Signal Env)}
    (hrun : Run (System.Step (serverHandler crypto)) s₀ hist s) :
    Run (Transport.EventLoop.Step (serverHandler crypto)) s₀.loop (hist.flatMap loopSide) s.loop := by
  refine hrun.simulate System.loop fun s signal s' hs => ?_
  cases hs with
  | arrival a => exact .refl
  | loop hl _ => exact Run.snoc .refl hl

/-- The packets of a connection are the same from either side. -/
theorem packetsOn_loopSide (id : ConnectionId) (hist : List (System BindingHandler × Signal Env)) :
    packetsOn id (hist.flatMap loopSide) = handedTo id hist := by
  induction hist with
  | nil => rfl
  | cons x hist ih =>
    obtain ⟨s, signal⟩ := x
    cases signal with
    | arrival a => exact ih
    | loop label =>
      have hcons : packetsOn id (((s, (.loop label : Signal Env)) :: hist).flatMap loopSide) =
          packetsOn id [(s.loop, label)] ++ packetsOn id (hist.flatMap loopSide) := by
        rw [packetsOn, packetsOn, packetsOn, ← List.filterMap_append, acts, acts, acts, ← List.map_append]
        rfl
      have hnow : packetsOn id [(s.loop, label)] = handedNow id label.2 := by
        obtain ⟨answer, act⟩ := label
        cases act with
        | tcpStun payload i =>
          by_cases hid : i = id <;> simp [packetsOn, acts, handedNow, hid]
        | _ => rfl
      rw [hcons, ih, hnow]
      rfl

theorem start_fromPeer (config : WorkerConfig) (handler : BindingHandler) (udp listener : Bool) (id : ConnectionId) :
    FromPeer id ([] : List (System BindingHandler × Signal Env)) (startSystem config handler udp listener) where
  toAccounted := start_accounted config handler udp listener id
  begun := .inl rfl

/-- Nothing is left to do for a connection: no reply is queued or unwritten, no packet is to be
handed over, and nothing unread completes one. -/
structure Quiet (s : System BindingHandler) (id : ConnectionId) (c : Conn) : Prop where
  written : c.writeRemaining = []
  queued : queuedFor id s.loop.worker.handler = []
  handed : s.loop.phase.pending id = []
  read : frames.Partial (c.window ++ (s.kernel.streams c.stream).rx)

/-- Once its octets are all written, a live connection's peer has every reply placed for it. -/
theorem received_placed {id : ConnectionId} {hist : LoopHistory} {w : Worker BindingHandler} {c : Conn}
    (h : Delivering crypto id w hist) (hlive : w.conns.get id = some c) (hwritten : c.writeRemaining = []) :
    received id hist = (placedFor id hist).map QueuedReply.payload := by
  have hwire := h.stream c hlive
  rw [hwritten, List.append_nil] at hwire
  have hfits : ∀ r ∈ placedFor id hist, r.payload.length ≤ Transport.maxFramePayload := by
    intro r hr
    obtain ⟨payload, -, msg, -, -, hto⟩ := h.answered.mem (h.taken.subset hr)
    exact Nat.le_trans hto.length_le (by decide)
  obtain ⟨ps, hps, henc⟩ := wireFrames_encodeAll _ hfits
  have hpackets := packetsIn_frames ps frames.partial_nil
  rw [List.append_nil, ← henc, ← hwire, hps] at hpackets
  exact hpackets

/-- **Conversation**: a peer whose reads are taken and who puts each transaction id in one
packet hears replies to packets of its own alone, each of them what the service owes that
packet and each once, however its octets are cut and whatever the other connections and the
datagrams do; and once nothing is left to do for its connection it has heard the reply to every
packet it sent, if none of them found the outbox full. -/
theorem conversation {config : WorkerConfig} {addresses : List ServerIdentity} {sender : Option UdpSocket}
    {tcp : Option ServerIdentity} {udp listener : Bool} {hist : List (System BindingHandler × Signal Env)}
    {s : System BindingHandler} {id : ConnectionId}
    (hrun : Run (System.Step (serverHandler crypto)) (startSystem config (startHandler addresses sender tcp) udp listener) hist s)
    (htakes : ∀ x ∈ hist, x.1.TakesFor id x.2) (hone : OneEach (handedTo id hist)) :
    (received id (hist.flatMap loopSide) = [] ∨ ∃ handle ps tail, (s.kernel.streams handle).registered = some id ∧
      arrivedOn handle hist = frames.encodeAll ps ++ tail ∧ (received id (hist.flatMap loopSide)).Subperm
        ((ps.map Payload.octets).filterMap ((startHandler addresses sender tcp).service.respond crypto))) ∧
    ∀ c, s.loop.worker.conns.get id = some c → Quiet s id c → Spared id (hist.flatMap loopSide) →
      ∃ ps tail, frames.Partial tail ∧ arrivedOn c.stream hist = frames.encodeAll ps ++ tail ∧
        (received id (hist.flatMap loopSide)).Perm
          ((ps.map Payload.octets).filterMap ((startHandler addresses sender tcp).service.respond crypto)) := by
  have hloop : ServerRun crypto config (startHandler addresses sender tcp) udp listener (hist.flatMap loopSide) s.loop :=
    run_loopSide crypto hrun
  have hpeer := run_fromPeer hrun (start_owned _ _ _ _) (start_fromPeer _ _ _ _ id) htakes
  have hdeliver := run_delivering crypto hloop id
  rw [← packetsOn_loopSide] at hone
  obtain ⟨howed, hall⟩ := run_responds crypto hloop hone
  rw [packetsOn_loopSide] at howed hall
  constructor
  · obtain ⟨taken, hperm, hsub⟩ := hdeliver.taken
    have hgot : (received id (hist.flatMap loopSide)).Subperm _ := ((hdeliver.received crypto).sublist.subperm.trans
      ((hperm.map QueuedReply.payload).symm.subperm.trans (hsub.map QueuedReply.payload).subperm)).trans howed.subperm
    rcases hpeer.begun with hnil | ⟨handle, ps, tail, hreg, harr, hps⟩
    · rw [hnil, List.filterMap_nil, List.subperm_nil] at hgot
      exact .inl hgot
    · rw [hps] at hgot
      exact .inr ⟨handle, ps, tail, hreg, harr, hgot⟩
  · intro c hlive hquiet hroom
    have hacc := hpeer.accounts c hlive
    rw [hquiet.handed, List.append_nil] at hacc
    obtain ⟨ps, harr, hps⟩ := hacc.split
    refine ⟨ps, _, hquiet.read, harr, ?_⟩
    have hqueue := (hdeliver.queue c hlive).map QueuedReply.payload
    rw [hquiet.queued, List.append_nil, hall hroom, hps] at hqueue
    rwa [received_placed crypto hdeliver hlive hquiet.written]

/-! ### One request, from its octets to its reply -/

/-- Between two systems the peer of the first socket said this much, and this was handed over. -/
def Talk (s : System BindingHandler) (said : Bytes) (handed : List Bytes) (t : System BindingHandler) : Prop :=
  ∃ hist, Run (System.Step (serverHandler signedResponseCrypto)) s hist t ∧ (∀ x ∈ hist, x.1.TakesFor ⟨0⟩ x.2) ∧
    Spared ⟨0⟩ (hist.flatMap loopSide) ∧ arrivedOn 0 hist = said ∧ handedTo ⟨0⟩ hist = handed

theorem Talk.trans {s t u : System BindingHandler} {said said' : Bytes} {handed handed' : List Bytes} (h : Talk s said handed t)
    (h' : Talk t said' handed' u) : Talk s (said ++ said') (handed ++ handed') u := by
  obtain ⟨hist, hrun, htakes, hroom, rfl, rfl⟩ := h
  obtain ⟨hist', hrun', htakes', hroom', rfl, rfl⟩ := h'
  refine ⟨hist ++ hist', hrun.trans hrun', fun x hx => ?_, fun p hp => ?_, List.flatMap_append, List.flatMap_append⟩
  · rcases List.mem_append.mp hx with hx | hx
    · exact htakes x hx
    · exact htakes' x hx
  · rw [List.flatMap_append] at hp
    rcases List.mem_append.mp hp with hp | hp
    · exact hroom p hp
    · exact hroom' p hp

/-- Neither a read nor a packet handed over. -/
def calm : Signal Env → Bool
  | .loop (_, .read _ _) => false
  | .loop (_, .tcpStun _ _) => false
  | _ => true

theorem Talk.arrival (s : System BindingHandler) (a : Arrival) :
    Talk s (arrivedNow 0 s (.arrival a : Signal Env)) [] ⟨s.loop, s.kernel.arrive a⟩ := by
  refine ⟨[(s, .arrival a)], Run.snoc .refl (.arrival a), ?_, ?_, List.flatMap_singleton _ _, rfl⟩
  · intro x hx
    rw [List.mem_singleton.mp hx]
    trivial
  · intro p hp
    cases hp

theorem Talk.step {s : System BindingHandler} {label : Answer Env × Act} {l : Loop BindingHandler} {k : Kernel}
    (h : Transport.EventLoop.Step (serverHandler signedResponseCrypto) s.loop label l) (hk : s.kernel.answer s.loop label.1 = some k)
    (htakes : s.TakesFor ⟨0⟩ (.loop label)) (hroom : Spared ⟨0⟩ [(s.loop, label)]) :
    Talk s [] (handedNow ⟨0⟩ label.2) ⟨l, k.follow s.loop.worker.conns label.2⟩ := by
  refine ⟨[(s, .loop label)], Run.snoc .refl (.loop h hk), fun x hx => ?_, hroom, rfl, List.append_nil _⟩
  rw [List.mem_singleton.mp hx]
  exact htakes

/-- The outcome of inputs that bring neither a read nor a packet. -/
def talked (s : System BindingHandler) : List (Input Env) → Option (Bool × Bytes × System BindingHandler)
  | [] => some (true, [], s)
  | input :: inputs => (s.next (serverHandler signedResponseCrypto) input).bind fun r =>
    (talked r.2 inputs).map fun q => (calm r.1 && q.1, arrivedNow 0 s r.1 ++ q.2.1, q.2.2)

theorem Talk.exec {s t : System BindingHandler} {inputs : List (Input Env)} {said : Bytes}
    (h : talked s inputs = some (true, said, t)) : Talk s said [] t := by
  induction inputs generalizing s said with
  | nil =>
    cases h
    exact ⟨[], .refl, List.forall_mem_nil _, List.forall_mem_nil _, rfl, rfl⟩
  | cons input inputs ih =>
    obtain ⟨⟨signal, u⟩, hnext, h⟩ := Option.bind_eq_some_iff.mp h
    obtain ⟨⟨calmly, said', t'⟩, hrest, heq⟩ := Option.map_eq_some_iff.mp h
    simp only [Prod.mk.injEq, Bool.and_eq_true] at heq
    obtain ⟨⟨hcalm, rfl⟩, rfl, rfl⟩ := heq
    have hfirst : Talk s (arrivedNow 0 s signal) [] u := by
      cases System.next_step hnext with
      | arrival a => exact Talk.arrival s a
      | @loop label l k hl hk =>
        obtain ⟨answer, act⟩ := label
        have hroom : Spared ⟨0⟩ [(s.loop, (answer, act))] := by
          intro p hp payload hact
          rw [List.mem_singleton.mp hp] at hact
          obtain rfl : act = .tcpStun payload ⟨0⟩ := hact
          cases hcalm
        have hnow := Talk.step hl hk (by cases act <;> trivial) hroom
        have hnone : handedNow ⟨0⟩ act = [] := by
          cases act with
          | tcpStun payload i => cases hcalm
          | _ => rfl
        rwa [hnone] at hnow
    exact hfirst.trans (ih hrest)

/-- The connection after it has read the request, with the reply in its write buffer, and with
the reply written out. -/
def askedConn : Conn :=
  { closingConn.receive oneChunk 1 with toConn := (closingConn.receive oneChunk 1).toConn.takeFrames.1 }

def replyPayload (n : UInt8) : Payload := ⟨pipelinedReply n, pipelinedReply_fits n⟩

def askedBusy : Conn :=
  { askedConn with
    writeBuf := (replyPayload 1).frame ++ askedConn.writeBuf.drop 34, writeLen := 34, pendingWrite := true }

def askedDone : Conn := { (askedBusy.advanceWrite 34).noteActive 2 with pendingWrite := false }

def connWritable : PollEvent := ⟨connToken ⟨0⟩, false, true, false, false, false⟩

/-- The request is there and is reported. -/
theorem asked_reported : ∃ k k', talked closingStart (acceptInputs ++ [.arrival (.octets 0 oneChunk), .answer (.clock false 1),
      .answer .silent, .answer (.poll (some [connReadable false]) false), .answer .silent, .answer .silent]) =
    some (true, oneChunk, ⟨⟨pipelineWorker pipelineHandler closingConn 1 0, .serve [⟨⟨0⟩, true, false⟩]⟩, k⟩) ∧
    k.answer ⟨pipelineWorker pipelineHandler closingConn 1 0, .serve [⟨⟨0⟩, true, false⟩]⟩ (.read (.octets oneChunk) 1 : Answer Env) =
      some k' ∧ (k'.streams 0).rx = [] :=
  ⟨_, _, rfl, rfl, rfl⟩

theorem asked_takes : closingConn.Takes oneChunk where
  room := by
    change 0 + 22 ≤ (zeros Transport.frameCap).length
    rw [zeros_length]
    decide
  whole ps tail htail hsplit := by
    have hone : frames.encodeAll [pipelinedPayload 1] ++ [] = frames.encodeAll ps ++ tail := (List.append_nil _).trans hsplit
    obtain ⟨rfl, rfl⟩ := frames.split_unique frames.partial_nil htail hone
    exact ⟨by decide, fun _ => rfl⟩

/-- The request is read, whole. -/
theorem asked_read {k k' : Kernel} (hk : k.answer ⟨pipelineWorker pipelineHandler closingConn 1 0, .serve [⟨⟨0⟩, true, false⟩]⟩
      (.read (.octets oneChunk) 1 : Answer Env) = some k') :
    Talk ⟨⟨pipelineWorker pipelineHandler closingConn 1 0, .serve [⟨⟨0⟩, true, false⟩]⟩, k⟩ [] []
      ⟨⟨pipelineWorker pipelineHandler askedConn 1 0, .decode ⟨0⟩ [pipelined 1] false []⟩, k'⟩ := by
  obtain ⟨hframes, -, -⟩ := Conn.receive_frames 1 asked_takes.room frames.partial_nil (List.append_nil _).symm
  have htake : oneChunk.take readWindow = oneChunk := rfl
  have hnext : ∀ chunk : Bytes, (Loop.mk (pipelineWorker pipelineHandler closingConn 1 0)
      (.serve [⟨⟨0⟩, true, false⟩])).next (serverHandler signedResponseCrypto) (.read (.octets chunk) 1) =
    some (.read ⟨0⟩ (chunk.take readWindow), ⟨pipelineWorker pipelineHandler
        { closingConn.receive (chunk.take readWindow) 1 with
          toConn := (closingConn.receive (chunk.take readWindow) 1).toConn.takeFrames.1 } 1 0,
      .decode ⟨0⟩ (closingConn.receive (chunk.take readWindow) 1).toConn.takeFrames.2 false []⟩) := fun _ => rfl
  have hstep : Transport.EventLoop.Step (serverHandler signedResponseCrypto)
      ⟨pipelineWorker pipelineHandler closingConn 1 0, .serve [⟨⟨0⟩, true, false⟩]⟩
      (.read (.octets oneChunk) 1, .read ⟨0⟩ oneChunk)
      ⟨pipelineWorker pipelineHandler askedConn 1 0, .decode ⟨0⟩ [pipelined 1] false []⟩ := by
    rw [Transport.EventLoop.Step, hnext, htake, hframes]
    rfl
  refine Talk.step (s := ⟨_, k⟩) hstep hk ?_ fun p hp payload hact => ?_
  · rintro - c hlive
    cases hlive
    exact asked_takes
  · rw [List.mem_singleton.mp hp] at hact
    cases hact

theorem asked_handed {h h' : BindingHandler} (conn : Conn) (k : Kernel) (hroom : h.outbox.length < replyQueueCap)
    (hstun : h.onTcpStun signedResponseCrypto sampleEnv (pipelined 1) ⟨0⟩ = .ok h') :
    Talk ⟨⟨pipelineWorker h conn 1 0, .decode ⟨0⟩ [pipelined 1] false []⟩, k⟩ [] [pipelined 1]
      ⟨⟨pipelineWorker h' conn 1 1, .drainReplies⟩, k⟩ := by
  have hcall : (serverHandler signedResponseCrypto).onTcpStun h sampleEnv (pipelined 1) ⟨0⟩ = some h' := by
    rw [serverHandler]
    dsimp only
    rw [hstun]
  have hstep : Transport.EventLoop.Step (serverHandler signedResponseCrypto)
      ⟨pipelineWorker h conn 1 0, .decode ⟨0⟩ [pipelined 1] false []⟩ (.call sampleEnv, .tcpStun (pipelined 1) ⟨0⟩)
      ⟨pipelineWorker h' conn 1 1, .decode ⟨0⟩ [] false []⟩ := by
    change Option.map _ ((serverHandler signedResponseCrypto).onTcpStun h sampleEnv (pipelined 1) ⟨0⟩) = _
    rw [hcall]
    rfl
  have hrest : talked ⟨⟨pipelineWorker h' conn 1 1, .decode ⟨0⟩ [] false []⟩, k⟩ [.answer .silent, .answer .silent, .answer .silent] =
    some (true, [], ⟨⟨pipelineWorker h' conn 1 1, .drainReplies⟩, k⟩) := rfl
  refine (Talk.step (s := ⟨_, k⟩) hstep rfl trivial fun p hp _ _ => ?_).trans (Talk.exec hrest)
  rw [List.mem_singleton.mp hp]
  exact hroom

theorem askedConn_canWrite : askedConn.canWrite (pipelinedReply 1).length = true := by
  have hlen : askedConn.writeBuf.length = Transport.frameCap := zeros_length _
  rw [Conn.canWrite, hlen]
  rfl

/-- The reply is placed, and written when the poller says there is room. -/
theorem asked_written (k : Kernel) : ∃ k', (k'.streams 0).rx = (k.streams 0).rx ∧
    Talk ⟨⟨pipelineWorker (answeredOne pipelineHandler 1) askedConn 1 1, .drainReplies⟩, k⟩ [] []
      ⟨⟨pipelineWorker oneLeft askedDone 2 1, .serve []⟩, k'⟩ := by
  have hnext : (Loop.mk (pipelineWorker (answeredOne pipelineHandler 1) askedConn 1 1) .drainReplies).next
      (serverHandler signedResponseCrypto) .silent =
    if askedConn.canWrite (pipelinedReply 1).length then
      some (.place (pipelinedQueued 1),
        ⟨pipelineWorker oneLeft (askedConn.takeWrite (pipelinedReply 1)).2 1 1, .drainReplies⟩)
    else some (.putBack (pipelinedQueued 1), (pipelineWorker (oneLeft.enqueue (pipelinedQueued 1)) askedConn 1 1).endTick) := rfl
  have htake : askedConn.takeWrite (pipelinedReply 1) = (true, askedBusy) :=
    Conn.takeWrite_frame (p := replyPayload 1) askedConn_canWrite
  have hstep : Transport.EventLoop.Step (serverHandler signedResponseCrypto)
      ⟨pipelineWorker (answeredOne pipelineHandler 1) askedConn 1 1, .drainReplies⟩ (.silent, .place (pipelinedQueued 1))
      ⟨pipelineWorker oneLeft askedBusy 1 1, .drainReplies⟩ := by
    rw [Transport.EventLoop.Step, hnext, if_pos askedConn_canWrite, htake]
  have hplaced := Talk.step (s := ⟨_, k⟩) hstep rfl trivial fun p hp payload hact => by
    rw [List.mem_singleton.mp hp] at hact
    cases hact
  obtain ⟨k', hrest, hrx⟩ : ∃ k', talked ⟨⟨pipelineWorker oneLeft askedBusy 1 1, .drainReplies⟩,
        k.follow (pipelineWorker (answeredOne pipelineHandler 1) askedConn 1 1).conns (.place (pipelinedQueued 1))⟩
      [.answer .silent, .answer (.clock false 2), .answer .silent, .answer (.poll (some [connWritable]) false), .answer .silent,
        .answer .silent, .answer .silent, .answer (.write (.wrote 34) 2)] =
    some (true, [], ⟨⟨pipelineWorker oneLeft askedDone 2 1, .serve []⟩, k'⟩) ∧ (k'.streams 0).rx = (k.streams 0).rx :=
    ⟨_, rfl, rfl⟩
  exact ⟨k', hrx, hplaced.trans (Talk.exec hrest)⟩

theorem askedDone_written : askedDone.writeRemaining = [] := Conn.writeRemaining_nil rfl

theorem askedDone_window : askedDone.window = [] := by
  obtain ⟨-, hwindow, -⟩ := Conn.receive_frames 1 asked_takes.room frames.partial_nil (List.append_nil _).symm
  rw [ite_self] at hwindow
  exact hwindow

theorem asked_respond : [pipelined 1].filterMap ((startHandler [] none (some sampleIdentity)).service.respond signedResponseCrypto) =
    [pipelinedReply 1] := by decide +kernel

theorem asked_one : OneEach [pipelined 1] := fun a ha b hb _ _ _ _ _ => by
  rw [List.mem_singleton.mp ha, List.mem_singleton.mp hb]

/-- A peer that asked one thing has the reply. -/
theorem asked_heard : ∃ hist s, Run (System.Step (serverHandler signedResponseCrypto)) closingStart hist s ∧
    arrivedOn 0 hist = oneChunk ∧ received ⟨0⟩ (hist.flatMap loopSide) = [pipelinedReply 1] := by
  obtain ⟨k, k', hfirst, hread, hrx⟩ := asked_reported
  obtain ⟨k'', hrx', hlast⟩ := asked_written k'
  obtain ⟨hist, hrun, htakes, hroom, hsaid, hhanded⟩ := ((Talk.exec hfirst).trans (asked_read hread)).trans
    ((asked_handed askedConn k' (by decide) answered_first).trans hlast)
  have hquiet : Quiet ⟨⟨pipelineWorker oneLeft askedDone 2 1, .serve []⟩, k''⟩ ⟨0⟩ askedDone := by
    refine ⟨askedDone_written, rfl, rfl, ?_⟩
    have hnone : (k''.streams askedDone.stream).rx = [] := hrx'.trans hrx
    rw [askedDone_window, hnone]
    exact frames.partial_nil
  obtain ⟨ps, tail, htail, harr, hperm⟩ := (conversation signedResponseCrypto hrun htakes (hhanded ▸ asked_one)).2 askedDone rfl
    hquiet hroom
  have hchunk : frames.encodeAll [pipelinedPayload 1] ++ [] = frames.encodeAll ps ++ tail := by
    rw [← harr]
    exact hsaid.symm
  obtain ⟨rfl, rfl⟩ := frames.split_unique frames.partial_nil htail hchunk
  refine ⟨hist, _, hrun, hsaid, ?_⟩
  rw [List.map_singleton] at hperm
  exact List.perm_singleton.mp (hperm.trans (.of_eq asked_respond))

end QuickRelay.Server
