import QuickRelay.Server.Serving

/-! The order of replies on one connection: those the handler enqueues, and those that
reach the write buffer. -/
namespace QuickRelay.Server
open Lib Protocol
open Binding (ServerIdentity)
open Transport (ConnectionId QueuedReply Payload)
open Transport.EventLoop hiding Step History

variable (crypto : Crypto)

/-- What the handler put in its outbox during a step. -/
def enqueued (p : Loop BindingHandler × (Answer Env × Act)) : List QueuedReply :=
  match p.2.2, p.2.1 with
  | .tcpStun payload id, .call env =>
    match (serverHandler crypto).onTcpStun p.1.worker.handler env payload id with
    | some h => h.outbox.drop p.1.worker.handler.outbox.length
    | none => []
  | _, _ => []

def placed : Act → List QueuedReply
  | .place reply => [reply]
  | _ => []

def enqueuedFor (id : ConnectionId) (hist : LoopHistory) : List QueuedReply :=
  (hist.flatMap (enqueued crypto)).filter (·.id = id)

def placedFor (id : ConnectionId) (hist : LoopHistory) : List QueuedReply := ((acts hist).flatMap placed).filter (·.id = id)

def queuedFor (id : ConnectionId) (h : BindingHandler) : List QueuedReply := h.outbox.filter (·.id = id)

/-- A reply that cannot be written yet is not followed by another for its connection. -/
def Orderly (s : Loop BindingHandler) : Prop :=
  ∀ (reply : QueuedReply) (rest : List QueuedReply) (c : Conn), s.phase = .drainReplies →
    s.worker.handler.outbox = reply :: rest → s.worker.conns.get reply.id = some c → ¬ c.canWrite reply.payload.length →
    ∀ r ∈ rest, r.id ≠ reply.id

theorem enqueuedFor_snoc (id : ConnectionId) (hist : LoopHistory) (p : Loop BindingHandler × (Answer Env × Act)) :
    enqueuedFor crypto id (hist ++ [p]) = enqueuedFor crypto id hist ++ (enqueued crypto p).filter (·.id = id) := by
  rw [enqueuedFor, enqueuedFor, List.flatMap_append, List.filter_append, List.flatMap_singleton]

theorem placedFor_snoc (id : ConnectionId) (hist : LoopHistory) (p : Loop BindingHandler × (Answer Env × Act)) :
    placedFor id (hist ++ [p]) = placedFor id hist ++ (placed p.2.2).filter (·.id = id) := by
  rw [placedFor, placedFor, acts_snoc, List.flatMap_append, List.filter_append, List.flatMap_singleton]

/-- Only a packet handed over makes the handler enqueue. -/
theorem enqueued_eq {s s' : Loop BindingHandler} {label : Answer Env × Act}
    (h : Does (serverHandler crypto) s.worker s.phase label s'.worker) :
    enqueued crypto (s, label) = match label.2 with
      | .tcpStun _ _ => s'.worker.handler.outbox.drop s.worker.handler.outbox.length
      | _ => [] := by
  obtain ⟨w, phase⟩ := s
  obtain ⟨w', phase'⟩ := s'
  cases h with
  | tcpStun _ _ htcp => simp only [enqueued, htcp]
  | _ => rfl

/-- What has been enqueued for a connection is what was placed and what still waits, in
this order. -/
structure InOrder (id : ConnectionId) (w : Worker BindingHandler) (hist : LoopHistory) : Prop where
  live : ∀ c, w.conns.get id = some c → enqueuedFor crypto id hist = placedFor id hist ++ queuedFor id w.handler
  fresh : w.conns.nextId.toNat ≤ id.value.toNat → enqueuedFor crypto id hist = [] ∧ placedFor id hist = []

/-- One step of a connection that is there before and after: what was queued and what is
enqueued is what is placed and what is queued then. -/
theorem queue_balance {h h' : BindingHandler} {act : Act} {id : ConnectionId} (hq : QueueStep h act h')
    (hback : ∀ r rest, act = .putBack r → h.outbox = r :: rest → ∀ r' ∈ rest, r'.id ≠ r.id)
    (hskip : ∀ r, act = .skip r → r.id ≠ id) (hdrop : act ≠ .drop id) :
    queuedFor id h ++ (match act with
      | .tcpStun _ _ => h'.outbox.drop h.outbox.length
      | _ => []).filter (·.id = id) = (placed act).filter (·.id = id) ++ queuedFor id h' := by
  cases hq with
  | kept hno hnot _ ho =>
    have hplaced : placed act = [] := by
      cases act with
      | place r => exact absurd rfl (hnot r).1
      | _ => rfl
    rw [hplaced, queuedFor, queuedFor, ho]
    cases act with
    | tcpStun payload i => exact absurd (decide_eq_true rfl) (hno i)
    | _ => exact List.append_nil _
  | tracked => exact List.append_nil _
  | answered _ ho _ _ =>
    dsimp only
    rw [queuedFor, queuedFor, ho, List.drop_left, List.filter_append]
    rfl
  | @placed r _ _ ho =>
    dsimp only
    rw [queuedFor, queuedFor, ho, List.filter_nil, List.append_nil, ← List.filter_append]
    rfl
  | @skipped r _ _ ho =>
    dsimp only
    rw [queuedFor, queuedFor, ho, List.filter_nil, List.append_nil, List.filter_cons_of_neg]
    · rfl
    · exact fun hid => hskip r rfl (of_decide_eq_true hid)
  | @returned r rest _ _ ho ho' =>
    dsimp only
    rw [queuedFor, queuedFor, ho, ho', List.filter_nil, List.append_nil, List.filter_append]
    by_cases hid : r.id = id
    · -- nothing behind the reply is for its connection, so the back is where it was
      have hrest : rest.filter (·.id = id) = [] := by
        rw [List.filter_eq_nil_iff]
        exact fun r' hr' heq => hback r rest rfl ho r' hr' ((of_decide_eq_true heq).trans hid.symm)
      simp [placed, hrest, hid]
    · simp [placed, hid]
  | @forgotten i =>
    have hne : i ≠ id := fun heq => hdrop (heq ▸ rfl)
    change h.outbox.filter (·.id = id) ++ [] = [] ++ (h.outbox.filter (·.id ≠ i)).filter (·.id = id)
    rw [List.append_nil, List.nil_append, List.filter_filter]
    refine List.filter_congr fun r _ => ?_
    by_cases hid : r.id = id
    · simp [hid, hne.symm]
    · simp [hid]

/-- The oldest reply is for a live connection. -/
theorem head_live {w : Worker BindingHandler} (ha : Agrees w) {r : QueuedReply} {h : BindingHandler}
    (htake : w.handler.queueNext = (some r, h)) : ∃ c, w.conns.get r.id = some c := by
  have hmem : r ∈ w.handler.outbox := by
    rw [(queueNext_some htake).2]
    exact List.mem_cons_self
  exact (ha.conns r.id).mp (ha.outbox r hmem)

theorem queuedFor_gone {w : Worker BindingHandler} (ha : Agrees w) {id : ConnectionId} (h : w.conns.get id = none) :
    queuedFor id w.handler = [] := by
  rw [queuedFor, List.filter_eq_nil_iff]
  intro r hr heq
  obtain ⟨c, hget⟩ := (ha.conns r.id).mp (ha.outbox r hr)
  rw [of_decide_eq_true heq, h] at hget
  cases hget

theorem InOrder.step {id : ConnectionId} {s s' : Loop BindingHandler} {label : Answer Env × Act} {hist : LoopHistory}
    (h : InOrder crypto id s.worker hist) (ha : Agrees s.worker) (ho : Orderly s)
    (hd : Does (serverHandler crypto) s.worker s.phase label s'.worker) :
    InOrder crypto id s'.worker (hist ++ [(s, label)]) := by
  have hq := does_queue crypto hd ha.bounded
  have ht := hd.table
  have ha' := ha.step ht hq
  have hback : ∀ r rest, label.2 = .putBack r → s.worker.handler.outbox = r :: rest → ∀ r' ∈ rest, r'.id ≠ r.id := by
    intro r rest hact hout
    obtain ⟨answer, act⟩ := label
    cases hact
    generalize hp : s.phase = phase at hd
    generalize s'.worker = w' at hd
    cases hd with
    | putBack _ htake hget hw => exact ho r rest _ hp hout hget hw
  have hskip : ∀ r, label.2 = .skip r → r.id ≠ id := by
    intro r hact
    obtain ⟨answer, act⟩ := label
    cases hact
    generalize s.phase = phase at hd
    generalize s'.worker = w' at hd
    cases hd with
    | skip htake hnone =>
      obtain ⟨c, hget⟩ := head_live ha htake
      cases hget.symm.trans hnone
  have hplaced : s.worker.conns.get id = none → (placed label.2).filter (·.id = id) = [] := by
    intro hnone
    obtain ⟨answer, act⟩ := label
    cases act with
    | place r =>
      generalize s.phase = phase at hd
      generalize s'.worker = w' at hd
      cases hd with
      | place htake hget _ =>
        have hne : r.id ≠ id := by
          rintro rfl
          cases hget.symm.trans hnone
        simp [placed, hne]
    | _ => rfl
  have hbalance := queue_balance hq hback hskip
  rw [← enqueued_eq crypto hd] at hbalance
  constructor
  case live =>
    intro c' hget'
    have hdrop : label.2 ≠ .drop id := by
      intro hact
      rw [hact] at ht
      cases hget'.symm.trans ht.dropped.2
    have hbalance := hbalance hdrop
    rw [enqueuedFor_snoc, placedFor_snoc]
    cases hget : s.worker.conns.get id with
    | some c => rw [h.live c hget, List.append_assoc, hbalance, List.append_assoc]
    | none =>
      obtain ⟨he, hp⟩ := h.fresh (Nat.le_of_eq (congrArg UInt64.toNat (ht.became_live hget hget').symm))
      rw [queuedFor_gone ha hget, hplaced hget, List.nil_append, List.nil_append] at hbalance
      rw [he, hp, hplaced hget, hbalance]
      rfl
  case fresh =>
    intro hge
    have hge₀ := Nat.le_trans ht.next_le hge
    have hnone : ∀ m : ConnMgr, m.nextId.toNat ≤ id.value.toNat → m.get id = none := by
      intro m hm
      cases hget : m.get id with
      | none => rfl
      | some c => exact absurd (ConnMgr.lt_of_get hget) (Nat.not_lt.mpr hm)
    have hdrop : label.2 ≠ .drop id := by
      intro hact
      rw [hact] at ht
      obtain ⟨⟨c, hget⟩, -⟩ := ht.dropped
      cases hget.symm.trans (hnone _ hge₀)
    have hbalance := hbalance hdrop
    obtain ⟨he, hp⟩ := h.fresh hge₀
    rw [queuedFor_gone ha (hnone _ hge₀), queuedFor_gone ha' (hnone _ hge), hplaced (hnone _ hge₀), List.nil_append,
      List.append_nil] at hbalance
    rw [enqueuedFor_snoc, placedFor_snoc, he, hp, hbalance, hplaced (hnone _ hge₀)]
    exact ⟨rfl, rfl⟩

/-- **Reply order**: if no reply that has to wait is followed by another for its connection,
the replies placed into a live connection's write buffer are the first ones the handler
enqueued for it, in that order. -/
theorem placed_prefix {config : WorkerConfig} {addresses : List ServerIdentity} {sender : Option UdpSocket}
    {tcp : Option ServerIdentity} {udp listener : Bool} {hist : LoopHistory} {s : Loop BindingHandler}
    (hrun : ServerRun crypto config (startHandler addresses sender tcp) udp listener hist s)
    (horder : ∀ p ∈ hist, Orderly p.1) {id : ConnectionId} {c : Conn} (hlive : s.worker.conns.get id = some c) :
    placedFor id hist <+: enqueuedFor crypto id hist := by
  obtain ⟨hc, ho⟩ := startHandler_queue addresses sender tcp
  have hinv : (∀ p ∈ hist, Orderly p.1) → InOrder crypto id s.worker hist := by
    refine hrun.invariant (P := fun hist s => (∀ p ∈ hist, Orderly p.1) → InOrder crypto id s.worker hist) ?_ ?_
    · intro _
      constructor
      case live => exact fun c hget => nomatch hget
      case fresh => exact fun _ => ⟨rfl, rfl⟩
    · intro hist t label u hr ih hs horder
      have hagree : Agrees t.worker := run_agrees crypto hc ho hr
      have hin := ih fun p hp => horder p (List.mem_append_left _ hp)
      exact hin.step crypto hagree (horder (t, label) (List.mem_append_right _ List.mem_cons_self)) (step_does _ hs)
  rw [(hinv horder).live c hlive]
  exact List.prefix_append _ _

/-! ### Three requests in one read -/

/-- What an orderly-looking state shows at once: no reply is taken. -/
def Untaken (s : Loop BindingHandler) : Bool := s.phase ≠ .drainReplies || s.worker.handler.outbox.isEmpty

theorem Untaken.orderly {s : Loop BindingHandler} (h : Untaken s) : Orderly s := by
  intro reply rest c hphase hout
  rw [Untaken, hphase, hout] at h
  cases h

/-- A stretch of a run, with what it enqueues and what it places, and whether it is known
to be orderly. -/
def Stretch (s t : Loop BindingHandler) (e p : List QueuedReply) (orderly : Bool) : Prop :=
  ∃ hist, Run (Transport.EventLoop.Step (serverHandler signedResponseCrypto)) s hist t ∧
    hist.flatMap (enqueued signedResponseCrypto) = e ∧ (acts hist).flatMap placed = p ∧
    (orderly → ∀ x ∈ hist, Orderly x.1)

namespace Stretch
variable {s t u : Loop BindingHandler} {e e' p p' : List QueuedReply} {o o' : Bool}

theorem trans (h : Stretch s t e p o) (h' : Stretch t u e' p' o') : Stretch s u (e ++ e') (p ++ p') (o && o') := by
  obtain ⟨hist, hrun, rfl, rfl, ho⟩ := h
  obtain ⟨hist', hrun', rfl, rfl, ho'⟩ := h'
  have hacts : acts (hist ++ hist') = acts hist ++ acts hist' := List.map_append
  refine ⟨hist ++ hist', hrun.trans hrun', List.flatMap_append, by rw [hacts, List.flatMap_append], fun hoo x hx => ?_⟩
  rw [Bool.and_eq_true] at hoo
  rcases List.mem_append.mp hx with hx | hx
  · exact ho hoo.1 x hx
  · exact ho' hoo.2 x hx

theorem exec {answers : List (Answer Env)} (h : (s.exec (serverHandler signedResponseCrypto) answers).map
    (fun r => (r.1.flatMap (enqueued signedResponseCrypto), (acts r.1).flatMap placed, r.1.all fun x => Untaken x.1, r.2)) =
      some (e, p, o, t)) : Stretch s t e p o := by
  obtain ⟨⟨hist, t⟩, hexec, heq⟩ := Option.map_eq_some_iff.mp h
  cases heq
  refine ⟨hist, Loop.exec_run hexec, rfl, rfl, fun hall x hx => Untaken.orderly ?_⟩
  exact List.all_eq_true.mp hall x hx

theorem single {label : Answer Env × Act} (h : Transport.EventLoop.Step (serverHandler signedResponseCrypto) s label t)
    (ho : Orderly s) : Stretch s t (enqueued signedResponseCrypto (s, label)) (placed label.2) true := by
  refine ⟨[(s, label)], Run.snoc .refl h, List.flatMap_singleton _ _, List.flatMap_singleton _ _, fun _ x hx => ?_⟩
  rw [List.mem_singleton.mp hx]
  exact ho

end Stretch

/-- A Binding request with the given end of its transaction id. -/
def pipelined (n : UInt8) : Bytes :=
  [0x00, 0x01, 0x00, 0x00, 0x21, 0x12, 0xA4, 0x42, 0, 0, 0, 0, 0, 0, 0, 0, 0, 0, 0, n]

def pipelinedReply (n : UInt8) : Bytes :=
  [0x01, 0x01, 0x00, 0x0C, 0x21, 0x12, 0xA4, 0x42, 0, 0, 0, 0, 0, 0, 0, 0, 0, 0, 0, n, 0x00, 0x20, 0x00, 0x08, 0x00, 0x01,
    0x2C, 0x84, 0x5E, 0x12, 0xA4, 0x43]

theorem pipelined_fits (n : UInt8) : (pipelined n).length ≤ Transport.maxFramePayload :=
  Nat.le_trans (Nat.le_of_eq (Eq.refl 20)) (by decide)

theorem pipelinedReply_fits (n : UInt8) : (pipelinedReply n).length ≤ Transport.maxFramePayload :=
  Nat.le_trans (Nat.le_of_eq (Eq.refl 32)) (by decide)

def pipelinedQueued (n : UInt8) : QueuedReply := ⟨⟨0⟩, pipelinedReply n⟩

/-- Three requests in one read. -/
def pipelinedChunk : Bytes := Transport.frames.encodeAll
  [⟨pipelined 1, pipelined_fits 1⟩, ⟨pipelined 2, pipelined_fits 2⟩, ⟨pipelined 3, pipelined_fits 3⟩]

/-- The connection as accepted, after the read, with the first reply in its write buffer,
and with that reply written out. -/
def acceptedConn : Conn := { Conn.new 7 0 with halfOpenDeadline := some 5 }

def readConn : Conn :=
  { acceptedConn.receive pipelinedChunk 1 with toConn := (acceptedConn.receive pipelinedChunk 1).toConn.takeFrames.1 }

def busyConn : Conn :=
  { readConn with
    writeBuf := Payload.frame ⟨pipelinedReply 1, pipelinedReply_fits 1⟩ ++ readConn.writeBuf.drop 34, writeLen := 34,
    pendingWrite := true }

def writtenConn : Conn := { (busyConn.advanceWrite 34).noteActive 2 with pendingWrite := false }

/-- The handler that has answered one more request. -/
def answeredOne (h : BindingHandler) (n : UInt8) : BindingHandler :=
  (h.enqueue (pipelinedQueued n)).withTransactions ((h.transactions.reap 0).insert 0 0
    ⟨sampleIdentity.toSocketAddr, ⟨[0, 0, 0, 0, 0, 0, 0, 0, 0, 0, 0, n], rfl⟩, some ⟨0⟩⟩ (pipelinedReply n))

def pipelineHandler : BindingHandler := (startHandler [] none (some sampleIdentity)).noteConnect ⟨0⟩

def pipelineWorker (handler : BindingHandler) (conn : Conn) (ticks packets : Nat) : Worker BindingHandler :=
  ⟨⟨300, 5, none⟩, handler, true, true, ⟨1, [some conn], rfl⟩, ⟨ticks, 0, 1, 0, packets⟩⟩

def acceptAndPoll : List (Answer Env) :=
  [.clock false 0, .silent, .poll (some [⟨eventTcpListen, true, false, false, false, false⟩]) false, .silent,
    .accept (.stream 7), .accept .notReady, .register true 0, .silent, .silent, .silent, .silent, .clock false 1, .silent,
    .poll (some [⟨connToken ⟨0⟩, true, false, false, false, false⟩]) false, .silent, .silent]

/-- The observations of an executed stretch. -/
def observed (s : Loop BindingHandler) (answers : List (Answer Env)) :
    Option (List QueuedReply × List QueuedReply × Bool × Loop BindingHandler) :=
  (s.exec (serverHandler signedResponseCrypto) answers).map fun r =>
    (r.1.flatMap (enqueued signedResponseCrypto), (acts r.1).flatMap placed, r.1.all fun x => Untaken x.1, r.2)

theorem accept_stretch : Stretch (startLoop ⟨300, 5, none⟩ (startHandler [] none (some sampleIdentity)) true true)
    ⟨pipelineWorker pipelineHandler acceptedConn 1 0, .serve [⟨⟨0⟩, true, false⟩]⟩ [] [] true := by
  have hexec : observed (startLoop ⟨300, 5, none⟩ (startHandler [] none (some sampleIdentity)) true true) acceptAndPoll =
    some ([], [], true, ⟨pipelineWorker pipelineHandler acceptedConn 1 0, .serve [⟨⟨0⟩, true, false⟩]⟩) := rfl
  exact Stretch.exec hexec

theorem read_stretch : Stretch ⟨pipelineWorker pipelineHandler acceptedConn 1 0, .serve [⟨⟨0⟩, true, false⟩]⟩
    ⟨pipelineWorker pipelineHandler readConn 1 0, .decode ⟨0⟩ [pipelined 1, pipelined 2, pipelined 3] false []⟩ [] [] true := by
  have hroom : acceptedConn.readLen + pipelinedChunk.length ≤ acceptedConn.readBuf.length := by
    change 0 + 66 ≤ (zeros Transport.frameCap).length
    rw [zeros_length]
    decide
  obtain ⟨hframes, -, -⟩ := Conn.receive_frames 1 hroom Transport.frames.partial_nil (List.append_nil _).symm
  have htake : pipelinedChunk.take readWindow = pipelinedChunk := rfl
  have hnext : ∀ chunk : Bytes, (Loop.mk (pipelineWorker pipelineHandler acceptedConn 1 0)
      (.serve [⟨⟨0⟩, true, false⟩])).next (serverHandler signedResponseCrypto) (.read (.octets chunk) 1) =
    some (.read ⟨0⟩ (chunk.take readWindow), ⟨pipelineWorker pipelineHandler
        { acceptedConn.receive (chunk.take readWindow) 1 with
          toConn := (acceptedConn.receive (chunk.take readWindow) 1).toConn.takeFrames.1 } 1 0,
      .decode ⟨0⟩ (acceptedConn.receive (chunk.take readWindow) 1).toConn.takeFrames.2 false []⟩) := fun _ => rfl
  have hstep : Transport.EventLoop.Step (serverHandler signedResponseCrypto)
      ⟨pipelineWorker pipelineHandler acceptedConn 1 0, .serve [⟨⟨0⟩, true, false⟩]⟩
      (.read (.octets pipelinedChunk) 1, .read ⟨0⟩ pipelinedChunk)
      ⟨pipelineWorker pipelineHandler readConn 1 0, .decode ⟨0⟩ [pipelined 1, pipelined 2, pipelined 3] false []⟩ := by
    rw [Transport.EventLoop.Step, hnext, htake, hframes]
    rfl
  exact Stretch.single hstep (Untaken.orderly rfl)

theorem answered_first : pipelineHandler.onTcpStun signedResponseCrypto sampleEnv (pipelined 1) ⟨0⟩ =
    .ok (answeredOne pipelineHandler 1) := by decide +kernel

theorem answered_second : (answeredOne pipelineHandler 1).onTcpStun signedResponseCrypto sampleEnv (pipelined 2) ⟨0⟩ =
    .ok (answeredOne (answeredOne pipelineHandler 1) 2) := by decide +kernel

theorem answered_third : (answeredOne (answeredOne pipelineHandler 1) 2).onTcpStun signedResponseCrypto sampleEnv
    (pipelined 3) ⟨0⟩ = .ok (answeredOne (answeredOne (answeredOne pipelineHandler 1) 2) 3) := by decide +kernel

theorem answer_stretch {h h' : BindingHandler} {n : UInt8} (packets : Nat) (frames : List Bytes)
    (hstun : h.onTcpStun signedResponseCrypto sampleEnv (pipelined n) ⟨0⟩ = .ok h') :
    Stretch ⟨pipelineWorker h readConn 1 packets, .decode ⟨0⟩ (pipelined n :: frames) false []⟩
      ⟨pipelineWorker h' readConn 1 (packets + 1), .decode ⟨0⟩ frames false []⟩ (h'.outbox.drop h.outbox.length) [] true := by
  have hcall : (serverHandler signedResponseCrypto).onTcpStun h sampleEnv (pipelined n) ⟨0⟩ = some h' := by
    rw [serverHandler]
    dsimp only
    rw [hstun]
  have hstep : Transport.EventLoop.Step (serverHandler signedResponseCrypto)
      ⟨pipelineWorker h readConn 1 packets, .decode ⟨0⟩ (pipelined n :: frames) false []⟩
      (.call sampleEnv, .tcpStun (pipelined n) ⟨0⟩)
      ⟨pipelineWorker h' readConn 1 (packets + 1), .decode ⟨0⟩ frames false []⟩ := by
    change Option.map _ ((serverHandler signedResponseCrypto).onTcpStun h sampleEnv (pipelined n) ⟨0⟩) = _
    rw [hcall]
    rfl
  have hsingle := Stretch.single hstep (Untaken.orderly rfl)
  rwa [enqueued_eq signedResponseCrypto (step_does _ hstep)] at hsingle

def pipelineAnswered : BindingHandler := answeredOne (answeredOne (answeredOne pipelineHandler 1) 2) 3

def pipelineLeft (outbox : List QueuedReply) : BindingHandler := { pipelineAnswered with outbox }

theorem answers_stretch : Stretch
    ⟨pipelineWorker pipelineHandler readConn 1 0, .decode ⟨0⟩ [pipelined 1, pipelined 2, pipelined 3] false []⟩
    ⟨pipelineWorker pipelineAnswered readConn 1 3, .drainReplies⟩
    [pipelinedQueued 1, pipelinedQueued 2, pipelinedQueued 3] [] true := by
  have hexec : observed ⟨pipelineWorker pipelineAnswered readConn 1 3, .decode ⟨0⟩ [] false []⟩ [.silent, .silent, .silent] =
    some ([], [], true, ⟨pipelineWorker pipelineAnswered readConn 1 3, .drainReplies⟩) := rfl
  exact (((answer_stretch 0 _ answered_first).trans (answer_stretch 1 _ answered_second)).trans
    (answer_stretch 2 _ answered_third)).trans (Stretch.exec hexec)

theorem readConn_canWrite : readConn.canWrite (pipelinedReply 1).length = true := by
  have hlen : readConn.writeBuf.length = Transport.frameCap := zeros_length _
  rw [Conn.canWrite, hlen]
  rfl

theorem writtenConn_canWrite : writtenConn.canWrite (pipelinedReply 3).length = true := by
  have hread : readConn.writeBuf.length = Transport.frameCap := zeros_length _
  have hframe := Payload.frame_length ⟨pipelinedReply 1, pipelinedReply_fits 1⟩
  have hbusy : busyConn.writeBuf.length = Transport.frameCap := by
    rw [busyConn, List.length_append, List.length_drop, hread, hframe]
    rfl
  have hlen : writtenConn.writeBuf.length = Transport.frameCap := by
    refine (Transport.Conn.copyWithin_length ?_).trans hbusy
    rw [hbusy]
    decide
  rw [Conn.canWrite, hlen]
  rfl

theorem place_first : Stretch ⟨pipelineWorker pipelineAnswered readConn 1 3, .drainReplies⟩
    ⟨pipelineWorker (pipelineLeft [pipelinedQueued 2, pipelinedQueued 3]) busyConn 1 3, .drainReplies⟩ []
    [pipelinedQueued 1] true := by
  have hnext : (Loop.mk (pipelineWorker pipelineAnswered readConn 1 3) .drainReplies).next
      (serverHandler signedResponseCrypto) .silent =
    if readConn.canWrite (pipelinedReply 1).length then
      some (.place (pipelinedQueued 1), ⟨pipelineWorker (pipelineLeft [pipelinedQueued 2, pipelinedQueued 3])
        (readConn.takeWrite (pipelinedReply 1)).2 1 3, .drainReplies⟩)
    else some (.putBack (pipelinedQueued 1), (pipelineWorker ((pipelineLeft [pipelinedQueued 2, pipelinedQueued 3]).enqueue
      (pipelinedQueued 1)) readConn 1 3).endTick) := rfl
  have htake : readConn.takeWrite (pipelinedReply 1) = (true, busyConn) :=
    Conn.takeWrite_frame (p := ⟨pipelinedReply 1, pipelinedReply_fits 1⟩) readConn_canWrite
  have hstep : Transport.EventLoop.Step (serverHandler signedResponseCrypto)
      ⟨pipelineWorker pipelineAnswered readConn 1 3, .drainReplies⟩ (.silent, .place (pipelinedQueued 1))
      ⟨pipelineWorker (pipelineLeft [pipelinedQueued 2, pipelinedQueued 3]) busyConn 1 3, .drainReplies⟩ := by
    rw [Transport.EventLoop.Step, hnext, if_pos readConn_canWrite, htake]
  refine Stretch.single hstep fun reply rest c _ hout hget hbusy => ?_
  cases hout
  cases hget
  exact absurd readConn_canWrite hbusy

/-- The second reply finds the buffer taken and goes behind the third. -/
theorem put_back_second : Stretch
    ⟨pipelineWorker (pipelineLeft [pipelinedQueued 2, pipelinedQueued 3]) busyConn 1 3, .drainReplies⟩
    ⟨pipelineWorker (pipelineLeft [pipelinedQueued 3, pipelinedQueued 2]) busyConn 2 3, .top⟩ [] [] false := by
  have hexec : observed ⟨pipelineWorker (pipelineLeft [pipelinedQueued 2, pipelinedQueued 3]) busyConn 1 3, .drainReplies⟩
    [.silent] = some ([], [], false, ⟨pipelineWorker (pipelineLeft [pipelinedQueued 3, pipelinedQueued 2]) busyConn 2 3, .top⟩) :=
    rfl
  exact Stretch.exec hexec

def writeAndDrain : List (Answer Env) :=
  [.clock false 2, .silent, .poll (some [⟨connToken ⟨0⟩, false, true, false, false, false⟩]) false, .silent, .silent, .silent,
    .write (.wrote 34) 2, .silent]

theorem write_stretch : Stretch ⟨pipelineWorker (pipelineLeft [pipelinedQueued 3, pipelinedQueued 2]) busyConn 2 3, .top⟩
    ⟨pipelineWorker (pipelineLeft [pipelinedQueued 3, pipelinedQueued 2]) writtenConn 2 3, .drainReplies⟩ [] [] true := by
  have hexec : observed ⟨pipelineWorker (pipelineLeft [pipelinedQueued 3, pipelinedQueued 2]) busyConn 2 3, .top⟩
    writeAndDrain = some ([], [], true,
      ⟨pipelineWorker (pipelineLeft [pipelinedQueued 3, pipelinedQueued 2]) writtenConn 2 3, .drainReplies⟩) := rfl
  exact Stretch.exec hexec

theorem place_third : Stretch
    ⟨pipelineWorker (pipelineLeft [pipelinedQueued 3, pipelinedQueued 2]) writtenConn 2 3, .drainReplies⟩
    ⟨pipelineWorker (pipelineLeft [pipelinedQueued 2]) (writtenConn.takeWrite (pipelinedReply 3)).2 2 3, .drainReplies⟩ []
    [pipelinedQueued 3] true := by
  have hnext : (Loop.mk (pipelineWorker (pipelineLeft [pipelinedQueued 3, pipelinedQueued 2]) writtenConn 2 3)
      .drainReplies).next (serverHandler signedResponseCrypto) .silent =
    if writtenConn.canWrite (pipelinedReply 3).length then
      some (.place (pipelinedQueued 3), ⟨pipelineWorker (pipelineLeft [pipelinedQueued 2])
        (writtenConn.takeWrite (pipelinedReply 3)).2 2 3, .drainReplies⟩)
    else some (.putBack (pipelinedQueued 3), (pipelineWorker ((pipelineLeft [pipelinedQueued 2]).enqueue
      (pipelinedQueued 3)) writtenConn 2 3).endTick) := rfl
  have hstep : Transport.EventLoop.Step (serverHandler signedResponseCrypto)
      ⟨pipelineWorker (pipelineLeft [pipelinedQueued 3, pipelinedQueued 2]) writtenConn 2 3, .drainReplies⟩
      (.silent, .place (pipelinedQueued 3))
      ⟨pipelineWorker (pipelineLeft [pipelinedQueued 2]) (writtenConn.takeWrite (pipelinedReply 3)).2 2 3,
        .drainReplies⟩ := by
    rw [Transport.EventLoop.Step, hnext, if_pos writtenConn_canWrite]
  refine Stretch.single hstep fun reply rest c _ hout hget hbusy => ?_
  cases hout
  cases hget
  exact absurd writtenConn_canWrite hbusy

/-- The first of three pipelined replies is placed in order. -/
theorem first_placed : ∃ hist s, s.worker.conns.get ⟨0⟩ = some busyConn ∧
    placedFor ⟨0⟩ hist = [pipelinedQueued 1] ∧ placedFor ⟨0⟩ hist <+: enqueuedFor signedResponseCrypto ⟨0⟩ hist ∧
    ServerRun signedResponseCrypto ⟨300, 5, none⟩ (startHandler [] none (some sampleIdentity)) true true hist s := by
  obtain ⟨hist, hrun, -, hplaced, ho⟩ := ((accept_stretch.trans read_stretch).trans answers_stretch).trans place_first
  have hserver : ServerRun signedResponseCrypto ⟨300, 5, none⟩ (startHandler [] none (some sampleIdentity)) true true hist _ :=
    hrun
  have hlive : (pipelineWorker (pipelineLeft [pipelinedQueued 2, pipelinedQueued 3]) busyConn 1 3).conns.get ⟨0⟩ =
    some busyConn := rfl
  refine ⟨hist, _, hlive, ?_, placed_prefix signedResponseCrypto hserver (ho rfl) hlive, hserver⟩
  rw [placedFor, hplaced]
  rfl

/-- The third reply overtakes the second. -/
theorem third_overtakes : ¬ ∀ (crypto : Crypto) (config : WorkerConfig) (addresses : List ServerIdentity)
    (sender : Option UdpSocket) (tcp : Option ServerIdentity) (udp listener : Bool) (hist : LoopHistory)
    (s : Loop BindingHandler) (id : ConnectionId) (c : Conn),
    ServerRun crypto config (startHandler addresses sender tcp) udp listener hist s → s.worker.conns.get id = some c →
    placedFor id hist <+: enqueuedFor crypto id hist := by
  intro hall
  obtain ⟨hist, hrun, henq, hplaced, -⟩ := (((((accept_stretch.trans read_stretch).trans answers_stretch).trans
    place_first).trans put_back_second).trans write_stretch).trans place_third
  have hprefix := hall signedResponseCrypto ⟨300, 5, none⟩ [] none (some sampleIdentity) true true hist _ ⟨0⟩ _ hrun rfl
  rw [placedFor, enqueuedFor, henq, hplaced] at hprefix
  exact absurd hprefix (by decide)

end QuickRelay.Server
