import QuickRelay.Server.Delivery
import QuickRelay.Transport.Outlets

/-! The poller and the replies that wait in a write buffer. -/
namespace QuickRelay.Server
open Lib Protocol
open Binding (ServerIdentity)
open Transport (ConnectionId Payload)
open Transport.EventLoop hiding Step History
open Transport.EventLoop.Conn (wireFrame)

variable (crypto : Crypto)

/-- The server's replies fit the length prefix. -/
theorem run_fits {config : WorkerConfig} {addresses : List ServerIdentity} {sender : Option UdpSocket}
    {tcp : Option ServerIdentity} {udp listener : Bool} {hist : LoopHistory} {s : Loop BindingHandler}
    (hrun : ServerRun crypto config (startHandler addresses sender tcp) udp listener hist s) :
    ∀ x ∈ hist, x.2.2.Fits := by
  obtain ⟨hc, ho⟩ := startHandler_queue addresses sender tcp
  have h0 := startHandler_transactions addresses sender tcp
  intro x hx
  obtain ⟨before, after, u, -, hbefore, hs⟩ := Run.reached hrun hx
  have hreplies := run_replies crypto hc ho h0 hbefore
  have hd := step_does (serverHandler crypto) hs
  obtain ⟨⟨w, phase⟩, answer, act⟩ := x
  cases act with
  | place reply =>
    generalize u.worker = w' at hd
    cases hd with
    | place htake hget hw =>
      have hmem : reply ∈ w.handler.outbox := by
        rw [(queueNext_some htake).2]
        exact List.mem_cons_self
      obtain ⟨txid, hto⟩ := hreplies.queued reply hmem
      exact Nat.le_trans hto.length_le (by decide)
  | _ => trivial

/-- **No reply is left in a buffer**: whenever the worker has nothing left to do from its last
poll, it has asked the poller about the room in a connection's socket exactly if octets of a
reply wait for it, and if there is room already the poller still has to say so. -/
theorem reply_awaited {config : WorkerConfig} {addresses : List ServerIdentity} {sender : Option UdpSocket}
    {tcp : Option ServerIdentity} {udp listener : Bool} {outlets : Outlets} {s : Writing BindingHandler}
    {hist : List (Writing BindingHandler × WriteSignal Env)}
    (hrun : Run (Writing.Step (serverHandler crypto))
      ⟨startLoop config (startHandler addresses sender tcp) udp listener, outlets⟩ hist s)
    (hp : s.loop.phase.resting) {id : ConnectionId} {c : Conn} (hlive : s.loop.worker.conns.get id = some c) :
    ((s.outlets id).interest ↔ c.writeRemaining ≠ []) ∧
      (c.writeRemaining ≠ [] → (s.outlets id).room → (s.outlets id).edge) := by
  have hloop : ServerRun crypto config (startHandler addresses sender tcp) udp listener (hist.flatMap loopOf) s.loop :=
    run_loop hrun
  have hfits : ∀ x ∈ hist, x.2.Fits := by
    intro x hx
    obtain ⟨t, signal⟩ := x
    cases signal with
    | room id => trivial
    | loop label room =>
      exact run_fits crypto hloop _ (List.mem_flatMap.mpr ⟨_, hx, List.mem_singleton.mpr rfl⟩)
  have hheard : c.Heard (s.outlets id) s.loop.phase id := by
    rcases run_heard hrun rfl hfits with hstop | hheard
    · rw [hstop] at hp
      cases hp
    · exact hheard id c hlive
  have hinside := (run_delivering crypto hloop id).inside c hlive
  have hwrite : c.hasWrite = true ↔ c.writeRemaining ≠ [] := by
    rw [Conn.hasWrite, decide_eq_true_iff, Conn.writeRemaining, ← List.length_pos_iff, List.length_take, Nat.min_eq_left hinside]
  rw [hheard.asked, hwrite]
  refine ⟨Iff.rfl, fun hrest hroom => ?_⟩
  exact (hheard.heard (hwrite.mpr hrest) hroom).resolve_right (Phase.resting_writes hp)

/-! ### One request, answered -/

/-- The outcome of answers that roomy sockets give. -/
def roomily (s : Loop BindingHandler) (answers : List (Answer Env)) : Option (Bool × Loop BindingHandler) :=
  (s.exec (serverHandler signedResponseCrypto) answers).map fun r => (r.1.all fun x => x.2.1.roomy, r.2)

def pipelinedPayload (n : UInt8) : Payload := ⟨pipelined n, pipelined_fits n⟩

def oneChunk : Bytes := Transport.frames.encodeAll [pipelinedPayload 1]

def oneConn : Conn :=
  { acceptedConn.receive oneChunk 1 with toConn := (acceptedConn.receive oneChunk 1).toConn.takeFrames.1 }

theorem read_one : Roomy (serverHandler signedResponseCrypto)
    ⟨pipelineWorker pipelineHandler acceptedConn 1 0, .serve [⟨⟨0⟩, true, false⟩]⟩
    ⟨pipelineWorker pipelineHandler oneConn 1 0, .decode ⟨0⟩ [pipelined 1] false []⟩ := by
  have hroom : acceptedConn.readLen + oneChunk.length ≤ acceptedConn.readBuf.length := by
    change 0 + 22 ≤ (zeros Transport.frameCap).length
    rw [zeros_length]
    decide
  obtain ⟨hframes, -, -⟩ := Conn.receive_frames 1 hroom Transport.frames.partial_nil (List.append_nil _).symm
  have htake : oneChunk.take readWindow = oneChunk := rfl
  have hnext : ∀ chunk : Bytes, (Loop.mk (pipelineWorker pipelineHandler acceptedConn 1 0)
      (.serve [⟨⟨0⟩, true, false⟩])).next (serverHandler signedResponseCrypto) (.read (.octets chunk) 1) =
    some (.read ⟨0⟩ (chunk.take readWindow), ⟨pipelineWorker pipelineHandler
        { acceptedConn.receive (chunk.take readWindow) 1 with
          toConn := (acceptedConn.receive (chunk.take readWindow) 1).toConn.takeFrames.1 } 1 0,
      .decode ⟨0⟩ (acceptedConn.receive (chunk.take readWindow) 1).toConn.takeFrames.2 false []⟩) := fun _ => rfl
  have hstep : Transport.EventLoop.Step (serverHandler signedResponseCrypto)
      ⟨pipelineWorker pipelineHandler acceptedConn 1 0, .serve [⟨⟨0⟩, true, false⟩]⟩
      (.read (.octets oneChunk) 1, .read ⟨0⟩ oneChunk)
      ⟨pipelineWorker pipelineHandler oneConn 1 0, .decode ⟨0⟩ [pipelined 1] false []⟩ := by
    rw [Transport.EventLoop.Step, hnext, htake, hframes]
    rfl
  exact .single hstep rfl

theorem handed_roomy {h h' : BindingHandler} {n : UInt8} (conn : Conn) (packets : Nat)
    (hstun : h.onTcpStun signedResponseCrypto sampleEnv (pipelined n) ⟨0⟩ = .ok h') :
    Roomy (serverHandler signedResponseCrypto) ⟨pipelineWorker h conn 1 packets, .decode ⟨0⟩ [pipelined n] false []⟩
      ⟨pipelineWorker h' conn 1 (packets + 1), .drainReplies⟩ := by
  have hcall : (serverHandler signedResponseCrypto).onTcpStun h sampleEnv (pipelined n) ⟨0⟩ = some h' := by
    rw [serverHandler]
    dsimp only
    rw [hstun]
  have hstep : Transport.EventLoop.Step (serverHandler signedResponseCrypto)
      ⟨pipelineWorker h conn 1 packets, .decode ⟨0⟩ [pipelined n] false []⟩ (.call sampleEnv, .tcpStun (pipelined n) ⟨0⟩)
      ⟨pipelineWorker h' conn 1 (packets + 1), .decode ⟨0⟩ [] false []⟩ := by
    change Option.map _ ((serverHandler signedResponseCrypto).onTcpStun h sampleEnv (pipelined n) ⟨0⟩) = _
    rw [hcall]
    rfl
  have hrest : roomily ⟨pipelineWorker h' conn 1 (packets + 1), .decode ⟨0⟩ [] false []⟩ [.silent, .silent, .silent] =
      some (true, ⟨pipelineWorker h' conn 1 (packets + 1), .drainReplies⟩) := rfl
  exact (Roomy.single hstep rfl).trans (Roomy.exec hrest)

theorem oneConn_canWrite : oneConn.canWrite (pipelinedReply 1).length = true := by
  have hlen : oneConn.writeBuf.length = Transport.frameCap := zeros_length _
  rw [Conn.canWrite, hlen]
  rfl

theorem armed_remaining {c : Conn} {p : Payload} (h : c.canWrite p.octets.length) :
    (c.takeWrite p.octets).2.writeRemaining = wireFrame p.octets := Conn.takeWrite_slice h

def oneBusy : Conn := (oneConn.takeWrite (pipelinedReply 1)).2

def oneLeft : BindingHandler := { answeredOne pipelineHandler 1 with outbox := [] }

theorem place_one : Roomy (serverHandler signedResponseCrypto)
    ⟨pipelineWorker (answeredOne pipelineHandler 1) oneConn 1 1, .drainReplies⟩
    ⟨pipelineWorker oneLeft oneBusy 1 1, .drainReplies⟩ := by
  have hnext : (Loop.mk (pipelineWorker (answeredOne pipelineHandler 1) oneConn 1 1) .drainReplies).next
      (serverHandler signedResponseCrypto) .silent =
    if oneConn.canWrite (pipelinedReply 1).length then
      some (.place (pipelinedQueued 1),
        ⟨pipelineWorker oneLeft (oneConn.takeWrite (pipelinedReply 1)).2 1 1, .drainReplies⟩)
    else some (.putBack (pipelinedQueued 1), (pipelineWorker (oneLeft.enqueue (pipelinedQueued 1)) oneConn 1 1).endTick) := rfl
  have hstep : Transport.EventLoop.Step (serverHandler signedResponseCrypto)
      ⟨pipelineWorker (answeredOne pipelineHandler 1) oneConn 1 1, .drainReplies⟩ (.silent, .place (pipelinedQueued 1))
      ⟨pipelineWorker oneLeft oneBusy 1 1, .drainReplies⟩ := by
    rw [Transport.EventLoop.Step, hnext, if_pos oneConn_canWrite, oneBusy]
  exact .single hstep rfl

/-- The socket had room when the reply was placed. -/
theorem one_awaited : ∃ (s : Writing BindingHandler) (c : Conn), s.loop.worker.conns.get ⟨0⟩ = some c ∧
    c.writeRemaining = wireFrame (pipelinedReply 1) ∧ (s.outlets ⟨0⟩).interest ∧ (s.outlets ⟨0⟩).edge := by
  have hstart : roomily (startLoop ⟨300, 5, none⟩ (startHandler [] none (some sampleIdentity)) true true) acceptAndPoll =
      some (true, ⟨pipelineWorker pipelineHandler acceptedConn 1 0, .serve [⟨⟨0⟩, true, false⟩]⟩) := rfl
  obtain ⟨hist, o, hrun, hroom⟩ := ((((Roomy.exec hstart).trans read_one).trans (handed_roomy oneConn 0 answered_first)).trans place_one).run
    (o := fun _ => ⟨false, true, false⟩) fun _ => rfl
  have hheld : oneBusy.writeRemaining = wireFrame (pipelinedReply 1) := by
    rw [oneBusy]
    exact armed_remaining (p := ⟨pipelinedReply 1, pipelinedReply_fits 1⟩) oneConn_canWrite
  have hne : oneBusy.writeRemaining ≠ [] := by
    rw [hheld]
    exact List.cons_ne_nil _ _
  have hlive : (pipelineWorker oneLeft oneBusy 1 1).conns.get ⟨0⟩ = some oneBusy := rfl
  obtain ⟨hasked, hedge⟩ := reply_awaited signedResponseCrypto hrun rfl hlive
  exact ⟨_, oneBusy, rfl, hheld, hasked.mpr hne, hedge hne (hroom _)⟩

end QuickRelay.Server
