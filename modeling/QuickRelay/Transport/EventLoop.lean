import QuickRelay.Binding.Response
import QuickRelay.Lib.Runs
import QuickRelay.Transport.Connections

/-! The worker's event loop, one system call or handler call at a time. What the operating
system answers a step goes in; what the step did comes out. -/
namespace QuickRelay.Transport.EventLoop
open Lib
open Binding (SocketAddr)

def udpDrainBatch : Nat := 128
def acceptBatch : Nat := 128
def readWindow : Nat := 16 * 1024

/-- The timeouts are added to instants, which panics if the sum has none. The model assumes that
it has one; the binary's are 300 and five seconds. -/
structure WorkerConfig where
  connIdleTimeout : Nat
  halfOpenTimeout : Nat
  maxTicks : Option Nat
  deriving DecidableEq, Repr

structure WorkerStats where
  ticks : Nat
  udpPackets : Nat
  accepts : Nat
  dropped : Nat
  tcpPackets : Nat
  deriving DecidableEq, Repr

/-- The handler that traffic goes up to, and its outbox. An `ε` is what the operating
system answers the handler during one call; a call that panics gives `none`. -/
structure Handler (ε H : Type) where
  onStun : H → ε → Bytes → Bytes → Option H
  onTcpConnect : H → ConnectionId → H
  onTcpStun : H → ε → Bytes → ConnectionId → Option H
  onTcpError : H → ConnectionId → H
  takeReply : H → Option QueuedReply × H
  queueReply : H → QueuedReply → H

/-- `udp` and `listener` say which sockets are attached. -/
structure Worker (H : Type) where
  config : WorkerConfig
  handler : H
  udp : Bool
  listener : Bool
  conns : ConnMgr
  stats : WorkerStats

/-- The raw form of a peer's address: the address octets, then the port. -/
def rawAddr (addr : SocketAddr) : Bytes :=
  match addr.ip with
  | .v4 octets => octets.val ++ u16ToBe addr.port
  | .v6 octets => octets.val ++ u16ToBe addr.port

/-! ### What goes in and what comes out -/

inductive Recv where
  | datagram (octets : Bytes) (src : SocketAddr)
  | notReady
  | failed
  deriving DecidableEq, Repr

inductive Accept where
  | stream (handle : Nat)
  | notReady
  | failed
  deriving DecidableEq, Repr

inductive TryWrite where
  | notReady
  | failed
  | wrote (n : Nat)
  deriving DecidableEq, Repr

structure PollEvent where
  token : UInt64
  readable : Bool
  writable : Bool
  error : Bool
  readClosed : Bool
  writeClosed : Bool
  deriving DecidableEq, Repr

def PollEvent.closed (e : PollEvent) : Bool := e.error || e.readClosed || e.writeClosed

/-- What the operating system answers a step: the stop flag and the clock, the events, or
the result of one call. -/
inductive Answer (ε : Type) where
  | silent
  | clock (stop : Bool) (now : Nat)
  | poll (events : Option (List PollEvent)) (stop : Bool)
  | recv (env : ε) (received : Recv)
  | accept (accepted : Accept)
  | register (ok : Bool) (now : Nat)
  | read (read : TryRead) (now : Nat)
  | call (env : ε)
  | write (written : TryWrite) (now : Nat)

/-- What a step did, beside moving on. -/
inductive Act where
  | idle
  | stun (datagram src : Bytes)
  | refuse (stream : Nat)
  | connect (id : ConnectionId) (stream : Nat)
  | read (id : ConnectionId) (chunk : Bytes)
  | tcpStun (payload : Bytes) (id : ConnectionId)
  | write (id : ConnectionId)
  | place (reply : QueuedReply)
  | putBack (reply : QueuedReply)
  | skip (reply : QueuedReply)
  | drop (id : ConnectionId)
  deriving DecidableEq, Repr

structure Ready where
  id : ConnectionId
  readable : Bool
  writable : Bool
  deriving DecidableEq, Repr

/-- The dispatch of one poll: the events to come, the connections to serve, and whether
the wake event was among those seen. -/
structure Dispatch where
  events : List PollEvent
  ready : List Ready
  woken : Bool
  deriving DecidableEq, Repr

/-- Where in `run` the worker is. -/
inductive Phase where
  | top
  | reclaim (doomed : List ConnectionId)
  | poll
  | dispatch (rest : Dispatch)
  | drainUdp (left : Nat) (rest : Dispatch)
  | acceptAll (left : Nat) (streams : List Nat) (rest : Dispatch)
  | drainAccepts (streams : List Nat) (rest : Dispatch)
  | serve (ready : List Ready)
  | decode (id : ConnectionId) (frames : List Bytes) (writable : Bool) (ready : List Ready)
  | drainWrite (id : ConnectionId) (writable : Bool) (ready : List Ready)
  | drainReplies
  | stopped
  deriving DecidableEq, Repr

structure Loop (H : Type) where
  worker : Worker H
  phase : Phase

/-! ### The worker's functions -/

namespace Worker
variable {ε H : Type} (api : Handler ε H) (w : Worker H)

def drop (id : ConnectionId) : Act × Worker H :=
  match w.conns.get id with
  | none => (.idle, w)
  | some _ =>
    (.drop id, { w with
      conns := w.conns.remove id, stats := { w.stats with dropped := w.stats.dropped + 1 },
      handler := api.onTcpError w.handler id })

/-- The connections past their deadline. -/
def doomed (now : Nat) : List ConnectionId :=
  w.conns.ids.filter fun id =>
    match (w.conns.get id).bind (·.deadline w.config.connIdleTimeout) with
    | some d => d ≤ now
    | none => false

def reclaim : List ConnectionId → Answer ε → Option (Act × Loop H)
  | [], .silent => some (.idle, ⟨w, .poll⟩)
  | id :: doomed, .silent => some ((w.drop api id).1, ⟨(w.drop api id).2, .reclaim doomed⟩)
  | _, _ => none

/-- The end of a tick. -/
def endTick : Loop H :=
  let w := { w with stats := { w.stats with ticks := w.stats.ticks + 1 } }
  match w.config.maxTicks with
  | some n => ⟨w, if n ≤ w.stats.ticks then .stopped else .top⟩
  | none => ⟨w, .top⟩

def poll : Answer ε → Option (Act × Loop H)
  | .poll none _ => some (.idle, ⟨w, .stopped⟩)
  | .poll (some events) stop =>
    if stop then some (.idle, ⟨w, .stopped⟩)
    else if events.isEmpty then some (.idle, w.endTick)
    else some (.idle, ⟨w, .dispatch ⟨events, [], false⟩⟩)
  | _ => none

def dispatch (rest : Dispatch) : Answer ε → Option (Act × Loop H)
  | .silent =>
    match rest.events with
    | [] => some (.idle, ⟨w, if rest.woken then .stopped else .serve rest.ready⟩)
    | e :: events =>
      if e.token = eventWake then some (.idle, ⟨w, .dispatch ⟨events, rest.ready, true⟩⟩)
      else if e.token = eventUdp then
        some (.idle, ⟨w, if w.udp then .drainUdp udpDrainBatch { rest with events } else .dispatch { rest with events }⟩)
      else if e.token = eventTcpListen then
        some (.idle, ⟨w,
          if w.listener then .acceptAll acceptBatch [] { rest with events } else .dispatch { rest with events }⟩)
      else match tokenConn e.token with
        | none => some (.idle, ⟨w, .dispatch { rest with events }⟩)
        | some id =>
          if e.closed then some ((w.drop api id).1, ⟨(w.drop api id).2, .dispatch { rest with events }⟩)
          else some (.idle, ⟨w, .dispatch ⟨events, rest.ready ++ [⟨id, e.readable, e.writable⟩], rest.woken⟩⟩)
  | _ => none

/-- One round of the loop over `recv_from`. -/
def drainUdp (rest : Dispatch) : Nat → Answer ε → Option (Act × Loop H)
  | 0, .silent => some (.idle, ⟨w, .dispatch rest⟩)
  | left + 1, .recv env (.datagram octets src) =>
    if octets.isEmpty then some (.idle, ⟨w, .drainUdp left rest⟩)
    else (api.onStun w.handler env octets (rawAddr src)).map fun h =>
      (.stun octets (rawAddr src),
        ⟨{ w with handler := h, stats := { w.stats with udpPackets := w.stats.udpPackets + 1 } }, .drainUdp left rest⟩)
  | _ + 1, .recv _ .notReady => some (.idle, ⟨w, .dispatch rest⟩)
  | _ + 1, .recv _ .failed => some (.idle, ⟨w, .dispatch rest⟩)
  | _, _ => none

/-- One round of `accept_all`; a failure loses the streams accepted before it. -/
def acceptAll (streams : List Nat) (rest : Dispatch) : Nat → Answer ε → Option (Act × Loop H)
  | 0, .silent => some (.idle, ⟨w, .drainAccepts streams rest⟩)
  | left + 1, .accept (.stream handle) => some (.idle, ⟨w, .acceptAll left (streams ++ [handle]) rest⟩)
  | _ + 1, .accept .notReady => some (.idle, ⟨w, .drainAccepts streams rest⟩)
  | _ + 1, .accept .failed => some (.idle, ⟨w, .dispatch rest⟩)
  | _, _ => none

/-- A connection for an accepted stream. -/
def accepted (stream now : Nat) : Conn :=
  { Conn.new stream now with halfOpenDeadline := some (now + w.config.halfOpenTimeout) }

def drainAccepts (rest : Dispatch) : List Nat → Answer ε → Option (Act × Loop H)
  | [], .silent => some (.idle, ⟨w, .dispatch rest⟩)
  | stream :: streams, answer =>
    match w.conns.alloc, answer with
    | none, .silent => some (.refuse stream, ⟨w, .drainAccepts streams rest⟩)
    | some (id, conns), .register ok now =>
      if ok then
        some (.connect id stream,
          ⟨{ w with
            conns := conns.insert id (w.accepted stream now), handler := api.onTcpConnect w.handler id,
            stats := { w.stats with accepts := w.stats.accepts + 1 } }, .drainAccepts streams rest⟩)
      else some (.refuse stream, ⟨{ w with conns := conns.remove id }, .drainAccepts streams rest⟩)
    | _, _ => none
  | _, _ => none

/-- `drain_read`, up to the handing over. -/
def drainRead (id : ConnectionId) (conn : Conn) (writable : Bool) (ready : List Ready) : Answer ε → Option (Act × Loop H)
  | .read .notReady _ => some (.idle, ⟨w, .drainWrite id writable ready⟩)
  | .read .failed _ => some ((w.drop api id).1, ⟨(w.drop api id).2, .drainWrite id writable ready⟩)
  | .read (.octets chunk) now =>
    let conn := conn.receive (chunk.take readWindow) now
    some (.read id (chunk.take readWindow),
      ⟨{ w with conns := w.conns.insert id { conn with toConn := conn.toConn.takeFrames.1 } },
        .decode id conn.toConn.takeFrames.2 writable ready⟩)
  | _ => none

def serve : List Ready → Answer ε → Option (Act × Loop H)
  | [], .silent => some (.idle, ⟨w, .drainReplies⟩)
  | r :: ready, answer =>
    match w.conns.get r.id, r.readable, answer with
    | none, _, .silent => some (.idle, ⟨w, .serve ready⟩)
    | some conn, true, answer => w.drainRead api r.id conn r.writable ready answer
    | some _, false, .silent => some (.idle, ⟨w, .drainWrite r.id r.writable ready⟩)
    | _, _, _ => none
  | _, _ => none

/-- The loop over the decoded packets. -/
def handOver (id : ConnectionId) (writable : Bool) (ready : List Ready) : List Bytes → Answer ε → Option (Act × Loop H)
  | [], .silent => some (.idle, ⟨w, .drainWrite id writable ready⟩)
  | payload :: frames, answer =>
    let w := { w with stats := { w.stats with tcpPackets := w.stats.tcpPackets + 1 } }
    match w.conns.get id, answer with
    | none, .silent => some (.idle, ⟨w, .drainWrite id writable ready⟩)
    | some _, .call env => (api.onTcpStun w.handler env payload id).map fun h =>
      (.tcpStun payload id, ⟨{ w with handler := h }, .decode id frames writable ready⟩)
    | _, _ => none
  | _, _ => none

def drainWrite (id : ConnectionId) (conn : Conn) (ready : List Ready) (answer : Answer ε) : Option (Act × Loop H) :=
  match conn.hasWrite, answer with
  | false, .silent =>
    some (.write id, ⟨{ w with conns := w.conns.insert id { conn with pendingWrite := false } }, .serve ready⟩)
  | true, .write .notReady _ =>
    some (.write id, ⟨{ w with conns := w.conns.insert id { conn with pendingWrite := true } }, .serve ready⟩)
  | true, .write (.wrote n) now =>
    let conn := (conn.advanceWrite n).noteActive now
    some (.write id, ⟨{ w with conns := w.conns.insert id { conn with pendingWrite := conn.hasWrite } }, .serve ready⟩)
  | true, .write .failed _ => some ((w.drop api id).1, ⟨(w.drop api id).2, .serve ready⟩)
  | _, _ => none

def serveWrite (id : ConnectionId) (writable : Bool) (ready : List Ready) (answer : Answer ε) : Option (Act × Loop H) :=
  match w.conns.get id, writable, answer with
  | some conn, true, answer => w.drainWrite api id conn ready answer
  | _, _, .silent => some (.idle, ⟨w, .serve ready⟩)
  | _, _, _ => none

/-- One round of `drain_replies`. -/
def drainReplies : Answer ε → Option (Act × Loop H)
  | .silent =>
    match api.takeReply w.handler with
    | (none, h) => some (.idle, { w with handler := h }.endTick)
    | (some reply, h) =>
      let w := { w with handler := h }
      match w.conns.get reply.id with
      | none => some (.skip reply, ⟨w, .drainReplies⟩)
      | some conn =>
        if conn.canWrite reply.payload.length then
          some (.place reply, ⟨{ w with conns := w.conns.insert reply.id (conn.takeWrite reply.payload).2 }, .drainReplies⟩)
        else some (.putBack reply, { w with handler := api.queueReply h reply }.endTick)
  | _ => none

end Worker

/-- One step of `run`. -/
def Loop.next {ε H : Type} (api : Handler ε H) (s : Loop H) (answer : Answer ε) : Option (Act × Loop H) :=
  match s.phase with
  | .top =>
    match answer with
    | .clock stop now => some (.idle, ⟨s.worker, if stop then .stopped else .reclaim (s.worker.doomed now)⟩)
    | _ => none
  | .reclaim doomed => s.worker.reclaim api doomed answer
  | .poll => s.worker.poll answer
  | .dispatch rest => s.worker.dispatch api rest answer
  | .drainUdp left rest => s.worker.drainUdp api rest left answer
  | .acceptAll left streams rest => s.worker.acceptAll streams rest left answer
  | .drainAccepts streams rest => s.worker.drainAccepts api rest streams answer
  | .serve ready => s.worker.serve api ready answer
  | .decode id frames writable ready => s.worker.handOver api id writable ready frames answer
  | .drainWrite id writable ready => s.worker.serveWrite api id writable ready answer
  | .drainReplies => s.worker.drainReplies api answer
  | .stopped => none

/-- A step that neither panics nor is answered what it did not ask. -/
def Step {ε H : Type} (api : Handler ε H) (s : Loop H) (label : Answer ε × Act) (s' : Loop H) : Prop :=
  s.next api label.1 = some (label.2, s')

abbrev History (ε H : Type) := List (Loop H × (Answer ε × Act))

/-- The loop on given answers. -/
def Loop.exec {ε H : Type} (api : Handler ε H) (s : Loop H) : List (Answer ε) → Option (History ε H × Loop H)
  | [] => some ([], s)
  | answer :: answers =>
    match s.next api answer with
    | none => none
    | some (act, t) => (t.exec api answers).map fun r => ((s, (answer, act)) :: r.1, r.2)

theorem Loop.exec_run {ε H : Type} {api : Handler ε H} {answers : List (Answer ε)} {s t : Loop H} {hist : History ε H}
    (h : s.exec api answers = some (hist, t)) : Run (Step api) s hist t := by
  induction answers generalizing s hist with
  | nil =>
    cases h
    exact .refl
  | cons answer answers ih =>
    rw [exec] at h
    split at h
    case h_1 => cases h
    case h_2 act u hnext =>
      obtain ⟨⟨rest, t'⟩, hrest, heq⟩ := Option.map_eq_some_iff.mp h
      cases heq
      have hfirst : Run (Step api) s [(s, (answer, act))] u := Run.snoc .refl hnext
      exact hfirst.trans (ih hrest)

end QuickRelay.Transport.EventLoop
