import QuickRelay.Transport.Kernel
import QuickRelay.Transport.Lifecycle
import QuickRelay.Transport.Phases

/-! Readiness that is not lost: whatever is queued on a socket either has its edge still, or
the loop is on its way to it. -/
namespace QuickRelay.Transport.EventLoop
open Lib

variable {ε H : Type} {api : Handler ε H}

/-- The events of the last poll that are still to be looked at. -/
def Phase.events : Phase → List PollEvent
  | .dispatch rest => rest.events
  | .drainUdp _ rest => rest.events
  | .acceptAll _ _ rest => rest.events
  | .drainAccepts _ rest => rest.events
  | _ => []

/-- The connections that are still to be served. -/
def Phase.ready : Phase → List Ready
  | .dispatch rest => rest.ready
  | .drainUdp _ rest => rest.ready
  | .acceptAll _ _ rest => rest.ready
  | .drainAccepts _ rest => rest.ready
  | .serve ready => ready
  | .decode _ _ _ ready => ready
  | .drainWrite _ _ ready => ready
  | _ => []

/-- How much of its batch a drain has left. -/
def Phase.udpLeft : Phase → Nat
  | .drainUdp left _ => left
  | _ => 0

def Phase.acceptLeft : Phase → Nat
  | .acceptAll left _ _ => left
  | _ => 0

/-- The connection whose write side comes next, and with it a new registration. -/
def Phase.rewrites : Phase → Option ConnectionId
  | .decode id _ writable _ => if writable then some id else none
  | .drainWrite id writable _ => if writable then some id else none
  | _ => none

def Phase.Attends (p : Phase) (id : ConnectionId) : Prop :=
  (∃ e ∈ p.events, tokenConn e.token = some id ∧ e.readable) ∨ (∃ r ∈ p.ready, r.id = id ∧ r.readable) ∨ p.rewrites = some id

def Stream.Tended (s : Stream) (p : Phase) (id : ConnectionId) : Prop := s.edge ∨ s.rx = [] ∨ p.Attends id

/-- The three sources. A live connection's socket is registered under its id. -/
structure Covered (w : Worker H) (k : Kernel) (p : Phase) : Prop where
  udp : w.udp → k.udpEdge ∨ (∃ e ∈ p.events, e.token = eventUdp) ∨ k.udp.length ≤ p.udpLeft
  listener : w.listener → k.listenEdge ∨ (∃ e ∈ p.events, e.token = eventTcpListen) ∨ k.backlog.length ≤ p.acceptLeft
  registered : ∀ id c, w.conns.get id = some c → (k.streams c.stream).registered = some id
  conns : ∀ id c, w.conns.get id = some c → (k.streams c.stream).Tended p id

/-- The drains come to the end of what they drain: a batch is enough for the queue, a call
fails on an empty queue only, and a read takes all that waits or a write follows it. -/
def System.Drains (s : System H) (answer : Answer ε) : Prop :=
  match s.loop.phase, answer with
  | .dispatch ⟨e :: _, _, _⟩, _ =>
    (e.token = eventUdp → s.kernel.udp.length ≤ udpDrainBatch) ∧ (e.token = eventTcpListen → s.kernel.backlog.length ≤ acceptBatch)
  | .drainUdp _ _, .recv _ .failed => s.kernel.udp = []
  | .acceptAll _ _ _, .accept .failed => s.kernel.backlog = []
  | .serve (r :: _), .read (.octets chunk) _ =>
    r.writable ∨ ∀ c, s.loop.worker.conns.get r.id = some c → (s.kernel.streams c.stream).rx = chunk
  | _, _ => True

theorem Kernel.answer_plain {k : Kernel} {s : Loop H} {answer : Answer ε} (h : answer.plain) : k.answer s answer = some k := by
  cases answer with
  | poll events stop =>
    cases events with
    | none => cases h
    | some events =>
      cases events with
      | nil => rfl
      | cons => cases h
  | register ok now =>
    cases ok with
    | false => rfl
    | true => cases h
  | recv => cases h
  | accept => cases h
  | read => cases h
  | _ => rfl

theorem Loop.current_serve (w : Worker H) (r : Ready) (ready : List Ready) :
    (Loop.mk w (.serve (r :: ready))).current = (w.conns.get r.id).map Conn.stream := rfl

/-- A socket is registered once only. -/
theorem Kernel.answer_register {k k₁ : Kernel} {s : Loop H} {now : Nat}
    (h : k.answer s (.register true now : Answer ε) = some k₁) :
    k₁ = k ∧ ∃ handle, s.current = some handle ∧ (k.streams handle).registered = none := by
  obtain ⟨handle, hcur, h⟩ := Option.bind_eq_some_iff.mp h
  split at h
  case isTrue hnone =>
    cases h
    exact ⟨rfl, handle, hcur, hnone⟩
  case isFalse => cases h

theorem Kernel.answer_notReady {k k₁ : Kernel} {s : Loop H} {now : Nat}
    (h : k.answer s (.read .notReady now : Answer ε) = some k₁) :
    k₁ = k ∧ ∃ handle, s.current = some handle ∧ (k.streams handle).rx = [] ∧ ¬ (k.streams handle).fin := by
  obtain ⟨handle, hcur, h⟩ := Option.bind_eq_some_iff.mp h
  split at h
  case isTrue => cases h
  case isFalse hready =>
    cases h
    rw [Stream.ready, Bool.or_eq_true, not_or, Bool.not_eq_true', Bool.not_eq_false, List.isEmpty_iff] at hready
    exact ⟨rfl, handle, hcur, hready⟩

theorem Kernel.answer_octets {k k₁ : Kernel} {s : Loop H} {chunk : Bytes} {now : Nat}
    (h : k.answer s (.read (.octets chunk) now : Answer ε) = some k₁) :
    ∃ handle, s.current = some handle ∧ chunk.take readWindow = chunk ∧
      (k.streams handle).rx = chunk ++ (k.streams handle).rx.drop chunk.length ∧
      k₁ = k.update handle fun s => { s with rx := s.rx.drop chunk.length } := by
  obtain ⟨handle, hcur, h⟩ := Option.bind_eq_some_iff.mp h
  split at h
  case isTrue hchunk =>
    cases h
    exact ⟨handle, hcur, List.take_of_length_le hchunk.2.1, (List.prefix_iff_eq_append.mp hchunk.2.2).symm, rfl⟩
  case isFalse => cases h

theorem Kernel.answer_datagram {k k₁ : Kernel} {s : Loop H} {env : ε} {octets : Bytes} {src : Binding.SocketAddr}
    (h : k.answer s (.recv env (.datagram octets src)) = some k₁) : ∃ d, k.udp = d :: k₁.udp ∧ k₁ = { k with udp := k₁.udp } := by
  rw [answer] at h
  split at h
  case h_1 octets' src' udp hq =>
    split at h
    case isTrue =>
      cases h
      exact ⟨_, hq, rfl⟩
    case isFalse => cases h
  case h_2 => cases h

theorem Kernel.answer_stream {k k₁ : Kernel} {s : Loop H} {handle : Nat}
    (h : k.answer s (.accept (.stream handle) : Answer ε) = some k₁) :
    k.backlog = handle :: k₁.backlog ∧ k₁ = { k with backlog := k₁.backlog } := by
  rw [answer] at h
  split at h
  case h_1 handle' backlog hq =>
    split at h
    case isTrue heq =>
      cases h
      exact ⟨heq ▸ hq, rfl⟩
    case isFalse => cases h
  case h_2 => cases h

/-- A call that says there is no more says the queue is empty. -/
theorem Kernel.answer_noDatagram {k k₁ : Kernel} {s : Loop H} {env : ε} (h : k.answer s (.recv env .notReady) = some k₁) :
    k₁ = k ∧ k.udp = [] := by
  rw [answer] at h
  split at h
  case isTrue he =>
    cases h
    exact ⟨rfl, List.isEmpty_iff.mp he⟩
  case isFalse => cases h

theorem Kernel.answer_noStream {k k₁ : Kernel} {s : Loop H} (h : k.answer s (.accept .notReady : Answer ε) = some k₁) :
    k₁ = k ∧ k.backlog = [] := by
  rw [answer] at h
  split at h
  case isTrue he =>
    cases h
    exact ⟨rfl, List.isEmpty_iff.mp he⟩
  case isFalse => cases h

theorem Does.sockets {w w' : Worker H} {phase : Phase} {label : Answer ε × Act} (h : Does api w phase label w') :
    w'.udp = w.udp ∧ w'.listener = w.listener := by
  cases h <;> exact ⟨rfl, rfl⟩

/-- Calls about streams leave the datagram socket and the listener alone. -/
theorem Kernel.answer_streams {k k₁ : Kernel} {s : Loop H} {answer : Answer ε} (h : k.answer s answer = some k₁)
    (ha : answer.plain ∨ (∃ now, answer = .register true now) ∨ (∃ now, answer = .read .notReady now) ∨
      ∃ chunk now, answer = .read (.octets chunk) now) : ∃ streams, k₁ = { k with streams } := by
  rcases ha with ha | ⟨now, rfl⟩ | ⟨now, rfl⟩ | ⟨chunk, now, rfl⟩
  · rw [answer_plain ha] at h
    cases h
    exact ⟨_, rfl⟩
  · exact ⟨_, (answer_register h).1⟩
  · exact ⟨_, (answer_notReady h).1⟩
  · obtain ⟨handle, -, -, -, rfl⟩ := answer_octets h
    exact ⟨_, rfl⟩

/-! ### The datagram socket and the listener -/

theorem later_event {e : PollEvent} {events : List PollEvent} {token : UInt64} (hne : e.token ≠ token)
    (h : ∃ x ∈ e :: events, x.token = token) : ∃ x ∈ events, x.token = token := by
  obtain ⟨x, hx, htoken⟩ := h
  rcases List.mem_cons.mp hx with rfl | hx
  · exact absurd htoken hne
  · exact ⟨x, hx, htoken⟩

theorem tokenConn_ne {token : UInt64} {id : ConnectionId} (h : tokenConn token = some id) :
    token ≠ eventUdp ∧ token ≠ eventTcpListen := by
  constructor
  · rintro rfl
    cases h
  · rintro rfl
    cases h

section
variable {w : Worker H} {k k₁ : Kernel} {p p' : Phase} {answer : Answer ε} {act : Act}

theorem Phase.resting_events (h : p.resting) : p.events = [] ∧ p.udpLeft = 0 ∧ p.acceptLeft = 0 := by
  cases p <;> first | exact ⟨rfl, rfl, rfl⟩ | cases h

/-- The two sockets of a worker that are not connections. -/
inductive Port where
  | udp
  | listener

namespace Port

def token : Port → UInt64
  | .udp => eventUdp
  | .listener => eventTcpListen

def attached (w : Worker H) : Port → Bool
  | .udp => w.udp
  | .listener => w.listener

def edge (k : Kernel) : Port → Bool
  | .udp => k.udpEdge
  | .listener => k.listenEdge

def waiting (k : Kernel) : Port → Nat
  | .udp => k.udp.length
  | .listener => k.backlog.length

def left (p : Phase) : Port → Nat
  | .udp => p.udpLeft
  | .listener => p.acceptLeft

/-- The socket has its edge, or an event of its own to come, or enough of a batch left. -/
def Watched (port : Port) (k : Kernel) (p : Phase) : Prop :=
  port.edge k ∨ (∃ e ∈ p.events, e.token = port.token) ∨ port.waiting k ≤ port.left p

theorem resting_left (port : Port) (h : p.resting) : port.left p = 0 := by
  obtain ⟨-, hudp, haccept⟩ := Phase.resting_events h
  cases port with
  | udp => exact hudp
  | listener => exact haccept

/-- The event of a connection is of neither. -/
theorem token_ne (port : Port) {token : UInt64} {id : ConnectionId} (h : tokenConn token = some id) : token ≠ port.token := by
  cases port with
  | udp => exact (tokenConn_ne h).1
  | listener => exact (tokenConn_ne h).2

theorem report_edge (port : Port) {conns : ConnMgr} {events : List PollEvent} (h : Kernel.Reported conns k events k₁)
    (he : port.edge k) : port.edge k₁ ∨ ∃ e ∈ events, e.token = port.token := by
  cases port with
  | udp => exact h.udpEdge he
  | listener => exact h.listenEdge he

theorem report_waiting (port : Port) {conns : ConnMgr} {events : List PollEvent} (h : Kernel.Reported conns k events k₁) :
    port.waiting k₁ = port.waiting k := by
  cases port with
  | udp => exact congrArg List.length h.udp
  | listener => exact congrArg List.length h.backlog

/-- The streams are no matter of a port. -/
theorem Watched.streams {port : Port} {streams : Nat → Stream} (h : port.Watched k p) : port.Watched { k with streams } p := by
  cases port with
  | udp => exact h
  | listener => exact h

end Port

/-- Only a poll takes a port's edge, and only its drain takes its event. -/
theorem Moves.watched (port : Port) (h : Moves w p (answer, act) p') (hk : k.answer ⟨w, p⟩ answer = some k₁)
    (hd : System.Drains ⟨⟨w, p⟩, k⟩ answer) (hsock : port.attached w) (hc : port.Watched k p) (hrun : p' ≠ .stopped) :
    port.Watched k₁ p' := by
  cases h with
  | stop => exact absurd rfl hrun
  | rest hp hp' _ hplain =>
    obtain ⟨_, rfl⟩ := Kernel.answer_streams hk (.inl hplain)
    refine Port.Watched.streams ?_
    rw [Port.Watched, (Phase.resting_events hp).1, port.resting_left hp] at hc
    rw [Port.Watched, (Phase.resting_events hp').1, port.resting_left hp']
    exact hc
  | polled =>
    have hrep := Kernel.report_reported hk
    rcases hc with hc | ⟨e, he, -⟩ | hc
    · exact (port.report_edge hrep hc).imp_right .inl
    · cases he
    · exact .inr (.inr (port.report_waiting hrep ▸ hc))
  | passed hudp hlisten _ =>
    cases hk
    cases port with
    | udp => exact hc.imp_right (Or.imp_left (later_event fun htoken => hudp htoken hsock))
    | listener => exact hc.imp_right (Or.imp_left (later_event fun htoken => hlisten htoken hsock))
  | datagrams htoken =>
    cases hk
    cases port with
    | udp => exact .inr (.inr (hd.1 htoken))
    | listener => exact hc.imp_right (Or.imp_left (later_event fun hlisten => by cases htoken.symm.trans hlisten))
  | connections htoken =>
    cases hk
    cases port with
    | udp => exact hc.imp_right (Or.imp_left (later_event fun hudp => by cases htoken.symm.trans hudp))
    | listener => exact .inr (.inr (hd.2 htoken))
  | cut htoken _ _ =>
    cases hk
    exact hc.imp_right (Or.imp_left (later_event (port.token_ne htoken)))
  | readied htoken _ =>
    cases hk
    exact hc.imp_right (Or.imp_left (later_event (port.token_ne htoken)))
  | datagram _ =>
    obtain ⟨d, hq, heq⟩ := Kernel.answer_datagram hk
    rw [heq]
    cases port with
    | udp =>
      rw [Port.Watched, Port.waiting, hq, List.length_cons] at hc
      exact hc.imp_right (Or.imp_right Nat.le_of_succ_le_succ)
    | listener => exact hc
  | allRead =>
    obtain ⟨rfl, hempty⟩ := Kernel.answer_noDatagram hk
    cases port with
    | udp => exact .inr (.inr (Nat.le_of_eq (congrArg List.length hempty)))
    | listener => exact hc
  | recvFailed =>
    cases hk
    cases port with
    | udp => exact .inr (.inr (Nat.le_of_eq (congrArg List.length hd)))
    | listener => exact hc
  | accepted =>
    obtain ⟨hq, heq⟩ := Kernel.answer_stream hk
    rw [heq]
    cases port with
    | udp => exact hc
    | listener =>
      rw [Port.Watched, Port.waiting, hq, List.length_cons] at hc
      exact hc.imp_right (Or.imp_right Nat.le_of_succ_le_succ)
  | allAccepted =>
    obtain ⟨rfl, hempty⟩ := Kernel.answer_noStream hk
    cases port with
    | udp => exact hc
    | listener => exact .inr (.inr (Nat.le_of_eq (congrArg List.length hempty)))
  | acceptFailed =>
    cases hk
    cases port with
    | udp => exact hc
    | listener => exact .inr (.inr (Nat.le_of_eq (congrArg List.length hd)))
  | connected =>
    obtain ⟨_, rfl⟩ := Kernel.answer_streams hk (.inr (.inl ⟨_, rfl⟩))
    exact hc.streams
  | notReady =>
    obtain ⟨_, rfl⟩ := Kernel.answer_streams hk (.inr (.inr (.inl ⟨_, rfl⟩)))
    exact hc.streams
  | read =>
    obtain ⟨_, rfl⟩ := Kernel.answer_streams hk (.inr (.inr (.inr ⟨_, _, rfl⟩)))
    exact hc.streams
  | refused hplain =>
    obtain ⟨_, rfl⟩ := Kernel.answer_streams hk (.inl hplain)
    exact hc.streams
  | wrote _ hplain =>
    obtain ⟨_, rfl⟩ := Kernel.answer_streams hk (.inl hplain)
    exact hc.streams
  | _ =>
    cases hk
    exact hc

/-! ### The connections -/

/-- A poll reports, a read takes octets, and no other call is about what streams hold. -/
theorem Kernel.answer_cases {s : Loop H} (hk : k.answer s answer = some k₁) :
    (∃ events stop, answer = .poll (some events) stop ∧ Reported s.worker.conns k events k₁) ∨
      (∃ handle chunk now, answer = .read (.octets chunk) now ∧ s.current = some handle ∧ chunk.take readWindow = chunk ∧
        (k.streams handle).rx = chunk ++ (k.streams handle).rx.drop chunk.length ∧
        k₁ = k.update handle fun s => { s with rx := s.rx.drop chunk.length }) ∨
      ((∀ events stop, answer ≠ .poll (some events) stop) ∧ (∀ chunk now, answer ≠ .read (.octets chunk) now) ∧
        k₁.streams = k.streams) := by
  cases answer with
  | poll events stop =>
    cases events with
    | none =>
      cases hk
      exact .inr (.inr ⟨nofun, nofun, rfl⟩)
    | some events => exact .inl ⟨events, stop, rfl, report_reported hk⟩
  | recv env received =>
    refine .inr (.inr ⟨nofun, nofun, ?_⟩)
    cases received with
    | datagram octets src =>
      obtain ⟨_, -, heq⟩ := answer_datagram hk
      rw [heq]
    | notReady => rw [(answer_noDatagram hk).1]
    | failed => cases hk; rfl
  | accept accepted =>
    refine .inr (.inr ⟨nofun, nofun, ?_⟩)
    cases accepted with
    | stream handle => rw [(answer_stream hk).2]
    | notReady => rw [(answer_noStream hk).1]
    | failed => cases hk; rfl
  | register ok now =>
    refine .inr (.inr ⟨nofun, nofun, ?_⟩)
    cases ok with
    | true => rw [(answer_register hk).1]
    | false => cases hk; rfl
  | read read now =>
    cases read with
    | notReady => exact .inr (.inr ⟨nofun, nofun, by rw [(answer_notReady hk).1]⟩)
    | octets chunk =>
      obtain ⟨handle, hread⟩ := answer_octets hk
      exact .inr (.inl ⟨handle, chunk, now, rfl, hread⟩)
    | failed =>
      cases hk
      exact .inr (.inr ⟨nofun, nofun, rfl⟩)
  | _ =>
    cases hk
    exact .inr (.inr ⟨nofun, nofun, rfl⟩)

/-- No answer registers a socket, and what is queued it can only take. -/
theorem Kernel.answer_keeps {s : Loop H} (hk : k.answer s answer = some k₁) (h : Nat) :
    (k₁.streams h).registered = (k.streams h).registered ∧ ((k.streams h).rx = [] → (k₁.streams h).rx = []) := by
  rcases answer_cases hk with ⟨events, stop, -, hrep⟩ | ⟨handle, chunk, now, -, -, -, -, rfl⟩ | ⟨-, -, heq⟩
  · exact ⟨hrep.registered h, fun hrx => (hrep.queue h).1.trans hrx⟩
  · by_cases hh : h = handle
    · rw [hh, update_self]
      exact ⟨rfl, fun hrx => by rw [hrx]; exact List.drop_nil⟩
    · rw [update_ne hh]
      exact ⟨rfl, id⟩
  · rw [heq]
    exact ⟨rfl, id⟩

theorem Kernel.answer_edge {s : Loop H} (hk : k.answer s answer = some k₁) (hpoll : ∀ events stop, answer ≠ .poll (some events) stop)
    (h : Nat) : (k₁.streams h).edge = (k.streams h).edge := by
  rcases answer_cases hk with ⟨events, stop, heq, -⟩ | ⟨handle, chunk, now, -, -, -, -, rfl⟩ | ⟨-, -, heq⟩
  · exact absurd heq (hpoll events stop)
  · by_cases hh : h = handle
    · rw [hh, update_self]
    · rw [update_ne hh]
  · rw [heq]

theorem Kernel.reregister_edge {conns : ConnMgr} {id : ConnectionId} {h : Nat} (hedge : (k.streams h).edge) :
    ((k.onConn conns id Stream.reregister).streams h).edge := by
  rw [onConn]
  split
  case h_1 c _ =>
    by_cases hh : h = c.stream
    · rw [← hh, update_self, Stream.reregister, hedge]
      rfl
    · rw [update_ne hh, hedge]
  case h_2 => exact hedge

/-- The sockets of live connections: a step registers others only. -/
theorem Kernel.follow_live {conns : ConnMgr} {id : ConnectionId} {c : Conn} (hself : (k.streams c.stream).registered = some id)
    (hfresh : ∀ id stream, act = .connect id stream → (k.streams stream).registered = none) :
    ((k.follow conns act).streams c.stream).registered = some id ∧
      ((k.streams c.stream).edge → ((k.follow conns act).streams c.stream).edge) := by
  cases act with
  | connect id' stream =>
    have hne : c.stream ≠ stream := by
      intro heq
      rw [heq, hfresh id' stream rfl] at hself
      cases hself
    rw [follow, update_ne hne]
    exact ⟨hself, fun h => h⟩
  | write id' => exact ⟨(onConn_field Stream.registered Stream.reregister (fun _ => rfl) k id' _).trans hself, reregister_edge⟩
  | place reply =>
    exact ⟨(onConn_field Stream.registered Stream.reregister (fun _ => rfl) k reply.id _).trans hself, reregister_edge⟩
  | _ => exact ⟨hself, fun h => h⟩

/-- A new connection's socket was not registered before. -/
theorem Moves.fresh {id : ConnectionId} {stream : Nat} (h : Moves w p (answer, .connect id stream) p')
    (hk : k.answer ⟨w, p⟩ answer = some k₁) : (k.streams stream).registered = none := by
  cases h with
  | stop _ hact _ => exact absurd rfl hact
  | rest _ _ hact _ => exact absurd rfl hact
  | cut _ _ hcut => exact absurd rfl hcut.not_reads
  | datagram hact => exact absurd rfl hact
  | connected =>
    obtain ⟨-, handle, hcur, hnone⟩ := Kernel.answer_register hk
    cases hcur
    exact hnone

theorem Phase.resting_attends {id : ConnectionId} (h : p.resting) : ¬ p.Attends id := by
  rintro (⟨e, he, -⟩ | ⟨r, hr, -⟩ | hw)
  · rw [(resting_events h).1] at he
    cases he
  · cases p <;> cases h <;> cases hr
  · cases p <;> cases h <;> cases hw

theorem Stream.register_tended (s : Stream) (p : Phase) (id : ConnectionId) : (s.register id).Tended p id := by
  cases h : s.rx with
  | nil => exact .inr (.inl h)
  | cons => exact .inl (by rw [register, ready, h]; rfl)

theorem Stream.reregister_tended (s : Stream) (p : Phase) (id : ConnectionId) : s.reregister.Tended p id := by
  cases h : s.rx with
  | nil => exact .inr (.inl h)
  | cons => exact .inl (by rw [reregister, ready, h]; exact Bool.or_true _)

theorem attends_later {e : PollEvent} {events : List PollEvent} {ready ready' : List Ready} {woken woken' : Bool}
    {id : ConnectionId} (hready : ∀ r ∈ ready, r ∈ ready')
    (he : tokenConn e.token = some id → e.readable → ∃ r ∈ ready', r.id = id ∧ r.readable)
    (h : (Phase.dispatch ⟨e :: events, ready, woken⟩).Attends id) : (Phase.dispatch ⟨events, ready', woken'⟩).Attends id := by
  rcases h with ⟨x, hx, htoken, hr⟩ | ⟨r, hr, hid⟩ | hw
  · rcases List.mem_cons.mp hx with rfl | hx
    · exact .inr (.inl (he htoken hr))
    · exact .inl ⟨x, hx, htoken, hr⟩
  · exact .inr (.inl ⟨r, hready r hr, hid⟩)
  · cases hw

theorem attends_served {r : Ready} {ready : List Ready} {id : ConnectionId} (hr : r.id = id → ¬ r.readable)
    (h : (Phase.serve (r :: ready)).Attends id) : ∃ r ∈ ready, r.id = id ∧ r.readable := by
  rcases h with ⟨x, hx, -⟩ | ⟨x, hx, hid, hread⟩ | hw
  · cases hx
  · rcases List.mem_cons.mp hx with rfl | hx
    · exact absurd hread (hr hid)
    · exact ⟨x, hx, hid, hread⟩
  · cases hw

theorem attends_written {id id' : ConnectionId} {writable : Bool} {ready : List Ready} (hw : id' = id → ¬ writable)
    (h : (Phase.drainWrite id' writable ready).Attends id) : (Phase.serve ready).Attends id := by
  rcases h with ⟨x, hx, -⟩ | hr | hrw
  · cases hx
  · exact .inr (.inl hr)
  · rw [Phase.rewrites] at hrw
    split at hrw
    case isTrue hwr => exact absurd hwr (hw (Option.some.inj hrw))
    case isFalse => cases hrw

/-- The socket of a live connection stays its own. -/
theorem Moves.follow_live {id : ConnectionId} {c : Conn} (h : Moves w p (answer, act) p')
    (hk : k.answer ⟨w, p⟩ answer = some k₁) (hself : (k.streams c.stream).registered = some id) :
    ((k₁.follow w.conns act).streams c.stream).registered = some id ∧
      ((k₁.streams c.stream).edge → ((k₁.follow w.conns act).streams c.stream).edge) := by
  refine Kernel.follow_live ((Kernel.answer_keeps hk _).1.trans hself) ?_
  rintro id stream rfl
  exact (Kernel.answer_keeps hk _).1.trans (h.fresh hk)

/-- A connection that was live and is: its socket keeps its edge but for a poll, and the
octets it had but for a read. -/
theorem Moves.tended {w' : Worker H} {id : ConnectionId} {c c' : Conn} (h : Moves w p (answer, act) p')
    (htable : TableStep w.conns act w'.conns) (hk : k.answer ⟨w, p⟩ answer = some k₁) (hd : System.Drains ⟨⟨w, p⟩, k⟩ answer)
    (hreg : ∀ id c, w.conns.get id = some c → (k.streams c.stream).registered = some id) (hlive : w.conns.get id = some c)
    (hlive' : w'.conns.get id = some c') (hrun : p' ≠ .stopped) (hc : (k.streams c.stream).Tended p id) :
    ((k₁.follow w.conns act).streams c.stream).Tended p' id := by
  have hedge := (h.follow_live hk (hreg id c hlive)).2
  have hdrop : act ≠ .drop id := by
    rintro rfl
    cases hlive'.symm.trans htable.dropped.2
  have hrx : (k.streams c.stream).rx = [] → ((k₁.follow w.conns act).streams c.stream).rx = [] :=
    fun hrx => (Kernel.follow_queue k₁ act _).1.trans ((Kernel.answer_keeps hk _).2 hrx)
  -- what the loop was on its way to is all that is left to see
  have hrest : (k₁.streams c.stream).edge = (k.streams c.stream).edge →
      (p.Attends id → ((k₁.follow w.conns act).streams c.stream).Tended p' id) →
      ((k₁.follow w.conns act).streams c.stream).Tended p' id := by
    intro hsame hatt
    rcases hc with hc | hc | hc
    · exact .inl (hedge (hsame.trans hc))
    · exact .inr (.inl (hrx hc))
    · exact hatt hc
  cases h with
  | stop => exact absurd rfl hrun
  | rest hp _ _ hplain =>
    rw [Kernel.answer_plain hplain] at hk
    cases hk
    exact hrest rfl fun hatt => absurd hatt (Phase.resting_attends hp)
  | polled =>
    have hrep := Kernel.report_reported hk
    rcases hc with hc | hc | hc
    · rcases hrep.edge _ hc with hkept | ⟨e, he, id', c'', htoken, hget, hs, hr⟩
      · exact .inl (hedge hkept)
      · have hid := hreg id' c'' hget
        rw [hs, hreg id c hlive] at hid
        obtain rfl := Option.some.inj hid
        exact .inr (.inr (.inl ⟨e, he, htoken, hr⟩))
    · exact .inr (.inl (hrx hc))
    · exact absurd hc (Phase.resting_attends rfl)
  | passed _ _ hnone =>
    cases hk
    refine hrest rfl fun hatt => .inr (.inr (attends_later (fun _ => fun h => h) (fun htoken => ?_) hatt))
    cases htoken.symm.trans hnone
  | datagrams htoken =>
    cases hk
    refine hrest rfl fun hatt => .inr (.inr ?_)
    exact attends_later (fun _ => fun h => h) (fun hconn => absurd htoken (tokenConn_ne hconn).1) hatt
  | connections htoken =>
    cases hk
    refine hrest rfl fun hatt => .inr (.inr ?_)
    exact attends_later (fun _ => fun h => h) (fun hconn => absurd htoken (tokenConn_ne hconn).2) hatt
  | cut htoken _ hcut =>
    cases hk
    refine hrest rfl fun hatt => .inr (.inr (attends_later (fun _ => fun h => h) (fun hconn => ?_) hatt))
    rw [htoken] at hconn
    obtain rfl := Option.some.inj hconn
    rcases hcut with rfl | ⟨hnone, -⟩
    · exact absurd rfl hdrop
    · cases hlive.symm.trans hnone
  | @readied e _ _ _ _ htoken _ =>
    cases hk
    refine hrest rfl fun hatt => .inr (.inr (attends_later (fun _ => List.mem_append_left _) (fun hconn hr => ?_) hatt))
    rw [htoken] at hconn
    exact ⟨_, List.mem_append_right _ (List.mem_singleton_self _), Option.some.inj hconn, hr⟩
  | datagram _ =>
    obtain ⟨d, -, heq⟩ := Kernel.answer_datagram hk
    exact hrest (by rw [heq]) fun hatt => .inr (.inr hatt)
  | allRead => exact hrest (by rw [(Kernel.answer_noDatagram hk).1]) fun hatt => .inr (.inr hatt)
  | accepted => exact hrest (by rw [(Kernel.answer_stream hk).2]) fun hatt => .inr (.inr hatt)
  | allAccepted => exact hrest (by rw [(Kernel.answer_noStream hk).1]) fun hatt => .inr (.inr hatt)
  | connected => exact hrest (by rw [(Kernel.answer_register hk).1]) fun hatt => .inr (.inr hatt)
  | refused hplain =>
    rw [Kernel.answer_plain hplain] at hk
    cases hk
    exact hrest rfl fun hatt => .inr (.inr hatt)
  | absent hnone =>
    cases hk
    refine hrest rfl fun hatt => .inr (.inr (.inr (.inl (attends_served (fun hid => ?_) hatt))))
    rw [hid, hlive] at hnone
    cases hnone
  | unread hread =>
    cases hk
    exact hrest rfl fun hatt => .inr (.inr (.inr (.inl (attends_served (fun _ => hread) hatt))))
  | @notReady r ready _ _ hget =>
    obtain ⟨rfl, handle, hcur, hempty, -⟩ := Kernel.answer_notReady hk
    refine hrest rfl fun hatt => ?_
    by_cases hid : r.id = id
    · rw [Loop.current_serve, hid, hlive] at hcur
      cases hcur
      exact .inr (.inl (hrx hempty))
    · exact .inr (.inr (.inr (.inl (attends_served (fun h => absurd h hid) hatt))))
  | @readFailed r ready _ =>
    cases hk
    exact hrest rfl fun hatt => .inr (.inr (.inr (.inl
      (attends_served (fun hid => absurd (congrArg Act.drop hid) hdrop) hatt))))
  | @read r ready _ chunk now _ =>
    have hsame := Kernel.answer_edge hk nofun c.stream
    obtain ⟨handle, hcur, -, -, rfl⟩ := Kernel.answer_octets hk
    refine hrest hsame fun hatt => ?_
    by_cases hid : r.id = id
    · rcases hd with hw | hall
      · refine .inr (.inr (.inr (.inr ?_)))
        rw [Phase.rewrites, if_pos hw, hid]
      · rw [Loop.current_serve, hid, hlive] at hcur
        cases hcur
        refine .inr (.inl ((Kernel.follow_queue _ _ _).1.trans ?_))
        rw [Kernel.update_self, ← hall c (hid ▸ hlive)]
        exact List.drop_length
    · exact .inr (.inr (.inr (.inl (attends_served (fun h => absurd h hid) hatt))))
  | allHanded _ =>
    cases hk
    exact hrest rfl fun hatt => .inr (.inr hatt)
  | @wrote id' ready _ _ hget hplain =>
    rw [Kernel.answer_plain hplain] at hk
    cases hk
    refine hrest rfl fun hatt => ?_
    by_cases hid : id' = id
    · rw [Kernel.follow, hid, Kernel.onConn_live hlive, Kernel.update_self]
      exact Stream.reregister_tended _ _ _
    · exact .inr (.inr (attends_written (fun h => absurd h hid) hatt))
  | @writeFailed id' _ _ =>
    cases hk
    exact hrest rfl fun hatt => .inr (.inr (attends_written (fun hid => absurd (congrArg Act.drop hid) hdrop) hatt))
  | unwritten hnone =>
    cases hk
    refine hrest rfl fun hatt => .inr (.inr (attends_written (fun hid hw => ?_) hatt))
    have := hnone hw
    rw [hid, hlive] at this
    cases this
  | _ =>
    cases hk
    exact hrest rfl fun hatt => .inr (.inr hatt)

end

/-! ### Runs -/

/-- A live connection was live, on the same socket, or is new. -/
theorem TableStep.survives {m m' : ConnMgr} {act : Act} {id : ConnectionId} {c' : Conn} (h : TableStep m act m')
    (hlive : m'.get id = some c') : (∃ c, m.get id = some c ∧ c.stream = c'.stream) ∨ act = .connect id c'.stream := by
  cases h with
  | kept _ _ hstreams =>
    have hstream := hstreams id
    rw [hlive] at hstream
    exact .inl (Option.map_eq_some_iff.mp hstream.symm)
  | @opened id₀ stream c _ _ _ _ hget hstream hother =>
    by_cases hid : id = id₀
    · rw [hid, hget] at hlive
      obtain rfl := Option.some.inj hlive
      exact .inr (by rw [hid, hstream])
    · exact .inl ⟨c', (hother id hid).symm.trans hlive, rfl⟩
  | @closed id₀ c _ =>
    by_cases hid : id = id₀
    · rw [hid, ConnMgr.get_remove_self] at hlive
      cases hlive
    · exact .inl ⟨c', (ConnMgr.get_remove_ne hid).symm.trans hlive, rfl⟩

theorem Covered.step {w w' : Worker H} {k k₁ : Kernel} {p p' : Phase} {answer : Answer ε} {act : Act} (h : Covered w k p)
    (hdoes : Does api w p (answer, act) w') (hmoves : Moves w p (answer, act) p') (hk : k.answer ⟨w, p⟩ answer = some k₁)
    (hd : System.Drains ⟨⟨w, p⟩, k⟩ answer) (hrun : p' ≠ .stopped) : Covered w' (k₁.follow w.conns act) p' := by
  obtain ⟨streams, hfollow⟩ : ∃ streams, k₁.follow w.conns act = { k₁ with streams } := k₁.follow_eq act
  have htable := Does.table api hdoes
  constructor
  case udp =>
    intro hsock
    rw [hdoes.sockets.1] at hsock
    have hudp := hmoves.watched .udp hk hd hsock (h.udp hsock) hrun
    rw [hfollow]
    exact hudp
  case listener =>
    intro hsock
    rw [hdoes.sockets.2] at hsock
    have hlistener := hmoves.watched .listener hk hd hsock (h.listener hsock) hrun
    rw [hfollow]
    exact hlistener
  case registered =>
    intro id c' hlive'
    rcases htable.survives hlive' with ⟨c, hlive, hs⟩ | rfl
    · rw [← hs]
      exact (hmoves.follow_live hk (h.registered id c hlive)).1
    · rw [Kernel.follow, Kernel.update_self]
      rfl
  case conns =>
    intro id c' hlive'
    rcases htable.survives hlive' with ⟨c, hlive, hs⟩ | rfl
    · rw [← hs]
      exact hmoves.tended htable hk hd h.registered hlive hlive' hrun (h.conns id c hlive)
    · rw [Kernel.follow, Kernel.update_self]
      exact Stream.register_tended _ _ _

/-- What arrives at a socket signals it. -/
theorem Kernel.arrive_stream (k : Kernel) (a : Arrival) (h : Nat) :
    ((k.arrive a).streams h).registered = (k.streams h).registered ∧
      ((k.arrive a).streams h = k.streams h ∨ ((k.arrive a).streams h).edge) := by
  have hupdate : ∀ (handle : Nat) (f : Stream → Stream), (∀ s, (f s).registered = s.registered ∧ (f s).edge) →
      ((k.update handle f).streams h).registered = (k.streams h).registered ∧
        ((k.update handle f).streams h = k.streams h ∨ ((k.update handle f).streams h).edge) := by
    intro handle f hf
    by_cases hh : h = handle
    · rw [hh, update_self]
      exact ⟨(hf _).1, .inr (hf _).2⟩
    · rw [update_ne hh]
      exact ⟨rfl, .inl rfl⟩
  cases a with
  | datagram octets src => exact ⟨rfl, .inl rfl⟩
  | connection => exact ⟨rfl, .inl rfl⟩
  | octets handle octets =>
    rw [arrive]
    split
    · exact hupdate handle _ fun _ => ⟨rfl, rfl⟩
    · exact ⟨rfl, .inl rfl⟩
  | fin handle =>
    rw [arrive]
    split
    · exact hupdate handle _ fun _ => ⟨rfl, rfl⟩
    · exact ⟨rfl, .inl rfl⟩

/-- A queue that something joined has its edge. -/
theorem Kernel.arrive_queues (k : Kernel) (a : Arrival) :
    ((k.arrive a).udp = k.udp ∧ (k.arrive a).udpEdge = k.udpEdge ∨ (k.arrive a).udpEdge) ∧
      ((k.arrive a).backlog = k.backlog ∧ (k.arrive a).listenEdge = k.listenEdge ∨ (k.arrive a).listenEdge) := by
  cases a with
  | datagram octets src => exact ⟨.inr rfl, .inl ⟨rfl, rfl⟩⟩
  | connection => exact ⟨.inl ⟨rfl, rfl⟩, .inr rfl⟩
  | octets handle octets =>
    rw [arrive]
    split
    · exact ⟨.inl ⟨rfl, rfl⟩, .inl ⟨rfl, rfl⟩⟩
    · exact ⟨.inl ⟨rfl, rfl⟩, .inl ⟨rfl, rfl⟩⟩
  | fin handle =>
    rw [arrive]
    split
    · exact ⟨.inl ⟨rfl, rfl⟩, .inl ⟨rfl, rfl⟩⟩
    · exact ⟨.inl ⟨rfl, rfl⟩, .inl ⟨rfl, rfl⟩⟩

theorem Covered.arrive {w : Worker H} {k : Kernel} {p : Phase} (h : Covered w k p) (a : Arrival) : Covered w (k.arrive a) p := by
  obtain ⟨hudp, hlistener⟩ := k.arrive_queues a
  constructor
  case udp =>
    intro hsock
    rcases hudp with ⟨hq, hedge⟩ | hedge
    · rw [hq, hedge]
      exact h.udp hsock
    · exact .inl hedge
  case listener =>
    intro hsock
    rcases hlistener with ⟨hq, hedge⟩ | hedge
    · rw [hq, hedge]
      exact h.listener hsock
    · exact .inl hedge
  case registered => exact fun id c hlive => (k.arrive_stream a _).1.trans (h.registered id c hlive)
  case conns =>
    intro id c hlive
    rcases (k.arrive_stream a c.stream).2 with heq | hedge
    · rw [heq]
      exact h.conns id c hlive
    · exact .inl hedge

/-- A source with something queued has its edge. -/
structure System.Armed (s : System H) : Prop where
  udp : s.loop.worker.udp → s.kernel.udp ≠ [] → s.kernel.udpEdge
  listener : s.loop.worker.listener → s.kernel.backlog ≠ [] → s.kernel.listenEdge
  conns : ∀ id c, s.loop.worker.conns.get id = some c → (s.kernel.streams c.stream).rx ≠ [] → (s.kernel.streams c.stream).edge

/-- At rest, what is covered is armed. -/
theorem Covered.armed {s : System H} (h : Covered s.loop.worker s.kernel s.loop.phase) (hp : s.loop.phase.resting) : s.Armed := by
  obtain ⟨hevents, hudp, haccept⟩ := Phase.resting_events hp
  constructor
  case udp =>
    intro hsock hq
    have hc := h.udp hsock
    rw [hevents, hudp] at hc
    rcases hc with hedge | ⟨e, he, -⟩ | hlen
    · exact hedge
    · cases he
    · exact absurd (List.length_eq_zero_iff.mp (Nat.le_zero.mp hlen)) hq
  case listener =>
    intro hsock hq
    have hc := h.listener hsock
    rw [hevents, haccept] at hc
    rcases hc with hedge | ⟨e, he, -⟩ | hlen
    · exact hedge
    · cases he
    · exact absurd (List.length_eq_zero_iff.mp (Nat.le_zero.mp hlen)) hq
  case conns =>
    intro id c hlive hrx
    rcases h.conns id c hlive with hedge | hempty | hatt
    · exact hedge
    · exact absurd hempty hrx
    · exact absurd hatt (Phase.resting_attends hp)

/-- The drains of one step, if it is the loop's. -/
def System.Steady (s : System H) : Signal ε → Prop
  | .arrival _ => True
  | .loop label => s.Drains label.1

theorem Loop.next_stopped {s : Loop H} {answer : Answer ε} (h : s.phase = .stopped) : s.next api answer = none := by
  obtain ⟨w, p⟩ := s
  cases h
  rfl

/-- In a run whose drains reach their ends nothing queued is forgotten. -/
theorem run_covered {s₀ s : System H} {hist : List (System H × Signal ε)} (hrun : Run (System.Step api) s₀ hist s)
    (hstart : Covered s₀.loop.worker s₀.kernel s₀.loop.phase) (hsteady : ∀ x ∈ hist, x.1.Steady x.2) :
    s.loop.phase = .stopped ∨ Covered s.loop.worker s.kernel s.loop.phase := by
  refine hrun.invariant (P := fun hist s => (∀ x ∈ hist, x.1.Steady x.2) →
    s.loop.phase = .stopped ∨ Covered s.loop.worker s.kernel s.loop.phase) (fun _ => .inr hstart) ?_ hsteady
  intro hist t signal u _ ih hstep hall
  have hc := ih fun x hx => hall x (List.mem_append_left _ hx)
  cases hstep with
  | arrival a => exact hc.imp_right fun h => h.arrive a
  | @loop label l k hl hk =>
    have hd : t.Drains label.1 := hall _ (List.mem_append_right _ (List.mem_singleton_self _))
    rcases hc with hstop | hc
    · rw [EventLoop.Step, Loop.next_stopped hstop] at hl
      cases hl
    · by_cases hrun : l.phase = .stopped
      · exact .inl hrun
      · exact .inr (hc.step (step_does api hl) (step_moves api hl) hk hd hrun)

end QuickRelay.Transport.EventLoop
