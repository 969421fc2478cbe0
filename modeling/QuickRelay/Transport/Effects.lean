import QuickRelay.Transport.EventLoop

/-! What one step of the event loop can do to the worker, whatever phase it is in, and what
each phase is answered and does. -/
namespace QuickRelay.Transport.EventLoop
open Lib

variable {ε H : Type} (api : Handler ε H)

/-- Everything but the counters is said. Replies leave the outbox in one phase only. -/
inductive Does (w : Worker H) : Phase → Answer ε × Act → Worker H → Prop
  | idle {phase : Phase} {answer : Answer ε} (stats : WorkerStats) : Does w phase (answer, .idle) { w with stats }
  | emptied {phase : Phase} {answer : Answer ε} {h : H} (stats : WorkerStats) : api.takeReply w.handler = (none, h) →
      Does w phase (answer, .idle) { w with handler := h, stats }
  | stun {phase : Phase} {env : ε} {received : Recv} {octets src : Bytes} {h : H} (stats : WorkerStats) :
      api.onStun w.handler env octets src = some h →
      Does w phase (.recv env received, .stun octets src) { w with handler := h, stats }
  | full {phase : Phase} {answer : Answer ε} {stream : Nat} : w.conns.alloc = none → Does w phase (answer, .refuse stream) w
  | unregistered {phase : Phase} {answer : Answer ε} {stream : Nat} {id : ConnectionId} {conns : ConnMgr} : w.conns.alloc = some (id, conns) →
      Does w phase (answer, .refuse stream) { w with conns := conns.remove id }
  | connect {phase : Phase} {ok : Bool} {stream now : Nat} {id : ConnectionId} {conns : ConnMgr} (stats : WorkerStats) :
      w.conns.alloc = some (id, conns) → Does w phase (.register ok now, .connect id stream) { w with
        conns := conns.insert id (w.accepted stream now), handler := api.onTcpConnect w.handler id, stats }
  | read {phase : Phase} {id : ConnectionId} {c c' : Conn} {chunk : Bytes} {now : Nat} : w.conns.get id = some c →
      c' = { c.receive (chunk.take readWindow) now with
        toConn := (c.receive (chunk.take readWindow) now).toConn.takeFrames.1 } →
      Does w phase (.read (.octets chunk) now, .read id (chunk.take readWindow)) { w with conns := w.conns.insert id c' }
  | tcpStun {phase : Phase} {env : ε} {payload : Bytes} {id : ConnectionId} {c : Conn} {h : H} (stats : WorkerStats) :
      w.conns.get id = some c → api.onTcpStun w.handler env payload id = some h →
      Does w phase (.call env, .tcpStun payload id) { w with handler := h, stats }
  | write {phase : Phase} {answer : Answer ε} {id : ConnectionId} {c c' : Conn} : w.conns.get id = some c → c'.toConn = c.toConn →
      c'.stream = c.stream → Does w phase (answer, .write id) { w with conns := w.conns.insert id c' }
  | place {answer : Answer ε} {reply : QueuedReply} {h : H} {c : Conn} : api.takeReply w.handler = (some reply, h) →
      w.conns.get reply.id = some c → c.canWrite reply.payload.length →
      Does w .drainReplies (answer, .place reply) { w with
        handler := h, conns := w.conns.insert reply.id (c.takeWrite reply.payload).2 }
  | putBack {answer : Answer ε} {reply : QueuedReply} {h : H} {c : Conn} (stats : WorkerStats) :
      api.takeReply w.handler = (some reply, h) → w.conns.get reply.id = some c → ¬ c.canWrite reply.payload.length →
      Does w .drainReplies (answer, .putBack reply) { w with handler := api.queueReply h reply, stats }
  | skip {answer : Answer ε} {reply : QueuedReply} {h : H} : api.takeReply w.handler = (some reply, h) →
      w.conns.get reply.id = none → Does w .drainReplies (answer, .skip reply) { w with handler := h }
  | drop {phase : Phase} {answer : Answer ε} {id : ConnectionId} {c : Conn} (stats : WorkerStats) : w.conns.get id = some c →
      Does w phase (answer, .drop id) { w with
        conns := w.conns.remove id, handler := api.onTcpError w.handler id, stats }

namespace Worker
variable {w : Worker H} {phase : Phase} {answer : Answer ε} {act : Act} {s' : Loop H}

theorem drop_does (answer : Answer ε) (id : ConnectionId) : Does api w phase (answer, (w.drop api id).1) (w.drop api id).2 := by
  rw [drop]
  cases h : w.conns.get id with
  | none => exact .idle w.stats
  | some c => exact .drop _ h

theorem endTick_does (answer : Answer ε) : Does api w phase (answer, .idle) w.endTick.worker := by
  rw [endTick]
  cases w.config.maxTicks with
  | none => exact .idle _
  | some n => exact .idle _

private theorem reclaim_does {doomed : List ConnectionId} (h : w.reclaim api doomed answer = some (act, s')) :
    Does api w phase (answer, act) s'.worker := by
  rw [reclaim.eq_def] at h
  split at h
  case h_1 =>
    cases h
    exact .idle w.stats
  case h_2 =>
    cases h
    exact w.drop_does api _ _
  case h_3 => cases h

private theorem poll_does (h : w.poll answer = some (act, s')) : Does api w phase (answer, act) s'.worker := by
  rw [poll.eq_def] at h
  split at h
  case h_1 =>
    cases h
    exact .idle w.stats
  case h_2 events stop =>
    by_cases hstop : stop
    · rw [if_pos hstop] at h
      cases h
      exact .idle w.stats
    · rw [if_neg hstop] at h
      by_cases he : events.isEmpty
      · rw [if_pos he] at h
        cases h
        exact w.endTick_does api _
      · rw [if_neg he] at h
        cases h
        exact .idle w.stats
  case h_3 => cases h

private theorem dispatch_does {rest : Dispatch} (h : w.dispatch api rest answer = some (act, s')) :
    Does api w phase (answer, act) s'.worker := by
  rw [dispatch.eq_def] at h
  split at h
  case h_1 =>
    split at h
    case h_1 =>
      cases h
      exact .idle w.stats
    case h_2 e events _ =>
      by_cases hwake : e.token = eventWake
      · rw [if_pos hwake] at h
        cases h
        exact .idle w.stats
      rw [if_neg hwake] at h
      by_cases hudp : e.token = eventUdp
      · rw [if_pos hudp] at h
        cases h
        exact .idle w.stats
      rw [if_neg hudp] at h
      by_cases hlisten : e.token = eventTcpListen
      · rw [if_pos hlisten] at h
        cases h
        exact .idle w.stats
      rw [if_neg hlisten] at h
      cases hid : tokenConn e.token with
      | none =>
        rw [hid] at h
        cases h
        exact .idle w.stats
      | some id =>
        rw [hid] at h
        by_cases hc : e.closed
        · simp only [hc, if_true] at h
          cases h
          exact w.drop_does api _ id
        · simp only [hc, Bool.false_eq_true, if_false] at h
          cases h
          exact .idle w.stats
  case h_2 => cases h

private theorem drainUdp_does {rest : Dispatch} {left : Nat} (h : w.drainUdp api rest left answer = some (act, s')) :
    Does api w phase (answer, act) s'.worker := by
  rw [drainUdp.eq_def] at h
  split at h
  case h_2 env octets src =>
    by_cases he : octets.isEmpty
    · rw [if_pos he] at h
      cases h
      exact .idle w.stats
    · rw [if_neg he] at h
      obtain ⟨h', hh, heq⟩ := Option.map_eq_some_iff.mp h
      cases heq
      exact .stun _ hh
  case h_5 => cases h
  all_goals
    cases h
    exact .idle w.stats

private theorem acceptAll_does {rest : Dispatch} {streams : List Nat} {left : Nat}
    (h : w.acceptAll streams rest left answer = some (act, s')) : Does api w phase (answer, act) s'.worker := by
  rw [acceptAll.eq_def] at h
  split at h
  case h_5 => cases h
  all_goals
    cases h
    exact .idle w.stats

private theorem drainAccepts_does {rest : Dispatch} {streams : List Nat}
    (h : w.drainAccepts api rest streams answer = some (act, s')) : Does api w phase (answer, act) s'.worker := by
  rw [drainAccepts.eq_def] at h
  split at h
  case h_1 =>
    cases h
    exact .idle w.stats
  case h_2 =>
    split at h
    case h_1 hfull =>
      cases h
      exact .full hfull
    case h_2 id conns ok now halloc =>
      by_cases hok : ok
      · rw [if_pos hok] at h
        cases h
        exact .connect _ halloc
      · rw [if_neg hok] at h
        cases h
        exact .unregistered halloc
    case h_3 => cases h
  case h_3 => cases h

private theorem serve_does {ready : List Ready} (h : w.serve api ready answer = some (act, s')) : Does api w phase (answer, act) s'.worker := by
  rw [serve.eq_def] at h
  split at h
  case h_1 =>
    cases h
    exact .idle w.stats
  case h_2 =>
    split at h
    case h_2 conn _ hget _ =>
      rw [drainRead.eq_def] at h
      split at h
      case h_1 =>
        cases h
        exact .idle w.stats
      case h_2 =>
        cases h
        exact w.drop_does api _ _
      case h_3 =>
        cases h
        exact .read hget rfl
      case h_4 => cases h
    case h_4 => cases h
    all_goals
      cases h
      exact .idle w.stats
  case h_3 => cases h

private theorem handOver_does {id : ConnectionId} {writable : Bool} {ready : List Ready} {frames : List Bytes}
    (h : w.handOver api id writable ready frames answer = some (act, s')) : Does api w phase (answer, act) s'.worker := by
  rw [handOver.eq_def] at h
  split at h
  case h_1 =>
    cases h
    exact .idle w.stats
  case h_2 =>
    dsimp only at h
    split at h
    case h_1 =>
      cases h
      exact .idle _
    case h_2 c env hget =>
      obtain ⟨h', hh, heq⟩ := Option.map_eq_some_iff.mp h
      cases heq
      exact .tcpStun _ hget hh
    case h_3 => cases h
  case h_3 => cases h

private theorem serveWrite_does {id : ConnectionId} {writable : Bool} {ready : List Ready}
    (h : w.serveWrite api id writable ready answer = some (act, s')) : Does api w phase (answer, act) s'.worker := by
  rw [serveWrite.eq_def] at h
  split at h
  case h_1 conn _ hget =>
    rw [drainWrite.eq_def] at h
    split at h
    case h_4 =>
      cases h
      exact w.drop_does api _ id
    case h_5 => cases h
    all_goals
      cases h
      exact .write hget rfl rfl
  case h_2 =>
    cases h
    exact .idle w.stats
  case h_3 => cases h

private theorem drainReplies_does (h : w.drainReplies api answer = some (act, s')) : Does api w .drainReplies (answer, act) s'.worker := by
  rw [drainReplies.eq_def] at h
  split at h
  case h_1 =>
    split at h
    case h_1 h' htake =>
      cases h
      rw [endTick]
      cases w.config.maxTicks with
      | none => exact .emptied _ htake
      | some n => exact .emptied _ htake
    case h_2 reply h' htake =>
      cases hget : w.conns.get reply.id with
      | none =>
        simp only [hget] at h
        cases h
        exact .skip htake hget
      | some c =>
        simp only [hget] at h
        by_cases hw : c.canWrite reply.payload.length
        · rw [if_pos hw] at h
          cases h
          exact .place htake hget hw
        · rw [if_neg hw] at h
          cases h
          rw [endTick]
          cases w.config.maxTicks with
          | none => exact .putBack _ htake hget hw
          | some n => exact .putBack _ htake hget hw
  case h_2 => cases h

end Worker

/-- What a step does is on the list. -/
theorem step_does {s s' : Loop H} {label : Answer ε × Act} (h : Step api s label s') : Does api s.worker s.phase label s'.worker := by
  obtain ⟨w, phase⟩ := s
  obtain ⟨answer, act⟩ := label
  cases phase with
  | top =>
    simp only [Step, Loop.next] at h
    split at h
    case h_1 =>
      cases h
      exact .idle w.stats
    case h_2 => cases h
  | reclaim doomed => exact Worker.reclaim_does api h
  | poll => exact Worker.poll_does api h
  | dispatch rest => exact Worker.dispatch_does api h
  | drainUdp left rest => exact Worker.drainUdp_does api h
  | acceptAll left streams rest => exact Worker.acceptAll_does api h
  | drainAccepts streams rest => exact Worker.drainAccepts_does api h
  | serve ready => exact Worker.serve_does api h
  | decode id frames writable ready => exact Worker.handOver_does api h
  | drainWrite id writable ready => exact Worker.serveWrite_does api h
  | drainReplies => exact Worker.drainReplies_does api h
  | stopped => cases h

/-- What a phase may be answered. -/
def Phase.asks : Phase → Answer ε → Bool
  | .top, .clock _ _ => true
  | .top, _ => false
  | .poll, .poll _ _ => true
  | .poll, _ => false
  | .stopped, _ => false
  | _, .silent => true
  | .drainUdp _ _, .recv _ _ => true
  | .acceptAll _ _ _, .accept _ => true
  | .drainAccepts _ _, .register _ _ => true
  | .serve _, .read _ _ => true
  | .decode _ _ _ _, .call _ => true
  | .drainWrite _ _ _, .write _ _ => true
  | _, _ => false

/-- What a phase may do. -/
def Phase.performs : Phase → Act → Bool
  | _, .idle => true
  | .reclaim _, .drop _ => true
  | .dispatch _, .drop _ => true
  | .drainUdp _ _, .stun _ _ => true
  | .drainAccepts _ _, .refuse _ => true
  | .drainAccepts _ _, .connect _ _ => true
  | .serve _, .read _ _ => true
  | .serve _, .drop _ => true
  | .decode _ _ _ _, .tcpStun _ _ => true
  | .drainWrite _ _ _, .write _ => true
  | .drainWrite _ _ _, .drop _ => true
  | .drainReplies, .place _ => true
  | .drainReplies, .putBack _ => true
  | .drainReplies, .skip _ => true
  | _, _ => false

theorem Phase.performs_idle (phase : Phase) : phase.performs .idle := by
  cases phase with
  | _ => rfl

theorem Worker.drop_act (w : Worker H) (id : ConnectionId) : (w.drop api id).1 = .idle ∨ (w.drop api id).1 = .drop id := by
  rw [drop]
  cases w.conns.get id with
  | none => exact .inl rfl
  | some c => exact .inr rfl

theorem Worker.drop_performed (w : Worker H) (id : ConnectionId) {phase : Phase} (h : phase.performs (.drop id)) :
    phase.performs (w.drop api id).1 := by
  rcases w.drop_act api id with hact | hact
  · rw [hact]
    exact phase.performs_idle
  · rw [hact]
    exact h

/-- A step is answered what its phase asks, and does what its phase may do. -/
theorem step_label {s s' : Loop H} {label : Answer ε × Act} (h : Step api s label s') :
    s.phase.asks label.1 ∧ s.phase.performs label.2 := by
  obtain ⟨w, phase⟩ := s
  obtain ⟨answer, act⟩ := label
  cases phase with
  | top =>
    simp only [Step, Loop.next] at h
    split at h
    case h_1 =>
      cases h
      exact ⟨rfl, rfl⟩
    case h_2 => cases h
  | reclaim doomed =>
    simp only [Step, Loop.next, Worker.reclaim.eq_def] at h
    split at h
    case h_1 =>
      cases h
      exact ⟨rfl, rfl⟩
    case h_2 =>
      cases h
      exact ⟨rfl, w.drop_performed api _ rfl⟩
    case h_3 => cases h
  | poll =>
    simp only [Step, Loop.next, Worker.poll.eq_def] at h
    repeat' split at h
    all_goals cases h
    all_goals exact ⟨rfl, rfl⟩
  | dispatch rest =>
    simp only [Step, Loop.next, Worker.dispatch.eq_def] at h
    repeat' split at h
    any_goals cases h
    any_goals exact ⟨rfl, rfl⟩
    all_goals exact ⟨rfl, w.drop_performed api _ rfl⟩
  | drainUdp left rest =>
    simp only [Step, Loop.next, Worker.drainUdp.eq_def] at h
    split at h
    case h_2 =>
      split at h
      · cases h
        exact ⟨rfl, rfl⟩
      · obtain ⟨h', -, heq⟩ := Option.map_eq_some_iff.mp h
        cases heq
        exact ⟨rfl, rfl⟩
    case h_5 => cases h
    all_goals
      cases h
      exact ⟨rfl, rfl⟩
  | acceptAll left streams rest =>
    simp only [Step, Loop.next, Worker.acceptAll.eq_def] at h
    split at h
    case h_5 => cases h
    all_goals
      cases h
      exact ⟨rfl, rfl⟩
  | drainAccepts streams rest =>
    simp only [Step, Loop.next, Worker.drainAccepts.eq_def] at h
    repeat' split at h
    any_goals cases h
    all_goals exact ⟨rfl, rfl⟩
  | serve ready =>
    simp only [Step, Loop.next, Worker.serve.eq_def, Worker.drainRead.eq_def] at h
    repeat' split at h
    any_goals cases h
    any_goals exact ⟨rfl, rfl⟩
    all_goals exact ⟨rfl, w.drop_performed api _ rfl⟩
  | decode id frames writable ready =>
    simp only [Step, Loop.next, Worker.handOver.eq_def] at h
    split at h
    case h_1 =>
      cases h
      exact ⟨rfl, rfl⟩
    case h_2 =>
      split at h
      case h_1 =>
        cases h
        exact ⟨rfl, rfl⟩
      case h_2 =>
        obtain ⟨h', -, heq⟩ := Option.map_eq_some_iff.mp h
        cases heq
        exact ⟨rfl, rfl⟩
      case h_3 => cases h
    case h_3 => cases h
  | drainWrite id writable ready =>
    simp only [Step, Loop.next, Worker.serveWrite.eq_def, Worker.drainWrite.eq_def] at h
    repeat' split at h
    any_goals cases h
    any_goals exact ⟨rfl, rfl⟩
    all_goals exact ⟨rfl, w.drop_performed api _ rfl⟩
  | drainReplies =>
    simp only [Step, Loop.next, Worker.drainReplies.eq_def] at h
    repeat' split at h
    any_goals cases h
    all_goals exact ⟨rfl, rfl⟩
  | stopped => cases h

end QuickRelay.Transport.EventLoop
