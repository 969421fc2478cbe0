import QuickRelay.Transport.Effects

/-! Where one step of the event loop can lead, and on which answer. -/
namespace QuickRelay.Transport.EventLoop
open Lib

variable {ε H : Type} (api : Handler ε H)

/-- Nothing that the last poll reported is left to do. -/
def Phase.resting : Phase → Bool
  | .top => true
  | .reclaim _ => true
  | .poll => true
  | .drainReplies => true
  | _ => false

def Phase.decoding : Phase → Bool
  | .decode _ _ _ _ => true
  | _ => false

/-- The read side of a connection moves. -/
def Act.reads : Act → Bool
  | .connect _ _ => true
  | .read _ _ => true
  | .tcpStun _ _ => true
  | _ => false

def Answer.reads : Answer ε → Bool
  | .read _ _ => true
  | _ => false

/-- What dropping an id does, be it live or not. -/
def Worker.Cuts (w : Worker H) (id : ConnectionId) (act : Act) : Prop := act = .drop id ∨ (w.conns.get id = none ∧ act = .idle)

/-- An answer that is about no socket's queue. -/
def Answer.plain : Answer ε → Bool
  | .silent => true
  | .clock _ _ => true
  | .poll (some []) _ => true
  | .register false _ => true
  | .call _ => true
  | .write _ _ => true
  | _ => false

inductive Moves (w : Worker H) : Phase → Answer ε × Act → Phase → Prop
  | stop {phase : Phase} {answer : Answer ε} {act : Act} : ¬ phase.decoding → ¬ act.reads → ¬ answer.reads →
      Moves w phase (answer, act) .stopped
  | rest {phase phase' : Phase} {answer : Answer ε} {act : Act} : phase.resting → phase'.resting →
      ¬ act.reads → answer.plain → Moves w phase (answer, act) phase'
  | polled {events : List PollEvent} : Moves w .poll (.poll (some events) false, .idle) (.dispatch ⟨events, [], false⟩)
  | dispatched {ready : List Ready} {woken : Bool} : Moves w (.dispatch ⟨[], ready, woken⟩) (.silent, .idle) (.serve ready)
  | passed {e : PollEvent} {events : List PollEvent} {ready : List Ready} {woken woken' : Bool} :
      (e.token = eventUdp → ¬ w.udp) → (e.token = eventTcpListen → ¬ w.listener) → tokenConn e.token = none →
      Moves w (.dispatch ⟨e :: events, ready, woken⟩) (.silent, .idle) (.dispatch ⟨events, ready, woken'⟩)
  | datagrams {e : PollEvent} {events : List PollEvent} {ready : List Ready} {woken : Bool} : e.token = eventUdp →
      Moves w (.dispatch ⟨e :: events, ready, woken⟩) (.silent, .idle) (.drainUdp udpDrainBatch ⟨events, ready, woken⟩)
  | connections {e : PollEvent} {events : List PollEvent} {ready : List Ready} {woken : Bool} : e.token = eventTcpListen →
      Moves w (.dispatch ⟨e :: events, ready, woken⟩) (.silent, .idle) (.acceptAll acceptBatch [] ⟨events, ready, woken⟩)
  | cut {e : PollEvent} {events : List PollEvent} {ready : List Ready} {woken : Bool} {id : ConnectionId} {act : Act} :
      tokenConn e.token = some id → e.closed → w.Cuts id act →
      Moves w (.dispatch ⟨e :: events, ready, woken⟩) (.silent, act) (.dispatch ⟨events, ready, woken⟩)
  | readied {e : PollEvent} {events : List PollEvent} {ready : List Ready} {woken : Bool} {id : ConnectionId} :
      tokenConn e.token = some id → ¬ e.closed → Moves w (.dispatch ⟨e :: events, ready, woken⟩) (.silent, .idle)
        (.dispatch ⟨events, ready ++ [⟨id, e.readable, e.writable⟩], woken⟩)
  | datagram {left : Nat} {rest : Dispatch} {env : ε} {octets : Bytes} {src : Binding.SocketAddr} {act : Act} : ¬ act.reads →
      Moves w (.drainUdp (left + 1) rest) (.recv env (.datagram octets src), act) (.drainUdp left rest)
  | batchRead {rest : Dispatch} : Moves w (.drainUdp 0 rest) (.silent, .idle) (.dispatch rest)
  | allRead {left : Nat} {rest : Dispatch} {env : ε} :
      Moves w (.drainUdp (left + 1) rest) (.recv env .notReady, .idle) (.dispatch rest)
  | recvFailed {left : Nat} {rest : Dispatch} {env : ε} :
      Moves w (.drainUdp (left + 1) rest) (.recv env .failed, .idle) (.dispatch rest)
  | accepted {left stream : Nat} {streams : List Nat} {rest : Dispatch} :
      Moves w (.acceptAll (left + 1) streams rest) (.accept (.stream stream), .idle) (.acceptAll left (streams ++ [stream]) rest)
  | batchAccepted {streams : List Nat} {rest : Dispatch} :
      Moves w (.acceptAll 0 streams rest) (.silent, .idle) (.drainAccepts streams rest)
  | allAccepted {left : Nat} {streams : List Nat} {rest : Dispatch} :
      Moves w (.acceptAll (left + 1) streams rest) (.accept .notReady, .idle) (.drainAccepts streams rest)
  | acceptFailed {left : Nat} {streams : List Nat} {rest : Dispatch} :
      Moves w (.acceptAll (left + 1) streams rest) (.accept .failed, .idle) (.dispatch rest)
  | connected {stream now : Nat} {streams : List Nat} {rest : Dispatch} {id : ConnectionId} :
      Moves w (.drainAccepts (stream :: streams) rest) (.register true now, .connect id stream) (.drainAccepts streams rest)
  | refused {stream : Nat} {streams : List Nat} {rest : Dispatch} {answer : Answer ε} :
      answer.plain → Moves w (.drainAccepts (stream :: streams) rest) (answer, .refuse stream) (.drainAccepts streams rest)
  | allConnected {rest : Dispatch} : Moves w (.drainAccepts [] rest) (.silent, .idle) (.dispatch rest)
  | served : Moves w (.serve []) (.silent, .idle) .drainReplies
  | absent {r : Ready} {ready : List Ready} : w.conns.get r.id = none →
      Moves w (.serve (r :: ready)) (.silent, .idle) (.serve ready)
  | unread {r : Ready} {ready : List Ready} : ¬ r.readable →
      Moves w (.serve (r :: ready)) (.silent, .idle) (.drainWrite r.id r.writable ready)
  | notReady {r : Ready} {ready : List Ready} {c : Conn} {now : Nat} : w.conns.get r.id = some c →
      Moves w (.serve (r :: ready)) (.read .notReady now, .idle) (.drainWrite r.id r.writable ready)
  | readFailed {r : Ready} {ready : List Ready} {now : Nat} :
      Moves w (.serve (r :: ready)) (.read .failed now, .drop r.id) (.drainWrite r.id r.writable ready)
  | read {r : Ready} {ready : List Ready} {c : Conn} {chunk : Bytes} {now : Nat} : w.conns.get r.id = some c →
      Moves w (.serve (r :: ready)) (.read (.octets chunk) now, .read r.id (chunk.take readWindow))
        (.decode r.id (c.receive (chunk.take readWindow) now).takeFrames.2 r.writable ready)
  | handed {id : ConnectionId} {payload : Bytes} {frames : List Bytes} {writable : Bool} {ready : List Ready} {env : ε} :
      Moves w (.decode id (payload :: frames) writable ready) (.call env, .tcpStun payload id) (.decode id frames writable ready)
  | allHanded {id : ConnectionId} {frames : List Bytes} {writable : Bool} {ready : List Ready} :
      frames = [] ∨ w.conns.get id = none →
      Moves w (.decode id frames writable ready) (.silent, .idle) (.drainWrite id writable ready)
  | wrote {id : ConnectionId} {ready : List Ready} {answer : Answer ε} {c : Conn} : w.conns.get id = some c →
      answer.plain → Moves w (.drainWrite id true ready) (answer, .write id) (.serve ready)
  | writeFailed {id : ConnectionId} {ready : List Ready} {now : Nat} :
      Moves w (.drainWrite id true ready) (.write .failed now, .drop id) (.serve ready)
  | unwritten {id : ConnectionId} {writable : Bool} {ready : List Ready} : (writable → w.conns.get id = none) →
      Moves w (.drainWrite id writable ready) (.silent, .idle) (.serve ready)

theorem Answer.plain_not_reads {answer : Answer ε} (h : answer.plain) : ¬ answer.reads := by
  cases answer with
  | read => cases h
  | _ => exact Bool.false_ne_true

theorem Phase.resting_not_decoding {phase : Phase} (h : phase.resting) : ¬ phase.decoding := by
  cases phase with
  | decode => cases h
  | _ => exact Bool.false_ne_true

namespace Worker
variable {w : Worker H} {answer : Answer ε} {act : Act} {s' : Loop H}

theorem drop_cuts (w : Worker H) (id : ConnectionId) : w.Cuts id (w.drop api id).1 := by
  rw [drop]
  cases h : w.conns.get id with
  | none => exact .inr ⟨h, rfl⟩
  | some _ => exact .inl rfl

theorem drop_live {id : ConnectionId} {c : Conn} (h : w.conns.get id = some c) : (w.drop api id).1 = .drop id := by
  rw [drop, h]

theorem Cuts.not_reads {id : ConnectionId} (h : w.Cuts id act) : ¬ act.reads := by
  rcases h with rfl | ⟨-, rfl⟩
  · exact Bool.false_ne_true
  · exact Bool.false_ne_true

theorem endTick_rests (w : Worker H) : w.endTick.phase = .stopped ∨ w.endTick.phase = .top := by
  rw [endTick]
  cases w.config.maxTicks with
  | none => exact .inr rfl
  | some n =>
    dsimp only
    split
    · exact .inl rfl
    · exact .inr rfl

theorem moves_endTick {w₀ : Worker H} {phase : Phase} (hp : phase.resting) (hact : ¬ act.reads)
    (hplain : answer.plain) :
    Moves w₀ phase (answer, act) w.endTick.phase := by
  rcases w.endTick_rests with h | h
  · rw [h]
    exact .stop (Phase.resting_not_decoding hp) hact (Answer.plain_not_reads hplain)
  · rw [h]
    exact .rest hp rfl hact hplain

private theorem reclaim_moves {doomed : List ConnectionId} (h : w.reclaim api doomed answer = some (act, s')) :
    Moves w (.reclaim doomed) (answer, act) s'.phase := by
  rw [reclaim.eq_def] at h
  split at h
  case h_1 =>
    cases h
    exact .rest rfl rfl Bool.false_ne_true rfl
  case h_2 =>
    cases h
    exact .rest rfl rfl (w.drop_cuts api _).not_reads rfl
  case h_3 => cases h

private theorem poll_moves (h : w.poll answer = some (act, s')) : Moves w .poll (answer, act) s'.phase := by
  rw [poll.eq_def] at h
  split at h
  case h_1 =>
    cases h
    exact .stop Bool.false_ne_true Bool.false_ne_true Bool.false_ne_true
  case h_2 events stop =>
    by_cases hstop : stop
    · rw [if_pos hstop] at h
      cases h
      exact .stop Bool.false_ne_true Bool.false_ne_true Bool.false_ne_true
    · rw [if_neg hstop] at h
      by_cases he : events.isEmpty
      · rw [if_pos he] at h
        cases h
        obtain rfl := List.isEmpty_iff.mp he
        exact moves_endTick rfl Bool.false_ne_true rfl
      · rw [if_neg he, Bool.not_eq_true] at *
        cases h
        cases hstop
        exact .polled
  case h_3 => cases h

private theorem dispatch_moves {rest : Dispatch} (h : w.dispatch api rest answer = some (act, s')) :
    Moves w (.dispatch rest) (answer, act) s'.phase := by
  obtain ⟨events, ready, woken⟩ := rest
  rw [dispatch.eq_def] at h
  split at h
  case h_1 =>
    cases events with
    | nil =>
      cases h
      cases woken with
      | true => exact .stop Bool.false_ne_true Bool.false_ne_true Bool.false_ne_true
      | false => exact .dispatched
    | cons e events =>
      dsimp only at h
      by_cases hwake : e.token = eventWake
      · rw [if_pos hwake] at h
        cases h
        exact .passed (fun hudp => by cases hwake.symm.trans hudp) (fun hl => by cases hwake.symm.trans hl) (by rw [hwake]; rfl)
      rw [if_neg hwake] at h
      by_cases hudp : e.token = eventUdp
      · rw [if_pos hudp] at h
        cases h
        by_cases hsock : w.udp
        · rw [if_pos hsock]
          exact .datagrams hudp
        · rw [if_neg hsock]
          exact .passed (fun _ => hsock) (fun hl => by cases hudp.symm.trans hl) (by rw [hudp]; rfl)
      rw [if_neg hudp] at h
      by_cases hlisten : e.token = eventTcpListen
      · rw [if_pos hlisten] at h
        cases h
        by_cases hsock : w.listener
        · rw [if_pos hsock]
          exact .connections hlisten
        · rw [if_neg hsock]
          exact .passed (fun h => absurd h hudp) (fun _ => hsock) (by rw [hlisten]; rfl)
      rw [if_neg hlisten] at h
      cases hid : tokenConn e.token with
      | none =>
        rw [hid] at h
        cases h
        exact .passed (fun h => absurd h hudp) (fun h => absurd h hlisten) hid
      | some id =>
        rw [hid] at h
        by_cases hc : e.closed
        · simp only [hc, if_true] at h
          cases h
          exact .cut hid hc (w.drop_cuts api id)
        · simp only [hc, Bool.false_eq_true, if_false] at h
          cases h
          exact .readied hid hc
  case h_2 => cases h

private theorem drainUdp_moves {rest : Dispatch} {left : Nat} (h : w.drainUdp api rest left answer = some (act, s')) :
    Moves w (.drainUdp left rest) (answer, act) s'.phase := by
  rw [drainUdp.eq_def] at h
  split at h
  case h_1 =>
    cases h
    exact .batchRead
  case h_2 env octets src =>
    by_cases he : octets.isEmpty
    · rw [if_pos he] at h
      cases h
      exact .datagram Bool.false_ne_true
    · rw [if_neg he] at h
      obtain ⟨h', hh, heq⟩ := Option.map_eq_some_iff.mp h
      cases heq
      exact .datagram Bool.false_ne_true
  case h_3 =>
    cases h
    exact .allRead
  case h_4 =>
    cases h
    exact .recvFailed
  case h_5 => cases h

private theorem acceptAll_moves {rest : Dispatch} {streams : List Nat} {left : Nat}
    (h : w.acceptAll streams rest left answer = some (act, s')) :
    Moves w (.acceptAll left streams rest) (answer, act) s'.phase := by
  rw [acceptAll.eq_def] at h
  split at h
  case h_1 =>
    cases h
    exact .batchAccepted
  case h_2 =>
    cases h
    exact .accepted
  case h_3 =>
    cases h
    exact .allAccepted
  case h_4 =>
    cases h
    exact .acceptFailed
  case h_5 => cases h

private theorem drainAccepts_moves {rest : Dispatch} {streams : List Nat}
    (h : w.drainAccepts api rest streams answer = some (act, s')) :
    Moves w (.drainAccepts streams rest) (answer, act) s'.phase := by
  rw [drainAccepts.eq_def] at h
  split at h
  case h_1 =>
    cases h
    exact .allConnected
  case h_2 =>
    split at h
    case h_1 =>
      cases h
      exact .refused rfl
    case h_2 ok _ _ =>
      cases ok with
      | true =>
        cases h
        exact .connected
      | false =>
        cases h
        exact .refused rfl
    case h_3 => cases h
  case h_3 => cases h

private theorem serve_moves {ready : List Ready} (h : w.serve api ready answer = some (act, s')) :
    Moves w (.serve ready) (answer, act) s'.phase := by
  rw [serve.eq_def] at h
  split at h
  case h_1 =>
    cases h
    exact .served
  case h_2 r ready =>
    split at h
    case h_1 hget =>
      cases h
      exact .absent hget
    case h_2 conn _ hget _ =>
      rw [drainRead.eq_def] at h
      split at h
      case h_1 =>
        cases h
        exact .notReady hget
      case h_2 =>
        cases h
        rw [drop_live api hget]
        exact .readFailed
      case h_3 =>
        cases h
        exact .read hget
      case h_4 => cases h
    case h_3 _ hr =>
      cases h
      exact .unread (by rw [hr]; exact Bool.false_ne_true)
    case h_4 => cases h
  case h_3 => cases h

private theorem handOver_moves {id : ConnectionId} {writable : Bool} {ready : List Ready} {frames : List Bytes}
    (h : w.handOver api id writable ready frames answer = some (act, s')) :
    Moves w (.decode id frames writable ready) (answer, act) s'.phase := by
  rw [handOver.eq_def] at h
  split at h
  case h_1 =>
    cases h
    exact .allHanded (.inl rfl)
  case h_2 =>
    dsimp only at h
    split at h
    case h_1 hget =>
      cases h
      exact .allHanded (.inr hget)
    case h_2 =>
      obtain ⟨h', hh, heq⟩ := Option.map_eq_some_iff.mp h
      cases heq
      exact .handed
    case h_3 => cases h
  case h_3 => cases h

private theorem serveWrite_moves {id : ConnectionId} {writable : Bool} {ready : List Ready}
    (h : w.serveWrite api id writable ready answer = some (act, s')) :
    Moves w (.drainWrite id writable ready) (answer, act) s'.phase := by
  rw [serveWrite.eq_def] at h
  split at h
  case h_1 conn _ hget =>
    rw [drainWrite.eq_def] at h
    split at h
    case h_1 =>
      cases h
      exact .wrote hget rfl
    case h_4 =>
      cases h
      rw [drop_live api hget]
      exact .writeFailed
    case h_5 => cases h
    all_goals
      cases h
      exact .wrote hget rfl
  case h_2 hlive =>
    cases h
    refine .unwritten fun hw => ?_
    cases hget : w.conns.get id with
    | none => rfl
    | some conn => exact absurd hw (hlive conn hget)
  case h_3 => cases h

private theorem drainReplies_moves (h : w.drainReplies api answer = some (act, s')) :
    Moves w .drainReplies (answer, act) s'.phase := by
  rw [drainReplies.eq_def] at h
  split at h
  case h_1 =>
    split at h
    case h_1 =>
      cases h
      exact moves_endTick rfl Bool.false_ne_true rfl
    case h_2 reply h' htake =>
      cases hget : w.conns.get reply.id with
      | none =>
        simp only [hget] at h
        cases h
        exact .rest rfl rfl Bool.false_ne_true rfl
      | some c =>
        simp only [hget] at h
        by_cases hw : c.canWrite reply.payload.length
        · rw [if_pos hw] at h
          cases h
          exact .rest rfl rfl Bool.false_ne_true rfl
        · rw [if_neg hw] at h
          cases h
          exact moves_endTick rfl Bool.false_ne_true rfl
  case h_2 => cases h

end Worker

/-- A step leads somewhere on the list. -/
theorem step_moves {s s' : Loop H} {label : Answer ε × Act} (h : Step api s label s') : Moves s.worker s.phase label s'.phase := by
  obtain ⟨w, phase⟩ := s
  obtain ⟨answer, act⟩ := label
  cases phase with
  | top =>
    simp only [Step, Loop.next] at h
    split at h
    case h_1 stop now =>
      cases h
      cases stop with
      | true => exact .stop Bool.false_ne_true Bool.false_ne_true Bool.false_ne_true
      | false => exact .rest rfl rfl Bool.false_ne_true rfl
    case h_2 => cases h
  | reclaim doomed => exact Worker.reclaim_moves api h
  | poll => exact Worker.poll_moves h
  | dispatch rest => exact Worker.dispatch_moves api h
  | drainUdp left rest => exact Worker.drainUdp_moves api h
  | acceptAll left streams rest => exact Worker.acceptAll_moves h
  | drainAccepts streams rest => exact Worker.drainAccepts_moves api h
  | serve ready => exact Worker.serve_moves api h
  | decode id frames writable ready => exact Worker.handOver_moves api h
  | drainWrite id writable ready => exact Worker.serveWrite_moves api h
  | drainReplies => exact Worker.drainReplies_moves api h
  | stopped => cases h

end QuickRelay.Transport.EventLoop
