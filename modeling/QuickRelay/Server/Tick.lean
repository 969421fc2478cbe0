import QuickRelay.Server.Outgoing
import QuickRelay.Server.Transports
import QuickRelay.Transport.Work

/-! How much a worker does for what it is told, and how soon it stops. -/
namespace QuickRelay.Server
open Lib Protocol
open Binding (ServerIdentity)
open Transport (ConnectionId QueuedReply)
open Transport.EventLoop hiding Step History

variable (crypto : Crypto)

/-- The steps left in the tick. -/
def left (s : Loop BindingHandler) : Nat := s.phase.work replyQueueCap s.worker.handler.outbox.length

def granted (p : Loop BindingHandler × (Answer Env × Act)) : Nat := p.1.worker.grants replyQueueCap p.2.1

theorem left_endTick (w : Worker BindingHandler) : left w.endTick = 0 := work_endTick w _ _

/-- Whatever a step is told, it does one of the things it was granted. -/
theorem step_left {s s' : Loop BindingHandler} {label : Answer Env × Act}
    (h : Transport.EventLoop.Step (serverHandler crypto) s label s') (hb : s'.worker.handler.outbox.length ≤ replyQueueCap) :
    left s' + 1 ≤ left s + granted (s, label) := by
  obtain ⟨w, phase⟩ := s
  obtain ⟨answer, act⟩ := label
  have hmoves := step_moves (serverHandler crypto) h
  cases phase with
  | top =>
    simp only [Transport.EventLoop.Step, Loop.next] at h
    split at h
    case h_1 stop now =>
      cases h
      have hdoomed := w.doomed_length now
      simp only [left, granted, Worker.grants]
      split
      · simp only [Phase.work]
        omega
      · simp only [Phase.work]
        omega
    case h_2 => cases h
  | poll =>
    simp only [Transport.EventLoop.Step, Loop.next, Worker.poll.eq_def] at h
    split at h
    case h_1 =>
      cases h
      exact Nat.le_refl 1
    case h_2 events stop =>
      split at h
      case isTrue =>
        cases h
        simp only [left, granted, Worker.grants, Phase.work]
        omega
      case isFalse =>
        split at h
        case isTrue =>
          cases h
          rw [left_endTick]
          simp only [granted, Worker.grants]
          omega
        case isFalse =>
          cases h
          simp only [left, granted, Worker.grants, Phase.work, List.length_nil]
          omega
    case h_3 => cases h
  | reclaim doomed =>
    simp only [Transport.EventLoop.Step, Loop.next, Worker.reclaim.eq_def] at h
    split at h
    case h_1 =>
      cases h
      exact Nat.le_add_right _ _
    case h_2 =>
      cases h
      simp only [left, Phase.work, List.length_cons]
      omega
    case h_3 => cases h
  | drainReplies =>
    simp only [Transport.EventLoop.Step, Loop.next, Worker.drainReplies.eq_def] at h
    split at h
    case h_1 =>
      split at h
      case h_1 =>
        cases h
        rw [left_endTick]
        simp only [left, Phase.work]
        omega
      case h_2 reply g htake =>
        have hout : w.handler.outbox = reply :: g.outbox := (queueNext_some htake).2
        have hlen := congrArg List.length hout
        rw [List.length_cons] at hlen
        split at h
        case h_1 =>
          cases h
          simp only [left, Phase.work]
          omega
        case h_2 =>
          split at h
          case isTrue =>
            cases h
            simp only [left, Phase.work]
            omega
          case isFalse =>
            cases h
            rw [left_endTick]
            simp only [left, Phase.work]
            omega
    case h_2 => cases h
  | stopped => cases h
  | _ => exact Nat.le_trans (hmoves.work Bool.false_ne_true (by simp) hb) (Nat.le_add_right _ _)

/-- The steps left before the loop ends, if the stop flag is up. -/
def leftToStop (s : Loop BindingHandler) : Nat := left s + if s.phase = .stopped then 0 else 1

theorem step_stops {s s' : Loop BindingHandler} {label : Answer Env × Act}
    (h : Transport.EventLoop.Step (serverHandler crypto) s label s') (hb : s'.worker.handler.outbox.length ≤ replyQueueCap)
    (hstop : label.1.stops) : leftToStop s' + 1 ≤ leftToStop s := by
  have hstep := step_left crypto h hb
  obtain ⟨w, phase⟩ := s
  obtain ⟨answer, act⟩ := label
  cases answer with
  | clock stop now =>
    obtain rfl : stop = true := hstop
    cases phase with
    | top =>
      cases h
      exact Nat.le_refl 1
    | _ => exact absurd (step_label (serverHandler crypto) h).1 Bool.false_ne_true
  | poll events stop =>
    cases phase with
    | poll =>
      cases events with
      | none =>
        cases h
        exact Nat.le_refl 1
      | some events =>
        obtain rfl : stop = true := hstop
        cases h
        exact Nat.le_refl 1
    | _ => exact absurd (step_label (serverHandler crypto) h).1 Bool.false_ne_true
  | _ =>
    have hrun : phase ≠ .stopped := by
      rintro rfl
      cases h
    simp only [leftToStop, granted, Worker.grants, if_neg hrun] at hstep ⊢
    split
    · omega
    · omega

/-! ### What can stop a worker -/

/-- The packet to hand over next makes the parser panic. -/
def Dying (s : Loop BindingHandler) : Prop :=
  ∃ id payload frames writable ready, s.phase = .decode id (payload :: frames) writable ready ∧ EmptyAlternateServer payload

/-- A worker that has not stopped can go on, also with the stop flag up, or it dies. -/
theorem exists_step (s : Loop BindingHandler) (h : s.phase ≠ .stopped) :
    (∃ label u, Transport.EventLoop.Step (serverHandler crypto) s label u ∧ label.1.stops) ∨ Dying s := by
  obtain ⟨w, phase⟩ := s
  have step : ∀ answer : Answer Env, answer.stops → ((Loop.mk w phase).next (serverHandler crypto) answer).isSome →
      ∃ label u, Transport.EventLoop.Step (serverHandler crypto) ⟨w, phase⟩ label u ∧ label.1.stops := by
    intro answer hflag hnext
    obtain ⟨⟨act, u⟩, heq⟩ := Option.isSome_iff_exists.mp hnext
    exact ⟨(answer, act), u, heq, hflag⟩
  cases phase with
  | top => exact .inl (step (.clock true 0) rfl rfl)
  | reclaim doomed =>
    refine .inl (step .silent rfl ?_)
    cases doomed <;> rfl
  | poll => exact .inl (step (.poll (some []) true) rfl rfl)
  | dispatch rest =>
    refine .inl (step .silent rfl ?_)
    simp only [Loop.next, Worker.dispatch]
    split
    · rfl
    · repeat' split
      all_goals rfl
  | drainUdp left rest =>
    cases left with
    | zero => exact .inl (step .silent rfl rfl)
    | succ left => exact .inl (step (.recv sampleEnv .notReady) rfl rfl)
  | acceptAll left streams rest =>
    cases left with
    | zero => exact .inl (step .silent rfl rfl)
    | succ left => exact .inl (step (.accept .notReady) rfl rfl)
  | drainAccepts streams rest =>
    cases streams with
    | nil => exact .inl (step .silent rfl rfl)
    | cons stream streams =>
      cases halloc : w.conns.alloc with
      | none => exact .inl (step .silent rfl (by simp only [Loop.next, Worker.drainAccepts, halloc]; rfl))
      | some r => exact .inl (step (.register false 0) rfl (by simp only [Loop.next, Worker.drainAccepts, halloc]; rfl))
  | serve ready =>
    cases ready with
    | nil => exact .inl (step .silent rfl rfl)
    | cons r ready =>
      cases hget : w.conns.get r.id with
      | none => exact .inl (step .silent rfl (by simp only [Loop.next, Worker.serve, hget]; rfl))
      | some c =>
        cases hr : r.readable with
        | true =>
          exact .inl (step (.read .notReady 0) rfl (by simp only [Loop.next, Worker.serve, hget, hr]; rfl))
        | false => exact .inl (step .silent rfl (by simp only [Loop.next, Worker.serve, hget, hr]; rfl))
  | decode id frames writable ready =>
    cases frames with
    | nil => exact .inl (step .silent rfl rfl)
    | cons payload frames =>
      cases hget : w.conns.get id with
      | none => exact .inl (step .silent rfl (by simp only [Loop.next, Worker.handOver, hget]; rfl))
      | some c =>
        by_cases hpanic : parse payload = .panic
        · exact .inr ⟨id, payload, frames, writable, ready, rfl, (parse_eq_panic payload).mp hpanic⟩
        · obtain ⟨g, hg⟩ := onTcpStun_ok crypto w.handler sampleEnv hpanic id
          have hcall : (serverHandler crypto).onTcpStun w.handler sampleEnv payload id = some g := by
            rw [serverHandler]
            dsimp only
            rw [hg]
          exact .inl (step (.call sampleEnv) rfl (by simp only [Loop.next, Worker.handOver, hget, hcall]; rfl))
  | drainWrite id writable ready =>
    cases hget : w.conns.get id with
    | none => exact .inl (step .silent rfl (by simp only [Loop.next, Worker.serveWrite, hget]; rfl))
    | some c =>
      cases writable with
      | false => exact .inl (step .silent rfl (by simp only [Loop.next, Worker.serveWrite, hget]; rfl))
      | true =>
        cases hw : c.hasWrite with
        | true =>
          exact .inl (step (.write .notReady 0) rfl
            (by simp only [Loop.next, Worker.serveWrite, Worker.drainWrite, hget, hw]; rfl))
        | false =>
          exact .inl (step .silent rfl (by simp only [Loop.next, Worker.serveWrite, Worker.drainWrite, hget, hw]; rfl))
  | drainReplies =>
    refine .inl (step .silent rfl ?_)
    simp only [Loop.next, Worker.drainReplies]
    split
    · rfl
    · split
      · rfl
      · split <;> rfl
  | stopped => exact absurd rfl h

/-! ### Runs -/

section Run
variable {config : WorkerConfig} {addresses : List ServerIdentity} {sender : Option UdpSocket} {tcp : Option ServerIdentity}
  {udp listener : Bool} {hist : LoopHistory} {s : Loop BindingHandler}
  (hrun : ServerRun crypto config (startHandler addresses sender tcp) udp listener hist s)
include hrun

theorem run_bounded : s.worker.handler.outbox.length ≤ replyQueueCap := by
  obtain ⟨hc, ho⟩ := startHandler_queue addresses sender tcp
  exact (run_agrees crypto hc ho hrun).bounded

/-- **Bounded ticks**: a worker takes no more steps than it was granted: two and one for
each live connection when it reads the clock, 326 for each event a poll reports and 4100
besides, and none for whatever else it is answered. A step is one call of the system or of the
handler, or one round of a loop; the walks over all slots of the table, for the poll's deadline
and for the connections past theirs, are within one step. -/
theorem work_granted : hist.length + left s ≤ (hist.map granted).sum := by
  have hinv := hrun.invariant (P := fun hist s => ServerRun crypto config (startHandler addresses sender tcp) udp listener hist s →
    hist.length + left s ≤ (hist.map granted).sum) ?_ ?_
  · exact hinv hrun
  · intro _
    exact Nat.le_refl _
  · intro hist t label u hr ih hs hrun'
    have hstep := step_left crypto hs (run_bounded crypto hrun')
    have hbefore := ih hr
    rw [List.length_append, List.map_append, List.sum_append, List.length_singleton, List.map_singleton,
      List.sum_singleton]
    omega

/-- **Shutdown**: once the stop flag is up, a worker in any state it reaches takes at most
the steps left in its tick and one more, and goes on until it has stopped, if no packet
kills it. -/
theorem stops_soon {more : LoopHistory} {t : Loop BindingHandler}
    (hmore : Run (Transport.EventLoop.Step (serverHandler crypto)) s more t) (hflag : ∀ p ∈ more, p.2.1.stops) :
    more.length + leftToStop t ≤ leftToStop s ∧ (t.phase = .stopped ∨ Dying t ∨
      ∃ label u, Transport.EventLoop.Step (serverHandler crypto) t label u ∧ label.1.stops) := by
  constructor
  · induction hmore with
    | refl => exact Nat.le_of_eq (Nat.zero_add _)
    | @snoc more t u label hr hs ih =>
      have hstep := step_stops crypto hs (run_bounded crypto (hrun.trans (hr.snoc hs)))
        (hflag _ (List.mem_append_right _ (List.mem_singleton.mpr rfl)))
      have hbefore := ih fun p hp => hflag p (List.mem_append_left _ hp)
      rw [List.length_append, List.length_singleton]
      omega
  · by_cases hstopped : t.phase = .stopped
    · exact .inl hstopped
    · exact .inr ((exists_step crypto t hstopped).symm)

end Run

/-- A poll reports the datagram socket, and one datagram is read. -/
def readOne : List (Answer Env) :=
  [.clock false 0, .silent, .poll (some [⟨eventUdp, true, false, false, false, false⟩]) false, .silent,
    .recv sampleEnv (.datagram plainRequest samplePeer)]

/-- The rest of that tick, and then the stop flag. -/
def finishAndStop : List (Answer Env) := [.recv sampleEnv .notReady, .silent, .silent, .silent, .clock true 1]

def idleLoop : Loop BindingHandler := startLoop ⟨300, 5, none⟩ (startHandler [] none (some sampleIdentity)) true true

theorem readOne_exec : (idleLoop.exec (serverHandler signedResponseCrypto) readOne).map (fun r => (r.1.length, r.2.phase)) =
    some (5, .drainUdp 127 ⟨[], [], false⟩) := by decide +kernel

theorem readOne_granted : ∃ (hist : LoopHistory) (s : Loop BindingHandler), hist.length = 5 ∧ s.phase = .drainUdp 127 ⟨[], [], false⟩ ∧
    hist.length + left s ≤ (hist.map granted).sum := by
  obtain ⟨⟨hist, s⟩, hexec, heq⟩ := Option.map_eq_some_iff.mp readOne_exec
  obtain ⟨hlen, hphase⟩ := Prod.mk.inj heq
  exact ⟨hist, s, hlen, hphase, work_granted signedResponseCrypto (Loop.exec_run hexec)⟩

theorem finishAndStop_exec : (idleLoop.exec (serverHandler signedResponseCrypto) readOne).bind (fun r =>
      (r.2.exec (serverHandler signedResponseCrypto) finishAndStop).map fun q =>
        (q.1.length, q.1.all fun p => p.2.1.stops, q.2.phase)) = some (5, true, .stopped) := by decide +kernel

theorem finishAndStop_soon : ∃ (more : LoopHistory) (s t : Loop BindingHandler), more.length = 5 ∧ t.phase = .stopped ∧
    more.length + leftToStop t ≤ leftToStop s := by
  obtain ⟨⟨hist, s⟩, hexec, hrest⟩ := Option.bind_eq_some_iff.mp finishAndStop_exec
  obtain ⟨⟨more, t⟩, hmore, heq⟩ := Option.map_eq_some_iff.mp hrest
  obtain ⟨hlen, hall⟩ := Prod.mk.inj heq
  obtain ⟨hflag, hphase⟩ := Prod.mk.inj hall
  exact ⟨more, s, t, hlen, hphase, (stops_soon signedResponseCrypto (Loop.exec_run hexec) (Loop.exec_run hmore)
    fun p hp => List.all_eq_true.mp hflag p hp).1⟩

end QuickRelay.Server
