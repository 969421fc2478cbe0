import QuickRelay.Server.Serving
import QuickRelay.Transport.Timers
import QuickRelay.Transport.Work

/-! The counters a worker logs when it stops, against what it did. -/
namespace QuickRelay.Server
open Lib Protocol
open Transport (ConnectionId)
open Transport.EventLoop hiding History

variable {ε H : Type} (api : Handler ε H)

/-- A tick is over with this step. -/
def endsTick (p : Loop H × (Answer ε × Act)) : Bool :=
  match p.1.phase, p.2 with
  | .poll, (.poll (some events) stop, _) => !stop && events.isEmpty
  | .drainReplies, (_, .idle) => true
  | .drainReplies, (_, .putBack _) => true
  | _, _ => false

/-- The calls that are counted: `on_stun`, `on_tcp_connect`, `on_tcp_error` and
`on_tcp_stun`. -/
def handsDatagram (act : Act) : Bool := act matches .stun ..
def announces (act : Act) : Bool := act matches .connect ..
def cuts (act : Act) : Bool := act matches .drop ..
def handsPacket (act : Act) : Bool := act matches .tcpStun ..

/-- The counters after one more step. -/
def count (stats : WorkerStats) (p : Loop H × (Answer ε × Act)) : WorkerStats where
  ticks := stats.ticks + (endsTick p).toNat
  udpPackets := stats.udpPackets + (handsDatagram p.2.2).toNat
  accepts := stats.accepts + (announces p.2.2).toNat
  dropped := stats.dropped + (cuts p.2.2).toNat
  tcpPackets := stats.tcpPackets + (handsPacket p.2.2).toNat

/-- What a history comes to. -/
def tally (hist : Transport.EventLoop.History ε H) : WorkerStats where
  ticks := hist.countP endsTick
  udpPackets := hist.countP fun p => handsDatagram p.2.2
  accepts := hist.countP fun p => announces p.2.2
  dropped := hist.countP fun p => cuts p.2.2
  tcpPackets := hist.countP fun p => handsPacket p.2.2

theorem countP_snoc {α : Type} (f : α → Bool) (l : List α) (a : α) : (l ++ [a]).countP f = l.countP f + (f a).toNat := by
  rw [List.countP_append, List.countP_singleton]
  cases f a <;> rfl

theorem tally_snoc (hist : Transport.EventLoop.History ε H) (p : Loop H × (Answer ε × Act)) :
    tally (hist ++ [p]) = count (tally hist) p := by
  rw [tally, count]
  simp only [countP_snoc, tally]

/-- The connection whose packets are being handed over is there. -/
def HandsOver (s : Loop H) : Prop :=
  match s.phase with
  | .decode id _ _ _ => ∃ c, s.worker.conns.get id = some c
  | _ => True

/-! ### What one step counts -/

section Counts
variable {w : Worker H} {answer : Answer ε} {act : Act} {s' : Loop H}

theorem drop_counts (w : Worker H) (id : ConnectionId) {phase : Phase} {answer : Answer ε}
    (h : endsTick (⟨w, phase⟩, (answer, (w.drop api id).1)) = false) :
    (w.drop api id).2.stats = count w.stats (⟨w, phase⟩, (answer, (w.drop api id).1)) := by
  rw [count, h]
  rw [Worker.drop]
  cases w.conns.get id with
  | none => rfl
  | some c => rfl

theorem endTick_stats (w : Worker H) : w.endTick.worker.stats = { w.stats with ticks := w.stats.ticks + 1 } := by
  rw [Worker.endTick]
  cases w.config.maxTicks with
  | none => rfl
  | some n => rfl

theorem reclaim_counts {doomed : List ConnectionId} (h : w.reclaim api doomed answer = some (act, s')) :
    s'.worker.stats = count w.stats (⟨w, .reclaim doomed⟩, (answer, act)) := by
  rw [Worker.reclaim.eq_def] at h
  split at h
  case h_1 =>
    cases h
    rfl
  case h_2 =>
    cases h
    exact drop_counts api w _ rfl
  case h_3 => cases h

theorem poll_counts (h : w.poll answer = some (act, s')) : s'.worker.stats = count w.stats (⟨w, .poll⟩, (answer, act)) := by
  rw [Worker.poll.eq_def] at h
  split at h
  case h_1 =>
    cases h
    rfl
  case h_2 events stop =>
    cases stop with
    | true =>
      cases h
      rfl
    | false =>
      cases events with
      | nil =>
        cases h
        exact endTick_stats w
      | cons e events =>
        cases h
        rfl
  case h_3 => cases h

theorem dispatch_counts {rest : Dispatch} (h : w.dispatch api rest answer = some (act, s')) :
    s'.worker.stats = count w.stats (⟨w, .dispatch rest⟩, (answer, act)) := by
  rw [Worker.dispatch.eq_def] at h
  split at h
  case h_1 =>
    split at h
    case h_1 =>
      cases h
      rfl
    case h_2 e events _ =>
      by_cases hwake : e.token = eventWake
      · rw [if_pos hwake] at h
        cases h
        rfl
      rw [if_neg hwake] at h
      by_cases hudp : e.token = eventUdp
      · rw [if_pos hudp] at h
        cases h
        rfl
      rw [if_neg hudp] at h
      by_cases hlisten : e.token = eventTcpListen
      · rw [if_pos hlisten] at h
        cases h
        rfl
      rw [if_neg hlisten] at h
      split at h
      case h_1 =>
        cases h
        rfl
      case h_2 id _ =>
        split at h
        case isTrue =>
          cases h
          exact drop_counts api w id rfl
        case isFalse =>
          cases h
          rfl
  case h_2 => cases h

theorem drainUdp_counts {rest : Dispatch} {left : Nat} (h : w.drainUdp api rest left answer = some (act, s')) :
    s'.worker.stats = count w.stats (⟨w, .drainUdp left rest⟩, (answer, act)) := by
  rw [Worker.drainUdp.eq_def] at h
  split at h
  case h_2 left env octets src =>
    split at h
    case isTrue =>
      cases h
      rfl
    case isFalse =>
      obtain ⟨g, -, heq⟩ := Option.map_eq_some_iff.mp h
      cases heq
      rfl
  case h_5 => cases h
  case h_1 | h_3 | h_4 =>
    cases h
    rfl

theorem acceptAll_counts {rest : Dispatch} {streams : List Nat} {left : Nat}
    (h : w.acceptAll streams rest left answer = some (act, s')) :
    s'.worker.stats = count w.stats (⟨w, .acceptAll left streams rest⟩, (answer, act)) := by
  rw [Worker.acceptAll.eq_def] at h
  split at h
  case h_5 => cases h
  case h_1 | h_2 | h_3 | h_4 =>
    cases h
    rfl

theorem drainAccepts_counts {rest : Dispatch} {streams : List Nat} (h : w.drainAccepts api rest streams answer = some (act, s')) :
    s'.worker.stats = count w.stats (⟨w, .drainAccepts streams rest⟩, (answer, act)) := by
  rw [Worker.drainAccepts.eq_def] at h
  split at h
  case h_1 =>
    cases h
    rfl
  case h_2 =>
    split at h
    case h_1 =>
      cases h
      rfl
    case h_2 =>
      split at h
      case isTrue | isFalse =>
        cases h
        rfl
    case h_3 => cases h
  case h_3 => cases h

theorem serve_counts {ready : List Ready} (h : w.serve api ready answer = some (act, s')) :
    s'.worker.stats = count w.stats (⟨w, .serve ready⟩, (answer, act)) := by
  rw [Worker.serve.eq_def] at h
  split at h
  case h_1 =>
    cases h
    rfl
  case h_2 =>
    split at h
    case h_1 | h_3 =>
      cases h
      rfl
    case h_2 =>
      rw [Worker.drainRead.eq_def] at h
      split at h
      case h_1 | h_3 =>
        cases h
        rfl
      case h_2 =>
        cases h
        exact drop_counts api w _ rfl
      case h_4 => cases h
    case h_4 => cases h
  case h_3 => cases h

/-- Whoever hands packets over has the connection, so that each that is counted gets to the
handler. -/
theorem handOver_counts {id : ConnectionId} {writable : Bool} {ready : List Ready} {frames : List Bytes}
    (hlive : HandsOver ⟨w, .decode id frames writable ready⟩) (h : w.handOver api id writable ready frames answer = some (act, s')) :
    s'.worker.stats = count w.stats (⟨w, .decode id frames writable ready⟩, (answer, act)) := by
  obtain ⟨c, hget⟩ := hlive
  rw [Worker.handOver.eq_def] at h
  split at h
  case h_1 =>
    cases h
    rfl
  case h_2 =>
    dsimp only at hget h
    rw [hget] at h
    split at h
    case h_1 heq => cases heq
    case h_2 =>
      obtain ⟨g, -, heq⟩ := Option.map_eq_some_iff.mp h
      cases heq
      rfl
    case h_3 => cases h
  case h_3 => cases h

theorem serveWrite_counts {id : ConnectionId} {writable : Bool} {ready : List Ready}
    (h : w.serveWrite api id writable ready answer = some (act, s')) :
    s'.worker.stats = count w.stats (⟨w, .drainWrite id writable ready⟩, (answer, act)) := by
  rw [Worker.serveWrite.eq_def] at h
  split at h
  case h_1 =>
    rw [Worker.drainWrite.eq_def] at h
    split at h
    case h_1 | h_2 | h_3 =>
      cases h
      rfl
    case h_4 =>
      cases h
      exact drop_counts api w _ rfl
    case h_5 => cases h
  case h_2 =>
    cases h
    rfl
  case h_3 => cases h

theorem drainReplies_counts (h : w.drainReplies api answer = some (act, s')) :
    s'.worker.stats = count w.stats (⟨w, .drainReplies⟩, (answer, act)) := by
  rw [Worker.drainReplies.eq_def] at h
  split at h
  case h_1 =>
    split at h
    case h_1 =>
      cases h
      exact endTick_stats _
    case h_2 =>
      dsimp only at h
      split at h
      case h_1 =>
        cases h
        rfl
      case h_2 =>
        split at h
        case isTrue =>
          cases h
          rfl
        case isFalse =>
          cases h
          exact endTick_stats _
  case h_2 => cases h

end Counts

/-- A step counts what it did. -/
theorem step_counts {s s' : Loop H} {label : Answer ε × Act} (h : Transport.EventLoop.Step api s label s') (hlive : HandsOver s) :
    s'.worker.stats = count s.worker.stats (s, label) := by
  obtain ⟨w, phase⟩ := s
  obtain ⟨answer, act⟩ := label
  rw [Transport.EventLoop.Step, Loop.next.eq_def] at h
  cases phase with
  | top =>
    dsimp only at h
    split at h
    case h_1 =>
      cases h
      rfl
    case h_2 => cases h
  | reclaim doomed => exact reclaim_counts api h
  | poll => exact poll_counts h
  | dispatch rest => exact dispatch_counts api h
  | drainUdp left rest => exact drainUdp_counts api h
  | acceptAll left streams rest => exact acceptAll_counts h
  | drainAccepts streams rest => exact drainAccepts_counts api h
  | serve ready => exact serve_counts api h
  | decode id frames writable ready => exact handOver_counts api hlive h
  | drainWrite id writable ready => exact serveWrite_counts api h
  | drainReplies => exact drainReplies_counts api h
  | stopped => cases h

/-! ### Connections and ticks -/

/-- A slot that is set counts as what it becomes. -/
theorem slot_set {l : List (Option Conn)} {i : Nat} (hlt : i < l.length) (o : Option Conn) :
    (l.set i o).countP Option.isSome + l[i].isSome.toNat = l.countP Option.isSome + o.isSome.toNat := by
  have hpos : l[i].isSome → 0 < l.countP Option.isSome := fun h => List.countP_pos_iff.mpr ⟨_, List.getElem_mem hlt, h⟩
  rw [List.countP_set hlt]
  cases hold : l[i].isSome with
  | false => cases o <;> rfl
  | true =>
    have hsome := hpos hold
    cases o with
    | none =>
      simp only [if_true, Option.isSome_none, Bool.false_eq_true, if_false, Bool.toNat_true, Bool.toNat_false]
      omega
    | some c =>
      simp only [if_true, Option.isSome_some, Bool.toNat_true]
      omega

section Live
variable {m : ConnMgr} {id : ConnectionId}

theorem get_slot (hlt : id.value.toNat < m.conns.length) : m.get id = m.conns[id.value.toNat] := by
  rw [ConnMgr.get, List.getElem?_eq_getElem hlt]
  rfl

theorem live_insert (hlt : id.value.toNat < m.nextId.toNat) (c : Conn) :
    (m.insert id c).live + (m.get id).isSome.toNat = m.live + 1 := by
  rw [← m.counted] at hlt
  rw [get_slot hlt]
  exact slot_set hlt (some c)

theorem live_remove (hlt : id.value.toNat < m.nextId.toNat) : (m.remove id).live + (m.get id).isSome.toNat = m.live := by
  rw [← m.counted] at hlt
  rw [get_slot hlt]
  exact slot_set hlt none

end Live

/-- A new id has a slot, and it is empty. -/
theorem live_alloc {m m' : ConnMgr} {id : ConnectionId} (h : m.alloc = some (id, m')) :
    id.value.toNat < m'.nextId.toNat ∧ m'.get id = none ∧ m'.live = m.live := by
  obtain ⟨hid, -, hnext, hget⟩ := ConnMgr.alloc_eq_some h
  refine ⟨by rw [hid, hnext]; exact Nat.lt_succ_self _, ?_, ?_⟩
  · have hnone := m.get_next
    rwa [← hid, ← hget] at hnone
  · rw [ConnMgr.alloc] at h
    split at h
    case isTrue => cases h
    case isFalse =>
      cases h
      rw [ConnMgr.live, List.countP_append]
      rfl

/-- Connections come with `on_tcp_connect` and go with `on_tcp_error`. -/
theorem does_live {w w' : Worker H} {phase : Phase} {answer : Answer ε} {act : Act} (h : Does api w phase (answer, act) w') :
    w'.conns.live + (cuts act).toNat = w.conns.live + (announces act).toNat := by
  have hkeep : ∀ {id : ConnectionId} {c : Conn} (c' : Conn), w.conns.get id = some c → (w.conns.insert id c').live = w.conns.live := by
    intro id c c' hget
    have hset := live_insert (ConnMgr.lt_of_get hget) c'
    rw [hget] at hset
    exact Nat.add_right_cancel hset
  cases h with
  | unregistered halloc =>
    obtain ⟨hlt, hget, hlive⟩ := live_alloc halloc
    have hset := live_remove hlt
    rw [hget, hlive] at hset
    exact hset
  | @connect _ _ stream now _ _ _ halloc =>
    obtain ⟨hlt, hget, hlive⟩ := live_alloc halloc
    have hset := live_insert hlt (w.accepted stream now)
    rw [hget, hlive] at hset
    exact hset
  | read hget => exact hkeep _ hget
  | write hget => exact hkeep _ hget
  | place _ hget => exact hkeep _ hget
  | drop _ hget =>
    have hset := live_remove (ConnMgr.lt_of_get hget)
    rw [hget] at hset
    exact hset
  | _ => rfl

/-- What is handed over was read from a connection, which the handler cannot cut. -/
theorem step_handsOver {s s' : Loop H} {label : Answer ε × Act} (h : Transport.EventLoop.Step api s label s') (hlive : HandsOver s) :
    HandsOver s' := by
  have hdoes := step_does api h
  have hmoves := step_moves api h
  obtain ⟨w, phase⟩ := s
  obtain ⟨w', phase'⟩ := s'
  dsimp only at hdoes hmoves
  rw [HandsOver]
  cases phase' with
  | decode id frames writable ready =>
    cases hmoves with
    | rest _ hrest => cases hrest
    | read hget =>
      cases hdoes with
      | read hget' _ => exact ⟨_, ConnMgr.get_insert_self (ConnMgr.lt_of_get hget') _⟩
    | handed =>
      cases hdoes with
      | tcpStun _ hget _ => exact ⟨_, hget⟩
  | _ => trivial

theorem endTick_stops {w : Worker H} {n : Nat} (hn : w.config.maxTicks = some n) (hlast : n ≤ w.stats.ticks + 1) :
    w.endTick.phase = .stopped := by
  rw [Worker.endTick]
  dsimp only
  rw [hn]
  exact if_pos hlast

/-- A step that ends the last tick ends the loop. -/
theorem endsTick_stops {s s' : Loop H} {label : Answer ε × Act} (h : Transport.EventLoop.Step api s label s')
    (hend : endsTick (s, label)) {n : Nat} (hn : s.worker.config.maxTicks = some n) (hlast : n ≤ s.worker.stats.ticks + 1) :
    s'.phase = .stopped := by
  obtain ⟨w, phase⟩ := s
  obtain ⟨answer, act⟩ := label
  rw [Transport.EventLoop.Step, Loop.next.eq_def] at h
  cases phase with
  | poll =>
    dsimp only at h
    rw [Worker.poll.eq_def] at h
    split at h
    case h_1 => cases hend
    case h_2 events stop =>
      cases stop with
      | true => cases hend
      | false =>
        cases events with
        | nil =>
          cases h
          exact endTick_stops hn hlast
        | cons => cases hend
    case h_3 => cases h
  | drainReplies =>
    dsimp only at h
    rw [Worker.drainReplies.eq_def] at h
    split at h
    case h_1 =>
      split at h
      case h_1 =>
        cases h
        exact endTick_stops hn hlast
      case h_2 =>
        dsimp only at h
        split at h
        case h_1 =>
          cases h
          cases hend
        case h_2 =>
          split at h
          case isTrue =>
            cases h
            cases hend
          case isFalse =>
            cases h
            exact endTick_stops hn hlast
    case h_2 => cases h
  | _ => cases hend

/-- The ticks are within the limit, and short of it while the loop goes on. -/
def WithinTicks (s : Loop H) : Prop := ∀ n, s.worker.config.maxTicks = some n →
  s.worker.stats.ticks ≤ max n 1 ∧ (s.phase ≠ .stopped → s.worker.stats.ticks < max n 1)

theorem step_withinTicks {s s' : Loop H} {label : Answer ε × Act} (h : Transport.EventLoop.Step api s label s')
    (hlive : HandsOver s) (hticks : WithinTicks s) : WithinTicks s' := by
  intro n hn
  rw [(step_does api h).config] at hn
  have hrunning : s.phase ≠ .stopped := by
    intro hstopped
    have hasks := (step_label api h).1
    rw [hstopped] at hasks
    cases hasks
  have hless := (hticks n hn).2 hrunning
  rw [step_counts api h hlive, count]
  dsimp only
  cases hend : endsTick (s, label) with
  | false => exact ⟨Nat.le_of_lt hless, fun _ => hless⟩
  | true =>
    refine ⟨hless, fun hgoes => ?_⟩
    have hmore : ¬ n ≤ s.worker.stats.ticks + 1 := fun hlast => hgoes (endsTick_stops api h hend hn hlast)
    exact Nat.lt_of_lt_of_le (Nat.not_le.mp hmore) (Nat.le_max_left n 1)

/-! ### Runs -/

/-- **Exact counters**: in every state a worker reaches, its counters say how many ticks it
ended, datagrams and packets it handed up, and connections it announced and cut; those
announced are the cut ones and the live ones; and with a limit of ticks, the loop has not gone
on behind it. -/
theorem stats_exact {config : WorkerConfig} {handler : H} {udp listener : Bool} {hist : Transport.EventLoop.History ε H} {s : Loop H}
    (hrun : Run (Transport.EventLoop.Step api) (startLoop config handler udp listener) hist s) :
    s.worker.stats = tally hist ∧ s.worker.stats.accepts = s.worker.conns.live + s.worker.stats.dropped ∧
    ∀ n, config.maxTicks = some n → s.worker.stats.ticks ≤ max n 1 ∧ (s.phase ≠ .stopped → s.worker.stats.ticks < max n 1) := by
  have hinv : HandsOver s ∧ s.worker.config = config ∧ WithinTicks s ∧ s.worker.stats = tally hist ∧
      s.worker.stats.accepts = s.worker.conns.live + s.worker.stats.dropped := by
    refine hrun.invariant (P := fun hist s => HandsOver s ∧ s.worker.config = config ∧ WithinTicks s ∧
      s.worker.stats = tally hist ∧ s.worker.stats.accepts = s.worker.conns.live + s.worker.stats.dropped) ?_ ?_
    · refine ⟨trivial, rfl, fun n _ => ⟨Nat.zero_le _, fun _ => ?_⟩, rfl, rfl⟩
      exact Nat.lt_of_lt_of_le Nat.zero_lt_one (Nat.le_max_right n 1)
    · intro hist t label u _ ⟨hlive, hconfig, hticks, hstats, hbalance⟩ hs
      have hcounts := step_counts api hs hlive
      refine ⟨step_handsOver api hs hlive, (step_does api hs).config.trans hconfig, step_withinTicks api hs hlive hticks, ?_, ?_⟩
      · rw [tally_snoc, ← hstats]
        exact hcounts
      · have hconns := does_live api (step_does api hs)
        rw [hcounts, count]
        dsimp only
        omega
  obtain ⟨-, hconfig, hticks, hstats, hbalance⟩ := hinv
  refine ⟨hstats, hbalance, ?_⟩
  rw [← hconfig]
  exact hticks

/-- One tick, in which a connection and a datagram come in. -/
def oneTick : List (Answer Env) :=
  [.clock false 0, .silent, .poll (some [⟨eventTcpListen, true, false, false, false, false⟩,
    ⟨eventUdp, true, false, false, false, false⟩]) false, .silent, .accept (.stream 7), .accept .notReady, .register true 0, .silent,
    .silent, .recv sampleEnv (.datagram plainRequest samplePeer), .recv sampleEnv .notReady, .silent, .silent, .silent]

theorem oneTick_exec : ((startLoop ⟨300, 5, some 1⟩ (startHandler [] none (some sampleIdentity)) true true).exec
      (serverHandler signedResponseCrypto) oneTick).map (fun r => (tally r.1, r.2.phase)) =
    some (⟨1, 1, 1, 0, 0⟩, .stopped) := by decide +kernel

/-- With a limit of one tick the loop stops behind it, with one connection that is live. -/
theorem oneTick_exact : ∃ s : Loop BindingHandler, s.phase = .stopped ∧ s.worker.stats = ⟨1, 1, 1, 0, 0⟩ ∧
    s.worker.stats.accepts = s.worker.conns.live + s.worker.stats.dropped := by
  obtain ⟨⟨hist, s⟩, hexec, heq⟩ := Option.map_eq_some_iff.mp oneTick_exec
  obtain ⟨htally, hphase⟩ := Prod.mk.inj heq
  obtain ⟨hstats, hbalance, -⟩ := stats_exact (serverHandler signedResponseCrypto) (Loop.exec_run hexec)
  exact ⟨s, hphase, hstats.trans htally, hbalance⟩

end QuickRelay.Server
