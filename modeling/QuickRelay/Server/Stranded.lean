import QuickRelay.Server.Serving
import QuickRelay.Transport.Edges

/-! Readiness when the loop goes back to poll, and a burst that the loop forgets. -/
namespace QuickRelay.Server
open Lib Protocol
open Transport.EventLoop hiding Step History

/-- A worker about to run on fresh sockets. -/
def startSystem {H : Type} (config : WorkerConfig) (handler : H) (udp listener : Bool) : System H :=
  ⟨startLoop config handler udp listener, .new⟩

/-- If every drain comes to the end of what it drains, each source with something queued
has its edge whenever the loop polls. -/
theorem armed_at_poll {ε H : Type} (api : Handler ε H) {config : WorkerConfig} {handler : H} {udp listener : Bool}
    {hist : List (System H × Signal ε)} {s : System H}
    (hrun : Run (System.Step api) (startSystem config handler udp listener) hist s)
    (hsteady : ∀ x ∈ hist, x.1.Steady x.2) (hpoll : s.loop.phase = .poll) : s.Armed := by
  have hstart : Covered (startLoop config handler udp listener).worker Kernel.new (startLoop config handler udp listener).phase := by
    constructor
    case udp => exact fun _ => .inr (.inr (Nat.le_refl _))
    case listener => exact fun _ => .inr (.inr (Nat.le_refl _))
    case registered => exact nofun
    case conns => exact nofun
  rcases run_covered hrun hstart hsteady with hstop | hc
  · rw [hpoll] at hstop
    cases hstop
  · exact hc.armed (by rw [hpoll]; rfl)

section
variable {ε H : Type} {api : Handler ε H}

/-- Empty datagrams that wait. -/
def waiting (n : Nat) (edge : Bool) : Kernel := { Kernel.new with udp := List.replicate n ([], samplePeer), udpEdge := edge }

/-- The datagram socket is reported. -/
def udpReadable : PollEvent := ⟨eventUdp, true, false, false, false, false⟩

def drainWorker (ticks : Nat) : Worker BindingHandler :=
  ⟨⟨300, 5, none⟩, startHandler [] none none, true, true, .new, ⟨ticks, 0, 0, 0, 0⟩⟩

/-- A datagram that arrives after the drain has its edge at the next poll. -/
theorem late_armed : ∃ hist s, s.loop.phase = .poll ∧ s.kernel.udp ≠ [] ∧ s.Armed ∧
    Run (System.Step (serverHandler signedResponseCrypto)) (startSystem ⟨300, 5, none⟩ (startHandler [] none none) true true) hist s := by
  have hthrough : (startSystem ⟨300, 5, none⟩ (startHandler [] none none) true true).Through (serverHandler signedResponseCrypto)
      System.Steady [.arrival (.datagram [] samplePeer), .answer (.clock false 0), .answer .silent,
        .answer (.poll (some [udpReadable]) false), .answer .silent, .answer (.recv sampleEnv (.datagram [] samplePeer)),
        .answer (.recv sampleEnv .notReady), .arrival (.datagram [] samplePeer), .answer .silent, .answer .silent, .answer .silent,
        .answer (.clock false 1), .answer .silent] ⟨⟨drainWorker 1, .poll⟩, waiting 1 true⟩ :=
    ⟨trivial, trivial, trivial, trivial, ⟨fun _ => by decide, nofun⟩, trivial, trivial, trivial, trivial, trivial, trivial, trivial,
      trivial, rfl⟩
  obtain ⟨hist, hrun, hsteady⟩ := Leads.through hthrough
  exact ⟨hist, _, rfl, List.cons_ne_nil _ _, armed_at_poll _ hrun hsteady rfl, hrun⟩

theorem waiting_arrive (n : Nat) (edge : Bool) : (waiting n edge).arrive (.datagram [] samplePeer) = waiting (n + 1) true := by
  rw [waiting, waiting, Kernel.arrive, List.replicate_succ']

theorem burst_arrives (l : Loop H) (n : Nat) : Leads api (fun _ _ => True) ⟨l, .new⟩ ⟨l, waiting (n + 1) true⟩ := by
  have hnext : ∀ n edge, (System.mk l (waiting n edge)).next api (.arrival (.datagram [] samplePeer)) =
      some (.arrival (.datagram [] samplePeer), ⟨l, waiting (n + 1) true⟩) := by
    intro n edge
    rw [← waiting_arrive n edge]
    rfl
  induction n with
  | zero => exact .next (hnext 0 false) trivial
  | succ n ih => exact ih.trans (.next (hnext (n + 1) true) trivial)

/-- A batch is read, whatever waits behind it. -/
theorem batch_read (w : Worker H) (rest : Dispatch) (env : ε) (left n : Nat) : Leads api (fun _ _ => True)
    ⟨⟨w, .drainUdp left rest⟩, waiting (left + n) false⟩ ⟨⟨w, .drainUdp 0 rest⟩, waiting n false⟩ := by
  induction left with
  | zero =>
    rw [Nat.zero_add]
    exact .refl _
  | succ left ih =>
    have hnext : (System.mk ⟨w, .drainUdp (left + 1) rest⟩ (waiting (left + 1 + n) false)).next api
        (.answer (.recv env (.datagram [] samplePeer))) =
      some (.loop (.recv env (.datagram [] samplePeer), .idle), ⟨⟨w, .drainUdp left rest⟩, waiting (left + n) false⟩) := by
      rw [Nat.succ_add]
      rfl
    exact (Leads.next hnext trivial).trans ih

end

/-- One datagram more than a batch: the poll takes the edge, the drain leaves one behind. -/
theorem burst_leads : Leads (serverHandler signedResponseCrypto) (fun _ _ => True)
    (startSystem ⟨300, 5, none⟩ (startHandler [] none none) true true) ⟨⟨drainWorker 1, .poll⟩, waiting 1 false⟩ := by
  have hburst : Leads (serverHandler signedResponseCrypto) (fun _ _ => True)
      (startSystem ⟨300, 5, none⟩ (startHandler [] none none) true true)
      ⟨startLoop ⟨300, 5, none⟩ (startHandler [] none none) true true, waiting (udpDrainBatch + 1) true⟩ :=
    burst_arrives _ udpDrainBatch
  have hpoll : (System.mk (startLoop ⟨300, 5, none⟩ (startHandler [] none none) true true) (waiting (udpDrainBatch + 1) true)).Through
      (serverHandler signedResponseCrypto) (fun _ _ => True) [.answer (.clock false 0), .answer .silent,
        .answer (.poll (some [udpReadable]) false), .answer .silent]
      ⟨⟨drainWorker 0, .drainUdp udpDrainBatch ⟨[], [], false⟩⟩, waiting (udpDrainBatch + 1) false⟩ :=
    ⟨trivial, trivial, trivial, trivial, rfl⟩
  have hrest : (System.mk ⟨drainWorker 0, .drainUdp 0 ⟨[], [], false⟩⟩ (waiting 1 false)).Through
      (serverHandler signedResponseCrypto) (fun _ _ => True) [.answer .silent, .answer .silent, .answer .silent, .answer .silent,
        .answer (.clock false 1), .answer .silent] ⟨⟨drainWorker 1, .poll⟩, waiting 1 false⟩ :=
    ⟨trivial, trivial, trivial, trivial, trivial, trivial, rfl⟩
  exact ((hburst.trans (.through hpoll)).trans (batch_read _ _ sampleEnv udpDrainBatch 1)).trans (.through hrest)

/-- A burst of one datagram more than a batch is stranded. -/
theorem burst_stranded : ¬ ∀ (ε H : Type) (api : Handler ε H) (config : WorkerConfig) (handler : H) (udp listener : Bool)
    (hist : List (System H × Signal ε)) (s : System H),
    Run (System.Step api) (startSystem config handler udp listener) hist s → s.loop.phase = .poll → s.Armed := by
  intro hall
  obtain ⟨hist, hrun, -⟩ := burst_leads
  have harmed := hall _ _ _ _ _ _ _ _ _ hrun rfl
  cases harmed.udp rfl (List.cons_ne_nil _ _)

end QuickRelay.Server
