import QuickRelay.Lib.Simulation
import QuickRelay.Server.Provenance
import QuickRelay.Server.Serving

/-! The handler inside the worker: a run of the event loop is a run of the handler on the
calls the loop makes, and none of these calls configures it. -/
namespace QuickRelay.Server
open Lib Protocol
open Binding (SocketAddr ServerIdentity)
open Transport (ConnectionId QueuedReply)
open Transport.EventLoop hiding Step History

variable (crypto : Crypto)

/-- The calls one step of the worker makes, each with the handler it is made on. -/
def calls (p : Loop BindingHandler × (Answer Env × Act)) : History :=
  match p.2.2, p.2.1 with
  | .stun datagram src, .recv env _ => [(p.1.worker.handler, .stun env datagram src)]
  | .connect id _, _ => [(p.1.worker.handler, .tcpConnect id)]
  | .tcpStun payload id, .call env => [(p.1.worker.handler, .tcpStun env payload id)]
  | .drop id, _ => [(p.1.worker.handler, .tcpError id)]
  | .place _, _ => [(p.1.worker.handler, .takeReply)]
  | .skip _, _ => [(p.1.worker.handler, .takeReply)]
  | .putBack reply, _ => [(p.1.worker.handler, .takeReply), (p.1.worker.handler.queueNext.2, .queueReply reply)]
  | _, _ => []

theorem serverHandler_onStun {h h' : BindingHandler} {env : Env} {datagram src : Bytes}
    (h1 : (serverHandler crypto).onStun h env datagram src = some h') :
    ∃ sent, h.onStun crypto env datagram src = .ok (h', sent) := by
  rw [serverHandler] at h1
  dsimp only at h1
  split at h1
  case h_1 g sent heq =>
    cases h1
    exact ⟨sent, heq⟩
  case h_2 => cases h1

theorem serverHandler_onTcpStun {h h' : BindingHandler} {env : Env} {datagram : Bytes} {id : ConnectionId}
    (h1 : (serverHandler crypto).onTcpStun h env datagram id = some h') :
    h.onTcpStun crypto env datagram id = .ok h' := by
  rw [serverHandler] at h1
  dsimp only at h1
  split at h1
  case h_1 g heq =>
    cases h1
    exact heq
  case h_2 => cases h1

theorem queueNext_none_eq {h h' : BindingHandler} (h1 : h.queueNext = (none, h')) : h' = h := by
  rw [BindingHandler.queueNext, Prod.mk.injEq] at h1
  obtain ⟨hhead, rfl⟩ := h1
  rw [List.head?_eq_none_iff] at hhead
  rw [hhead, List.tail_nil, ← hhead]

theorem Does.calls {w w' : Worker BindingHandler} {phase : Phase} {label : Answer Env × Act}
    (h : Does (serverHandler crypto) w phase label w') :
    Run (Step crypto) w.handler (calls (⟨w, phase⟩, label)) w'.handler := by
  cases h with
  | idle _ => exact .refl
  | emptied _ htake =>
    rw [queueNext_none_eq htake]
    exact .refl
  | stun _ hstun => exact Run.snoc .refl (serverHandler_onStun crypto hstun)
  | full _ => exact .refl
  | unregistered _ => exact .refl
  | connect _ _ => exact Run.snoc .refl ⟨[], rfl⟩
  | read _ _ => exact .refl
  | tcpStun _ _ htcp =>
    refine Run.snoc .refl ⟨[], ?_⟩
    rw [BindingHandler.apply, serverHandler_onTcpStun crypto htcp]
    rfl
  | write _ _ _ => exact .refl
  | place htake _ _ => exact Run.snoc .refl ⟨[], by rw [BindingHandler.apply]; rw [show w.handler.queueNext = _ from htake]⟩
  | @putBack _ reply g _ _ htake _ _ =>
    have hnext : w.handler.queueNext.2 = g := congrArg Prod.snd htake
    have hback : Step crypto w.handler.queueNext.2 (.queueReply reply) (g.enqueue reply) := by
      rw [hnext]
      exact ⟨[], rfl⟩
    exact Run.snoc (Run.snoc .refl ⟨[], rfl⟩) hback
  | skip htake _ => exact Run.snoc .refl ⟨[], by rw [BindingHandler.apply]; rw [show w.handler.queueNext = _ from htake]⟩
  | drop _ _ => exact Run.snoc .refl ⟨[], rfl⟩

/-- The worker refines its handler. -/
theorem run_calls {s₀ s : Loop BindingHandler} {hist : LoopHistory}
    (hrun : Run (Transport.EventLoop.Step (serverHandler crypto)) s₀ hist s) :
    Run (Step crypto) s₀.worker.handler (hist.flatMap calls) s.worker.handler :=
  hrun.simulate (fun s => s.worker.handler) fun _ _ _ hs => Does.calls crypto (step_does (serverHandler crypto) hs)

theorem startHandler_transactions (addresses : List ServerIdentity) (udp : Option UdpSocket) (tcp : Option ServerIdentity) :
    (startHandler addresses udp tcp).transactions = .empty := by
  have hudp : (udpHandler addresses udp).transactions = .empty := by
    cases udp with
    | none => rfl
    | some socket =>
      rw [udpHandler, BindingHandler.setUdp_eq]
      rfl
  cases tcp with
  | none => exact hudp
  | some identity =>
    rw [startHandler, BindingHandler.setTcpIdentity, BindingHandler.addAddress_eq]
    exact hudp

/-! ### Traffic -/

/-- A call the loop makes: a packet, a connection that comes or goes, or a reply taken. -/
def Event.traffic : Event → Bool
  | .setUdp _ | .setTcpIdentity _ | .setIdentity _ | .setAddresses _ => false
  | _ => true

theorem calls_traffic {p : Loop BindingHandler × (Answer Env × Act)} {q : BindingHandler × Event} (hq : q ∈ calls p) :
    q.2.traffic := by
  obtain ⟨s, answer, act⟩ := p
  cases act with
  | idle | refuse _ | read _ _ | write _ => cases hq
  | connect _ _ | drop _ | place _ | skip _ =>
    rw [List.mem_singleton.mp hq]
    rfl
  | putBack _ =>
    rcases List.mem_cons.mp hq with rfl | hq
    · rfl
    · rw [List.mem_singleton.mp hq]
      rfl
  | stun _ _ =>
    cases answer with
    | recv _ _ =>
      rw [List.mem_singleton.mp hq]
      rfl
    | _ => cases hq
  | tcpStun _ _ =>
    cases answer with
    | call _ =>
      rw [List.mem_singleton.mp hq]
      rfl
    | _ => cases hq

/-- What the control plane gave a handler: the sender, the identities it answers as and
the listen list. -/
structure Service where
  udp : Option UdpSocket
  udpIdentity : Option ServerIdentity
  tcpIdentity : Option ServerIdentity
  addresses : List ServerIdentity
  deriving DecidableEq

def BindingHandler.service (h : BindingHandler) : Service := ⟨h.udp, h.udpIdentity, h.tcpIdentity, h.addresses⟩

theorem enqueue_service (h : BindingHandler) (reply : QueuedReply) : (h.enqueue reply).service = h.service := by
  rw [BindingHandler.enqueue_eq]
  rfl

theorem onStun_service {h h' : BindingHandler} {env : Env} {datagram src : Bytes} {sent : List Sent}
    (hs : h.onStun crypto env datagram src = .ok (h', sent)) : h'.service = h.service := by
  cases onStun_case crypto hs with
  | dropped _ => rfl
  | replayed _ _ _ _ => rfl
  | unsent _ _ _ _ => rfl
  | fresh _ _ _ _ => rfl
  | pathless _ _ _ => rfl

theorem onTcpStun_service {h h' : BindingHandler} {env : Env} {datagram : Bytes} {id : ConnectionId}
    (hs : h.onTcpStun crypto env datagram id = .ok h') : h'.service = h.service := by
  cases onTcpStun_case crypto hs with
  | dropped _ => rfl
  | queued _ _ => exact enqueue_service h _

/-- Traffic leaves the configuration alone. -/
theorem step_service {h h' : BindingHandler} {ev : Event} (ht : ev.traffic) (hs : Step crypto h ev h') :
    h'.service = h.service := by
  obtain ⟨sent, hs⟩ := hs
  cases ev with
  | stun env datagram src => exact onStun_service crypto hs
  | tcpStun env datagram id =>
    obtain ⟨h1, htcp, heq⟩ := Outcome.bind_eq_ok.mp hs
    cases heq
    exact onTcpStun_service crypto htcp
  | queueReply reply =>
    cases hs
    exact enqueue_service h reply
  | tcpConnect id | tcpError id | takeReply =>
    cases hs
    rfl
  | setUdp _ | setTcpIdentity _ | setIdentity _ | setAddresses _ => cases ht

theorem run_service {h₀ h : BindingHandler} {hist : History} (hrun : Run (Step crypto) h₀ hist h)
    (ht : ∀ p ∈ hist, p.2.traffic) : h.service = h₀.service := by
  induction hrun with
  | refl => rfl
  | snoc _ hs ih =>
    rw [step_service crypto (ht _ (List.mem_append_right _ (List.mem_singleton.mpr rfl))) hs]
    exact ih fun p hp => ht p (List.mem_append_left _ hp)

end QuickRelay.Server
