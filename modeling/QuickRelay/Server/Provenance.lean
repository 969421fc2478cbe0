import QuickRelay.Server.Steps

/-! Where kept replies come from: over a whole run, each was rendered for a request of the
run. -/
namespace QuickRelay.Server
open Lib Protocol
open Binding (SocketAddr ServerIdentity BindingResponsePlan)
open Transport (ConnectionId QueuedReply)

variable (crypto : Crypto)

abbrev History := List (BindingHandler × Event)

/-- A reply rendered for a request of the history, under the request's transaction. Over
UDP the transaction had no kept reply then, or there was no path to look one up for. -/
inductive Rendered (hist : History) (key : TransactionKey) (out : Bytes) : Prop
  | udp {g : BindingHandler} {env : Env} {datagram src : Bytes} {msg : Message} {peer : SocketAddr}
      {identity : ServerIdentity} : (g, .stun env datagram src) ∈ hist → UdpRequest g datagram src msg peer identity →
      key = udpKey msg peer → (Live g env → (g.transactions.lookup env.lookupAt key).1 = none) →
      g.freshReply crypto msg peer identity = .ok out → Rendered hist key out
  | tcp {g : BindingHandler} {env : Env} {datagram : Bytes} {id : ConnectionId} {msg : Message}
      {identity : ServerIdentity} : (g, .tcpStun env datagram id) ∈ hist → TcpRequest g datagram id msg identity →
      key = tcpKey msg identity id → g.freshReply crypto msg identity.toSocketAddr identity = .ok out →
      Rendered hist key out

variable {crypto} in
theorem Rendered.mono {hist : History} {key : TransactionKey} {out : Bytes} (h : Rendered crypto hist key out)
    (more : History) : Rendered crypto (hist ++ more) key out := by
  cases h with
  | udp hmem hr hk hnew hout => exact .udp (List.mem_append_left more hmem) hr hk hnew hout
  | tcp hmem hr hk hout => exact .tcp (List.mem_append_left more hmem) hr hk hout

/-- Every kept reply was rendered for a request of the history. -/
def KeepsRendered (hist : History) (c : TransactionCache) : Prop :=
  ∀ e ∈ c.entries, Rendered crypto hist e.1 e.2.datagram

namespace KeepsRendered
variable {crypto} {hist : History} {c : TransactionCache}

theorem mono (h : KeepsRendered crypto hist c) (more : History) : KeepsRendered crypto (hist ++ more) c :=
  fun e he => (h e he).mono more

theorem reap (h : KeepsRendered crypto hist c) (now : Nat) : KeepsRendered crypto hist (c.reap now) :=
  fun e he => h e (TransactionCache.mem_reap.mp he).1

theorem insert (h : KeepsRendered crypto hist c) {key : TransactionKey} {out : Bytes} (hout : Rendered crypto hist key out)
    (reapAt fileAt : Nat) : KeepsRendered crypto hist (c.insert reapAt fileAt key out) := by
  intro e he
  rcases TransactionCache.mem_insert he with rfl | ⟨he, -⟩
  · exact hout
  · exact h e he

theorem lookup (h : KeepsRendered crypto hist c) {now : Nat} {key : TransactionKey} {out : Bytes}
    (hl : (c.lookup now key).1 = some out) : Rendered crypto hist key out := by
  obtain ⟨t, he, -⟩ := TransactionCache.lookup_eq_some.mp hl
  exact h _ he

end KeepsRendered

theorem onStun_rendered {hist : History} {h h' : BindingHandler} {env : Env} {datagram src : Bytes} {sent : List Sent}
    (hk : KeepsRendered crypto hist h.transactions) (hs : h.onStun crypto env datagram src = .ok (h', sent)) :
    KeepsRendered crypto (hist ++ [(h, .stun env datagram src)]) h'.transactions := by
  have hk' := hk.mono [(h, .stun env datagram src)]
  have hmem : (h, Event.stun env datagram src) ∈ hist ++ [(h, .stun env datagram src)] :=
    List.mem_append_right hist List.mem_cons_self
  cases onStun_case crypto hs with
  | dropped _ => exact hk'
  | replayed _ _ hlook _ => exact (hk'.reap env.lookupAt).insert (hk'.lookup hlook) env.reapAt env.fileAt
  | unsent _ _ _ _ => exact hk'.reap env.lookupAt
  | fresh hr _ hlook hfresh =>
    exact (hk'.reap env.lookupAt).insert (.udp hmem hr rfl (fun _ => hlook) hfresh) env.reapAt env.fileAt
  | pathless hr hdead hfresh =>
    exact hk'.insert (.udp hmem hr rfl (fun hlive => absurd hlive hdead) hfresh) env.reapAt env.fileAt

theorem onTcpStun_rendered {hist : History} {h h' : BindingHandler} {env : Env} {datagram : Bytes} {id : ConnectionId}
    (hk : KeepsRendered crypto hist h.transactions) (hs : h.onTcpStun crypto env datagram id = .ok h') :
    KeepsRendered crypto (hist ++ [(h, .tcpStun env datagram id)]) h'.transactions := by
  have hk' := hk.mono [(h, .tcpStun env datagram id)]
  cases onTcpStun_case crypto hs with
  | dropped _ => exact hk'
  | queued hr hout =>
    refine (hk'.reap env.lookupAt).insert ?_ env.reapAt env.fileAt
    rcases hout with hlook | ⟨-, hfresh⟩
    · exact hk'.lookup hlook
    · exact .tcp (List.mem_append_right hist List.mem_cons_self) hr rfl hfresh

theorem step_rendered {hist : History} {h h' : BindingHandler} {ev : Event} (hk : KeepsRendered crypto hist h.transactions)
    (hs : Step crypto h ev h') : KeepsRendered crypto (hist ++ [(h, ev)]) h'.transactions := by
  obtain ⟨sent, hs⟩ := hs
  by_cases hu : ∃ env datagram src, ev = .stun env datagram src
  · obtain ⟨env, datagram, src, rfl⟩ := hu
    exact onStun_rendered crypto hk hs
  by_cases ht : ∃ env datagram id, ev = .tcpStun env datagram id
  · obtain ⟨env, datagram, id, rfl⟩ := ht
    obtain ⟨h1, htcp, heq⟩ := Outcome.bind_eq_ok.mp hs
    cases heq
    exact onTcpStun_rendered crypto hk htcp
  · rw [apply_transactions crypto hs (fun env d src he => hu ⟨env, d, src, he⟩) fun env d id he => ht ⟨env, d, id, he⟩]
    exact hk.mono [(h, ev)]

/-- In every run of a new handler, every reply kept was rendered for a request of the
run. -/
theorem run_rendered {hist : History} {h : BindingHandler} (hr : Run (Step crypto) .new hist h) :
    KeepsRendered crypto hist h.transactions :=
  hr.invariant (P := fun hist h => KeepsRendered crypto hist h.transactions) (fun e he => by cases he)
    fun _ _ _ _ _ hk hs => step_rendered crypto hk hs

end QuickRelay.Server
