import QuickRelay.Server.Steps
import QuickRelay.Transport.Lifecycle

/-! A worker that runs the server's handler: its connection table, the handler's own, and
the outbox between them. -/
namespace QuickRelay.Server
open Lib Protocol
open Binding (ServerIdentity)
open Transport (ConnectionId QueuedReply)
open Transport.EventLoop hiding Step History

variable (crypto : Crypto)

/-- The handler as the transport sees it. -/
def serverHandler : Handler Env BindingHandler where
  onStun h env datagram src :=
    match h.onStun crypto env datagram src with
    | .ok (h, _) => some h
    | _ => none
  onTcpConnect := BindingHandler.noteConnect
  onTcpStun h env datagram id :=
    match h.onTcpStun crypto env datagram id with
    | .ok h => some h
    | _ => none
  onTcpError := BindingHandler.forget
  takeReply := BindingHandler.queueNext
  queueReply := BindingHandler.enqueue

/-- The handler after the datagram socket of `start_worker`: the listen list, and the
sender if one could be bound. -/
def udpHandler (addresses : List ServerIdentity) : Option UdpSocket → BindingHandler
  | some socket => (BindingHandler.new.setAddresses addresses).setUdp socket
  | none => BindingHandler.new.setAddresses addresses

/-- The handler `start_worker` gives a worker. -/
def startHandler (addresses : List ServerIdentity) (udp : Option UdpSocket) : Option ServerIdentity → BindingHandler
  | some identity => (udpHandler addresses udp).setTcpIdentity identity
  | none => udpHandler addresses udp

/-- A worker about to run, with no connection. -/
def startLoop {H : Type} (config : WorkerConfig) (handler : H) (udp listener : Bool) : Loop H :=
  ⟨⟨config, handler, udp, listener, .new, ⟨0, 0, 0, 0, 0⟩⟩, .top⟩

theorem startHandler_queue (addresses : List ServerIdentity) (udp : Option UdpSocket) (tcp : Option ServerIdentity) :
    (startHandler addresses udp tcp).conns = [] ∧ (startHandler addresses udp tcp).outbox = [] := by
  have hudp : (udpHandler addresses udp).conns = [] ∧ (udpHandler addresses udp).outbox = [] := by
    cases udp with
    | none => exact ⟨rfl, rfl⟩
    | some socket =>
      rw [udpHandler, BindingHandler.setUdp_eq]
      exact ⟨rfl, rfl⟩
  cases tcp with
  | none => exact hudp
  | some identity =>
    rw [startHandler, BindingHandler.setTcpIdentity, BindingHandler.addAddress_eq]
    exact hudp

/-! ### The queue -/

/-- What a step can do to the handler's connections and its outbox. -/
inductive QueueStep (h : BindingHandler) : Act → BindingHandler → Prop
  | kept {act : Act} {h' : BindingHandler} : (∀ id, ¬ act.concerns id) → (∀ r, act ≠ .place r ∧ act ≠ .putBack r ∧ act ≠ .skip r) →
      h'.conns = h.conns → h'.outbox = h.outbox → QueueStep h act h'
  | tracked {id : ConnectionId} {stream : Nat} : QueueStep h (.connect id stream) (h.noteConnect id)
  | answered {payload : Bytes} {id : ConnectionId} {replies : List QueuedReply} {h' : BindingHandler} :
      h'.conns = h.conns → h'.outbox = h.outbox ++ replies → (∀ r ∈ replies, r.id = id ∧ id ∈ h.conns) →
      h'.outbox.length ≤ max h.outbox.length replyQueueCap → QueueStep h (.tcpStun payload id) h'
  | placed {r : QueuedReply} {h' : BindingHandler} : h'.conns = h.conns → h.outbox = r :: h'.outbox →
      QueueStep h (.place r) h'
  | skipped {r : QueuedReply} {h' : BindingHandler} : h'.conns = h.conns → h.outbox = r :: h'.outbox →
      QueueStep h (.skip r) h'
  | returned {r : QueuedReply} {rest : List QueuedReply} {h' : BindingHandler} : h'.conns = h.conns → h.outbox = r :: rest →
      h'.outbox = rest ++ [r] → QueueStep h (.putBack r) h'
  | forgotten {id : ConnectionId} : QueueStep h (.drop id) (h.forget id)

theorem onStun_queue {h h' : BindingHandler} {env : Env} {datagram src : Bytes} {sent : List Sent}
    (h1 : h.onStun crypto env datagram src = .ok (h', sent)) : h'.conns = h.conns ∧ h'.outbox = h.outbox := by
  cases onStun_case crypto h1 with
  | dropped _ => exact ⟨rfl, rfl⟩
  | replayed _ _ _ _ => exact ⟨rfl, rfl⟩
  | unsent _ _ _ _ => exact ⟨rfl, rfl⟩
  | fresh _ _ _ _ => exact ⟨rfl, rfl⟩
  | pathless _ _ _ => exact ⟨rfl, rfl⟩

theorem onTcpStun_queue {h h' : BindingHandler} {env : Env} {datagram : Bytes} {id : ConnectionId}
    (h1 : h.onTcpStun crypto env datagram id = .ok h') : QueueStep h (.tcpStun datagram id) h' := by
  cases onTcpStun_case crypto h1 with
  | dropped _ => exact .answered rfl (List.append_nil _).symm (fun _ hr => by cases hr) (Nat.le_max_left _ _)
  | @queued msg identity out hr _ =>
    have hout : (h.enqueue ⟨id, out⟩).outbox =
        h.outbox ++ if h.outbox.length < replyQueueCap then [⟨id, out⟩] else [] := by
      rw [BindingHandler.enqueue_eq]
    have hconns : (h.enqueue ⟨id, out⟩).conns = h.conns := by rw [BindingHandler.enqueue_eq]
    refine .answered hconns hout (fun r hmem => ?_) ?_
    · split at hmem
      · rw [List.mem_singleton.mp hmem]
        exact ⟨rfl, hr.tracked⟩
      · cases hmem
    · change ((h.enqueue ⟨id, out⟩).outbox).length ≤ _
      rw [hout, List.length_append]
      split
      · rw [List.length_singleton]
        omega
      · exact Nat.le_max_left _ _

theorem queueNext_some {h h' : BindingHandler} {r : QueuedReply} (h1 : h.queueNext = (some r, h')) :
    h'.conns = h.conns ∧ h.outbox = r :: h'.outbox := by
  rw [BindingHandler.queueNext, Prod.mk.injEq] at h1
  obtain ⟨hhead, rfl⟩ := h1
  obtain ⟨rest, hrest⟩ := List.head?_eq_some_iff.mp hhead
  rw [hrest]
  exact ⟨rfl, rfl⟩

theorem queueNext_none {h h' : BindingHandler} (h1 : h.queueNext = (none, h')) : h'.conns = h.conns ∧ h'.outbox = h.outbox := by
  rw [BindingHandler.queueNext, Prod.mk.injEq] at h1
  obtain ⟨hhead, rfl⟩ := h1
  rw [List.head?_eq_none_iff] at hhead
  rw [hhead]
  exact ⟨rfl, rfl⟩

theorem does_queue {w w' : Worker BindingHandler} {phase : Phase} {label : Answer Env × Act}
    (h : Does (serverHandler crypto) w phase label w') (hb : w.handler.outbox.length ≤ replyQueueCap) : QueueStep w.handler label.2 w'.handler := by
  cases h with
  | idle _ => exact .kept (fun _ => nofun) (fun _ => ⟨nofun, nofun, nofun⟩) rfl rfl
  | emptied _ htake =>
    obtain ⟨hconns, hout⟩ := queueNext_none htake
    exact .kept (fun _ => nofun) (fun _ => ⟨nofun, nofun, nofun⟩) hconns hout
  | @stun _ _ _ _ _ h' _ hstun =>
    have hq : h'.conns = w.handler.conns ∧ h'.outbox = w.handler.outbox := by
      rw [serverHandler] at hstun
      dsimp only at hstun
      split at hstun
      case h_1 h1 =>
        cases hstun
        exact onStun_queue crypto h1
      case h_2 => cases hstun
    exact .kept (fun _ => nofun) (fun _ => ⟨nofun, nofun, nofun⟩) hq.1 hq.2
  | full _ => exact .kept (fun _ => nofun) (fun _ => ⟨nofun, nofun, nofun⟩) rfl rfl
  | unregistered _ => exact .kept (fun _ => nofun) (fun _ => ⟨nofun, nofun, nofun⟩) rfl rfl
  | connect _ _ => exact .tracked
  | read _ _ => exact .kept (fun _ => nofun) (fun _ => ⟨nofun, nofun, nofun⟩) rfl rfl
  | tcpStun _ _ htcp =>
    rw [serverHandler] at htcp
    dsimp only at htcp
    split at htcp
    case h_1 h1 =>
      cases htcp
      exact onTcpStun_queue crypto h1
    case h_2 => cases htcp
  | write _ _ _ => exact .kept (fun _ => nofun) (fun _ => ⟨nofun, nofun, nofun⟩) rfl rfl
  | place htake _ _ =>
    obtain ⟨hconns, hout⟩ := queueNext_some htake
    exact .placed hconns hout
  | @putBack _ reply h' _ _ htake _ _ =>
    obtain ⟨hconns, hout⟩ := queueNext_some htake
    have hroom : h'.outbox.length < replyQueueCap := by
      rw [hout, List.length_cons] at hb
      exact hb
    have heq := h'.enqueue_eq reply
    rw [if_pos hroom] at heq
    refine .returned ?_ hout ?_
    · exact (congrArg BindingHandler.conns heq).trans hconns
    · exact congrArg BindingHandler.outbox heq
  | skip htake _ =>
    obtain ⟨hconns, hout⟩ := queueNext_some htake
    exact .skipped hconns hout
  | drop _ _ => exact .forgotten

/-! ### Agreement -/

/-- The worker's table and the handler's are of the same ids, and every queued reply is
for one of them. -/
structure Agrees (w : Worker BindingHandler) : Prop where
  conns : ∀ id, id ∈ w.handler.conns ↔ ∃ c, w.conns.get id = some c
  outbox : ∀ r ∈ w.handler.outbox, r.id ∈ w.handler.conns
  bounded : w.handler.outbox.length ≤ replyQueueCap

theorem live_of_streams {m m' : ConnMgr} (h : ∀ id, (m'.get id).map Conn.stream = (m.get id).map Conn.stream)
    (id : ConnectionId) : (∃ c, m'.get id = some c) ↔ ∃ c, m.get id = some c := by
  have hid := congrArg Option.isSome (h id)
  rw [Option.isSome_map, Option.isSome_map] at hid
  rw [← Option.isSome_iff_exists, ← Option.isSome_iff_exists, hid]

/-- A step that opens and closes nothing queues only for connections the handler has. -/
theorem QueueStep.unopened {h h' : BindingHandler} {act : Act} (hq : QueueStep h act h')
    (hcall : ∀ id, act.concerns id → ∃ payload, act = .tcpStun payload id) :
    h'.conns = h.conns ∧ (∀ r ∈ h'.outbox, r ∈ h.outbox ∨ r.id ∈ h.conns) ∧
      h'.outbox.length ≤ max h.outbox.length replyQueueCap := by
  cases hq with
  | kept _ _ hc ho =>
    rw [ho]
    exact ⟨hc, fun r hr => .inl hr, Nat.le_max_left _ _⟩
  | tracked =>
    obtain ⟨payload, heq⟩ := hcall _ (decide_eq_true rfl)
    cases heq
  | answered hc ho hfor hlen =>
    refine ⟨hc, fun r hr => ?_, hlen⟩
    rw [ho] at hr
    rcases List.mem_append.mp hr with hr | hr
    · exact .inl hr
    · rw [(hfor r hr).1]
      exact .inr (hfor r hr).2
  | placed hc ho =>
    rw [ho, List.length_cons]
    exact ⟨hc, fun r hr => .inl (List.mem_cons_of_mem _ hr), Nat.le_trans (Nat.le_succ _) (Nat.le_max_left _ _)⟩
  | skipped hc ho =>
    rw [ho, List.length_cons]
    exact ⟨hc, fun r hr => .inl (List.mem_cons_of_mem _ hr), Nat.le_trans (Nat.le_succ _) (Nat.le_max_left _ _)⟩
  | returned hc ho ho' =>
    rw [ho, ho', List.length_append]
    refine ⟨hc, fun r hr => .inl ?_, Nat.le_max_left _ _⟩
    rcases List.mem_append.mp hr with hr | hr
    · exact List.mem_cons_of_mem _ hr
    · exact List.mem_cons.mpr (.inl (List.mem_singleton.mp hr))
  | forgotten =>
    obtain ⟨payload, heq⟩ := hcall _ (decide_eq_true rfl)
    cases heq

theorem Agrees.step {w w' : Worker BindingHandler} {act : Act} (h : Agrees w) (ht : TableStep w.conns act w'.conns)
    (hq : QueueStep w.handler act w'.handler) : Agrees w' := by
  obtain ⟨config, handler, udp, listener, conns, stats⟩ := w
  obtain ⟨config', handler', udp', listener', conns', stats'⟩ := w'
  dsimp only at ht hq
  cases ht with
  | kept hcall _ hstreams =>
    obtain ⟨hc, ho, hlen⟩ := hq.unopened fun id hid => (hcall id hid).2
    constructor
    case conns =>
      intro id
      rw [hc, h.conns id, live_of_streams hstreams id]
    case outbox =>
      intro r hr
      rw [hc]
      rcases ho r hr with hr | hr
      · exact h.outbox r hr
      · exact hr
    case bounded => exact Nat.le_trans hlen (Nat.max_le.mpr ⟨h.bounded, Nat.le_refl _⟩)
  | @opened id _ c _ _ _ _ hget _ hother =>
    cases hq with
    | kept hno _ _ _ => exact absurd (decide_eq_true rfl) (hno id)
    | tracked =>
      constructor
      case conns =>
        intro id'
        rw [BindingHandler.noteConnect, List.mem_insert_iff]
        by_cases hid : id' = id
        · subst hid
          exact iff_of_true (.inl rfl) ⟨c, hget⟩
        · rw [hother id' hid, or_iff_right hid]
          exact h.conns id'
      case outbox => exact fun r hr => List.mem_insert_of_mem (h.outbox r hr)
      case bounded => exact h.bounded
  | @closed id _ _ =>
    cases hq with
    | kept hno _ _ _ => exact absurd (decide_eq_true rfl) (hno id)
    | forgotten =>
      constructor
      case conns =>
        intro id'
        change id' ∈ handler.conns.filter (· ≠ id) ↔ _
        rw [List.mem_filter, decide_eq_true_iff]
        by_cases hid : id' = id
        · subst hid
          rw [ConnMgr.get_remove_self]
          exact iff_of_false (fun hh => hh.2 rfl) nofun
        · rw [ConnMgr.get_remove_ne hid, and_iff_left hid]
          exact h.conns id'
      case outbox =>
        intro r hr
        obtain ⟨hmem, hne⟩ := List.mem_filter.mp hr
        exact List.mem_filter.mpr ⟨h.outbox r hmem, hne⟩
      case bounded => exact Nat.le_trans (List.length_filter_le _ _) h.bounded

abbrev LoopHistory := Transport.EventLoop.History Env BindingHandler

/-- A run of a worker as `start_worker` starts it. -/
def ServerRun (config : WorkerConfig) (handler : BindingHandler) (udp listener : Bool)
    (hist : LoopHistory) (s : Loop BindingHandler) : Prop :=
  Run (Transport.EventLoop.Step (serverHandler crypto)) (startLoop config handler udp listener) hist s

theorem run_agrees {config : WorkerConfig} {handler : BindingHandler} {udp listener : Bool} {s : Loop BindingHandler}
    {hist : LoopHistory} (hc : handler.conns = []) (ho : handler.outbox = [])
    (hrun : ServerRun crypto config handler udp listener hist s) : Agrees s.worker := by
  refine hrun.invariant_state (P := fun s => Agrees s.worker) ?_ fun t label u ha hs => ?_
  · constructor
    case conns =>
      intro id
      change id ∈ handler.conns ↔ _
      rw [hc]
      exact iff_of_false List.not_mem_nil nofun
    case outbox =>
      intro r hr
      change r ∈ handler.outbox at hr
      rw [ho] at hr
      cases hr
    case bounded =>
      change handler.outbox.length ≤ _
      rw [ho]
      exact Nat.zero_le _
  · have hdoes := step_does (serverHandler crypto) hs
    exact ha.step hdoes.table (does_queue crypto hdoes ha.bounded)

/-- **Lifecycle**: in every state a worker reaches, whatever the operating system answers,
its table and the handler's hold the same connections; every queued reply is for one of
them; no id went to two connections, and the token of a dropped one resolves to an id that
is nobody's; and the handler sees each connection open, then its packets, then at most one
error. -/
theorem lifecycle {config : WorkerConfig} {addresses : List ServerIdentity} {sender : Option UdpSocket}
    {tcp : Option ServerIdentity} {udp listener : Bool} {hist : LoopHistory}
    {s : Loop BindingHandler}
    (hrun : ServerRun crypto config (startHandler addresses sender tcp) udp listener hist s) :
    (∀ id, id ∈ s.worker.handler.conns ↔ ∃ c, s.worker.conns.get id = some c) ∧
    (∀ r ∈ s.worker.handler.outbox, ∃ c, s.worker.conns.get r.id = some c) ∧
    ((connected hist).Nodup ∧ ∀ id ∈ connected hist, (∀ token, tokenConn token = some id ↔ token = connToken id) ∧
      (.drop id ∈ acts hist → s.worker.conns.get id = none)) ∧
    ∀ id, callsOn id hist = [] ∨ (∃ stream, Opened id stream (callsOn id hist)) ∨ Ended id (callsOn id hist) := by
  obtain ⟨hc, ho⟩ := startHandler_queue addresses sender tcp
  have hagree := run_agrees crypto hc ho hrun
  have hlives := run_lives (serverHandler crypto) rfl hrun
  have hgiven := run_given (serverHandler crypto) hrun
  refine ⟨hagree.conns, fun r hr => (hagree.conns r.id).mp (hagree.outbox r hr), ⟨hgiven.nodup, fun id hid => ?_⟩,
    fun id => ?_⟩
  · refine ⟨fun token => tokenConn_eq (hgiven.token id hid), fun hdrop => (hlives id).dropped ?_⟩
    exact List.mem_filter.mpr ⟨hdrop, decide_eq_true rfl⟩
  · cases hget : s.worker.conns.get id with
    | some c => exact .inr (.inl ⟨c.stream, (hlives id).live c hget⟩)
    | none =>
      rcases (hlives id).gone hget with hnil | hended
      · exact .inl hnil
      · exact .inr (.inr hended)

/-- A stream accepted, registered, and closed by its peer; then its token comes again. -/
def shortLife : List (Answer Env) :=
  [.clock false 0, .silent, .poll (some [⟨eventTcpListen, true, false, false, false, false⟩]) false, .silent,
    .accept (.stream 7), .accept .notReady, .register true 0, .silent, .silent, .silent, .silent, .clock false 1, .silent,
    .poll (some [⟨connToken ⟨0⟩, true, false, false, true, false⟩, ⟨connToken ⟨0⟩, true, true, false, false, false⟩]) false,
    .silent, .silent, .silent, .silent, .silent, .silent]

theorem shortLife_runs : ((startLoop ⟨300, 5, none⟩ (startHandler [] none none) true true).exec
    (serverHandler signedResponseCrypto) shortLife).map (fun r => acts r.1 |>.filter (· ≠ .idle)) =
      some [.connect ⟨0⟩ 7, .drop ⟨0⟩] := by decide +kernel

theorem shortLife_lived : ∃ hist s, .drop ⟨0⟩ ∈ acts hist ∧ s.worker.conns.get ⟨0⟩ = none ∧
    ServerRun signedResponseCrypto ⟨300, 5, none⟩ (startHandler [] none none) true true hist s := by
  obtain ⟨⟨hist, s⟩, hexec, hacts⟩ := Option.map_eq_some_iff.mp shortLife_runs
  have hrun : ServerRun signedResponseCrypto ⟨300, 5, none⟩ (startHandler [] none none) true true hist s :=
    Loop.exec_run hexec
  have hmem : ∀ act ∈ [Act.connect ⟨0⟩ 7, Act.drop ⟨0⟩], act ∈ acts hist := by
    intro act hact
    rw [← hacts] at hact
    exact (List.mem_filter.mp hact).1
  have hdrop : .drop ⟨0⟩ ∈ acts hist := hmem _ (List.mem_cons_of_mem _ List.mem_cons_self)
  have hconn : ⟨0⟩ ∈ connected hist := List.mem_filterMap.mpr ⟨.connect ⟨0⟩ 7, hmem _ List.mem_cons_self, rfl⟩
  obtain ⟨-, -, ⟨-, hids⟩, -⟩ := lifecycle signedResponseCrypto hrun
  exact ⟨hist, s, hdrop, (hids ⟨0⟩ hconn).2 hdrop, hrun⟩

end QuickRelay.Server
