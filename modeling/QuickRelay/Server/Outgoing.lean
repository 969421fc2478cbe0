import QuickRelay.Server.Calls

/-! What leaves the server: whatever is kept, sent or queued is a reply it rendered, and so
short, well formed and no request. -/
namespace QuickRelay.Server
open Lib Protocol
open Binding (SocketAddr ServerIdentity BindingResponsePlan)
open Transport (ConnectionId QueuedReply)
open Transport.EventLoop hiding Step History

variable (crypto : Crypto)

/-- A plan rendered for a transaction. -/
def ReplyTo (txid : TransactionId) (d : Bytes) : Prop :=
  ∃ default addresses plan, Decided default addresses plan ∧ renderPlan crypto plan txid default = .ok d

def IsReply (d : Bytes) : Prop := ∃ txid, ReplyTo crypto txid d

/-- The octets of the longest reply: a header, an ERROR-CODE and sixty-four codes. -/
def maxReply : Nat := 182

namespace ReplyTo
variable {crypto} {txid : TransactionId} {d : Bytes}

theorem length_le (h : ReplyTo crypto txid d) : d.length ≤ maxReply := by
  obtain ⟨default, addresses, plan, hdecided, hrender⟩ := h
  obtain ⟨out, hout, hlen, -⟩ := renderPlan_reads crypto hdecided txid
  obtain rfl : out = d := Outcome.ok.inj (hout.symm.trans hrender)
  have hbound := replyBound_lt hdecided
  rw [maxReply]
  omega

/-- A reply parses, as a response of its transaction. -/
theorem response (h : ReplyTo crypto txid d) :
    ∃ m, parse d = .ok m ∧ m.header.msgType ≠ .bindingRequest ∧ m.txid = txid := by
  obtain ⟨default, addresses, plan, hdecided, hrender⟩ := h
  obtain ⟨out, hout, -, m, hm, htype, htxid, -⟩ := renderPlan_reads crypto hdecided txid
  obtain rfl : out = d := Outcome.ok.inj (hout.symm.trans hrender)
  refine ⟨m, hm, ?_, htxid⟩
  rw [htype, messageTypeOf]
  split <;> decide

end ReplyTo

theorem freshReply_replyTo {h : BindingHandler} {msg : Message} {peer : SocketAddr} {identity : ServerIdentity} {out : Bytes}
    (hf : h.freshReply crypto msg peer identity = .ok out) : ReplyTo crypto msg.txid out :=
  ⟨identity, h.addresses, _, planForRequest_decided msg peer identity h.addresses, hf⟩

/-- No reply is taken for a request. -/
theorem onStun_reply {h : BindingHandler} {env : Env} {d src : Bytes} (hd : IsReply crypto d) :
    h.onStun crypto env d src = .ok (h, []) := by
  obtain ⟨txid, hto⟩ := hd
  obtain ⟨m, hm, htype, -⟩ := hto.response
  rw [BindingHandler.onStun, hm]
  exact if_pos htype

/-! ### What a handler keeps and sends -/

def KeepsReplies (c : TransactionCache) : Prop := ∀ e ∈ c.entries, ReplyTo crypto e.1.txid e.2.datagram

def QueuesReplies (h : BindingHandler) : Prop := ∀ r ∈ h.outbox, IsReply crypto r.payload

namespace KeepsReplies
variable {crypto} {c : TransactionCache}

theorem empty : KeepsReplies crypto .empty := fun _ he => by cases he

theorem reap (h : KeepsReplies crypto c) (now : Nat) : KeepsReplies crypto (c.reap now) :=
  fun e he => h e (TransactionCache.mem_reap.mp he).1

theorem insert (h : KeepsReplies crypto c) {key : TransactionKey} {out : Bytes} (hout : ReplyTo crypto key.txid out)
    (reapAt fileAt : Nat) : KeepsReplies crypto (c.insert reapAt fileAt key out) := by
  intro e he
  rcases TransactionCache.mem_insert he with rfl | ⟨he, -⟩
  · exact hout
  · exact h e he

theorem lookup (h : KeepsReplies crypto c) {now : Nat} {key : TransactionKey} {out : Bytes}
    (hl : (c.lookup now key).1 = some out) : ReplyTo crypto key.txid out := by
  obtain ⟨t, he, -⟩ := TransactionCache.lookup_eq_some.mp hl
  exact h _ he

end KeepsReplies

theorem onStun_replies {h h' : BindingHandler} {env : Env} {datagram src : Bytes} {sent : List Sent}
    (hk : KeepsReplies crypto h.transactions) (hs : h.onStun crypto env datagram src = .ok (h', sent)) :
    KeepsReplies crypto h'.transactions ∧ ∀ s ∈ sent, IsReply crypto s.datagram := by
  constructor
  · cases onStun_case crypto hs with
    | dropped _ => exact hk
    | replayed _ _ hlook _ => exact (hk.reap _).insert (hk.lookup hlook) _ _
    | unsent _ _ _ _ => exact hk.reap _
    | fresh _ _ _ hf => exact (hk.reap _).insert (freshReply_replyTo crypto hf) _ _
    | pathless _ _ hf => exact hk.insert (freshReply_replyTo crypto hf) _ _
  · intro s hmem
    obtain ⟨msg, identity, -, -, hlook | ⟨-, hf⟩⟩ := onStun_sent crypto hs hmem
    · exact ⟨_, hk.lookup hlook⟩
    · exact ⟨_, freshReply_replyTo crypto hf⟩

/-- A packet puts at most one reply in the outbox, to itself. -/
theorem onTcpStun_replies {h h' : BindingHandler} {env : Env} {datagram : Bytes} {id : ConnectionId}
    (hk : KeepsReplies crypto h.transactions) (hs : h.onTcpStun crypto env datagram id = .ok h') :
    KeepsReplies crypto h'.transactions ∧ (h'.outbox = h.outbox ∨ ∃ msg out, parse datagram = .ok msg ∧
      msg.header.msgType = .bindingRequest ∧ ReplyTo crypto msg.txid out ∧ h'.outbox = h.outbox ++ [⟨id, out⟩]) := by
  cases onTcpStun_case crypto hs with
  | dropped _ => exact ⟨hk, .inl rfl⟩
  | @queued msg identity out hr hout =>
    have hreply : ReplyTo crypto msg.txid out := by
      rcases hout with hlook | ⟨-, hf⟩
      · exact hk.lookup hlook
      · exact freshReply_replyTo crypto hf
    refine ⟨(hk.reap _).insert hreply _ _, ?_⟩
    have hbox : (h.enqueue ⟨id, out⟩).outbox =
        h.outbox ++ if h.outbox.length < replyQueueCap then [⟨id, out⟩] else [] := by
      rw [BindingHandler.enqueue_eq]
    change (h.enqueue ⟨id, out⟩).outbox = _ ∨ ∃ msg out', _ ∧ _ ∧ _ ∧ (h.enqueue ⟨id, out⟩).outbox = _
    rw [hbox]
    split
    · exact .inr ⟨msg, out, hr.parsed, hr.binding, hreply, rfl⟩
    · exact .inl (List.append_nil _)

/-- Whatever the handler is called with, it keeps only replies. -/
theorem step_replies {h h' : BindingHandler} {ev : Event} (hk : KeepsReplies crypto h.transactions)
    (hs : Step crypto h ev h') : KeepsReplies crypto h'.transactions := by
  obtain ⟨sent, hs⟩ := hs
  by_cases hu : ∃ env datagram src, ev = .stun env datagram src
  · obtain ⟨env, datagram, src, rfl⟩ := hu
    exact (onStun_replies crypto hk hs).1
  by_cases ht : ∃ env datagram id, ev = .tcpStun env datagram id
  · obtain ⟨env, datagram, id, rfl⟩ := ht
    obtain ⟨h1, htcp, heq⟩ := Outcome.bind_eq_ok.mp hs
    cases heq
    exact (onTcpStun_replies crypto hk htcp).1
  · rw [apply_transactions crypto hs (fun env d src he => hu ⟨env, d, src, he⟩) fun env d id he => ht ⟨env, d, id, he⟩]
    exact hk

/-! ### What a worker keeps and queues -/

structure Replies (h : BindingHandler) : Prop where
  kept : KeepsReplies crypto h.transactions
  queued : QueuesReplies crypto h

/-- Only an answer puts something new in the outbox. -/
theorem QueueStep.queued {h h' : BindingHandler} {act : Act} (hq : QueueStep h act h')
    (hno : ∀ payload id, act ≠ .tcpStun payload id) : ∀ r ∈ h'.outbox, r ∈ h.outbox := by
  intro r hr
  cases hq with
  | kept _ _ _ ho => rwa [ho] at hr
  | tracked => exact hr
  | answered _ _ _ _ => exact absurd rfl (hno _ _)
  | placed _ ho =>
    rw [ho]
    exact List.mem_cons_of_mem _ hr
  | skipped _ ho =>
    rw [ho]
    exact List.mem_cons_of_mem _ hr
  | returned _ ho ho' =>
    rw [ho'] at hr
    rw [ho]
    exact (List.perm_append_singleton _ _).mem_iff.mp hr
  | forgotten => exact (List.mem_filter.mp hr).1

theorem Does.replies {w w' : Worker BindingHandler} {phase : Phase} {label : Answer Env × Act}
    (hd : Does (serverHandler crypto) w phase label w') (hb : w.handler.outbox.length ≤ replyQueueCap)
    (h : Replies crypto w.handler) : Replies crypto w'.handler := by
  have hkept : KeepsReplies crypto w'.handler.transactions := by
    refine Run.invariant_state (P := fun h => KeepsReplies crypto h.transactions) h.kept ?_ (Does.calls crypto hd)
    exact fun t ev u hk hs => step_replies crypto hk hs
  refine ⟨hkept, fun r hr => ?_⟩
  by_cases hno : ∃ payload id, label.2 = .tcpStun payload id
  · obtain ⟨payload, id, hact⟩ := hno
    obtain ⟨answer, act⟩ := label
    dsimp only at hact
    subst hact
    cases hd with
    | tcpStun _ _ htcp =>
      rcases (onTcpStun_replies crypto h.kept (serverHandler_onTcpStun crypto htcp)).2 with heq | ⟨msg, out, -, -, hto, heq⟩
      · rw [heq] at hr
        exact h.queued r hr
      · rw [heq] at hr
        rcases List.mem_append.mp hr with hr | hr
        · exact h.queued r hr
        · rw [List.mem_singleton.mp hr]
          exact ⟨_, hto⟩
  · exact h.queued r ((does_queue crypto hd hb).queued (fun payload id heq => hno ⟨payload, id, heq⟩) r hr)

/-- A worker keeps and queues nothing but replies. -/
theorem run_replies {config : WorkerConfig} {handler : BindingHandler} {udp listener : Bool} {hist : LoopHistory}
    {s : Loop BindingHandler} (hc : handler.conns = []) (ho : handler.outbox = []) (h0 : handler.transactions = .empty)
    (hrun : ServerRun crypto config handler udp listener hist s) : Replies crypto s.worker.handler := by
  have hinv := hrun.invariant (P := fun _ s => Replies crypto s.worker.handler) ?_ fun hist t label u hr h hs => ?_
  · exact hinv
  · constructor
    · change KeepsReplies crypto handler.transactions
      rw [h0]
      exact .empty
    · intro r hr
      change r ∈ handler.outbox at hr
      rw [ho] at hr
      cases hr
  · exact Does.replies crypto (step_does (serverHandler crypto) hs) (run_agrees crypto hc ho hr).bounded h

end QuickRelay.Server
