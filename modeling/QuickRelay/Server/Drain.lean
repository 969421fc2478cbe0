import QuickRelay.Server.Serving
import QuickRelay.Transport.WriteBuffer

/-! One call of `drain_replies`: which replies it leaves queued, and what for. -/
namespace QuickRelay.Server
open Lib Protocol
open Transport (ConnectionId QueuedReply maxFramePayload)
open Transport.EventLoop hiding Step History

variable (crypto : Crypto)

/-! ### Rounds -/

/-- The rounds of one call of `drain_replies`, up to its return. -/
structure RepliesDrained (w : Worker BindingHandler) (hist : LoopHistory) (s : Loop BindingHandler) : Prop where
  run : Run (Transport.EventLoop.Step (serverHandler crypto)) ⟨w, .drainReplies⟩ hist s
  rounds : ∀ p ∈ hist, p.1.phase = .drainReplies
  returned : s.phase ≠ .drainReplies

/-- The outbox after a reply is put back behind the others. -/
def requeue (rest : List QueuedReply) (r : QueuedReply) : List QueuedReply :=
  rest ++ if rest.length < replyQueueCap then [r] else []

/-- What one round does to the outbox and the table. -/
inductive Round (w : Worker BindingHandler) (s : Loop BindingHandler) : Prop
  | emptied : w.handler.outbox = [] → s.worker.handler.outbox = [] → s.worker.conns = w.conns → s.phase ≠ .drainReplies → Round w s
  | skipped {r : QueuedReply} : w.handler.outbox = r :: s.worker.handler.outbox → w.conns.get r.id = none →
      s.worker.conns = w.conns → s.phase = .drainReplies → Round w s
  | placed {r : QueuedReply} {c : Conn} : w.handler.outbox = r :: s.worker.handler.outbox → w.conns.get r.id = some c →
      c.canWrite r.payload.length → s.worker.conns = w.conns.insert r.id (c.takeWrite r.payload).2 →
      s.phase = .drainReplies → Round w s
  | blocked {r : QueuedReply} {rest : List QueuedReply} {c : Conn} : w.handler.outbox = r :: rest →
      w.conns.get r.id = some c → ¬ c.canWrite r.payload.length → s.worker.handler.outbox = requeue rest r →
      s.worker.conns = w.conns → s.phase ≠ .drainReplies → Round w s

theorem endTick_phase {H : Type} (w : Worker H) : w.endTick.phase ≠ .drainReplies := by
  rw [Worker.endTick]
  intro h
  cases hmax : w.config.maxTicks with
  | none =>
    rw [hmax] at h
    cases h
  | some n =>
    rw [hmax] at h
    dsimp only at h
    split at h
    all_goals cases h

theorem endTick_worker {H : Type} (w : Worker H) :
    w.endTick.worker.handler = w.handler ∧ w.endTick.worker.conns = w.conns := by
  rw [Worker.endTick]
  cases w.config.maxTicks with
  | none => exact ⟨rfl, rfl⟩
  | some n => exact ⟨rfl, rfl⟩

theorem queueNext_empty {h h' : BindingHandler} (h1 : h.queueNext = (none, h')) : h.outbox = [] ∧ h'.outbox = [] := by
  have hnil : h.outbox = [] := List.head?_eq_none_iff.mp (congrArg Prod.fst h1)
  exact ⟨hnil, (queueNext_none h1).2.trans hnil⟩

theorem round_cases {w : Worker BindingHandler} {label : Answer Env × Act} {s : Loop BindingHandler}
    (h : Transport.EventLoop.Step (serverHandler crypto) ⟨w, .drainReplies⟩ label s) : Round w s := by
  obtain ⟨answer, act⟩ := label
  change w.drainReplies (serverHandler crypto) answer = some (act, s) at h
  rw [Worker.drainReplies.eq_def] at h
  split at h
  case h_2 => cases h
  case h_1 =>
    split at h
    case h_1 h' htake =>
      obtain ⟨hnil, hout⟩ := queueNext_empty htake
      cases h
      obtain ⟨hhandler, hconns⟩ := endTick_worker { w with handler := h' }
      exact .emptied hnil (by rw [hhandler, hout]) hconns (endTick_phase _)
    case h_2 r h' htake =>
      obtain ⟨-, hout⟩ := queueNext_some htake
      cases hget : w.conns.get r.id with
      | none =>
        simp only [hget] at h
        cases h
        exact .skipped hout hget rfl rfl
      | some c =>
        simp only [hget] at h
        by_cases hw : c.canWrite r.payload.length
        · rw [if_pos hw] at h
          cases h
          exact .placed hout hget hw rfl rfl
        · rw [if_neg hw] at h
          cases h
          obtain ⟨hhandler, hconns⟩ := endTick_worker { w with handler := h'.enqueue r }
          refine .blocked hout hget hw ?_ hconns (endTick_phase _)
          exact (congrArg BindingHandler.outbox hhandler).trans (congrArg BindingHandler.outbox (h'.enqueue_eq r))

/-! ### What is placed -/

/-- A connection that holds an unsent frame once the replies `served` were placed: it held
one before, or one of them is for it. A payload too long for the prefix leaves none. -/
def Busy (m : ConnMgr) (served : List QueuedReply) (id : ConnectionId) : Prop :=
  ∃ c, m.get id = some c ∧ (c.hasWrite = true ∨ ∃ y ∈ served, y.id = id ∧ y.payload.length ≤ maxFramePayload)

/-- A reply that cannot be placed behind `served`: its connection is busy, or its frame is
larger than the buffer. -/
def Blocked (m : ConnMgr) (served : List QueuedReply) (r : QueuedReply) : Prop :=
  Busy m served r.id ∨ ∃ c, m.get r.id = some c ∧ c.writeBuf.length < frameWireSize r.payload.length

/-- None of the replies is blocked behind those before it. -/
def Flows (m : ConnMgr) (served : List QueuedReply) : Prop := ∀ a y b, served = a ++ y :: b → ¬ Blocked m a y

theorem flows_nil (m : ConnMgr) : Flows m [] := fun a _ _ h => by simp at h

theorem Flows.snoc {m : ConnMgr} {served : List QueuedReply} (h : Flows m served) {r : QueuedReply}
    (hr : ¬ Blocked m served r) : Flows m (served ++ [r]) := by
  intro a y b hsplit
  rcases List.eq_nil_or_concat b with rfl | ⟨b, z, rfl⟩
  · obtain ⟨rfl, heq⟩ := List.append_inj' hsplit rfl
    cases heq
    exact hr
  · rw [List.concat_eq_append, ← List.cons_append, ← List.append_assoc] at hsplit
    exact h a y b (List.append_inj' hsplit rfl).1

/-- A queue has at most one first blocked reply. -/
theorem first_blocked_unique {m : ConnMgr} {a a' b b' : List QueuedReply} {r r' : QueuedReply}
    (heq : a ++ r :: b = a' ++ r' :: b') (ha : Flows m a) (ha' : Flows m a') (hr : Blocked m a r) (hr' : Blocked m a' r') :
    a = a' ∧ r = r' ∧ b = b' := by
  rcases List.append_eq_append_iff.mp heq with ⟨x, rfl, hx⟩ | ⟨x, rfl, hx⟩
  · cases x with
    | nil =>
      cases hx
      exact ⟨(List.append_nil _).symm, rfl, rfl⟩
    | cons y x =>
      cases hx
      exact absurd hr (ha' a r x rfl)
  · cases x with
    | nil =>
      cases hx
      exact ⟨List.append_nil _, rfl, rfl⟩
    | cons y x =>
      cases hx
      exact absurd hr' (ha a' r' x rfl)

/-- The table after the replies `served` were placed. -/
structure Placed (m m' : ConnMgr) (served : List QueuedReply) : Prop where
  gone : ∀ id, m.get id = none → m'.get id = none
  live : ∀ id c, m.get id = some c → ∃ c', m'.get id = some c' ∧ c'.writeBuf.length = c.writeBuf.length ∧
    (c'.hasWrite = true ↔ Busy m served id)

theorem placed_nil (m : ConnMgr) : Placed m m [] := by
  refine ⟨fun _ h => h, fun id c hget => ⟨c, hget, rfl, fun h => ⟨c, hget, .inl h⟩, ?_⟩⟩
  rintro ⟨c', hget', h | ⟨y, hy, -⟩⟩
  · rwa [← Option.some.inj (hget'.symm.trans hget)]
  · cases hy

theorem Placed.get {m m' : ConnMgr} {served : List QueuedReply} (h : Placed m m' served) {id : ConnectionId} {c' : Conn}
    (hget' : m'.get id = some c') : ∃ c, m.get id = some c ∧ c'.writeBuf.length = c.writeBuf.length ∧
      (c'.hasWrite = true ↔ Busy m served id) := by
  cases hget : m.get id with
  | none => cases hget'.symm.trans (h.gone id hget)
  | some c =>
    obtain ⟨c'', hget'', hlen, hbusy⟩ := h.live id c hget
    obtain rfl := Option.some.inj (hget'.symm.trans hget'')
    exact ⟨c, rfl, hlen, hbusy⟩

/-- A connection holds an unsent frame exactly if it is busy. -/
theorem Placed.busy_iff {m m' : ConnMgr} {served : List QueuedReply} (h : Placed m m' served) (id : ConnectionId) :
    (∃ c, m'.get id = some c ∧ c.hasWrite = true) ↔ Busy m served id := by
  constructor
  · rintro ⟨c', hget', hw⟩
    obtain ⟨-, -, -, hbusy⟩ := h.get hget'
    exact hbusy.mp hw
  · intro hb
    have hlive := hb
    obtain ⟨c, hget, -⟩ := hlive
    obtain ⟨c', hget', -, hbusy⟩ := h.live _ c hget
    exact ⟨c', hget', hbusy.mpr hb⟩

theorem Placed.blocked_iff {m m' : ConnMgr} {served : List QueuedReply} (h : Placed m m' served) {r : QueuedReply}
    {c' : Conn} (hget' : m'.get r.id = some c') : ¬ c'.canWrite r.payload.length ↔ Blocked m served r := by
  obtain ⟨c, hget, hlen, hbusy⟩ := h.get hget'
  have hidle : c'.writeLen = 0 ↔ ¬ Busy m served r.id := by
    rw [← hbusy, Conn.hasWrite, decide_eq_true_iff, Nat.pos_iff_ne_zero, not_not]
  rw [Conn.canWrite_iff, hidle, not_and_or, not_not, hlen, Nat.not_le, Blocked]
  refine or_congr_right ⟨fun hbig => ⟨c, hget, hbig⟩, ?_⟩
  rintro ⟨d, hd, hbig⟩
  rwa [← Option.some.inj (hd.symm.trans hget)]

theorem busy_snoc {m : ConnMgr} {served : List QueuedReply} {r : QueuedReply} {id : ConnectionId} :
    Busy m (served ++ [r]) id ↔
      Busy m served id ∨ ((∃ c, m.get id = some c) ∧ r.id = id ∧ r.payload.length ≤ maxFramePayload) := by
  constructor
  · rintro ⟨c, hget, hw | ⟨y, hy, hid, hl⟩⟩
    · exact .inl ⟨c, hget, .inl hw⟩
    · rcases List.mem_append.mp hy with hy | hy
      · exact .inl ⟨c, hget, .inr ⟨y, hy, hid, hl⟩⟩
      · obtain rfl := List.mem_singleton.mp hy
        exact .inr ⟨⟨c, hget⟩, hid, hl⟩
  · rintro (⟨c, hget, hw | ⟨y, hy, hid, hl⟩⟩ | ⟨⟨c, hget⟩, hid, hl⟩)
    · exact ⟨c, hget, .inl hw⟩
    · exact ⟨c, hget, .inr ⟨y, List.mem_append_left _ hy, hid, hl⟩⟩
    · exact ⟨c, hget, .inr ⟨r, List.mem_append_right _ (List.mem_singleton_self r), hid, hl⟩⟩

theorem Placed.skip {m m' : ConnMgr} {served : List QueuedReply} (h : Placed m m' served) {r : QueuedReply}
    (hget : m'.get r.id = none) : Placed m m' (served ++ [r]) := by
  refine ⟨h.gone, fun id c hid => ?_⟩
  obtain ⟨c', hget', hlen, hbusy⟩ := h.live id c hid
  refine ⟨c', hget', hlen, hbusy.trans (busy_snoc.trans (or_iff_left ?_)).symm⟩
  rintro ⟨-, rfl, -⟩
  cases hget.symm.trans hget'

theorem Placed.place {m m' : ConnMgr} {served : List QueuedReply} (h : Placed m m' served) {r : QueuedReply} {c' : Conn}
    (hget' : m'.get r.id = some c') (hw : c'.canWrite r.payload.length) :
    Placed m (m'.insert r.id (c'.takeWrite r.payload).2) (served ++ [r]) := by
  constructor
  case gone =>
    intro id hid
    have hne : id ≠ r.id := by
      rintro rfl
      cases hget'.symm.trans (h.gone _ hid)
    rw [ConnMgr.get_insert_ne hne]
    exact h.gone id hid
  case live =>
    intro id c hid
    by_cases hne : id = r.id
    · subst hne
      obtain ⟨d, hd, hlen, hbusy⟩ := h.get hget'
      obtain ⟨hlen', hframe⟩ := Conn.takeWrite_hasWrite hw
      obtain rfl := Option.some.inj (hd.symm.trans hid)
      refine ⟨_, ConnMgr.get_insert_self (ConnMgr.lt_of_get hget') _, hlen'.trans hlen, hframe.trans ?_⟩
      have hidle : ¬ Busy m served r.id := fun hb => (h.blocked_iff hget').mpr (.inl hb) hw
      rw [busy_snoc, or_iff_right hidle]
      exact ⟨fun hl => ⟨⟨d, hid⟩, rfl, hl⟩, fun hl => hl.2.2⟩
    · obtain ⟨d, hd, hlen, hbusy⟩ := h.live id c hid
      rw [ConnMgr.get_insert_ne hne]
      refine ⟨d, hd, hlen, hbusy.trans (busy_snoc.trans (or_iff_left ?_)).symm⟩
      rintro ⟨-, hid', -⟩
      exact hne hid'.symm

/-! ### One call -/

/-- Where a call of `drain_replies` is, or how it returned. -/
inductive Progress (w : Worker BindingHandler) (s : Loop BindingHandler) : Prop
  | going {served : List QueuedReply} : w.handler.outbox = served ++ s.worker.handler.outbox → Flows w.conns served →
      Placed w.conns s.worker.conns served → s.phase = .drainReplies → Progress w s
  | finished : Flows w.conns w.handler.outbox → s.worker.handler.outbox = [] → s.phase ≠ .drainReplies → Progress w s
  | stopped {served rest : List QueuedReply} {r : QueuedReply} : w.handler.outbox = served ++ r :: rest →
      Flows w.conns served → Blocked w.conns served r → s.worker.handler.outbox = requeue rest r →
      Placed w.conns s.worker.conns served → s.phase ≠ .drainReplies → Progress w s

theorem Progress.round {w : Worker BindingHandler} {s s' : Loop BindingHandler} (h : Progress w s)
    (hphase : s.phase = .drainReplies) (hr : Round s.worker s') : Progress w s' := by
  cases h with
  | finished _ _ hreturned => exact absurd hphase hreturned
  | stopped _ _ _ _ _ hreturned => exact absurd hphase hreturned
  | @going served hsplit hflows hplaced _ =>
    cases hr with
    | emptied hnil hnil' _ hreturned =>
      rw [hnil, List.append_nil] at hsplit
      exact .finished (hsplit ▸ hflows) hnil' hreturned
    | @skipped r hout hget hconns hnext =>
      rw [hout, List.append_cons] at hsplit
      have hfree : ¬ Blocked w.conns served r := by
        rintro (hb | ⟨c, hc, -⟩)
        · obtain ⟨c, hc, -⟩ := (hplaced.busy_iff r.id).mpr hb
          cases hget.symm.trans hc
        · obtain ⟨c', hc', -⟩ := hplaced.live _ c hc
          cases hget.symm.trans hc'
      exact .going hsplit (hflows.snoc hfree) (hconns ▸ hplaced.skip hget) hnext
    | @placed r c hout hget hw hconns hnext =>
      rw [hout, List.append_cons] at hsplit
      have hfree : ¬ Blocked w.conns served r := fun hb => (hplaced.blocked_iff hget).mpr hb hw
      exact .going hsplit (hflows.snoc hfree) (hconns ▸ hplaced.place hget hw) hnext
    | blocked hout hget hw hout' hconns hreturned =>
      rw [hout] at hsplit
      exact .stopped hsplit hflows ((hplaced.blocked_iff hget).mp hw) hout' (hconns ▸ hplaced) hreturned

theorem RepliesDrained.progress {w : Worker BindingHandler} {hist : LoopHistory} {s : Loop BindingHandler}
    (h : RepliesDrained crypto w hist s) : Progress w s := by
  refine h.run.invariant (P := fun hist s => (∀ p ∈ hist, p.1.phase = .drainReplies) → Progress w s) ?_ ?_ h.rounds
  · exact fun _ => .going rfl (flows_nil _) (placed_nil _) rfl
  · intro hist t label u _ hprogress hs hrounds
    rw [List.forall_mem_append, List.forall_mem_singleton] at hrounds
    obtain ⟨w', phase⟩ := t
    obtain rfl : phase = .drainReplies := hrounds.2
    exact (hprogress hrounds.1).round rfl (round_cases crypto hs)

/-- There is always a next round. -/
theorem exists_round (w : Worker BindingHandler) :
    ∃ act s, Transport.EventLoop.Step (serverHandler crypto) ⟨w, .drainReplies⟩ (.silent, act) s := by
  have hsome : (w.drainReplies (serverHandler crypto) .silent).isSome := by
    rw [Worker.drainReplies]
    split
    · rfl
    · dsimp only
      split
      · rfl
      · split <;> rfl
  obtain ⟨⟨act, s⟩, hs⟩ := Option.isSome_iff_exists.mp hsome
  exact ⟨act, s, hs⟩

theorem RepliesDrained.cons {w : Worker BindingHandler} {label : Answer Env × Act} {t s : Loop BindingHandler} {hist : LoopHistory}
    (hs : Transport.EventLoop.Step (serverHandler crypto) ⟨w, .drainReplies⟩ label t) (hphase : t.phase = .drainReplies)
    (h : RepliesDrained crypto t.worker hist s) : RepliesDrained crypto w ((⟨w, .drainReplies⟩, label) :: hist) s := by
  obtain ⟨w', phase⟩ := t
  obtain rfl : phase = .drainReplies := hphase
  exact ⟨(Run.snoc .refl hs).trans h.run, List.forall_mem_cons.mpr ⟨rfl, h.rounds⟩, h.returned⟩

/-- Every call returns. -/
theorem drain_returns (w : Worker BindingHandler) : ∃ hist s, RepliesDrained crypto w hist s := by
  induction hn : w.handler.outbox.length using Nat.strongRecOn generalizing w with
  | ind n ih =>
    obtain ⟨act, s, hs⟩ := exists_round crypto w
    have hlast : s.phase ≠ .drainReplies → ∃ hist s, RepliesDrained crypto w hist s := fun hreturned =>
      ⟨_, s, .snoc .refl hs, List.forall_mem_singleton.mpr rfl, hreturned⟩
    have hmore : ∀ r, w.handler.outbox = r :: s.worker.handler.outbox → s.phase = .drainReplies →
        ∃ hist s, RepliesDrained crypto w hist s := by
      intro r hout hphase
      rw [hout, List.length_cons] at hn
      obtain ⟨hist, s', hrest⟩ := ih _ (hn ▸ Nat.lt_succ_self _) s.worker rfl
      exact ⟨_, s', RepliesDrained.cons crypto hs hphase hrest⟩
    cases round_cases crypto hs with
    | emptied _ _ _ hreturned => exact hlast hreturned
    | skipped hout _ _ hphase => exact hmore _ hout hphase
    | placed hout _ _ _ hphase => exact hmore _ hout hphase
    | blocked _ _ _ _ _ hreturned => exact hlast hreturned

/-- Every reply still queued is for a live connection that holds an unsent frame. -/
def WorkConserving (w : Worker BindingHandler) : Prop :=
  ∀ x ∈ w.handler.outbox, ∃ c, w.conns.get x.id = some c ∧ c.hasWrite = true

/-- Behind the first reply that is blocked, and in its own place, there are replies for
busy connections only. -/
def BlockedTogether (m : ConnMgr) (outbox : List QueuedReply) : Prop :=
  ∀ served r rest, outbox = served ++ r :: rest → Flows m served → Blocked m served r → ∀ x ∈ requeue rest r, Busy m served x.id

theorem RepliesDrained.conserving_iff {w : Worker BindingHandler} {hist : LoopHistory} {s : Loop BindingHandler}
    (h : RepliesDrained crypto w hist s) : WorkConserving s.worker ↔ BlockedTogether w.conns w.handler.outbox := by
  have hreturned := h.returned
  cases h.progress with
  | going _ _ _ hphase => exact absurd hphase hreturned
  | finished hflows hnil _ =>
    refine iff_of_true (fun x hx => ?_) (fun served r rest hsplit _ hb => absurd hb (hflows served r rest hsplit))
    rw [hnil] at hx
    cases hx
  | stopped hsplit hflows hblocked hout hplaced _ =>
    constructor
    · intro hw served r rest hsplit' hflows' hblocked' x hx
      obtain ⟨rfl, rfl, rfl⟩ := first_blocked_unique (hsplit.symm.trans hsplit') hflows hflows' hblocked hblocked'
      exact (hplaced.busy_iff x.id).mp (hw x (hout ▸ hx))
    · intro ht x hx
      exact (hplaced.busy_iff x.id).mpr (ht _ _ _ hsplit hflows hblocked x (hout ▸ hx))

/-- **Draining**: a call of `drain_replies` returns, and leaves only replies for connections
that hold an unsent frame, if and only if the replies from the first blocked one on are all
for such connections. -/
theorem drained_conserving (w : Worker BindingHandler) : (∃ hist s, RepliesDrained crypto w hist s) ∧
    ∀ hist s, RepliesDrained crypto w hist s → (WorkConserving s.worker ↔ BlockedTogether w.conns w.handler.outbox) :=
  ⟨drain_returns crypto w, fun _ _ h => h.conserving_iff⟩

/-- A worker with a reply for each of two connections, of which the first holds an unsent
octet. -/
def heldUp : Worker BindingHandler where
  config := ⟨300, 5, none⟩
  handler := { BindingHandler.new with outbox := [⟨⟨0⟩, []⟩, ⟨⟨1⟩, []⟩] }
  udp := false
  listener := false
  conns := ⟨2, [some { Conn.new 0 0 with writeLen := 1 }, some (.new 1 0)], rfl⟩
  stats := ⟨0, 0, 0, 0, 0⟩

private theorem second_not_busy {served : List QueuedReply} (h : served = []) : ¬ Busy heldUp.conns served ⟨1⟩ := by
  rintro ⟨c, hget, hw | ⟨y, hy, -⟩⟩
  · cases hget
    cases hw
  · rw [h] at hy
    cases hy

/-- The connection that blocks keeps the other one's reply in the queue. -/
theorem first_holds_second : ¬ ∀ (w : Worker BindingHandler) (hist : LoopHistory) (s : Loop BindingHandler),
    RepliesDrained signedResponseCrypto w hist s → WorkConserving s.worker := by
  intro hall
  obtain ⟨hist, s, h⟩ := drain_returns signedResponseCrypto heldUp
  have htogether := h.conserving_iff.mp (hall _ _ _ h)
  have hbusy : Busy heldUp.conns [] ⟨0⟩ := ⟨_, rfl, .inl rfl⟩
  exact second_not_busy rfl (htogether [] ⟨⟨0⟩, []⟩ [⟨⟨1⟩, []⟩] rfl (flows_nil _) (.inl hbusy) _ (List.mem_cons_self ..))

/-- The same worker with the reply for the second connection alone. -/
def unheld : Worker BindingHandler := { heldUp with handler := { BindingHandler.new with outbox := [⟨⟨1⟩, []⟩] } }

theorem unheld_drained : ∃ hist s, RepliesDrained signedResponseCrypto unheld hist s ∧ WorkConserving s.worker := by
  obtain ⟨⟨hist, s, h⟩, hiff⟩ := drained_conserving signedResponseCrypto unheld
  refine ⟨hist, s, h, (hiff hist s h).mpr fun served r rest hsplit _ hb => ?_⟩
  cases served with
  | cons y served => exact absurd (congrArg List.length hsplit) (by simp [unheld])
  | nil =>
    cases hsplit
    rcases hb with hb | ⟨c, hget, hbig⟩
    · exact absurd hb (second_not_busy rfl)
    · cases hget
      rw [Conn.new, zeros_length] at hbig
      exact absurd hbig (by decide)

end QuickRelay.Server
