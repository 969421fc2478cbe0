import Mathlib.Data.List.Perm.Subperm
import QuickRelay.Server.Outgoing
import QuickRelay.Server.ReplyOrder
import QuickRelay.Transport.WriteBuffer

/-! Control connections from the outbox to the stream: whatever the kernel takes, what a
peer can decode is replies to its own packets, whole and each once. -/
namespace QuickRelay.Server
open Lib Protocol
open Binding (ServerIdentity)
open Transport (ConnectionId QueuedReply Payload frames)
open Transport.EventLoop hiding Step History
open Transport.EventLoop.Conn (wireFrame)

variable (crypto : Crypto)

/-- The octets a step writes to the connection's stream. -/
def writtenNow (id : ConnectionId) (p : Loop BindingHandler × (Answer Env × Act)) : Bytes :=
  match p.2.2, p.2.1 with
  | .write i, .write (.wrote n) _ =>
    match p.1.worker.conns.get i with
    | some c => if i = id then c.writeRemaining.take n else []
    | none => []
  | _, _ => []

/-- The octets written to a connection's stream so far. -/
def written (id : ConnectionId) (hist : LoopHistory) : Bytes := hist.flatMap (writtenNow id)

def wireFrames (replies : List QueuedReply) : Bytes := replies.flatMap fun r => wireFrame r.payload

theorem written_snoc (id : ConnectionId) (hist : LoopHistory) (p : Loop BindingHandler × (Answer Env × Act)) :
    written id (hist ++ [p]) = written id hist ++ writtenNow id p := by
  rw [written, written, List.flatMap_append, List.flatMap_singleton]

theorem wireFrames_append (a b : List QueuedReply) : wireFrames (a ++ b) = wireFrames a ++ wireFrames b :=
  List.flatMap_append

theorem wireFrames_singleton (r : QueuedReply) : wireFrames [r] = wireFrame r.payload := List.flatMap_singleton _ _

theorem wireFrames_eq_nil {replies : List QueuedReply} (h : wireFrames replies = []) : replies = [] := by
  cases replies with
  | nil => rfl
  | cons r rest =>
    rw [wireFrames, List.flatMap_cons, List.append_eq_nil_iff, wireFrame, List.append_eq_nil_iff] at h
    have hlen := congrArg List.length h.1.1
    rw [u16ToBe_length] at hlen
    cases hlen

theorem own_filter (r : QueuedReply) (id : ConnectionId) : [r].filter (·.id = id) = if r.id = id then [r] else [] := by
  by_cases hid : r.id = id
  · simp [hid]
  · simp [hid]

/-! ### The stream -/

/-- What a step can do to the write side of one connection, whose buffer stays as large:
`wrote` goes to the kernel, and the frames `armed` come behind what is left. -/
inductive WireStep : Option Conn → Bytes → Bytes → Option Conn → Prop
  | live {c c' : Conn} {wrote armed : Bytes} :
      (c.writeLen ≤ c.writeBuf.length → c'.writeLen ≤ c'.writeBuf.length ∧ c'.writeBuf.length = c.writeBuf.length) →
      (c.writeLen ≤ c.writeBuf.length → wrote ++ c'.writeRemaining = c.writeRemaining ++ armed) →
      WireStep (some c) wrote armed (some c')
  | opened {c : Conn} : c.writeLen = 0 → c.writeBuf.length = Transport.frameCap → WireStep none [] [] (some c)
  | gone {o : Option Conn} : WireStep o [] [] none

theorem WireStep.refl (o : Option Conn) : WireStep o [] [] o := by
  cases o with
  | none => exact .gone
  | some c => exact .live (fun h => ⟨h, rfl⟩) fun _ => (List.append_nil _).symm

theorem WireStep.unwritten (c' : Conn) {c : Conn} (hbuf : c'.writeBuf = c.writeBuf) (hlen : c'.writeLen = c.writeLen) :
    WireStep (some c) [] [] (some c') := by
  refine .live (fun h => ?_) fun _ => ?_
  · rw [hbuf, hlen]
    exact ⟨h, rfl⟩
  · rw [List.nil_append, List.append_nil, Conn.writeRemaining, Conn.writeRemaining, hbuf, hlen]

/-- A step on one connection's slot leaves the others alone. -/
theorem WireStep.insert (id : ConnectionId) {m : ConnMgr} {i : ConnectionId} {c c' : Conn} {wrote armed : Bytes} (hget : m.get i = some c)
    (h : WireStep (some c) wrote armed (some c')) :
    WireStep (m.get id) (if i = id then wrote else []) (if i = id then armed else []) ((m.insert i c').get id) := by
  by_cases hid : i = id
  · subst hid
    rw [if_pos rfl, if_pos rfl, hget, ConnMgr.get_insert_self (ConnMgr.lt_of_get hget)]
    exact h
  · rw [if_neg hid, if_neg hid, ConnMgr.get_insert_ne (Ne.symm hid)]
    exact .refl _

/-- A write takes the first octets of what is left. -/
theorem WireStep.wrote (c : Conn) (n now : Nat) (pendingWrite : Bool) :
    WireStep (some c) (c.writeRemaining.take n) [] (some { (c.advanceWrite n).noteActive now with pendingWrite }) := by
  have hrest : ∀ h : c.writeLen ≤ c.writeBuf.length,
      Conn.writeRemaining { (c.advanceWrite n).noteActive now with pendingWrite } = c.writeRemaining.drop (min n c.writeLen) :=
    fun h => Conn.advanceWrite_remaining h n
  refine .live (fun h => ?_) fun h => ?_
  · have hlen := Transport.Conn.copyWithin_length (Nat.le_trans (Nat.min_le_right n _) h)
    refine ⟨?_, hlen⟩
    change c.writeLen - min n c.writeLen ≤ (Transport.Conn.copyWithin c.writeBuf (min n c.writeLen)).length
    rw [hlen]
    exact Nat.le_trans (Nat.sub_le _ _) h
  · have hlen : c.writeRemaining.length = c.writeLen := by
      rw [Conn.writeRemaining, List.length_take, Nat.min_eq_left h]
    have htaken : c.writeRemaining.take n = c.writeRemaining.take (min n c.writeLen) := by
      rw [← hlen]
      exact List.take_eq_take_min
    rw [hrest h, htaken, List.take_append_drop, List.append_nil]

/-- A reply is armed whole. -/
theorem WireStep.armed {c : Conn} {p : Payload} (hw : c.canWrite p.octets.length) :
    WireStep (some c) [] (wireFrame p.octets) (some (c.takeWrite p.octets).2) := by
  have hslice : (c.takeWrite p.octets).2.writeRemaining = p.frame := Conn.takeWrite_slice hw
  refine .live (fun _ => ⟨?_, (Conn.takeWrite_hasWrite hw).1⟩) fun _ => ?_
  · rw [Conn.takeWrite_frame hw, List.length_append]
    exact Nat.le_add_right _ _
  · rw [hslice, Conn.writeRemaining_nil (Conn.canWrite_iff.mp hw).1]
    rfl

/-- What a write does to its connection. -/
theorem step_write {s s' : Loop BindingHandler} {answer : Answer Env} {i : ConnectionId}
    (h : Transport.EventLoop.Step (serverHandler crypto) s (answer, .write i) s') (id : ConnectionId) :
    WireStep (s.worker.conns.get id) (writtenNow id (s, (answer, .write i))) [] (s'.worker.conns.get id) := by
  obtain ⟨w, phase⟩ := s
  have hperf := (step_label (serverHandler crypto) h).2
  cases phase with
  | drainWrite i' writable ready =>
    have hnext : w.serveWrite (serverHandler crypto) i' writable ready answer = some (.write i, s') := h
    rw [Worker.serveWrite.eq_def] at hnext
    split at hnext
    case h_1 _ conn hget =>
      rw [Worker.drainWrite.eq_def] at hnext
      split at hnext
      case h_1 =>
        cases hnext
        have hstep := WireStep.insert id hget (.unwritten { conn with pendingWrite := false } rfl rfl)
        rwa [ite_self] at hstep
      case h_2 =>
        cases hnext
        have hstep := WireStep.insert id hget (.unwritten { conn with pendingWrite := true } rfl rfl)
        rwa [ite_self] at hstep
      case h_3 n now _ =>
        cases hnext
        have hstep := WireStep.insert id hget (.wrote conn n now ((conn.advanceWrite n).noteActive now).hasWrite)
        simpa only [writtenNow, hget, ite_self] using hstep
      case h_4 =>
        exfalso
        rcases w.drop_act (serverHandler crypto) i' with hact | hact
        · rw [hact] at hnext
          cases hnext
        · rw [hact] at hnext
          cases hnext
      case h_5 => cases hnext
    case h_2 => cases hnext
    case h_3 => cases hnext
  | _ => cases hperf

/-- What any step does to a connection's write side. -/
theorem step_wire {s s' : Loop BindingHandler} {label : Answer Env × Act}
    (h : Transport.EventLoop.Step (serverHandler crypto) s label s')
    (hfits : ∀ r ∈ s.worker.handler.outbox, r.payload.length ≤ Transport.maxFramePayload) (id : ConnectionId) :
    WireStep (s.worker.conns.get id) (writtenNow id (s, label)) (wireFrames ((placed label.2).filter (·.id = id)))
      (s'.worker.conns.get id) := by
  have hd := step_does (serverHandler crypto) h
  obtain ⟨answer, act⟩ := label
  by_cases hwrite : ∃ i, act = .write i
  · obtain ⟨i, rfl⟩ := hwrite
    exact step_write crypto h id
  obtain ⟨w, phase⟩ := s
  obtain ⟨w', phase'⟩ := s'
  dsimp only at hd hfits ⊢
  cases hd with
  | write _ _ _ => exact absurd ⟨_, rfl⟩ hwrite
  | idle _ | emptied _ _ | stun _ _ | full _ | tcpStun _ _ _ | putBack _ _ _ _ | skip _ _ => exact .refl _
  | @unregistered _ _ _ i conns halloc =>
    obtain ⟨-, -, -, hget⟩ := ConnMgr.alloc_eq_some halloc
    by_cases heq : id = i
    · subst heq
      rw [ConnMgr.get_remove_self]
      exact .gone
    · rw [ConnMgr.get_remove_ne heq, hget]
      exact .refl _
  | @connect _ _ stream now i conns _ halloc =>
    obtain ⟨hid, -, hnext, hget⟩ := ConnMgr.alloc_eq_some halloc
    by_cases heq : id = i
    · subst heq
      have hlt : id.value.toNat < conns.nextId.toNat := by
        rw [hid, hnext]
        exact Nat.lt_succ_self _
      have hnone : w.conns.get id = none := by
        obtain ⟨value⟩ := id
        dsimp only at hid
        rw [hid]
        exact w.conns.get_next
      rw [ConnMgr.get_insert_self hlt, hnone]
      exact .opened rfl (zeros_length _)
    · rw [ConnMgr.get_insert_ne heq, hget]
      exact .refl _
  | @read _ i c c' chunk now hget hc =>
    have hstep := WireStep.insert id hget (.unwritten c' (by rw [hc]; rfl) (by rw [hc]; rfl))
    rw [ite_self] at hstep
    exact hstep
  | @place _ reply g c htake hget hw =>
    have hmem : reply ∈ w.handler.outbox := by
      rw [(queueNext_some htake).2]
      exact List.mem_cons_self
    have hstep := WireStep.insert id hget (.armed (p := ⟨reply.payload, hfits reply hmem⟩) hw)
    rw [ite_self] at hstep
    have hframes : wireFrames ((placed (.place reply)).filter (·.id = id)) =
        if reply.id = id then wireFrame reply.payload else [] := by
      rw [placed, own_filter]
      split
      · exact wireFrames_singleton _
      · rfl
    rw [hframes]
    exact hstep
  | @drop _ _ i c _ hget =>
    by_cases heq : id = i
    · subst heq
      rw [ConnMgr.get_remove_self]
      exact .gone
    · rw [ConnMgr.get_remove_ne heq]
      exact .refl _

/-! ### The outbox -/

/-- The balance of one connection without regard to order. -/
theorem queue_conserved {h h' : BindingHandler} {act : Act} {id : ConnectionId} (hq : QueueStep h act h')
    (hskip : ∀ r, act = .skip r → r.id ≠ id) (hdrop : act ≠ .drop id) :
    (queuedFor id h ++ (match act with
      | .tcpStun _ _ => h'.outbox.drop h.outbox.length
      | _ => []).filter (·.id = id)).Perm ((placed act).filter (·.id = id) ++ queuedFor id h') := by
  by_cases hback : ∃ r, act = .putBack r
  · obtain ⟨r, rfl⟩ := hback
    cases hq with
    | kept _ hnot _ _ => exact absurd rfl (hnot r).2.1
    | returned _ ho ho' =>
      dsimp only
      rw [queuedFor, queuedFor, ho, ho', List.filter_nil, List.append_nil]
      exact (List.perm_append_singleton _ _).symm.filter _
  · exact .of_eq (queue_balance hq (fun r _ hact => absurd ⟨r, hact⟩ hback) hskip hdrop)

/-- What was handed to the handler on a connection. -/
def packetsOn (id : ConnectionId) (hist : LoopHistory) : List Bytes :=
  (acts hist).filterMap fun
    | .tcpStun payload i => if i = id then some payload else none
    | _ => none

/-- A reply to the request in a packet. -/
def Answers (payload : Bytes) (r : QueuedReply) : Prop :=
  ∃ msg, parse payload = .ok msg ∧ msg.header.msgType = .bindingRequest ∧ ReplyTo crypto msg.txid r.payload

/-- The replies are to packets of their own, in the packets' order. -/
def Answered (packets : List Bytes) (replies : List QueuedReply) : Prop :=
  ∃ asked, asked.Sublist packets ∧ List.Forall₂ (Answers crypto) asked replies

theorem Answered.append {crypto : Crypto} {packets packets' : List Bytes} {replies replies' : List QueuedReply}
    (h : Answered crypto packets replies) (h' : Answered crypto packets' replies') :
    Answered crypto (packets ++ packets') (replies ++ replies') := by
  obtain ⟨asked, hsub, hall⟩ := h
  obtain ⟨asked', hsub', hall'⟩ := h'
  exact ⟨asked ++ asked', hsub.append hsub', List.rel_append hall hall'⟩

/-- Every reply is to one of the packets. -/
theorem Answered.mem {crypto : Crypto} {packets : List Bytes} {replies : List QueuedReply} (h : Answered crypto packets replies)
    {r : QueuedReply} (hr : r ∈ replies) : ∃ payload ∈ packets, Answers crypto payload r := by
  obtain ⟨asked, hsub, hall⟩ := h
  obtain ⟨i, hi, rfl⟩ := List.getElem_of_mem hr
  have hlt : i < asked.length := hall.length_eq ▸ hi
  exact ⟨asked[i], hsub.subset (List.getElem_mem hlt), hall.get hlt hi⟩

theorem Answered.none (packets : List Bytes) : Answered crypto packets [] := ⟨[], packets.nil_sublist, .nil⟩

theorem packetsOn_snoc (id : ConnectionId) (hist : LoopHistory) (p : Loop BindingHandler × (Answer Env × Act)) :
    packetsOn id (hist ++ [p]) = packetsOn id hist ++ packetsOn id [p] := by
  rw [packetsOn, packetsOn, packetsOn, acts_snoc, List.filterMap_append]
  rfl

/-- A step queues at most one reply, to the packet it hands over. -/
theorem step_answered {s s' : Loop BindingHandler} {label : Answer Env × Act} (hk : KeepsReplies crypto s.worker.handler.transactions)
    (hd : Does (serverHandler crypto) s.worker s.phase label s'.worker) (id : ConnectionId) :
    Answered crypto (packetsOn id [(s, label)]) ((enqueued crypto (s, label)).filter (·.id = id)) := by
  rw [enqueued_eq crypto hd]
  obtain ⟨w, phase⟩ := s
  obtain ⟨w', phase'⟩ := s'
  cases hd with
  | @tcpStun _ env payload i c h' _ _ htcp =>
    have hrun := (onTcpStun_replies crypto hk (serverHandler_onTcpStun crypto htcp)).2
    dsimp only
    rcases hrun with heq | ⟨msg, out, hparse, hbinding, hto, heq⟩
    · rw [heq, List.drop_length]
      exact .none crypto _
    · rw [heq, List.drop_left]
      by_cases hid : i = id
      · subst hid
        have hpackets : packetsOn i [(⟨w, phase⟩, ((.call env : Answer Env), Act.tcpStun payload i))] = [payload] := by
          simp [packetsOn, acts]
        rw [hpackets, own_filter, if_pos rfl]
        exact ⟨[payload], .refl _, .cons ⟨msg, hparse, hbinding, hto⟩ .nil⟩
      · rw [own_filter, if_neg hid]
        exact .none crypto _
  | _ => exact .none crypto _

/-! ### Runs -/

/-- A connection's replies from the outbox to its stream. -/
structure Delivering (id : ConnectionId) (w : Worker BindingHandler) (hist : LoopHistory) : Prop where
  inside : ∀ c, w.conns.get id = some c → c.writeLen ≤ c.writeBuf.length
  stream : ∀ c, w.conns.get id = some c → written id hist ++ c.writeRemaining = wireFrames (placedFor id hist)
  queue : ∀ c, w.conns.get id = some c → (placedFor id hist ++ queuedFor id w.handler).Perm (enqueuedFor crypto id hist)
  begun : written id hist <+: wireFrames (placedFor id hist)
  taken : (placedFor id hist).Subperm (enqueuedFor crypto id hist)
  answered : Answered crypto (packetsOn id hist) (enqueuedFor crypto id hist)
  fresh : w.conns.nextId.toNat ≤ id.value.toNat → written id hist = [] ∧ enqueuedFor crypto id hist = [] ∧ placedFor id hist = []

section Step
variable {id : ConnectionId} {s s' : Loop BindingHandler} {label : Answer Env × Act}

theorem placed_gone (id : ConnectionId) (hd : Does (serverHandler crypto) s.worker s.phase label s'.worker)
    (hnone : s.worker.conns.get id = none) : (placed label.2).filter (·.id = id) = [] := by
  obtain ⟨answer, act⟩ := label
  cases act with
  | place r =>
    generalize s.phase = phase at hd
    generalize s'.worker = w' at hd
    cases hd with
    | place htake hget _ =>
      have hne : r.id ≠ id := by
        rintro rfl
        cases hget.symm.trans hnone
      simp [placed, hne]
  | _ => rfl

theorem skip_other (hd : Does (serverHandler crypto) s.worker s.phase label s'.worker) (ha : Agrees s.worker) :
    ∀ r, label.2 = .skip r → r.id ≠ id := by
  intro r hact
  obtain ⟨answer, act⟩ := label
  cases hact
  generalize s.phase = phase at hd
  generalize s'.worker = w' at hd
  cases hd with
  | skip htake hnone =>
    obtain ⟨c, hget⟩ := head_live ha htake
    cases hget.symm.trans hnone

theorem Delivering.step {hist : LoopHistory} (h : Delivering crypto id s.worker hist) (ha : Agrees s.worker)
    (hr : Replies crypto s.worker.handler) (hs : Transport.EventLoop.Step (serverHandler crypto) s label s') :
    Delivering crypto id s'.worker (hist ++ [(s, label)]) := by
  have hd := step_does (serverHandler crypto) hs
  have ht := hd.table
  have hq := does_queue crypto hd ha.bounded
  have ha' := ha.step ht hq
  have hfits : ∀ r ∈ s.worker.handler.outbox, r.payload.length ≤ Transport.maxFramePayload := by
    intro r hmem
    obtain ⟨txid, hto⟩ := hr.queued r hmem
    exact Nat.le_trans hto.length_le (by decide)
  have hwire := step_wire crypto hs hfits id
  have hgone := placed_gone crypto id hd
  have hbalance : label.2 ≠ .drop id → (queuedFor id s.worker.handler ++ (enqueued crypto (s, label)).filter (·.id = id)).Perm
      ((placed label.2).filter (·.id = id) ++ queuedFor id s'.worker.handler) := by
    rw [enqueued_eq crypto hd]
    exact queue_conserved hq (skip_other crypto hd ha)
  have hanswered := h.answered.append (step_answered crypto hr.kept hd id)
  rw [← packetsOn_snoc, ← enqueuedFor_snoc] at hanswered
  -- a connection that opens is new, so nothing was written, queued or placed for it
  have hopened : ∀ c', s.worker.conns.get id = none → s'.worker.conns.get id = some c' →
      written id hist = [] ∧ enqueuedFor crypto id hist = [] ∧ placedFor id hist = [] := fun c' hnone hget' =>
    h.fresh (Nat.le_of_eq (congrArg UInt64.toNat (ht.became_live hnone hget').symm))
  have hlive : ∀ c', s'.worker.conns.get id = some c' → label.2 ≠ .drop id := by
    intro c' hget' hact
    rw [hact] at ht
    cases hget'.symm.trans ht.dropped.2
  have hqueue : ∀ c', s'.worker.conns.get id = some c' →
      (placedFor id (hist ++ [(s, label)]) ++ queuedFor id s'.worker.handler).Perm (enqueuedFor crypto id (hist ++ [(s, label)])) := by
    intro c' hget'
    have hbalance := hbalance (hlive c' hget')
    rw [placedFor_snoc, enqueuedFor_snoc, List.append_assoc]
    cases hget : s.worker.conns.get id with
    | none =>
      obtain ⟨-, he, hp⟩ := hopened c' hget hget'
      rw [queuedFor_gone ha hget, List.nil_append] at hbalance
      rw [he, hp]
      exact hbalance.symm
    | some c =>
      refine (hbalance.symm.append_left _).trans ?_
      rw [← List.append_assoc]
      exact (h.queue c hget).append_right _
  have hstream : ∀ c', s'.worker.conns.get id = some c' → c'.writeLen ≤ c'.writeBuf.length ∧
      written id (hist ++ [(s, label)]) ++ c'.writeRemaining = wireFrames (placedFor id (hist ++ [(s, label)])) := by
    intro c' hget'
    rw [written_snoc, placedFor_snoc, wireFrames_append]
    rw [hget'] at hwire
    generalize hw : writtenNow id (s, label) = wrote at hwire ⊢
    generalize hp : wireFrames ((placed label.2).filter (·.id = id)) = armed at hwire ⊢
    cases hget : s.worker.conns.get id with
    | none =>
      obtain ⟨hwritten, -, hplaced⟩ := hopened c' hget hget'
      rw [hget] at hwire
      cases hwire with
      | opened hlen _ =>
        rw [hwritten, hplaced, Conn.writeRemaining_nil hlen, hlen]
        exact ⟨Nat.zero_le _, rfl⟩
    | some c =>
      rw [hget] at hwire
      cases hwire with
      | live hin hout =>
        have hinside := h.inside c hget
        rw [List.append_assoc, hout hinside, ← List.append_assoc, h.stream c hget]
        exact ⟨(hin hinside).1, rfl⟩
  -- nothing happens on a connection that is not there any more
  have hquiet : s'.worker.conns.get id = none → writtenNow id (s, label) = [] ∧ (placed label.2).filter (·.id = id) = [] := by
    intro hnone'
    rw [hnone'] at hwire
    generalize hw : writtenNow id (s, label) = wrote at hwire ⊢
    generalize hp : wireFrames ((placed label.2).filter (·.id = id)) = armed at hwire
    generalize s.worker.conns.get id = before at hwire
    cases hwire with
    | gone => exact ⟨rfl, wireFrames_eq_nil hp⟩
  constructor
  case inside => exact fun c' hget' => (hstream c' hget').1
  case stream => exact fun c' hget' => (hstream c' hget').2
  case queue => exact hqueue
  case answered => exact hanswered
  case begun =>
    cases hget' : s'.worker.conns.get id with
    | some c' => exact ⟨c'.writeRemaining, (hstream c' hget').2⟩
    | none =>
      obtain ⟨hw, hp⟩ := hquiet hget'
      rw [written_snoc, placedFor_snoc, hw, hp, List.append_nil, List.append_nil]
      exact h.begun
  case taken =>
    cases hget' : s'.worker.conns.get id with
    | some c' => exact (List.sublist_append_left _ _).subperm.trans (hqueue c' hget').subperm
    | none =>
      obtain ⟨-, hp⟩ := hquiet hget'
      rw [placedFor_snoc, enqueuedFor_snoc, hp, List.append_nil]
      exact h.taken.trans (List.sublist_append_left _ _).subperm
  case fresh =>
    intro hge
    have hge₀ := Nat.le_trans ht.next_le hge
    have hnone : ∀ m : ConnMgr, m.nextId.toNat ≤ id.value.toNat → m.get id = none := by
      intro m hm
      cases hget : m.get id with
      | none => rfl
      | some c => exact absurd (ConnMgr.lt_of_get hget) (Nat.not_lt.mpr hm)
    have hdrop : label.2 ≠ .drop id := by
      intro hact
      rw [hact] at ht
      obtain ⟨⟨c, hget⟩, -⟩ := ht.dropped
      cases hget.symm.trans (hnone _ hge₀)
    have hbalance := hbalance hdrop
    obtain ⟨hwritten, he, hplaced⟩ := h.fresh hge₀
    obtain ⟨hw, hp⟩ := hquiet (hnone _ hge)
    rw [queuedFor_gone ha (hnone _ hge₀), queuedFor_gone ha' (hnone _ hge), hp] at hbalance
    rw [written_snoc, enqueuedFor_snoc, placedFor_snoc, hwritten, he, hplaced, hw, hp, List.perm_nil.mp hbalance]
    exact ⟨rfl, rfl, rfl⟩

end Step

theorem run_delivering {config : WorkerConfig} {addresses : List ServerIdentity} {sender : Option UdpSocket}
    {tcp : Option ServerIdentity} {udp listener : Bool} {hist : LoopHistory} {s : Loop BindingHandler}
    (hrun : ServerRun crypto config (startHandler addresses sender tcp) udp listener hist s) (id : ConnectionId) :
    Delivering crypto id s.worker hist := by
  obtain ⟨hc, ho⟩ := startHandler_queue addresses sender tcp
  have h0 := startHandler_transactions addresses sender tcp
  refine hrun.invariant (P := fun hist s => Delivering crypto id s.worker hist) ?_ fun hist t label u hr h hs => ?_
  · constructor
    case inside => exact fun c hget => nomatch hget
    case stream => exact fun c hget => nomatch hget
    case queue => exact fun c hget => nomatch hget
    case begun => exact List.nil_prefix
    case taken => exact List.nil_subperm
    case answered => exact .none crypto _
    case fresh => exact fun _ => ⟨rfl, rfl, rfl⟩
  · exact h.step crypto (run_agrees crypto hc ho hr) (run_replies crypto hc ho h0 hr) hs

/-! ### What a peer decodes -/

/-- The packets in a stretch of a stream. -/
def packetsIn (wire : Bytes) : List Bytes :=
  (Transport.decodeWith (fun packets payload _ => (packets ++ [payload], none)) wire false 0 0 []).2

/-- The packets a peer decodes from what was written to its stream. -/
def received (id : ConnectionId) (hist : LoopHistory) : List Bytes := packetsIn (written id hist)

theorem wireFrames_encodeAll (replies : List QueuedReply) (h : ∀ r ∈ replies, r.payload.length ≤ Transport.maxFramePayload) :
    ∃ ps : List Payload, ps.map Payload.octets = replies.map QueuedReply.payload ∧ wireFrames replies = frames.encodeAll ps := by
  induction replies with
  | nil => exact ⟨[], rfl, rfl⟩
  | cons r rest ih =>
    obtain ⟨ps, hps, henc⟩ := ih fun x hx => h x (List.mem_cons_of_mem _ hx)
    refine ⟨⟨r.payload, h r List.mem_cons_self⟩ :: ps, congrArg (r.payload :: ·) hps, ?_⟩
    rw [PrefixCode.encodeAll_cons, ← henc]
    rfl

theorem foldl_packets (ps : List Payload) (packets : List Bytes) :
    ps.foldl (fun (packets : List Bytes) p => packets ++ [p.octets]) packets = packets ++ ps.map Payload.octets := by
  induction ps generalizing packets with
  | nil => exact (List.append_nil _).symm
  | cons p ps ih => rw [List.foldl_cons, ih, List.append_assoc]; rfl

theorem packetsIn_frames (ps : List Payload) {tail : Bytes} (h : frames.Partial tail) :
    packetsIn (frames.encodeAll ps ++ tail) = ps.map Payload.octets := by
  have hdecode := Transport.decodeWith_split (fun (packets : List Bytes) payload _ => (packets ++ [payload], none))
    (fun _ _ _ => rfl) ps h [] false 0 []
  rw [List.nil_append, List.length_nil, foldl_packets, List.nil_append] at hdecode
  rw [packetsIn, hdecode]

/-- A peer that has read part of a stream of frames decodes the first of them. -/
theorem packetsIn_first {wire : Bytes} {replies : List QueuedReply} (h : wire <+: wireFrames replies)
    (hfits : ∀ r ∈ replies, r.payload.length ≤ Transport.maxFramePayload) :
    packetsIn wire <+: replies.map QueuedReply.payload := by
  obtain ⟨ps, hps, henc⟩ := wireFrames_encodeAll replies hfits
  obtain ⟨whole, tail, rfl, htail⟩ := frames.exists_split wire
  obtain ⟨rest, hrest⟩ := h
  rw [henc, List.append_assoc] at hrest
  obtain ⟨more, rfl, -⟩ := frames.encodeAll_prefix hrest
  rw [packetsIn_frames whole htail, ← hps, List.map_append]
  exact List.prefix_append _ _

theorem Delivering.received {id : ConnectionId} {w : Worker BindingHandler} {hist : LoopHistory} (h : Delivering crypto id w hist) :
    received id hist <+: (placedFor id hist).map QueuedReply.payload := by
  refine packetsIn_first h.begun fun r hr => ?_
  obtain ⟨payload, -, msg, -, -, hto⟩ := h.answered.mem (h.taken.subset hr)
  exact Nat.le_trans hto.length_le (by decide)

/-- **Delivery**: whatever the kernel takes of the writes and whenever a buffer is busy,
what a peer decodes from its stream are the replies placed for its connection, whole and in
the order they were placed; each was queued once, to a packet of its own that came in on that
very connection, under that packet's transaction; and while the connection lives, what was
queued is placed or still waits, and what was placed is written or still in the buffer. -/
theorem delivered {config : WorkerConfig} {addresses : List ServerIdentity} {sender : Option UdpSocket}
    {tcp : Option ServerIdentity} {udp listener : Bool} {hist : LoopHistory} {s : Loop BindingHandler}
    (hrun : ServerRun crypto config (startHandler addresses sender tcp) udp listener hist s) (id : ConnectionId) :
    received id hist <+: (placedFor id hist).map QueuedReply.payload ∧
    (placedFor id hist).Subperm (enqueuedFor crypto id hist) ∧
    Answered crypto (packetsOn id hist) (enqueuedFor crypto id hist) ∧
    ∀ c, s.worker.conns.get id = some c →
      (placedFor id hist ++ queuedFor id s.worker.handler).Perm (enqueuedFor crypto id hist) ∧
      written id hist ++ c.writeRemaining = wireFrames (placedFor id hist) := by
  have h := run_delivering crypto hrun id
  exact ⟨h.received crypto, h.taken, h.answered, fun c hget => ⟨h.queue c hget, h.stream c hget⟩⟩

theorem writtenConn_empty : writtenConn.writeRemaining = [] := Conn.writeRemaining_nil rfl

/-- A peer that sent three requests has the first reply. -/
theorem first_received : ∃ hist s,
    ServerRun signedResponseCrypto ⟨300, 5, none⟩ (startHandler [] none (some sampleIdentity)) true true hist s ∧
    received ⟨0⟩ hist = [pipelinedReply 1] := by
  obtain ⟨hist, hrun, -, hplaced, -⟩ := ((((accept_stretch.trans read_stretch).trans answers_stretch).trans
    place_first).trans put_back_second).trans write_stretch
  have hserver : ServerRun signedResponseCrypto ⟨300, 5, none⟩ (startHandler [] none (some sampleIdentity)) true true hist _ :=
    hrun
  have hfirst : placedFor ⟨0⟩ hist = [pipelinedQueued 1] := by
    rw [placedFor, hplaced]
    rfl
  have hwire := ((delivered signedResponseCrypto hserver ⟨0⟩).2.2.2 writtenConn rfl).2
  rw [writtenConn_empty, List.append_nil, hfirst, wireFrames_singleton] at hwire
  refine ⟨hist, _, hserver, ?_⟩
  have hpackets := packetsIn_frames [⟨pipelinedReply 1, pipelinedReply_fits 1⟩] frames.partial_nil
  rw [List.append_nil, PrefixCode.encodeAll_cons, PrefixCode.encodeAll_nil, List.append_nil] at hpackets
  rw [received, hwire]
  exact hpackets

end QuickRelay.Server
