import Mathlib.Algebra.Order.BigOperators.Group.List
import Mathlib.Algebra.Group.Action.Defs
import QuickRelay.Server.Delivery
import QuickRelay.Transport.Accepting
import QuickRelay.Transport.Work

/-! What a worker holds in memory. -/
namespace QuickRelay.Server
open Lib Protocol
open Binding (ServerIdentity)
open Transport (ConnectionId QueuedReply Payload frames frameCap)
open Transport.EventLoop hiding Step History

variable (crypto : Crypto)

/-- The packets taken from a window and not yet handed over. -/
def packets : Phase → List Bytes
  | .decode _ frames _ _ => frames
  | _ => []

def connOctets : Option Conn → Nat
  | some c => c.readBuf.length + c.writeBuf.length
  | none => 0

def octetsIn (l : List Bytes) : Nat := (l.map List.length).sum

/-- The octets of the kept replies, the outbox, the connections' buffers and the packets
being handed over. The slots of the table are counted apart. -/
def octetsHeld (s : Loop BindingHandler) : Nat :=
  octetsIn (s.worker.handler.transactions.entries.map fun e => e.2.datagram) +
    octetsIn (s.worker.handler.outbox.map QueuedReply.payload) + (s.worker.conns.conns.map connOctets).sum +
    octetsIn (packets s.phase)

theorem octetsIn_le {l : List Bytes} {n : Nat} (h : ∀ d ∈ l, d.length ≤ n) : octetsIn l ≤ l.length * n := by
  have hsum := List.sum_le_card_nsmul (l.map List.length) n (List.forall_mem_map.mpr h)
  rwa [List.length_map, smul_eq_mul] at hsum

theorem octetsIn_sublist {l l' : List Bytes} (h : l.Sublist l') : octetsIn l ≤ octetsIn l' :=
  (h.map List.length).sum_le_sum fun _ _ => Nat.zero_le _

/-- The packets of a window are no more than the window. -/
theorem takeFrames_octets (c : Transport.Conn) : octetsIn c.takeFrames.2 ≤ c.readBuf.length := by
  obtain ⟨ps, tail, hsplit, htail⟩ := frames.exists_split c.window
  have hframes : octetsIn (ps.map Payload.octets) ≤ (frames.encodeAll ps).length := by
    clear hsplit
    induction ps with
    | nil => exact Nat.le_refl 0
    | cons p ps ih =>
      have hlen : (frames.encode p).length = _ := p.frame_length
      rw [PrefixCode.encodeAll_cons, List.length_append, hlen]
      change p.octets.length + octetsIn (ps.map Payload.octets) ≤ _
      omega
  have hwindow := congrArg List.length hsplit
  rw [c.window_length, List.length_append] at hwindow
  have hbounded := c.bounded
  rw [(c.takeFrames_spec htail hsplit).1]
  have htake := octetsIn_sublist (List.take_sublist Transport.decodeBatch (ps.map Payload.octets))
  omega

/-! ### One step -/

/-- Every connection's buffers are of the size they are made with. -/
structure Sized (w : Worker BindingHandler) : Prop where
  read : ∀ id c, w.conns.get id = some c → c.readBuf.length = frameCap
  write : ∀ id c, w.conns.get id = some c → c.writeLen ≤ c.writeBuf.length ∧ c.writeBuf.length = frameCap

theorem get_of_insert {m : ConnMgr} {i id : ConnectionId} {c c' : Conn} (h : (m.insert i c).get id = some c') :
    c' = c ∨ m.get id = some c' := by
  by_cases hid : id = i
  · subst hid
    by_cases hlt : id.value.toNat < m.nextId.toNat
    · rw [ConnMgr.get_insert_self hlt] at h
      exact .inl (Option.some.inj h).symm
    · exact absurd (ConnMgr.lt_of_get h) hlt
  · rw [ConnMgr.get_insert_ne hid] at h
    exact .inr h

theorem get_of_remove {m : ConnMgr} {i id : ConnectionId} {c : Conn} (h : (m.remove i).get id = some c) :
    m.get id = some c := by
  by_cases hid : id = i
  · subst hid
    rw [ConnMgr.get_remove_self] at h
    cases h
  · rwa [ConnMgr.get_remove_ne hid] at h

theorem Sized.read_step {w w' : Worker BindingHandler} {phase : Phase} {label : Answer Env × Act} (h : Sized w)
    (hd : Does (serverHandler crypto) w phase label w') (id : ConnectionId) (c' : Conn) (hget : w'.conns.get id = some c') :
    c'.readBuf.length = frameCap := by
  cases hd with
  | idle _ | emptied _ _ | stun _ _ | full _ | tcpStun _ _ _ | putBack _ _ _ _ | skip _ _ => exact h.read id c' hget
  | unregistered halloc =>
    obtain ⟨-, -, -, halloc⟩ := ConnMgr.alloc_eq_some halloc
    exact h.read id c' ((halloc id).symm.trans (get_of_remove hget))
  | connect _ halloc =>
    obtain ⟨-, -, -, halloc⟩ := ConnMgr.alloc_eq_some halloc
    rcases get_of_insert hget with rfl | hget
    · exact Transport.Conn.new_readBuf_length
    · rw [halloc] at hget
      exact h.read id c' hget
  | @read _ i c c₁ chunk now hlive hc =>
    rcases get_of_insert hget with rfl | hget
    · obtain ⟨ps, tail, hsplit, htail⟩ := frames.exists_split (c.receive (chunk.take readWindow) now).toConn.window
      rw [hc]
      refine ((Transport.Conn.takeFrames_spec htail hsplit).2.2).trans ?_
      exact (Transport.Conn.fill_readBuf_length _ _).trans (h.read i c hlive)
    · exact h.read id c' hget
  | write hlive hconn _ =>
    rcases get_of_insert hget with rfl | hget
    · rw [hconn]
      exact h.read _ _ hlive
    · exact h.read id c' hget
  | place _ hlive _ =>
    rcases get_of_insert hget with rfl | hget
    · rw [(Conn.takeWrite_rest _ _).2]
      exact h.read _ _ hlive
    · exact h.read id c' hget
  | drop _ _ => exact h.read id c' (get_of_remove hget)

theorem Sized.step {s s' : Loop BindingHandler} {label : Answer Env × Act} (h : Sized s.worker)
    (hr : Replies crypto s.worker.handler) (hs : Transport.EventLoop.Step (serverHandler crypto) s label s') : Sized s'.worker := by
  constructor
  case read => exact h.read_step crypto (step_does (serverHandler crypto) hs)
  case write =>
    intro id c' hget'
    have hfits : ∀ r ∈ s.worker.handler.outbox, r.payload.length ≤ Transport.maxFramePayload := by
      intro r hmem
      obtain ⟨txid, hto⟩ := hr.queued r hmem
      exact Nat.le_trans hto.length_le (by decide)
    have hwire := step_wire crypto hs hfits id
    rw [hget'] at hwire
    generalize hget : s.worker.conns.get id = before at hwire
    generalize writtenNow id (s, label) = wrote at hwire
    generalize wireFrames ((placed label.2).filter (·.id = id)) = armed at hwire
    cases hwire with
    | @live c _ _ _ hin _ =>
      obtain ⟨hlen, hcap⟩ := h.write id c hget
      exact ⟨(hin hlen).1, (hin hlen).2.trans hcap⟩
    | opened hlen hcap => exact ⟨hlen ▸ Nat.zero_le _, hcap⟩

/-- The packets being handed over came from one window. -/
theorem moves_packets {w : Worker BindingHandler} {phase phase' : Phase} {label : Answer Env × Act}
    (h : Moves w phase label phase') (hsized : Sized w) (hp : octetsIn (packets phase) ≤ frameCap) :
    octetsIn (packets phase') ≤ frameCap := by
  cases h with
  | rest _ hrest =>
    cases phase' with
    | decode => cases hrest
    | _ => exact Nat.zero_le _
  | @read r ready c chunk now hget =>
    refine Nat.le_trans (takeFrames_octets _) (Nat.le_of_eq ?_)
    exact (Transport.Conn.fill_readBuf_length _ _).trans (hsized.read _ _ hget)
  | handed => exact Nat.le_trans (octetsIn_sublist (List.sublist_cons_self _ _)) hp
  | _ => exact Nat.zero_le _

/-! ### Runs -/

theorem run_sized {config : WorkerConfig} {addresses : List ServerIdentity} {sender : Option UdpSocket}
    {tcp : Option ServerIdentity} {udp listener : Bool} {hist : LoopHistory} {s : Loop BindingHandler}
    (hrun : ServerRun crypto config (startHandler addresses sender tcp) udp listener hist s) :
    Sized s.worker ∧ octetsIn (packets s.phase) ≤ frameCap := by
  obtain ⟨hc, ho⟩ := startHandler_queue addresses sender tcp
  have h0 := startHandler_transactions addresses sender tcp
  refine hrun.invariant (P := fun _ s => Sized s.worker ∧ octetsIn (packets s.phase) ≤ frameCap) ?_ ?_
  · exact ⟨⟨(fun _ _ hget => nomatch hget), fun _ _ hget => nomatch hget⟩, Nat.zero_le _⟩
  · rintro hist t label u hr ⟨hsized, hpackets⟩ hs
    exact ⟨hsized.step crypto (run_replies crypto hc ho h0 hr) hs,
      moves_packets (step_moves (serverHandler crypto) hs) hsized hpackets⟩

theorem Sized.conns {w : Worker BindingHandler} (h : Sized w) : (w.conns.conns.map connOctets).sum = w.conns.live * (2 * frameCap) := by
  have hslot : ∀ o ∈ w.conns.conns, ∀ c, o = some c → connOctets (some c) = 2 * frameCap := by
    rintro o ho c rfl
    rw [← w.conns.get_ids] at ho
    obtain ⟨id, -, hget⟩ := List.mem_map.mp ho
    rw [connOctets, h.read id c hget, (h.write id c hget).2, Nat.two_mul]
  rw [ConnMgr.live]
  generalize w.conns.conns = slots at hslot
  induction slots with
  | nil => rfl
  | cons o slots ih =>
    have hrest := ih fun o' ho' => hslot o' (List.mem_cons_of_mem _ ho')
    rw [List.map_cons, List.sum_cons, hrest, List.countP_cons]
    cases o with
    | none => simp [connOctets]
    | some c =>
      rw [hslot _ List.mem_cons_self c rfl]
      simp only [Option.isSome_some, if_true]
      exact (Nat.add_comm _ _).trans (Nat.succ_mul _ _).symm

/-- **Footprint**: whatever it is sent, the octets a worker holds are no more than 4096 kept
replies and 4096 queued ones of 182 octets each, one window of packets, and two buffers of
65599 octets for each live connection. The table of connections is not bounded so: it has a
slot for each stream there was to be registered, dropped ones too, and these are no more than
were accepted. -/
theorem held_bounded {config : WorkerConfig} {addresses : List ServerIdentity} {sender : Option UdpSocket}
    {tcp : Option ServerIdentity} {udp listener : Bool} {hist : LoopHistory} {s : Loop BindingHandler}
    (hrun : ServerRun crypto config (startHandler addresses sender tcp) udp listener hist s) :
    octetsHeld s ≤ (transactionCacheCap + replyQueueCap) * maxReply + frameCap + s.worker.conns.live * (2 * frameCap) ∧
      s.worker.conns.conns.length = (hist.countP fun p => p.2.1.registers) ∧
      s.worker.conns.conns.length ≤ (streamsAccepted hist).length := by
  have hslots := (run_slots (serverHandler crypto) hrun).trans (Nat.zero_add _)
  refine ⟨?_, hslots, hslots ▸ run_registers (serverHandler crypto) rfl hrun⟩
  obtain ⟨hc, ho⟩ := startHandler_queue addresses sender tcp
  have hreplies := run_replies crypto hc ho (startHandler_transactions addresses sender tcp) hrun
  obtain ⟨hsized, hpackets⟩ := run_sized crypto hrun
  have hkept : octetsIn (s.worker.handler.transactions.entries.map fun e => e.2.datagram) ≤ transactionCacheCap * maxReply := by
    refine Nat.le_trans (octetsIn_le (n := maxReply) ?_) ?_
    · exact List.forall_mem_map.mpr fun e he => (hreplies.kept e he).length_le
    · rw [List.length_map]
      exact Nat.mul_le_mul_right _ s.worker.handler.transactions.bounded
  have hqueued : octetsIn (s.worker.handler.outbox.map QueuedReply.payload) ≤ replyQueueCap * maxReply := by
    refine Nat.le_trans (octetsIn_le (n := maxReply) ?_) ?_
    · refine List.forall_mem_map.mpr fun r hr => ?_
      obtain ⟨txid, hto⟩ := hreplies.queued r hr
      exact hto.length_le
    · rw [List.length_map]
      exact Nat.mul_le_mul_right _ (run_agrees crypto hc ho hrun).bounded
  rw [octetsHeld, hsized.conns, Nat.add_mul]
  omega

/-- One of three replies is in its write buffer. -/
theorem pipeline_held : ∃ hist s,
    ServerRun signedResponseCrypto ⟨300, 5, none⟩ (startHandler [] none (some sampleIdentity)) true true hist s ∧
    s.worker.handler.outbox.length = 2 ∧ s.worker.conns.live = 1 ∧
    octetsHeld s ≤ (transactionCacheCap + replyQueueCap) * maxReply + frameCap + s.worker.conns.live * (2 * frameCap) ∧
    (hist.countP fun p => p.2.1.registers) = 1 := by
  obtain ⟨hist, hrun, -⟩ := ((accept_stretch.trans read_stretch).trans answers_stretch).trans place_first
  have hserver : ServerRun signedResponseCrypto ⟨300, 5, none⟩ (startHandler [] none (some sampleIdentity)) true true hist _ :=
    hrun
  obtain ⟨hheld, hslots, -⟩ := held_bounded signedResponseCrypto hserver
  exact ⟨hist, _, hserver, rfl, rfl, hheld, hslots.symm.trans rfl⟩

end QuickRelay.Server
