import Mathlib.Data.List.Basic
import QuickRelay.Server.Outgoing
import QuickRelay.Server.Replay

/-! Servers on one network that loses, reorders and copies datagrams, and on which anyone
may put a datagram of any source. -/
namespace QuickRelay.Server
open Lib Protocol
open Binding (SocketAddr ServerIdentity)
open Transport.EventLoop (rawAddr)

variable (crypto : Crypto)

/-- A datagram in flight; `served` is whether a server sent it. -/
structure Packet where
  src : SocketAddr
  dst : SocketAddr
  octets : Bytes
  served : Bool
  deriving DecidableEq, Repr

structure Network (α : Type) where
  servers : α → BindingHandler
  flying : List Packet

/-- What happens on the network. A delivery says what address the answer leaves from and
what the answer is; `call` is any other call on a handler. -/
inductive Move (α : Type) where
  | inject (src dst : SocketAddr) (octets : Bytes)
  | copy (p : Packet)
  | lose (p : Packet)
  | deliver (server : α) (env : Env) (p : Packet) (leaves : SocketAddr) (sent : List Sent)
  | call (server : α) (ev : Event)

variable {α : Type} [DecidableEq α]

/-- A packet may reach any server. -/
inductive Network.Step (n : Network α) : Move α → Network α → Prop
  | inject {src dst : SocketAddr} {octets : Bytes} :
      Step n (.inject src dst octets) { n with flying := n.flying ++ [⟨src, dst, octets, false⟩] }
  | copy {p : Packet} : p ∈ n.flying → Step n (.copy p) { n with flying := n.flying ++ [p] }
  | lose {p : Packet} : p ∈ n.flying → Step n (.lose p) { n with flying := n.flying.erase p }
  | deliver {server : α} {env : Env} {p : Packet} {leaves : SocketAddr} {h : BindingHandler} {sent : List Sent} :
      p ∈ n.flying → (n.servers server).onStun crypto env p.octets (rawAddr p.src) = .ok (h, sent) →
      Step n (.deliver server env p leaves sent)
        ⟨Function.update n.servers server h, n.flying.erase p ++ sent.map fun s => ⟨leaves, s.dst, s.datagram, true⟩⟩
  | call {server : α} {ev : Event} {h : BindingHandler} : (∀ env d src, ev ≠ .stun env d src) →
      Server.Step crypto (n.servers server) ev h →
      Step n (.call server ev) { n with servers := Function.update n.servers server h }

/-! ### Counting -/

/-- The datagrams servers sent in a move. -/
def Move.sends : Move α → Nat
  | .deliver _ _ _ _ sent => sent.length
  | _ => 0

/-- The datagrams a move puts on the network that no server sent. -/
def Move.asks : Move α → Nat
  | .inject _ _ _ => 1
  | .copy p => if p.served then 0 else 1
  | _ => 0

def Move.copies : Move α → Nat
  | .copy p => if p.served then 1 else 0
  | _ => 0

/-- The datagrams that reach a server. -/
def Move.delivers : Move α → Nat
  | .deliver _ _ _ _ _ => 1
  | _ => 0

abbrev NetworkHistory (α : Type) := List (Network α × Move α)

def total (f : Move α → Nat) (hist : NetworkHistory α) : Nat := (hist.map fun p => f p.2).sum

omit [DecidableEq α] in
theorem total_snoc (f : Move α → Nat) (hist : NetworkHistory α) (n : Network α) (m : Move α) :
    total f (hist ++ [(n, m)]) = total f hist + f m := by
  rw [total, total, List.map_append, List.sum_append, List.map_singleton, List.sum_singleton]

def Network.served (n : Network α) : Nat := n.flying.countP (·.served)

def Network.unserved (n : Network α) : Nat := n.flying.countP (!·.served)

/-! ### One move -/

/-- Every server keeps only replies, and only replies of servers are in flight as such. -/
structure Network.Clean (n : Network α) : Prop where
  kept : ∀ a, KeepsReplies crypto (n.servers a).transactions
  flying : ∀ p ∈ n.flying, p.served → IsReply crypto p.octets

theorem onStun_sent_length {h h' : BindingHandler} {env : Env} {datagram src : Bytes} {sent : List Sent}
    (hs : h.onStun crypto env datagram src = .ok (h', sent)) : sent.length ≤ 1 := by
  cases sent with
  | nil => exact Nat.zero_le 1
  | cons s rest =>
    obtain ⟨-, -, -, hone, -⟩ := onStun_sent crypto hs List.mem_cons_self
    rw [hone, List.length_singleton]

theorem Network.Clean.update {n : Network α} (h : n.Clean crypto) {a : α} {g : BindingHandler}
    (hg : KeepsReplies crypto g.transactions) (b : α) :
    KeepsReplies crypto (Function.update n.servers a g b).transactions := by
  by_cases hab : b = a
  · subst hab
    rwa [Function.update_self]
  · rw [Function.update_of_ne hab]
    exact h.kept b

theorem Network.Clean.step {n n' : Network α} {m : Move α} (h : n.Clean crypto) (hs : n.Step crypto m n') :
    n'.Clean crypto := by
  cases hs with
  | inject =>
    refine ⟨h.kept, fun p hp hserved => ?_⟩
    rcases List.mem_append.mp hp with hp | hp
    · exact h.flying p hp hserved
    · rw [List.mem_singleton.mp hp] at hserved
      cases hserved
  | copy hmem =>
    refine ⟨h.kept, fun p hp => ?_⟩
    rcases List.mem_append.mp hp with hp | hp
    · exact h.flying p hp
    · rw [List.mem_singleton.mp hp]
      exact h.flying _ hmem
  | lose _ => exact ⟨h.kept, fun p hp => h.flying p (List.mem_of_mem_erase hp)⟩
  | deliver _ hstun =>
    obtain ⟨hkept, hsent⟩ := onStun_replies crypto (h.kept _) hstun
    refine ⟨h.update crypto hkept, fun p hp hserved => ?_⟩
    rcases List.mem_append.mp hp with hp | hp
    · exact h.flying p (List.mem_of_mem_erase hp) hserved
    · obtain ⟨s, hs, rfl⟩ := List.mem_map.mp hp
      exact hsent s hs
  | call _ hcall => exact ⟨h.update crypto (step_replies crypto (h.kept _) hcall), h.flying⟩

/-- What a server sent is never answered. -/
theorem Network.Clean.unanswered {n n' : Network α} {a : α} {env : Env} {p : Packet} {leaves : SocketAddr}
    {sent : List Sent} (h : n.Clean crypto) (hs : n.Step crypto (.deliver a env p leaves sent) n') (hp : p.served) :
    sent = [] := by
  cases hs with
  | deliver hmem hstun =>
    rw [onStun_reply crypto (h.flying p hmem hp)] at hstun
    cases hstun
    rfl

theorem countP_erase {f : Packet → Bool} {l : List Packet} {p : Packet} (h : p ∈ l) :
    l.countP f = (l.erase p).countP f + if f p then 1 else 0 := by
  rw [(List.perm_cons_erase h).countP_eq, List.countP_cons]

theorem countP_sent (leaves : SocketAddr) (sent : List Sent) :
    (sent.map fun s => (⟨leaves, s.dst, s.datagram, true⟩ : Packet)).countP (·.served) = sent.length ∧
      (sent.map fun s => (⟨leaves, s.dst, s.datagram, true⟩ : Packet)).countP (!·.served) = 0 := by
  induction sent with
  | nil => exact ⟨rfl, rfl⟩
  | cons s sent ih =>
    rw [List.map_cons, List.countP_cons, List.countP_cons, ih.1, ih.2]
    exact ⟨rfl, rfl⟩

/-- A move sends no more than it takes of what was asked, and a delivery uses the network
up. -/
theorem Network.Clean.account {n n' : Network α} {m : Move α} (h : n.Clean crypto) (hs : n.Step crypto m n') :
    m.sends + n'.unserved ≤ n.unserved + m.asks ∧
      m.delivers + 2 * n'.unserved + n'.served ≤ 2 * n.unserved + n.served + 2 * m.asks + m.copies := by
  have hquiet := fun {a env p leaves sent} (heq : m = .deliver a env p leaves sent) (hp : p.served = true) =>
    h.unanswered crypto (heq ▸ hs) hp
  cases hs with
  | inject =>
    simp only [Network.unserved, Network.served, Move.sends, Move.asks, Move.delivers, Move.copies, List.countP_append,
      List.countP_singleton, Bool.not_false, Bool.false_eq_true, if_true, if_false]
    constructor <;> omega
  | @copy p _ =>
    simp only [Network.unserved, Network.served, Move.sends, Move.asks, Move.delivers, Move.copies, List.countP_append,
      List.countP_singleton]
    cases p.served
    · simp only [Bool.not_false, Bool.false_eq_true, if_true, if_false]
      constructor <;> omega
    · simp only [Bool.not_true, Bool.false_eq_true, if_true, if_false]
      constructor <;> omega
  | @lose p hmem =>
    have h1 := countP_erase (f := fun q => q.served) hmem
    have h2 := countP_erase (f := fun q => !q.served) hmem
    simp only [Network.unserved, Network.served, Move.sends, Move.asks, Move.delivers, Move.copies]
    constructor <;> omega
  | @deliver a env p leaves g sent hmem hstun =>
    have h1 := countP_erase (f := fun q => q.served) hmem
    have h2 := countP_erase (f := fun q => !q.served) hmem
    have h3 := countP_sent leaves sent
    have hlen : sent.length ≤ if p.served then 0 else 1 := by
      split
      case isTrue hp => rw [hquiet rfl hp, List.length_nil]
      case isFalse => exact onStun_sent_length crypto hstun
    simp only [Network.unserved, Network.served, Move.sends, Move.asks, Move.delivers, Move.copies, List.countP_append]
    cases hp : p.served
    · simp only [hp, Bool.not_false, if_true, if_false, Bool.false_eq_true] at h1 h2 hlen
      constructor <;> omega
    · simp only [hp, Bool.not_true, if_true, if_false, Bool.false_eq_true] at h1 h2 hlen
      constructor <;> omega
  | call _ _ =>
    simp only [Network.unserved, Network.served, Move.sends, Move.asks, Move.delivers, Move.copies]
    constructor <;> omega

/-! ### Whole runs -/

theorem run_clean {n₀ n : Network α} {hist : NetworkHistory α} (h0 : n₀.Clean crypto)
    (hrun : Run (Network.Step crypto) n₀ hist n) : n.Clean crypto :=
  hrun.invariant_state (P := fun n => n.Clean crypto) h0 fun _ _ _ h hs => h.step crypto hs

theorem run_account {n₀ n : Network α} {hist : NetworkHistory α} (h0 : n₀.Clean crypto)
    (hrun : Run (Network.Step crypto) n₀ hist n) :
    total Move.sends hist + n.unserved ≤ n₀.unserved + total Move.asks hist ∧
      total Move.delivers hist + 2 * n.unserved + n.served ≤
        2 * n₀.unserved + n₀.served + 2 * total Move.asks hist + total Move.copies hist := by
  induction hrun with
  | refl => simp [total]
  | snoc hr hs ih =>
    obtain ⟨h1, h2⟩ := (run_clean crypto h0 hr).account crypto hs
    rw [total_snoc, total_snoc, total_snoc, total_snoc]
    constructor <;> omega

/-- **No storms**: servers with empty caches, on a network that loses, reorders and copies
datagrams and takes any from anyone under any source, never answer what a server sent, send
no more than was put on the network by others, and fall silent: no run delivers more than
twice what was put on it, beside the copies made of replies. -/
theorem no_storm {n₀ n : Network α} {hist : NetworkHistory α} (hflying : n₀.flying = [])
    (hempty : ∀ a, (n₀.servers a).transactions = .empty) (hrun : Run (Network.Step crypto) n₀ hist n) :
    (∀ m a env p leaves sent, (m, .deliver a env p leaves sent) ∈ hist → p.served → sent = []) ∧
    total Move.sends hist ≤ total Move.asks hist ∧
    total Move.delivers hist ≤ 2 * total Move.asks hist + total Move.copies hist := by
  have h0 : n₀.Clean crypto := by
    constructor
    · intro a
      rw [hempty a]
      exact .empty
    · intro p hp
      rw [hflying] at hp
      cases hp
  have hu : n₀.unserved = 0 := by rw [Network.unserved, hflying, List.countP_nil]
  have hs : n₀.served = 0 := by rw [Network.served, hflying, List.countP_nil]
  obtain ⟨h1, h2⟩ := run_account crypto h0 hrun
  refine ⟨fun m a env p leaves sent hmem hp => ?_, by omega, by omega⟩
  obtain ⟨before, -, n', -, hbefore, hstep⟩ := hrun.reached hmem
  exact (run_clean crypto h0 hbefore).unanswered crypto hstep hp

/-- Two servers alike, and nothing in flight. -/
def twins : Network Bool := ⟨fun _ => sampleHandler, []⟩

/-- A request to the one, from where the other is. -/
def askTwin : Packet := ⟨samplePeer, sampleIdentity.toSocketAddr, plainRequest, false⟩

def twinReply : Packet := ⟨sampleIdentity.toSocketAddr, samplePeer, plainReply, true⟩

theorem plainReply_unanswered : sampleHandler.onStun signedResponseCrypto sampleEnv plainReply
    (rawAddr sampleIdentity.toSocketAddr) = .ok (sampleHandler, []) := by decide +kernel

/-- The request is answered once, and the reply not at all. -/
theorem twins_quiet : ∃ hist : NetworkHistory Bool, hist.map (fun p => p.2.sends) = [0, 1, 0] ∧
    total Move.sends hist ≤ total Move.asks hist := by
  have hask : Network.Step signedResponseCrypto twins (.inject askTwin.src askTwin.dst askTwin.octets)
      ⟨twins.servers, [askTwin]⟩ := .inject
  have hanswer : Network.Step signedResponseCrypto ⟨twins.servers, [askTwin]⟩
      (.deliver true sampleEnv askTwin twinReply.src [⟨samplePeer, plainReply⟩])
      ⟨Function.update twins.servers true answeredHandler, [twinReply]⟩ :=
    .deliver (List.mem_singleton.mpr rfl) plainRequest_answered
  have hquiet : Network.Step signedResponseCrypto ⟨Function.update twins.servers true answeredHandler, [twinReply]⟩
      (.deliver false sampleEnv twinReply twinReply.src [])
      ⟨Function.update (Function.update twins.servers true answeredHandler) false sampleHandler, []⟩ :=
    .deliver (List.mem_singleton.mpr rfl) plainReply_unanswered
  exact ⟨_, rfl, (no_storm signedResponseCrypto rfl (fun _ => rfl)
    (Run.snoc (Run.snoc (Run.snoc .refl hask) hanswer) hquiet)).2.1⟩

end QuickRelay.Server
