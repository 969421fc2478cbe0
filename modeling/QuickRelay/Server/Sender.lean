import QuickRelay.Server.Steps
import QuickRelay.Transport.EventLoop

/-! The sender of a datagram across the transport boundary: the raw octets carry the address and
the port, and neither the flow information nor the scope of an IPv6 sender. -/
namespace QuickRelay.Server
open Lib Protocol
open Binding (SocketAddr IpAddr)
open Transport.EventLoop (rawAddr)

/-- A socket address as the kernel reports it. -/
inductive KernelAddr where
  | v4 (octets : Octets 4) (port : UInt16)
  | v6 (octets : Octets 16) (port : UInt16) (flowinfo scopeId : UInt32)
  deriving DecidableEq

namespace KernelAddr

def ip : KernelAddr → IpAddr
  | v4 octets _ => .v4 octets
  | v6 octets _ _ _ => .v6 octets

def port : KernelAddr → UInt16
  | v4 _ port | v6 _ port _ _ => port

/-- `SocketAddr::new`. -/
def new (ip : IpAddr) (port : UInt16) : KernelAddr :=
  match ip with
  | .v4 octets => v4 octets port
  | .v6 octets => v6 octets port 0 0

/-- All that the handler's addresses hold. -/
def toSocketAddr (a : KernelAddr) : SocketAddr := ⟨a.ip, a.port⟩

/-- The raw octets of a sender: built from its address and port alone. -/
def raw (a : KernelAddr) : Bytes := rawAddr a.toSocketAddr

/-- The sender as the handler reads it back. -/
def parse (raw : Bytes) : Option KernelAddr := (parsePeerAddr raw).map fun peer => new peer.ip peer.port

/-- No flow information and no scope, as for every IPv4 sender. -/
def Unscoped : KernelAddr → Prop
  | v4 _ _ => True
  | v6 _ _ flowinfo scopeId => flowinfo = 0 ∧ scopeId = 0

instance : (a : KernelAddr) → Decidable a.Unscoped
  | v4 _ _ => inferInstanceAs (Decidable True)
  | v6 _ _ _ _ => inferInstanceAs (Decidable (_ ∧ _))

theorem new_ip_port (a : KernelAddr) : new a.ip a.port = a ↔ a.Unscoped := by
  cases a with
  | v4 octets port => exact iff_of_true rfl trivial
  | v6 octets port flowinfo scopeId =>
    simp only [new, ip, KernelAddr.port, v6.injEq, true_and, Unscoped, eq_comm]

end KernelAddr

/-- The raw octets read back as the address and port they were made of. -/
theorem parsePeerAddr_rawAddr (a : SocketAddr) : parsePeerAddr (rawAddr a) = some a := by
  obtain ⟨ip, port⟩ := a
  obtain ⟨x, y, hp, rfl⟩ := u16ToBe_eq port
  cases ip with
  | v4 octets =>
    have hlen : (octets.val ++ [x, y]).length = 6 := by
      rw [List.length_append, octets.property]
      rfl
    rw [rawAddr, hp, parsePeerAddr, dif_pos hlen]
    simp [octets.property]
  | v6 octets =>
    have hlen : (octets.val ++ [x, y]).length = 18 := by
      rw [List.length_append, octets.property]
      rfl
    rw [rawAddr, hp, parsePeerAddr, dif_neg (by rw [hlen]; decide), dif_pos hlen]
    simp [octets.property]

/-- A sender survives the boundary: it reads back as itself, and it is where a reply goes. -/
structure Survives (a : KernelAddr) : Prop where
  roundTrip : KernelAddr.parse a.raw = some a
  answered : ∀ (h : BindingHandler) (env : Env), Live h env →
    ∃ socket dst, h.replyPath env a.raw = .udp socket dst ∧ .new dst.ip dst.port = a

theorem parse_raw (a : KernelAddr) : KernelAddr.parse a.raw = some (.new a.ip a.port) := by
  rw [KernelAddr.parse, KernelAddr.raw, parsePeerAddr_rawAddr]
  rfl

theorem survives_iff_unscoped (a : KernelAddr) : Survives a ↔ a.Unscoped := by
  rw [← KernelAddr.new_ip_port]
  constructor
  · intro h
    exact Option.some.inj ((parse_raw a).symm.trans h.roundTrip)
  · intro hnew
    constructor
    case roundTrip => rw [parse_raw, hnew]
    case answered =>
      intro h env hlive
      rcases replyPath_eq (parsePeerAddr_rawAddr a.toSocketAddr) env with ⟨hdead, -⟩ | ⟨socket, -, hpath⟩
      · exact absurd hlive hdead
      · exact ⟨socket, a.toSocketAddr, hpath, hnew⟩

/-- The key of a request tells its sender from another. -/
def ToldApart (a b : KernelAddr) : Prop :=
  a ≠ b → ∀ txid txid', BindingHandler.transactionKey a.raw txid ≠ BindingHandler.transactionKey b.raw txid'

theorem transactionKey_raw (a : KernelAddr) (txid : TransactionId) :
    BindingHandler.transactionKey a.raw txid = some ⟨a.toSocketAddr, txid, none⟩ := by
  rw [BindingHandler.transactionKey, KernelAddr.raw, parsePeerAddr_rawAddr]
  rfl

theorem toldApart_iff (a b : KernelAddr) : ToldApart a b ↔ (a.ip = b.ip → a.port = b.port → a = b) := by
  simp only [ToldApart, transactionKey_raw, ne_eq, Option.some.injEq, TransactionKey.mk.injEq, and_true,
    KernelAddr.toSocketAddr, SocketAddr.mk.injEq]
  constructor
  · intro h hip hport
    by_contra hne
    exact h hne ⟨zeros 12, rfl⟩ ⟨zeros 12, rfl⟩ ⟨⟨hip, hport⟩, rfl⟩
  · rintro h hne txid txid' ⟨⟨hip, hport⟩, -⟩
    exact hne (h hip hport)

/-- **Peer addresses**: a sender survives the boundary exactly if it has no flow information and
no scope, and two senders are told apart exactly if they do not differ in these alone. -/
theorem sender_identified (a b : KernelAddr) : (Survives a ↔ a.Unscoped) ∧
    (ToldApart a b ↔ (a.ip = b.ip → a.port = b.port → a = b)) ∧ (a.Unscoped → b.Unscoped → ToldApart a b) := by
  refine ⟨survives_iff_unscoped a, toldApart_iff a b, fun ha hb => ?_⟩
  rw [toldApart_iff]
  intro hip hport
  rw [← KernelAddr.new_ip_port] at ha hb
  rw [← ha, ← hb, hip, hport]

/-- fe80::1 on the link of an interface, port 40000. -/
def linkLocal (scopeId : UInt32) : KernelAddr := .v6 ⟨[0xFE, 0x80] ++ zeros 13 ++ [1], rfl⟩ 40000 0 scopeId

/-- A link-local sender is read back without its scope, as the sender of another link. -/
theorem scope_lost : ¬ (∀ a, Survives a) ∧ ¬ ∀ a b, ToldApart a b := by
  refine ⟨fun hall => ?_, fun hall => ?_⟩
  · have hback := (hall (linkLocal 2)).roundTrip
    rw [parse_raw] at hback
    exact absurd hback (by decide)
  · have htold := (toldApart_iff (linkLocal 2) (linkLocal 3)).mp (hall _ _) rfl rfl
    exact absurd htold (by decide)

end QuickRelay.Server
