import QuickRelay.Transport.Worker

/-! Control connections with both their sides, the table that gives them their ids, and
the tokens the poller knows them by. -/
namespace QuickRelay.Transport.EventLoop
open Lib

/-- A control connection: the read side, the frame being written, and its timers. The
socket is named by a handle. -/
structure Conn extends Transport.Conn where
  stream : Nat
  writeBuf : Bytes
  writeLen : Nat
  pendingWrite : Bool
  lastActive : Nat
  halfOpen : Bool
  halfOpenDeadline : Option Nat
  deriving DecidableEq

def frameWireSize (n : Nat) : Nat := framePrefixLen + n

namespace Conn

def new (stream now : Nat) : Conn :=
  { Transport.Conn.new with
    stream, writeBuf := zeros frameCap, writeLen := 0, pendingWrite := false, lastActive := now, halfOpen := true,
    halfOpenDeadline := none }

def hasWrite (c : Conn) : Bool := 0 < c.writeLen

def canWrite (c : Conn) (n : Nat) : Bool := !c.hasWrite && frameWireSize n ≤ c.writeBuf.length

def takeWrite (c : Conn) (payload : Bytes) : Bool × Conn :=
  if c.writeBuf.length < frameWireSize payload.length then (false, c)
  else match encode payload c.writeBuf with
    | (.ok n, buf) => (true, { c with writeBuf := buf, writeLen := n, pendingWrite := true })
    | (_, buf) => (true, { c with writeBuf := buf, writeLen := 0, pendingWrite := true })

def writeSlice (c : Conn) : Bytes := c.writeBuf.take c.writeLen

def advanceWrite (c : Conn) (n : Nat) : Conn :=
  let n := min n c.writeLen
  { c with
    writeBuf := Transport.Conn.copyWithin c.writeBuf n, writeLen := c.writeLen - n,
    pendingWrite := if c.writeLen - n = 0 then false else c.pendingWrite }

def noteActive (c : Conn) (now : Nat) : Conn := { c with lastActive := now }

def markReceived (c : Conn) (now : Nat) : Conn := { c with halfOpen := false, halfOpenDeadline := none, lastActive := now }

/-- When the connection is to be reclaimed. -/
def deadline (c : Conn) (idleTimeout : Nat) : Option Nat :=
  if c.halfOpen then c.halfOpenDeadline else some (c.lastActive + idleTimeout)

/-- One read: the octets behind the window, and the timers. -/
def receive (c : Conn) (chunk : Bytes) (now : Nat) : Conn :=
  ({ c with toConn := c.toConn.fill chunk }.noteActive now).markReceived now

/-- A payload that fits goes into the buffer as one frame, and the buffer stays as large. -/
theorem takeWrite_frame {c : Conn} {p : Payload} (h : c.canWrite p.octets.length) :
    c.takeWrite p.octets = (true, { c with
      writeBuf := p.frame ++ c.writeBuf.drop p.frame.length, writeLen := p.frame.length, pendingWrite := true }) := by
  have hroom : frameWireSize p.octets.length ≤ c.writeBuf.length := by
    rw [canWrite, Bool.and_eq_true, decide_eq_true_iff] at h
    exact h.2
  have hlen : p.frame.length ≤ c.writeBuf.length := by
    rw [p.frame_length]
    exact hroom
  rw [takeWrite, if_neg (Nat.not_lt.mpr hroom), encode_run p hlen]

theorem takeWrite_slice {c : Conn} {p : Payload} (h : c.canWrite p.octets.length) :
    (c.takeWrite p.octets).2.writeSlice = p.frame := by
  rw [takeWrite_frame h]
  exact List.take_left

/-- A write touches neither the socket nor the read side. -/
theorem takeWrite_rest (c : Conn) (payload : Bytes) :
    (c.takeWrite payload).2.stream = c.stream ∧ (c.takeWrite payload).2.toConn = c.toConn := by
  rw [takeWrite]
  split
  · exact ⟨rfl, rfl⟩
  · split
    · exact ⟨rfl, rfl⟩
    · exact ⟨rfl, rfl⟩

/-- A read decodes what the window held and what arrived, if that fits. -/
theorem receive_frames {c : Conn} {chunk : Bytes} {ps : List Payload} {tail : Bytes} (now : Nat)
    (hroom : c.readLen + chunk.length ≤ c.readBuf.length) (ht : frames.Partial tail)
    (hsplit : c.window ++ chunk = frames.encodeAll ps ++ tail) :
    (c.receive chunk now).toConn.takeFrames.2 = (ps.map Payload.octets).take decodeBatch ∧
      (c.receive chunk now).toConn.takeFrames.1.window = (if ps = [] then tail else []) ∧
      (c.receive chunk now).toConn.takeFrames.1.readBuf.length = c.readBuf.length := by
  have hwindow : (c.toConn.fill chunk).window = frames.encodeAll ps ++ tail := by
    rw [Transport.Conn.fill_window, List.take_of_length_le (by omega), hsplit]
  obtain ⟨hframes, hwin, hbuf⟩ := Transport.Conn.takeFrames_spec ht hwindow
  exact ⟨hframes, hwin, hbuf.trans (Transport.Conn.fill_readBuf_length _ _)⟩

end Conn

/-! ### The table -/

def eventUdp : UInt64 := 0
def eventWake : UInt64 := 1
def eventTcpListen : UInt64 := 2
def eventTcpBase : UInt64 := (1 : UInt64) <<< 48

def connToken (id : ConnectionId) : UInt64 := eventTcpBase + id.value

def tokenConn (token : UInt64) : Option ConnectionId :=
  if eventTcpBase ≤ token then some ⟨token - eventTcpBase⟩ else none

def maxConns : UInt64 := 0xFFFFFFFFFFFFFFFF - eventTcpBase

theorem eventTcpBase_toNat : eventTcpBase.toNat = 281474976710656 := by decide

theorem maxConns_toNat : maxConns.toNat = 18446462598732840959 := by decide

/-- A connection's token is its own, and none of the fixed ones. -/
theorem tokenConn_eq {token : UInt64} {id : ConnectionId} (hid : ¬ maxConns < id.value) :
    tokenConn token = some id ↔ token = connToken id := by
  rw [UInt64.lt_iff_toNat_lt, maxConns_toNat] at hid
  have hbase := eventTcpBase_toNat
  have htok : (connToken id).toNat = eventTcpBase.toNat + id.value.toNat := by
    rw [connToken, UInt64.toNat_add, Nat.mod_eq_of_lt (by omega)]
  constructor
  · intro h
    rw [tokenConn] at h
    split at h
    case isTrue hle =>
      obtain rfl := Option.some.inj h
      rw [connToken, UInt64.add_comm, UInt64.sub_add_cancel]
    case isFalse => cases h
  · rintro rfl
    have hle : eventTcpBase ≤ connToken id := by
      rw [UInt64.le_iff_toNat_le, htok]
      omega
    rw [tokenConn, if_pos hle, connToken, UInt64.add_comm, UInt64.add_sub_cancel]

/-- The table and the next free id, which is the table's length. -/
structure ConnMgr where
  nextId : UInt64
  conns : List (Option Conn)
  counted : conns.length = nextId.toNat
  deriving DecidableEq

namespace ConnMgr

def new : ConnMgr := ⟨0, [], rfl⟩

theorem next_toNat {n : UInt64} (h : ¬ maxConns < n) : (n + 1).toNat = n.toNat + 1 := by
  rw [UInt64.lt_iff_toNat_lt, Nat.not_lt] at h
  have hmax := maxConns_toNat
  rw [UInt64.toNat_add, UInt64.toNat_one, Nat.mod_eq_of_lt (by omega)]

def alloc (m : ConnMgr) : Option (ConnectionId × ConnMgr) :=
  if h : maxConns < m.nextId then none
  else some (⟨m.nextId⟩, ⟨m.nextId + 1, m.conns ++ [none], by
    rw [List.length_append, m.counted, next_toNat h, List.length_singleton]⟩)

def get (m : ConnMgr) (id : ConnectionId) : Option Conn := m.conns[id.value.toNat]?.join

/-- The slot of an allocated id gets a connection. -/
def insert (m : ConnMgr) (id : ConnectionId) (c : Conn) : ConnMgr :=
  ⟨m.nextId, m.conns.set id.value.toNat (some c), by rw [List.length_set, m.counted]⟩

def remove (m : ConnMgr) (id : ConnectionId) : ConnMgr :=
  ⟨m.nextId, m.conns.set id.value.toNat none, by rw [List.length_set, m.counted]⟩

/-- The ids allocated so far, live or not. -/
def ids (m : ConnMgr) : List ConnectionId := (List.range m.conns.length).map fun i => ⟨UInt64.ofNat i⟩

/-- Only an allocated id is live. -/
theorem lt_of_get {m : ConnMgr} {id : ConnectionId} {c : Conn} (h : m.get id = some c) :
    id.value.toNat < m.nextId.toNat := by
  rw [← m.counted]
  by_contra hge
  rw [get, List.getElem?_eq_none (Nat.le_of_not_lt hge)] at h
  cases h

theorem index_ne {id id' : ConnectionId} (h : id' ≠ id) : id.value.toNat ≠ id'.value.toNat := by
  intro heq
  apply h
  cases id
  cases id'
  rw [ConnectionId.mk.injEq]
  exact (UInt64.toNat_inj.mp heq).symm

theorem get_insert_self {m : ConnMgr} {id : ConnectionId} (h : id.value.toNat < m.nextId.toNat) (c : Conn) :
    (m.insert id c).get id = some c := by
  rw [← m.counted] at h
  rw [get, insert, List.getElem?_set_self h]
  rfl

theorem get_insert_ne {m : ConnMgr} {id id' : ConnectionId} (h : id' ≠ id) (c : Conn) :
    (m.insert id c).get id' = m.get id' := by
  rw [get, insert, List.getElem?_set_ne (index_ne h)]
  rfl

theorem get_remove_self (m : ConnMgr) (id : ConnectionId) : (m.remove id).get id = none := by
  rw [get, remove]
  by_cases h : id.value.toNat < m.conns.length
  · rw [List.getElem?_set_self h]
    rfl
  · rw [List.getElem?_eq_none (by rw [List.length_set]; exact Nat.le_of_not_lt h)]
    rfl

theorem get_remove_ne {m : ConnMgr} {id id' : ConnectionId} (h : id' ≠ id) : (m.remove id).get id' = m.get id' := by
  rw [get, remove, List.getElem?_set_ne (index_ne h)]
  rfl

/-- A new id is the next one, and nobody's. -/
theorem alloc_eq_some {m m' : ConnMgr} {id : ConnectionId} (h : m.alloc = some (id, m')) :
    id.value = m.nextId ∧ ¬ maxConns < m.nextId ∧ m'.nextId.toNat = m.nextId.toNat + 1 ∧ ∀ id', m'.get id' = m.get id' := by
  rw [alloc] at h
  split at h
  case isTrue => cases h
  case isFalse hmax =>
    cases h
    refine ⟨rfl, hmax, next_toNat hmax, fun id' => ?_⟩
    rw [get, get]
    by_cases hlt : id'.value.toNat < m.conns.length
    · rw [List.getElem?_append_left hlt]
    · rw [List.getElem?_append_right (Nat.le_of_not_lt hlt), List.getElem?_eq_none (Nat.le_of_not_lt hlt)]
      cases id'.value.toNat - m.conns.length <;> rfl

/-- The next id is not live. -/
theorem get_next (m : ConnMgr) : m.get ⟨m.nextId⟩ = none := by
  cases h : m.get ⟨m.nextId⟩ with
  | none => rfl
  | some c => exact absurd (lt_of_get h) (Nat.lt_irrefl _)

end ConnMgr
end QuickRelay.Transport.EventLoop
