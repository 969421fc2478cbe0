import QuickRelay.Transport.Framing

/-! Control connections: the read window of each, and the table they are kept in. -/
namespace QuickRelay.Transport
open Lib

def frameCap : Nat := maxFramePayload + 64

/-- The read side of a connection. -/
structure Conn where
  readBuf : Bytes
  readLen : Nat
  bounded : readLen ≤ readBuf.length
  deriving DecidableEq

namespace Conn

def withCapacity (cap : Nat) : Conn := ⟨zeros cap, 0, Nat.zero_le _⟩

def new : Conn := withCapacity frameCap

/-- The octets read and not yet consumed. -/
def window (c : Conn) : Bytes := c.readBuf.take c.readLen

/-- Copies the octets of one read behind the window, as far as there is room. -/
def fill (c : Conn) (chunk : Bytes) : Conn where
  readBuf := c.readBuf.take c.readLen ++
    (chunk.take (min chunk.length (c.readBuf.length - c.readLen)) ++
      c.readBuf.drop (c.readLen + min chunk.length (c.readBuf.length - c.readLen)))
  readLen := c.readLen + min chunk.length (c.readBuf.length - c.readLen)
  bounded := by
    have := c.bounded
    simp only [List.length_append, List.length_take, List.length_drop]
    omega

def setReadable (c : Conn) (n : Nat) : Conn := { c with readLen := min n c.readBuf.length, bounded := Nat.min_le_right _ _ }

/-- `buf.copy_within(n.., 0)`. -/
def copyWithin (buf : Bytes) (n : Nat) : Bytes := buf.drop n ++ buf.drop (buf.length - n)

theorem copyWithin_length {buf : Bytes} {n : Nat} (h : n ≤ buf.length) : (copyWithin buf n).length = buf.length := by
  rw [copyWithin, List.length_append, List.length_drop, List.length_drop]
  omega

def compactRead (c : Conn) : Conn where
  readBuf := if 0 < c.readLen then copyWithin c.readBuf c.readLen else c.readBuf
  readLen := 0
  bounded := Nat.zero_le _

theorem new_window : new.window = [] := rfl

theorem new_readBuf_length : new.readBuf.length = frameCap := List.length_replicate

theorem window_length (c : Conn) : c.window.length = c.readLen := by
  rw [window, List.length_take, Nat.min_eq_left c.bounded]

theorem fill_readLen (c : Conn) (chunk : Bytes) :
    (c.fill chunk).readLen = c.readLen + min chunk.length (c.readBuf.length - c.readLen) := rfl

@[simp] theorem fill_readBuf_length (c : Conn) (chunk : Bytes) : (c.fill chunk).readBuf.length = c.readBuf.length := by
  have := c.bounded
  simp only [fill, List.length_append, List.length_take, List.length_drop]
  omega

/-- The window grows by what there is room for. -/
theorem fill_window (c : Conn) (chunk : Bytes) :
    (c.fill chunk).window = c.window ++ chunk.take (c.readBuf.length - c.readLen) := by
  have hl : c.readLen + min chunk.length (c.readBuf.length - c.readLen) = (c.readBuf.take c.readLen ++
      chunk.take (min chunk.length (c.readBuf.length - c.readLen))).length := by
    have := c.bounded
    simp only [List.length_append, List.length_take]
    omega
  simp only [fill, window]
  rw [← List.append_assoc, hl, List.take_left, List.take_eq_take_min (i := c.readBuf.length - c.readLen), Nat.min_comm]

@[simp] theorem compactRead_readBuf_length (c : Conn) : c.compactRead.readBuf.length = c.readBuf.length := by
  rw [compactRead]
  split
  · exact copyWithin_length c.bounded
  · rfl

end Conn

/-- The connection table; an id is an index into it. -/
structure ConnMgr where
  conns : List (Option Conn)
  deriving DecidableEq

namespace ConnMgr

def get (m : ConnMgr) (id : ConnectionId) : Option Conn := m.conns[id.value.toNat]?.join

/-- A write through the handle `get` returns. -/
def put (m : ConnMgr) (id : ConnectionId) (c : Conn) : ConnMgr := ⟨m.conns.set id.value.toNat (some c)⟩

def remove (m : ConnMgr) (id : ConnectionId) : ConnMgr := ⟨m.conns.set id.value.toNat none⟩

theorem get_put {m : ConnMgr} {id : ConnectionId} {c : Conn} (h : m.get id = some c) (c' : Conn) :
    (m.put id c').get id = some c' := by
  have hlt : id.value.toNat < m.conns.length := by
    by_contra hge
    rw [get, List.getElem?_eq_none (Nat.le_of_not_lt hge)] at h
    cases h
  rw [get, put, List.getElem?_set_self hlt]
  rfl

/-- Writing back what is there changes nothing. -/
theorem put_get {m : ConnMgr} {id : ConnectionId} {c : Conn} (h : m.get id = some c) : m.put id c = m := by
  have hi : m.conns[id.value.toNat]? = some (some c) := Option.join_eq_some_iff.mp h
  obtain ⟨hlt, hget⟩ := List.getElem?_eq_some_iff.mp hi
  rw [put, ← hget, List.set_getElem_self]

end ConnMgr
end QuickRelay.Transport
