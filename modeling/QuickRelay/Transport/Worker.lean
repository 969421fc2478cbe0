import QuickRelay.Transport.ConnMgr

/-! The worker's read path: one read of a connection, and the packets it hands to the
handler. -/
namespace QuickRelay.Transport
open Lib

def decodeBatch : Nat := 64

/-- A call on the handler. -/
inductive HandlerCall where
  | tcpStun (payload : Bytes) (id : ConnectionId)
  | tcpError (id : ConnectionId)
  deriving DecidableEq, Repr

/-- What the socket answers to a read. -/
inductive TryRead where
  | notReady
  | failed
  | octets (chunk : Bytes)
  deriving DecidableEq, Repr

/-- The worker as far as reads concern it: its connections, its counters, and the calls
its handler got, oldest first. -/
structure Worker where
  conns : ConnMgr
  tcpPackets : Nat
  dropped : Nat
  calls : List HandlerCall
  deriving DecidableEq

namespace Worker

/-- Cuts a connection. -/
def drop (w : Worker) (id : ConnectionId) : Worker :=
  match w.conns.get id with
  | none => w
  | some _ =>
    { w with conns := w.conns.remove id, dropped := w.dropped + 1, calls := w.calls ++ [.tcpError id] }

/-- The decoder's callback: packets past the batch are taken and forgotten. -/
def takeBatch (frames : List Bytes) (payload : Bytes) (_need : Nat) : List Bytes × Option FrameError :=
  (if frames.length < decodeBatch then frames ++ [payload] else frames, none)

/-- The loop over the decoded packets. -/
def handOver (w : Worker) (id : ConnectionId) : List Bytes → Worker
  | [] => w
  | payload :: rest =>
    let w := { w with tcpPackets := w.tcpPackets + 1 }
    match w.conns.get id with
    | none => w
    | some _ => handOver { w with calls := w.calls ++ [.tcpStun payload id] } id rest

def decode (w : Worker) (id : ConnectionId) : Worker :=
  match w.conns.get id with
  | none => w
  | some conn =>
    let n := min conn.readLen conn.readBuf.length
    let (outcome, frames) := decodeWith takeBatch (conn.readBuf.take n) false 0 0 []
    let w :=
      if 0 < outcome.consumed then { w with conns := w.conns.put id (conn.setReadable outcome.consumed).compactRead }
      else w
    w.handOver id frames

def drainRead (w : Worker) (id : ConnectionId) (read : TryRead) : Worker :=
  match w.conns.get id with
  | none => w
  | some conn =>
    match read with
    | .notReady => w
    | .failed => w.drop id
    | .octets chunk => { w with conns := w.conns.put id (conn.fill chunk) }.decode id

/-- One read after the other on a connection. -/
def drainReads (w : Worker) (id : ConnectionId) (reads : List Bytes) : Worker :=
  reads.foldl (fun w chunk => w.drainRead id (.octets chunk)) w

/-! ### What a read does -/

/-- The connection is open, its window has the given octets, and the handler has got the
given calls. -/
structure Reads (w : Worker) (id : ConnectionId) (cap : Nat) (window : Bytes) (calls : List HandlerCall) : Prop where
  conn : ∃ c, w.conns.get id = some c ∧ c.readBuf.length = cap ∧ c.window = window
  calls : w.calls = calls

theorem handOver_spec {w : Worker} {id : ConnectionId} {cap : Nat} {window : Bytes} {calls : List HandlerCall}
    (h : w.Reads id cap window calls) (frames : List Bytes) :
    (w.handOver id frames).Reads id cap window (calls ++ frames.map (.tcpStun · id)) := by
  induction frames generalizing w calls with
  | nil => rwa [List.map_nil, List.append_nil]
  | cons payload rest ih =>
    obtain ⟨⟨c, hget, hcap, hwin⟩, rfl⟩ := h
    have := @ih { w with tcpPackets := w.tcpPackets + 1, calls := w.calls ++ [.tcpStun payload id] } _
      ⟨⟨c, hget, hcap, hwin⟩, rfl⟩
    simp only [handOver, hget]
    rwa [List.append_assoc] at this

/-- The callback keeps the first packets of a batch. -/
theorem foldl_takeBatch (ps : List Payload) (frames : List Bytes) (h : frames.length ≤ decodeBatch) :
    ps.foldl (fun s p => (takeBatch s p.octets p.frame.length).1) frames =
      (frames ++ ps.map Payload.octets).take decodeBatch := by
  induction ps generalizing frames with
  | nil => rw [List.foldl_nil, List.map_nil, List.append_nil, List.take_of_length_le h]
  | cons p ps ih =>
    rw [List.foldl_cons, takeBatch]
    by_cases hlt : frames.length < decodeBatch
    · rw [if_pos hlt, ih _ (by rw [List.length_append]; exact hlt), List.append_assoc]
      rfl
    · rw [if_neg hlt, ih frames h, List.take_append_of_le_length (Nat.le_of_not_lt hlt),
        List.take_append_of_le_length (Nat.le_of_not_lt hlt)]

end Worker

/-- `decode` on the connection alone: what stays of the window, and the packets to hand
over. -/
def Conn.takeFrames (c : Conn) : Conn × List Bytes :=
  let n := min c.readLen c.readBuf.length
  let (outcome, frames) := decodeWith Worker.takeBatch (c.readBuf.take n) false 0 0 []
  (if 0 < outcome.consumed then (c.setReadable outcome.consumed).compactRead else c, frames)

/-- The window gives its whole frames, up to a batch. If there is one, it is emptied, the
partial tail with it. -/
theorem Conn.takeFrames_spec {c : Conn} {ps : List Payload} {tail : Bytes} (ht : frames.Partial tail)
    (hw : c.window = frames.encodeAll ps ++ tail) :
    c.takeFrames.2 = (ps.map Payload.octets).take decodeBatch ∧ c.takeFrames.1.window = (if ps = [] then tail else []) ∧
      c.takeFrames.1.readBuf.length = c.readBuf.length := by
  have hdec := decodeWith_split Worker.takeBatch (fun _ _ _ => rfl) ps ht [] false 0 []
  rw [List.nil_append, ← hw, Worker.foldl_takeBatch ps [] (Nat.zero_le _), List.nil_append] at hdec
  have hdec' : decodeWith Worker.takeBatch (c.readBuf.take c.readLen) false 0 0 [] =
      (⟨0 + (frames.encodeAll ps).length, 0 + ps.length, false⟩, (ps.map Payload.octets).take decodeBatch) := hdec
  simp only [takeFrames, Nat.min_eq_left c.bounded, hdec', Nat.zero_add]
  refine ⟨trivial, ?_⟩
  cases ps with
  | nil => exact ⟨hw, rfl⟩
  | cons p ps =>
    have hpos : 0 < (frames.encodeAll (p :: ps)).length := by
      rw [PrefixCode.encodeAll_cons, List.length_append]
      exact Nat.lt_of_lt_of_le (frames.encode_length_pos p) (Nat.le_add_right _ _)
    rw [if_pos hpos, if_neg (List.cons_ne_nil p ps)]
    exact ⟨rfl, compactRead_readBuf_length _⟩

namespace Worker

theorem decode_eq {w : Worker} {id : ConnectionId} {c : Conn} (h : w.conns.get id = some c) :
    w.decode id = { w with conns := w.conns.put id c.takeFrames.1 }.handOver id c.takeFrames.2 := by
  simp only [decode, h, Conn.takeFrames]
  split
  · rfl
  · rw [ConnMgr.put_get h]

/-- A decode hands over the whole frames of the window, up to a batch. -/
theorem decode_spec {w : Worker} {id : ConnectionId} {cap : Nat} {calls : List HandlerCall} {ps : List Payload}
    {tail : Bytes} (ht : frames.Partial tail) (h : w.Reads id cap (frames.encodeAll ps ++ tail) calls) :
    (w.decode id).Reads id cap (if ps = [] then tail else [])
      (calls ++ ((ps.map Payload.octets).take decodeBatch).map (.tcpStun · id)) := by
  obtain ⟨⟨c, hget, hcap, hwin⟩, rfl⟩ := h
  obtain ⟨hframes, hwin', hcap'⟩ := c.takeFrames_spec ht hwin
  rw [decode_eq hget, ← hframes]
  exact handOver_spec ⟨⟨_, ConnMgr.get_put hget _, hcap'.trans hcap, hwin'⟩, rfl⟩ _

/-- A read that fits is decoded behind what the window held; one that does not is cut
off. -/
theorem drainRead_spec {w : Worker} {id : ConnectionId} {cap : Nat} {window : Bytes} {calls : List HandlerCall}
    (h : w.Reads id cap window calls) {chunk : Bytes} {ps : List Payload} {tail : Bytes} (ht : frames.Partial tail)
    (hsplit : window ++ chunk.take (cap - window.length) = frames.encodeAll ps ++ tail) :
    (w.drainRead id (.octets chunk)).Reads id cap (if ps = [] then tail else [])
      (calls ++ ((ps.map Payload.octets).take decodeBatch).map (.tcpStun · id)) := by
  obtain ⟨⟨c, hget, hcap, rfl⟩, rfl⟩ := h
  simp only [drainRead, hget]
  refine decode_spec ht ⟨⟨_, ConnMgr.get_put hget _, by rw [Conn.fill_readBuf_length]; exact hcap, ?_⟩, rfl⟩
  rw [Conn.fill_window, hcap, ← c.window_length, hsplit]

end Worker
end QuickRelay.Transport
