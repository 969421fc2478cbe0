import Mathlib.Data.List.TakeDrop
import QuickRelay.Transport.Reassembly

/-! One read of a connection against the stream it is a part of: which frames leave the
window, and which octets. -/
namespace QuickRelay.Transport
open Lib

namespace Worker
variable {w : Worker} {id : ConnectionId} {c : Conn}

/-! ### Frames -/

/-- A decode takes the frames `taken` out of the window and leaves the frames `left`. -/
structure Takes (w : Worker) (id : ConnectionId) (c : Conn) (taken left : List Payload) : Prop where
  before : ∃ tail, frames.Partial tail ∧ c.window = frames.encodeAll (taken ++ left) ++ tail
  after : ∃ c' tail, frames.Partial tail ∧ (w.decode id).conns.get id = some c' ∧ c'.window = frames.encodeAll left ++ tail

/-- Every frame that leaves the window is handed over once and in order, and the frames
past a batch stay. -/
def AnswersLate (w : Worker) (id : ConnectionId) (c : Conn) : Prop :=
  ∃ taken left, w.Takes id c taken left ∧ (w.decode id).calls = w.calls ++ handed id taken ∧
    left = (taken ++ left).drop decodeBatch

/-- What a decode leaves of a tail is a tail. -/
theorem partial_kept {tail : Bytes} (ht : frames.Partial tail) (ps : List Payload) :
    frames.Partial (if ps = [] then tail else []) := by
  split
  · exact ht
  · exact frames.partial_nil

theorem reads_self (h : w.conns.get id = some c) : w.Reads id c.readBuf.length c.window w.calls := ⟨⟨c, h, rfl, rfl⟩, rfl⟩

/-- A decode leaves no whole frame behind. -/
theorem Takes.left_nil (h : w.conns.get id = some c) {taken left : List Payload} (ht : w.Takes id c taken left) :
    left = [] := by
  obtain ⟨⟨tail, hpartial, hwin⟩, c', tail', hpartial', hget', hwin'⟩ := ht
  have hreads := reads_self h
  rw [hwin] at hreads
  obtain ⟨⟨c'', hget'', -, hwin''⟩, -⟩ := decode_spec hpartial hreads
  obtain rfl : c' = c'' := Option.some.inj (hget'.symm.trans hget'')
  rw [hwin'] at hwin''
  have hnil : frames.encodeAll left ++ tail' = frames.encodeAll [] ++ if taken ++ left = [] then tail else [] := hwin''
  exact (frames.split_unique hpartial' (partial_kept hpartial _) hnil).1

theorem AnswersLate.length_le (h : w.conns.get id = some c) (hl : w.AnswersLate id c) {ps : List Payload} {tail : Bytes}
    (ht : frames.Partial tail) (hw : c.window = frames.encodeAll ps ++ tail) : ps.length ≤ decodeBatch := by
  obtain ⟨taken, left, htakes, -, hdrop⟩ := hl
  obtain rfl := htakes.left_nil h
  obtain ⟨tail', ht', hwin⟩ := htakes.before
  rw [List.append_nil] at hwin hdrop
  obtain ⟨rfl, -⟩ := frames.split_unique ht ht' (hw.symm.trans hwin)
  exact List.drop_eq_nil_iff.mp hdrop.symm

theorem answersLate_of_length_le (h : w.conns.get id = some c) {ps : List Payload} {tail : Bytes}
    (ht : frames.Partial tail) (hw : c.window = frames.encodeAll ps ++ tail) (hle : ps.length ≤ decodeBatch) :
    w.AnswersLate id c := by
  have hreads := reads_self h
  rw [hw] at hreads
  obtain ⟨⟨c', hget', -, hwin'⟩, hcalls⟩ := decode_spec ht hreads
  rw [List.take_of_length_le (by rwa [List.length_map]), List.map_map] at hcalls
  refine ⟨ps, [], ⟨⟨tail, ht, by rw [List.append_nil, hw]⟩, c', _, partial_kept ht ps, hget', hwin'⟩, hcalls, ?_⟩
  rw [List.append_nil, List.drop_eq_nil_of_le hle]

/-- **Bursts**: the frames that a decode takes out of a window are the frames it hands over
if and only if the window holds no more of them than a batch. -/
theorem burst_answered (h : w.conns.get id = some c) : w.AnswersLate id c ↔
    ∀ ps tail, frames.Partial tail → c.window = frames.encodeAll ps ++ tail → ps.length ≤ decodeBatch := by
  constructor
  · exact fun hl ps tail ht hw => hl.length_le h ht hw
  · intro hle
    obtain ⟨ps, tail, hw, ht⟩ := frames.exists_split c.window
    exact answersLate_of_length_le h ht hw (hle ps tail ht hw)

/-- A window of empty packets, one more than a batch. -/
def burst : Conn := Conn.new.fill (zeros 130)

private theorem burst_window : burst.window = frames.encodeAll (List.replicate 65 emptyPayload) ++ [] := by
  have hroom : (zeros 130).length ≤ Conn.new.readBuf.length - Conn.new.readLen := by
    rw [zeros_length, Conn.new_readBuf_length]
    decide
  rw [burst, Conn.fill_window, Conn.new_window, List.take_of_length_le hroom, List.append_nil, List.nil_append]
  decide

theorem one_fits (x : UInt8) : ([x] : Bytes).length ≤ maxFramePayload := Nat.le_of_ble_eq_true rfl

def numbered (n : Nat) : Payload := ⟨[UInt8.ofNat n], one_fits _⟩

theorem numbered_length (l : List Nat) : (frames.encodeAll (l.map numbered)).length = 3 * l.length := by
  induction l with
  | nil => rfl
  | cons n l ih =>
    rw [List.map_cons, PrefixCode.encodeAll_cons, List.length_append, ih, List.length_cons, Nat.mul_succ, Nat.add_comm]
    rfl

/-- As many packets as a batch, each of its number. -/
def batch : List Payload := (List.range decodeBatch).map numbered

theorem batch_length : batch.length = decodeBatch := by rw [batch, List.length_map, List.length_range]

def batchConn : Conn := Conn.new.fill (frames.encodeAll batch)

private theorem batchConn_window : batchConn.window = frames.encodeAll batch ++ [] := by
  have hroom : (frames.encodeAll batch).length ≤ Conn.new.readBuf.length - Conn.new.readLen := by
    rw [batch, numbered_length, List.length_range, Conn.new_readBuf_length]
    decide
  rw [batchConn, Conn.fill_window, Conn.new_window, List.take_of_length_le hroom, List.append_nil, List.nil_append]

/-- A whole batch in one window is handed over. -/
theorem batch_answered : ({ openWorker with conns := ⟨[some batchConn]⟩ } : Worker).AnswersLate ⟨0⟩ batchConn := by
  have hget : ({ openWorker with conns := ⟨[some batchConn]⟩ } : Worker).conns.get ⟨0⟩ = some batchConn := rfl
  refine (burst_answered hget).mpr fun ps tail ht hw => ?_
  rw [(frames.split_unique ht frames.partial_nil (hw.symm.trans batchConn_window)).1]
  exact Nat.le_of_eq batch_length

/-- The last packet of a burst is taken out of the window and handed to nobody. -/
theorem burst_lost : ¬ ∀ (w : Worker) (id : ConnectionId) (c : Conn), w.conns.get id = some c → w.AnswersLate id c := by
  intro hall
  have hget : ({ openWorker with conns := ⟨[some burst]⟩ } : Worker).conns.get ⟨0⟩ = some burst := rfl
  have hle := (hall _ ⟨0⟩ burst hget).length_le hget frames.partial_nil burst_window
  exact absurd hle (by decide)

/-! ### Octets -/

/-- A read appends what it got from the socket, and the stream goes on: the frames handed
over, then what is in the window, then the octets still unread. -/
structure KeepsStream (w : Worker) (id : ConnectionId) (c : Conn) (chunk : Bytes) : Prop where
  appended : (c.fill chunk).window = c.window ++ chunk
  remaining : ∃ c' ps, (w.drainRead id (.octets chunk)).conns.get id = some c' ∧
    (w.drainRead id (.octets chunk)).calls = w.calls ++ handed id ps ∧
    ∀ unread, c.window ++ (chunk ++ unread) = frames.encodeAll ps ++ (c'.window ++ unread)

theorem fill_appends_iff (c : Conn) (chunk : Bytes) :
    (c.fill chunk).window = c.window ++ chunk ↔ chunk.length ≤ c.readBuf.length - c.readLen := by
  rw [Conn.fill_window, List.append_cancel_left_eq, List.take_eq_self_iff]

/-- A read that fits hands over its whole frames, up to a batch, and leaves the partial tail,
unless a whole frame stands before it. -/
theorem drainRead_fits (h : w.conns.get id = some c) {chunk : Bytes} (hfit : chunk.length ≤ c.readBuf.length - c.readLen)
    {ps : List Payload} {tail : Bytes} (ht : frames.Partial tail) (hw : c.window ++ chunk = frames.encodeAll ps ++ tail) :
    ∃ c', (w.drainRead id (.octets chunk)).conns.get id = some c' ∧ c'.window = (if ps = [] then tail else []) ∧
      (w.drainRead id (.octets chunk)).calls = w.calls ++ handed id (ps.take decodeBatch) := by
  have hsplit : c.window ++ chunk.take (c.readBuf.length - c.window.length) = frames.encodeAll ps ++ tail := by
    rw [c.window_length, List.take_of_length_le hfit, hw]
  obtain ⟨⟨c', hget, -, hwin⟩, hcalls⟩ := drainRead_spec (reads_self h) ht hsplit
  have htaken : ((ps.map Payload.octets).take decodeBatch).map (HandlerCall.tcpStun · id) = handed id (ps.take decodeBatch) := by
    rw [handed, ← List.map_take, List.map_map]
    rfl
  exact ⟨c', hget, hwin, htaken ▸ hcalls⟩

/-- The octets of a read that are neither handed over nor kept are a tail behind a whole frame
or frames past a batch. -/
theorem KeepsStream.clean (h : w.conns.get id = some c) {chunk : Bytes} (hk : w.KeepsStream id c chunk)
    {ps : List Payload} {tail : Bytes} (ht : frames.Partial tail) (hw : c.window ++ chunk = frames.encodeAll ps ++ tail) :
    ps.length ≤ decodeBatch ∧ (ps = [] ∨ tail = []) := by
  obtain ⟨c', hget, hwin, hcalls⟩ := drainRead_fits h ((fill_appends_iff c chunk).mp hk.appended) ht hw
  obtain ⟨c'', qs, hget', hcalls', hrest⟩ := hk.remaining
  obtain rfl : c' = c'' := Option.some.inj (hget.symm.trans hget')
  have hend := hrest []
  rw [List.append_nil, List.append_nil, hw, hwin] at hend
  obtain ⟨rfl, htail⟩ := frames.split_unique ht (partial_kept ht ps) hend
  constructor
  · have hsame := congrArg List.length (List.append_cancel_left (hcalls.symm.trans hcalls'))
    rw [handed, handed, List.length_map, List.length_map, List.length_take] at hsame
    omega
  · by_cases hps : ps = []
    · exact .inl hps
    · rw [if_neg hps] at htail
      exact .inr htail

theorem keepsStream_of_clean (h : w.conns.get id = some c) {chunk : Bytes}
    (hfit : chunk.length ≤ c.readBuf.length - c.readLen) {ps : List Payload} {tail : Bytes} (ht : frames.Partial tail)
    (hw : c.window ++ chunk = frames.encodeAll ps ++ tail) (hbatch : ps.length ≤ decodeBatch) (hclean : ps = [] ∨ tail = []) :
    w.KeepsStream id c chunk := by
  obtain ⟨c', hget, hwin, hcalls⟩ := drainRead_fits h hfit ht hw
  have hkept : c'.window = tail := by
    rw [hwin]
    rcases hclean with hps | htail
    · exact if_pos hps
    · rw [htail, ite_self]
  rw [List.take_of_length_le hbatch] at hcalls
  refine ⟨(fill_appends_iff c chunk).mpr hfit, c', ps, hget, hcalls, fun unread => ?_⟩
  rw [hkept, ← List.append_assoc, hw, List.append_assoc]

/-- **Reads**: the octets a read got are all appended if and only if they fit behind what
the window held; and the stream goes on behind the frames handed over if and only if,
besides, these octets complete no more than a batch and do not end within a frame after a
whole one. -/
theorem read_kept (h : w.conns.get id = some c) (chunk : Bytes) :
    ((c.fill chunk).window = c.window ++ chunk ↔ chunk.length ≤ c.readBuf.length - c.readLen) ∧
    (w.KeepsStream id c chunk ↔ chunk.length ≤ c.readBuf.length - c.readLen ∧
      ∀ ps tail, frames.Partial tail → c.window ++ chunk = frames.encodeAll ps ++ tail →
        ps.length ≤ decodeBatch ∧ (ps = [] ∨ tail = [])) := by
  refine ⟨fill_appends_iff c chunk, fun hk => ⟨(fill_appends_iff c chunk).mp hk.appended, ?_⟩, ?_⟩
  · exact fun ps tail ht hw => hk.clean h ht hw
  · rintro ⟨hfit, hclean⟩
    obtain ⟨ps, tail, hw, ht⟩ := frames.exists_split (c.window ++ chunk)
    obtain ⟨hbatch, htail⟩ := hclean ps tail ht hw
    exact keepsStream_of_clean h hfit ht hw hbatch htail

/-- A connection that holds the beginning of the packet `ab`. -/
def begunConn : Conn := Conn.new.fill [0, 2, 0x61]

private theorem begunConn_window : begunConn.window = [0, 2, 0x61] := by
  have hroom : ([0, 2, 0x61] : Bytes).length ≤ Conn.new.readBuf.length - Conn.new.readLen := by
    rw [Conn.new_readBuf_length]
    decide
  rw [begunConn, Conn.fill_window, Conn.new_window, List.take_of_length_le hroom, List.nil_append]

private theorem begunConn_room : begunConn.readBuf.length - begunConn.readLen = 65596 := by
  rw [begunConn, Conn.fill_readLen, Conn.fill_readBuf_length, Conn.new_readBuf_length]
  decide

/-- The end of that packet and as many behind it as complete the batch. -/
theorem batch_kept : ({ openWorker with conns := ⟨[some begunConn]⟩ } : Worker).KeepsStream ⟨0⟩ begunConn
    (0x62 :: frames.encodeAll batch.tail) := by
  have hget : ({ openWorker with conns := ⟨[some begunConn]⟩ } : Worker).conns.get ⟨0⟩ = some begunConn := rfl
  refine (read_kept hget _).2.mpr ⟨?_, fun ps tail ht hw => ?_⟩
  · rw [begunConn_room, List.length_cons, batch, ← List.map_tail, numbered_length, List.length_tail, List.length_range]
    decide
  · have hall : frames.encodeAll (twoPayload :: batch.tail) ++ [] = frames.encodeAll ps ++ tail := by
      rw [← hw, begunConn_window, List.append_nil]
      rfl
    obtain ⟨hps, htail⟩ := frames.split_unique frames.partial_nil ht hall
    refine ⟨?_, .inr htail.symm⟩
    rw [← hps, List.length_cons, List.length_tail, batch_length]
    decide

/-- A connection that is 537 octets short of a frame of the largest size. -/
def nearlyFull : Conn := Conn.new.fill (0xFF :: 0xFF :: zeros 64998)

private theorem nearlyFull_room : nearlyFull.readBuf.length - nearlyFull.readLen = 599 := by
  have hlen : (0xFF :: 0xFF :: zeros 64998 : Bytes).length = 65000 := by
    rw [List.length_cons, List.length_cons, zeros_length]
  rw [nearlyFull, Conn.fill_readLen, Conn.fill_readBuf_length, Conn.new_readBuf_length, hlen]
  decide

/-- A full read behind it overflows the window, and the excess is gone. -/
theorem excess_lost : ¬ ∀ (w : Worker) (id : ConnectionId) (c : Conn) (chunk : Bytes), w.conns.get id = some c →
    chunk.length ≤ 16384 → w.KeepsStream id c chunk := by
  intro hall
  have hget : ({ openWorker with conns := ⟨[some nearlyFull]⟩ } : Worker).conns.get ⟨0⟩ = some nearlyFull := rfl
  have hk := hall _ ⟨0⟩ nearlyFull (zeros 16384) hget (Nat.le_of_eq (zeros_length _))
  have hle := (fill_appends_iff nearlyFull (zeros 16384)).mp hk.appended
  rw [nearlyFull_room, zeros_length] at hle
  omega

end Worker
end QuickRelay.Transport
