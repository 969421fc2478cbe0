import QuickRelay.Transport.Phases

/-! The work that is left in a tick: what each phase can still do before the next poll. -/
namespace QuickRelay.Transport.EventLoop
open Lib

variable {ε H : Type}

/-- The connections that are there. -/
def ConnMgr.live (m : ConnMgr) : Nat := m.conns.countP Option.isSome

/-- The steps a connection that is ready, or an event, can cost. -/
def readyCost : Nat := decodeBatch + 3
def eventCost : Nat := 2 * acceptBatch + 3 + readyCost

/-- The steps left in a tick, with at most `cap` replies to place after the reads and
`queued` of them there. -/
def Phase.work (cap queued : Nat) : Phase → Nat
  | .top | .poll | .stopped => 0
  | .reclaim doomed => doomed.length + 1
  | .dispatch rest => eventCost * rest.events.length + readyCost * rest.ready.length + cap + 3
  | .drainUdp left rest => left + 1 + (eventCost * rest.events.length + readyCost * rest.ready.length + cap + 3)
  | .acceptAll left streams rest =>
    2 * left + streams.length + 2 + (eventCost * rest.events.length + readyCost * rest.ready.length + cap + 3)
  | .drainAccepts streams rest =>
    streams.length + 1 + (eventCost * rest.events.length + readyCost * rest.ready.length + cap + 3)
  | .serve ready => readyCost * ready.length + cap + 2
  | .decode _ frames _ ready => frames.length + 1 + (readyCost * ready.length + cap + 3)
  | .drainWrite _ _ ready => readyCost * ready.length + cap + 3
  | .drainReplies => queued + 1

/-- The steps that an answer can set off: one for each connection to reclaim, and those of
the events reported. -/
def Worker.grants (w : Worker H) (cap : Nat) : Answer ε → Nat
  | .clock _ _ => w.conns.live + 2
  | .poll (some events) _ => eventCost * events.length + cap + 4
  | .poll none _ => 1
  | _ => 0

/-- The flag that ends the loop is up whenever it is read. -/
def Answer.stops : Answer ε → Bool
  | .clock stop _ => stop
  | .poll (some _) stop => stop
  | _ => true

theorem takeFrames_length (c : Transport.Conn) : c.takeFrames.2.length ≤ decodeBatch := by
  obtain ⟨ps, tail, hsplit, htail⟩ := frames.exists_split c.window
  rw [(c.takeFrames_spec htail hsplit).1, List.length_take]
  exact Nat.min_le_left _ _

theorem ConnMgr.get_ids (m : ConnMgr) : m.ids.map m.get = m.conns := by
  have hlt : m.conns.length < 2 ^ 64 := m.counted ▸ m.nextId.toNat_lt
  refine List.ext_getElem (by simp [ids]) fun i h1 h2 => ?_
  have hi : (UInt64.ofNat i).toNat = i := UInt64.toNat_ofNat_of_lt' (Nat.lt_trans h2 hlt)
  simp [ids, get, hi, List.getElem?_eq_getElem h2]

/-- Only live connections are reclaimed. -/
theorem Worker.doomed_length (w : Worker H) (now : Nat) : (w.doomed now).length ≤ w.conns.live := by
  rw [doomed, ← List.countP_eq_length_filter, ConnMgr.live, ← w.conns.get_ids, List.countP_map]
  refine List.countP_mono_left fun id _ hdoomed => ?_
  change (w.conns.get id).isSome = true
  cases hget : w.conns.get id with
  | none => simp [hget] at hdoomed
  | some c => rfl

theorem work_endTick (w : Worker H) (cap queued : Nat) : w.endTick.phase.work cap queued = 0 := by
  rcases w.endTick_rests with h | h
  · rw [h]
    rfl
  · rw [h]
    rfl

/-- A step that serves what a poll reported uses up work. -/
theorem Moves.work {w : Worker H} {phase phase' : Phase} {label : Answer ε × Act} (h : Moves w phase label phase')
    (hrest : ¬ phase.resting) (hstopped : phase ≠ .stopped) {cap queued queued' : Nat} (hq : queued' ≤ cap) :
    phase'.work cap queued' + 1 ≤ phase.work cap queued := by
  cases h with
  | stop =>
    cases phase with
    | top | reclaim _ | poll | drainReplies => exact absurd rfl hrest
    | stopped => exact absurd rfl hstopped
    | _ =>
      simp only [Phase.work]
      omega
  | rest hp => exact absurd hp hrest
  | polled => exact absurd rfl hrest
  | read _ =>
    rename_i r ready c chunk now _
    have hlen := takeFrames_length (c.receive (chunk.take readWindow) now).toConn
    simp only [Phase.work, List.length_cons, readyCost, decodeBatch] at hlen ⊢
    omega
  | _ =>
    simp only [Phase.work, List.length_append, List.length_cons, List.length_nil, eventCost, readyCost, acceptBatch,
      udpDrainBatch, decodeBatch]
    omega

end QuickRelay.Transport.EventLoop
