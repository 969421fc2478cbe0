import QuickRelay.Transport.Worker

/-! Reassembly over all reads of a stream: which cuts of the stream the read path gets
back in one piece. -/
namespace QuickRelay.Transport
open Lib

/-! ### Cuts of a stream -/

/-- `P` holds of every read and the number of octets before it. -/
def Along (P : Nat → Bytes → Prop) : Nat → List Bytes → Prop
  | _, [] => True
  | n, r :: reads => P n r ∧ Along P (n + r.length) reads

instance decidableAlong {P : Nat → Bytes → Prop} [∀ n r, Decidable (P n r)] : ∀ n reads, Decidable (Along P n reads)
  | _, [] => inferInstanceAs (Decidable True)
  | n, r :: reads => @instDecidableAnd _ _ _ (decidableAlong (n + r.length) reads)

/-- The read has room behind the partial frame before it. -/
def Fits (ps : List Payload) (n : Nat) (r : Bytes) : Prop := frames.leftover ps n + r.length ≤ frameCap

/-- The read completes no more frames than a batch. -/
def InBatch (ps : List Payload) (n : Nat) (r : Bytes) : Prop :=
  frames.completed ps (n + r.length) ≤ frames.completed ps n + decodeBatch

/-- If the read completes a frame, it ends with one. -/
def Clean (ps : List Payload) (n : Nat) (r : Bytes) : Prop :=
  frames.completed ps n < frames.completed ps (n + r.length) → frames.leftover ps (n + r.length) = 0

instance (ps : List Payload) (n : Nat) (r : Bytes) : Decidable (Fits ps n r) := inferInstanceAs (Decidable (_ ≤ _))

instance (ps : List Payload) (n : Nat) (r : Bytes) : Decidable (InBatch ps n r) := inferInstanceAs (Decidable (_ ≤ _))

instance (ps : List Payload) (n : Nat) (r : Bytes) : Decidable (Clean ps n r) := inferInstanceAs (Decidable (_ → _))

/-- The framed payloads, cut into reads that fit the window and a batch. -/
structure Cuts (ps : List Payload) (reads : List Bytes) : Prop where
  whole : reads.flatten = frames.encodeAll ps
  fits : Along (Fits ps) 0 reads
  batch : Along (InBatch ps) 0 reads

/-- The calls that hand over a list of payloads. -/
def handed (id : ConnectionId) (ps : List Payload) : List HandlerCall := ps.map (.tcpStun ·.octets id)

/-! ### Octets handed over -/

/-- The octets a call accounts for on the stream. -/
def HandlerCall.weight : HandlerCall → Nat
  | .tcpStun payload _ => framePrefixLen + payload.length
  | .tcpError _ => 0

def weight : List HandlerCall → Nat
  | [] => 0
  | call :: calls => call.weight + weight calls

theorem weight_append (a b : List HandlerCall) : weight (a ++ b) = weight a + weight b := by
  induction a with
  | nil => rw [List.nil_append, weight, Nat.zero_add]
  | cons call a ih => rw [List.cons_append, weight, weight, ih, Nat.add_assoc]

theorem weight_handed (id : ConnectionId) (ps : List Payload) : weight (handed id ps) = (frames.encodeAll ps).length := by
  induction ps with
  | nil => rfl
  | cons p ps ih =>
    have hp : (frames.encode p).length = framePrefixLen + p.octets.length := p.frame_length
    rw [PrefixCode.encodeAll_cons, List.length_append, ← ih, hp]
    rfl

theorem weight_take_handed (id : ConnectionId) (ps : List Payload) (n : Nat) :
    weight (((ps.map Payload.octets).take n).map (.tcpStun · id)) ≤ (frames.encodeAll ps).length := by
  have hsplit := congrArg (fun qs => (frames.encodeAll qs).length) (List.take_append_drop n ps)
  simp only [PrefixCode.encodeAll_append, List.length_append] at hsplit
  have htake : ((ps.map Payload.octets).take n).map (HandlerCall.tcpStun · id) = handed id (ps.take n) := by
    rw [handed, ← List.map_take, List.map_map]
    rfl
  rw [htake, weight_handed]
  omega

namespace Worker

/-- No read path hands over more octets than arrived. -/
theorem drainReads_weight {w : Worker} {id : ConnectionId} {cap : Nat} {window : Bytes} {calls : List HandlerCall}
    (h : w.Reads id cap window calls) (reads : List Bytes) :
    weight (w.drainReads id reads).calls ≤ weight calls + window.length + reads.flatten.length := by
  induction reads generalizing w window calls with
  | nil =>
    rw [drainReads, List.foldl_nil, h.calls]
    omega
  | cons r reads ih =>
    obtain ⟨ps, tail, hsplit, ht⟩ := frames.exists_split (window ++ r.take (cap - window.length))
    have hle := ih (drainRead_spec h ht hsplit)
    have htake := weight_take_handed id ps decodeBatch
    have hlen := congrArg List.length hsplit
    rw [List.length_append, List.length_append, List.length_take] at hlen
    have hwin : (if ps = [] then tail else []).length ≤ tail.length := by
      split
      · exact Nat.le_refl _
      · exact Nat.zero_le _
    rw [weight_append] at hle
    rw [drainReads, List.foldl_cons, List.flatten_cons, List.length_append]
    rw [drainReads] at hle
    omega

/-- Where a read starts and ends in the stream: `done` and a partial frame `x` before it,
the frames `d` and a partial frame `tail` with it. -/
structure ReadAt (ps : List Payload) (n : Nat) (r : Bytes) (done d : List Payload) (x tail : Bytes) : Prop where
  before : frames.completed ps n = done.length
  partialBefore : frames.leftover ps n = x.length
  position : n + r.length = (frames.encodeAll (done ++ d)).length + tail.length
  after : frames.completed ps (n + r.length) = done.length + d.length
  partialAfter : frames.leftover ps (n + r.length) = tail.length

theorem readAt {done d gs : List Payload} {x r tail rest : Bytes} {n : Nat}
    (hn : n = (frames.encodeAll done).length + x.length) (hx : frames.Partial x) (ht : frames.Partial tail)
    (hsplit : x ++ r = frames.encodeAll d ++ tail) (hrest : tail ++ rest = frames.encodeAll gs) :
    ReadAt (done ++ (d ++ gs)) n r done d x tail := by
  have hwhole : x ++ (r ++ rest) = frames.encodeAll (d ++ gs) := by
    rw [← List.append_assoc, hsplit, List.append_assoc, hrest, PrefixCode.encodeAll_append]
  have hpos : n + r.length = (frames.encodeAll (done ++ d)).length + tail.length := by
    have := congrArg List.length hsplit
    rw [List.length_append, List.length_append] at this
    rw [PrefixCode.encodeAll_append, List.length_append]
    omega
  constructor
  case before => rw [hn, frames.completed_append hx hwhole]
  case partialBefore => rw [hn, frames.leftover_append hx hwhole]
  case position => exact hpos
  case after => rw [hpos, ← List.append_assoc, frames.completed_append ht hrest, List.length_append]
  case partialAfter => rw [hpos, ← List.append_assoc, frames.leftover_append ht hrest]

theorem ReadAt.clean_iff {ps : List Payload} {n : Nat} {r : Bytes} {done d : List Payload} {x tail : Bytes}
    (h : ReadAt ps n r done d x tail) : Clean ps n r ↔ d = [] ∨ tail = [] := by
  rw [Clean, h.before, h.after, h.partialAfter, List.length_eq_zero_iff, Nat.lt_add_right_iff_pos, List.length_pos_iff,
    or_iff_not_imp_left]

/-- The read path from any point of a stream: it hands over the rest exactly if every
further read is clean. -/
theorem drainReads_calls_iff {ps done gs : List Payload} {x : Bytes} {n : Nat} {reads : List Bytes} {w : Worker}
    {id : ConnectionId} {calls : List HandlerCall} (hps : ps = done ++ gs) (hn : n = (frames.encodeAll done).length + x.length)
    (hx : frames.Partial x) (hwhole : x ++ reads.flatten = frames.encodeAll gs) (hw : w.Reads id frameCap x calls)
    (hfits : Along (Fits ps) n reads) (hbatch : Along (InBatch ps) n reads) :
    (w.drainReads id reads).calls = calls ++ handed id gs ↔ Along (Clean ps) n reads := by
  induction reads generalizing done gs x n w calls with
  | nil =>
    cases gs with
    | nil => simp [drainReads, hw.calls, handed, Along]
    | cons g gs =>
      rw [List.flatten_nil, List.append_nil, PrefixCode.encodeAll_cons] at hwhole
      exact absurd hwhole (hx g _)
  | cons r reads ih =>
    rw [List.flatten_cons, ← List.append_assoc] at hwhole
    obtain ⟨d, gs', tail, rfl, hsplit, ht, hrest⟩ := frames.exists_read hwhole
    subst hps
    have hat := readAt hn hx ht hsplit hrest
    obtain ⟨hfit, hfits⟩ := hfits
    obtain ⟨hin, hbatch⟩ := hbatch
    rw [Fits, hat.partialBefore] at hfit
    rw [InBatch, hat.before, hat.after, Nat.add_le_add_iff_left] at hin
    have htaken : ((d.map Payload.octets).take decodeBatch).map (HandlerCall.tcpStun · id) = handed id d := by
      rw [List.take_of_length_le (by rwa [List.length_map]), List.map_map]
      rfl
    have hchunk : x ++ r.take (frameCap - x.length) = frames.encodeAll d ++ tail := by
      rw [List.take_of_length_le (by omega), hsplit]
    have hread := drainRead_spec hw ht hchunk
    rw [htaken] at hread
    have hsum : handed id (d ++ gs') = handed id d ++ handed id gs' := List.map_append
    rw [hsum, ← List.append_assoc]
    change (drainReads _ id reads).calls = _ ↔ Clean _ n r ∧ Along _ (n + r.length) reads
    rw [hat.clean_iff]
    by_cases hclean : d = [] ∨ tail = []
    · have hwin : (if d = [] then tail else []) = tail := by
        rcases hclean with rfl | rfl
        · rfl
        · rw [ite_self]
      rw [hwin] at hread
      rw [ih (List.append_assoc done d gs').symm hat.position ht hrest hread hfits hbatch]
      exact (and_iff_right hclean).symm
    · -- the tail is dropped, and its octets are missing from what is handed over
      rw [not_or] at hclean
      refine iff_of_false (fun heq => hclean.2 ?_) (fun h => absurd h.1 (not_or.mpr hclean))
      rw [if_neg hclean.1] at hread
      have hle := drainReads_weight hread reads
      rw [heq, weight_append, weight_append, weight_handed id gs', ← hrest, List.length_append,
        List.length_nil] at hle
      exact List.eq_nil_of_length_eq_zero (by omega)

end Worker

theorem reads_new {w : Worker} {id : ConnectionId} (h : w.conns.get id = some .new) :
    w.Reads id frameCap [] w.calls :=
  ⟨⟨.new, h, Conn.new_readBuf_length, Conn.new_window⟩, rfl⟩

/-- **Reassembly**: an open connection with an empty window hands over exactly the payloads
that were framed, in order, if and only if every read that completes a frame ends with
one. -/
theorem reassembly_iff {ps : List Payload} {reads : List Bytes} (hcut : Cuts ps reads) {w : Worker} {id : ConnectionId}
    (hopen : w.conns.get id = some .new) :
    (w.drainReads id reads).calls = w.calls ++ handed id ps ↔ Along (Clean ps) 0 reads :=
  Worker.drainReads_calls_iff (List.nil_append ps).symm rfl frames.partial_nil hcut.whole (reads_new hopen)
    hcut.fits hcut.batch

/-- A worker with one open connection. -/
def openWorker : Worker := ⟨⟨[some .new]⟩, 0, 0, []⟩

theorem openWorker_open : openWorker.conns.get ⟨0⟩ = some .new := rfl

/-- The empty payload. -/
def emptyPayload : Payload := ⟨[], Nat.zero_le _⟩

theorem two_fit : ([0x61, 0x62] : Bytes).length ≤ maxFramePayload := by decide

/-- The payload `ab`. -/
def twoPayload : Payload := ⟨[0x61, 0x62], two_fit⟩

theorem split_frame_cut : Cuts [twoPayload, emptyPayload] [[0], [2, 0x61], [0x62, 0, 0]] := ⟨rfl, by decide, by decide⟩

/-- A frame that comes in three reads, its prefix cut in two, and another behind it. -/
theorem split_frame_handed : (openWorker.drainReads ⟨0⟩ [[0], [2, 0x61], [0x62, 0, 0]]).calls =
    openWorker.calls ++ handed ⟨0⟩ [twoPayload, emptyPayload] :=
  (reassembly_iff split_frame_cut openWorker_open).mpr (by decide)

theorem split_prefix_cut : Cuts [emptyPayload, emptyPayload] [[0, 0, 0], [0]] := ⟨rfl, by decide, by decide⟩

/-- A read of one frame and half the next prefix loses the half. -/
theorem split_prefix_lost : ¬ ∀ (ps : List Payload) (reads : List Bytes) (w : Worker) (id : ConnectionId), Cuts ps reads →
    w.conns.get id = some .new → (w.drainReads id reads).calls = w.calls ++ handed id ps := by
  intro hall
  have hwhole : [] ++ [[0, 0, 0], [0]].flatten = frames.encodeAll [emptyPayload, emptyPayload] := split_prefix_cut.whole
  have hiff := Worker.drainReads_calls_iff (List.nil_append _).symm rfl frames.partial_nil hwhole
    (reads_new openWorker_open) split_prefix_cut.fits split_prefix_cut.batch
  exact absurd (hiff.mp (hall _ _ openWorker ⟨0⟩ split_prefix_cut openWorker_open)) (by decide)

end QuickRelay.Transport
