import QuickRelay.Lib.Runs
import QuickRelay.Transport.Connections

/-! The write side of a connection over any run: what is armed, what the kernel took, and
what is still to go. -/
namespace QuickRelay.Transport.EventLoop
open Lib

namespace Conn

/-- The octets left to write. -/
def writeRemaining (c : Conn) : Bytes := c.writeBuf.take c.writeLen

/-- What is done to the write side: a payload is offered, and armed if `can_write` lets it;
or a write of `n` octets is recorded. -/
inductive WriteOp where
  | offer (payload : Bytes)
  | wrote (n : Nat)
  deriving DecidableEq, Repr

def write (c : Conn) : WriteOp → Conn
  | .offer payload => if c.canWrite payload.length then (c.takeWrite payload).2 else c
  | .wrote n => c.advanceWrite n

def WriteStep (c : Conn) (op : WriteOp) (c' : Conn) : Prop := c' = c.write op

abbrev WriteHistory := List (Conn × WriteOp)

/-- The octets that the kernel took in a step. -/
def taken (p : Conn × WriteOp) : Bytes :=
  match p.2 with
  | .offer _ => []
  | .wrote n => p.1.writeRemaining.take n

/-- The payload of a step that `take_write` returned true for. -/
def armed (p : Conn × WriteOp) : Option Bytes :=
  match p.2 with
  | .offer payload => if p.1.canWrite payload.length && (p.1.takeWrite payload).1 then some payload else none
  | .wrote _ => none

/-- A payload behind its length prefix. -/
def wireFrame (payload : Bytes) : Bytes := u16ToBe (UInt16.ofNat payload.length) ++ payload

/-- The octets handed to the kernel so far. -/
def sent (hist : WriteHistory) : Bytes := hist.flatMap taken

/-- The frames of the payloads armed so far. -/
def armedFrames (hist : WriteHistory) : Bytes := (hist.filterMap armed).flatMap wireFrame

/-- The octets that went to the kernel and those left are the frames of the armed
payloads, and `pending_write` says whether some are left. -/
structure WholeFrames (hist : WriteHistory) (c : Conn) : Prop where
  octets : sent hist ++ c.writeRemaining = armedFrames hist
  pending : c.pendingWrite = true ↔ c.writeRemaining ≠ []

/-- A payload that is armed has a length that the prefix can hold. -/
def Framable (p : Conn × WriteOp) : Prop :=
  ∀ payload, p.2 = .offer payload → p.1.canWrite payload.length → payload.length ≤ maxFramePayload

theorem sent_snoc (hist : WriteHistory) (p : Conn × WriteOp) : sent (hist ++ [p]) = sent hist ++ taken p := by
  rw [sent, sent, List.flatMap_append, List.flatMap_singleton]

theorem armedFrames_snoc (hist : WriteHistory) (p : Conn × WriteOp) :
    armedFrames (hist ++ [p]) = armedFrames hist ++ ((armed p).map wireFrame).getD [] := by
  rw [armedFrames, armedFrames, filterMap_snoc, List.flatMap_append]
  cases armed p with
  | none => rfl
  | some payload => exact congrArg (_ ++ ·) (List.flatMap_singleton _ _)

/-! ### One step -/

theorem canWrite_iff {c : Conn} {n : Nat} :
    c.canWrite n = true ↔ c.writeLen = 0 ∧ frameWireSize n ≤ c.writeBuf.length := by
  simp [canWrite, hasWrite]

/-- A payload too long for the prefix is not encoded, but the connection is armed all the
same, with nothing to write. -/
theorem takeWrite_long {c : Conn} {payload : Bytes} (hw : c.canWrite payload.length) (hl : maxFramePayload < payload.length) :
    c.takeWrite payload = (true, { c with writeLen := 0, pendingWrite := true }) := by
  rw [takeWrite, if_neg (Nat.not_lt.mpr (canWrite_iff.mp hw).2), encode_long hl]

theorem takeWrite_armed {c : Conn} {payload : Bytes} (hw : c.canWrite payload.length) : (c.takeWrite payload).1 = true := by
  rw [takeWrite, if_neg (Nat.not_lt.mpr (canWrite_iff.mp hw).2)]
  split <;> rfl

theorem armed_offer {c : Conn} {payload : Bytes} (hw : c.canWrite payload.length) : armed (c, .offer payload) = some payload := by
  simp only [armed, hw, takeWrite_armed hw, Bool.and_self, if_true]

/-- A frame is held behind a payload that was armed exactly if the prefix can hold it. -/
theorem takeWrite_hasWrite {c : Conn} {payload : Bytes} (hw : c.canWrite payload.length) :
    (c.takeWrite payload).2.writeBuf.length = c.writeBuf.length ∧
      ((c.takeWrite payload).2.hasWrite = true ↔ payload.length ≤ maxFramePayload) := by
  by_cases hl : payload.length ≤ maxFramePayload
  · have htake := takeWrite_frame (p := ⟨payload, hl⟩) hw
    have hframe := Payload.frame_length ⟨payload, hl⟩
    have hroom : framePrefixLen + payload.length ≤ c.writeBuf.length := (canWrite_iff.mp hw).2
    dsimp only at htake hframe
    rw [htake, hasWrite, List.length_append, List.length_drop, decide_eq_true_iff]
    rw [framePrefixLen] at hroom hframe
    dsimp only
    exact ⟨by omega, iff_of_true (by omega) hl⟩
  · rw [takeWrite_long hw (Nat.lt_of_not_le hl)]
    exact ⟨rfl, iff_of_false Bool.false_ne_true hl⟩

theorem writeRemaining_nil {c : Conn} (h : c.writeLen = 0) : c.writeRemaining = [] := by
  rw [writeRemaining, h, List.take_zero]

theorem advanceWrite_remaining {c : Conn} (h : c.writeLen ≤ c.writeBuf.length) (n : Nat) :
    (c.advanceWrite n).writeRemaining = c.writeRemaining.drop (min n c.writeLen) := by
  have hroom : c.writeLen - min n c.writeLen ≤ (c.writeBuf.drop (min n c.writeLen)).length := by
    rw [List.length_drop]
    exact Nat.sub_le_sub_right h _
  change (Transport.Conn.copyWithin c.writeBuf (min n c.writeLen)).take (c.writeLen - min n c.writeLen) = _
  rw [Transport.Conn.copyWithin, List.take_append_of_le_length hroom, writeRemaining, List.drop_take]

/-- What the write side keeps; the octets left are in the buffer. -/
structure Held (hist : WriteHistory) (c : Conn) : Prop where
  whole : WholeFrames hist c
  inside : c.writeLen ≤ c.writeBuf.length

theorem Held.start {c : Conn} (hlen : c.writeLen = 0) (hp : c.pendingWrite = false) : Held [] c := by
  have hnil := writeRemaining_nil hlen
  refine ⟨⟨hnil, ?_⟩, hlen ▸ Nat.zero_le _⟩
  rw [hp, hnil]
  exact iff_of_false Bool.false_ne_true (fun h => h rfl)

theorem Held.refused {hist : WriteHistory} {c : Conn} (h : Held hist c) {payload : Bytes}
    (hw : ¬ c.canWrite payload.length) : Held (hist ++ [(c, .offer payload)]) (c.write (.offer payload)) := by
  have harmed : armed (c, .offer payload) = none := by
    simp only [armed, hw, Bool.false_and, Bool.false_eq_true, if_false]
  rw [write, if_neg hw]
  refine ⟨⟨?_, h.whole.pending⟩, h.inside⟩
  rw [sent_snoc, armedFrames_snoc, harmed, ← h.whole.octets]
  exact congrArg (· ++ _) (List.append_nil _) |>.trans (List.append_nil _).symm

/-- An armed payload is left to write, whole. -/
theorem Held.offered {hist : WriteHistory} {c : Conn} (h : Held hist c) {p : Payload} (hw : c.canWrite p.octets.length) :
    Held (hist ++ [(c, .offer p.octets)]) (c.write (.offer p.octets)) := by
  have hwrite : c.write (.offer p.octets) = (c.takeWrite p.octets).2 := if_pos hw
  have hslice : (c.takeWrite p.octets).2.writeRemaining = p.frame := takeWrite_slice hw
  rw [hwrite]
  constructor
  case whole =>
    constructor
    case octets =>
      have hsent := h.whole.octets
      rw [writeRemaining_nil (canWrite_iff.mp hw).1, List.append_nil] at hsent
      rw [sent_snoc, armedFrames_snoc, armed_offer hw, hslice, hsent]
      exact congrArg (· ++ _) (List.append_nil _)
    case pending =>
      rw [hslice, takeWrite_frame hw]
      exact iff_of_true rfl (frames.encode_ne_nil p)
  case inside =>
    rw [takeWrite_frame hw, List.length_append]
    exact Nat.le_add_right _ _

theorem Held.wrote {hist : WriteHistory} {c : Conn} (h : Held hist c) (n : Nat) :
    Held (hist ++ [(c, .wrote n)]) (c.write (.wrote n)) := by
  have hmin : min n c.writeLen ≤ c.writeLen := Nat.min_le_right _ _
  have hlen : c.writeRemaining.length = c.writeLen := by
    rw [writeRemaining, List.length_take, Nat.min_eq_left h.inside]
  have hrest : (c.write (.wrote n)).writeRemaining = c.writeRemaining.drop (min n c.writeLen) :=
    advanceWrite_remaining h.inside n
  constructor
  case whole =>
    constructor
    case octets =>
      have htaken : taken (c, .wrote n) = c.writeRemaining.take (min n c.writeLen) := by
        rw [← hlen]
        exact List.take_eq_take_min
      rw [sent_snoc, armedFrames_snoc, htaken, hrest, List.append_assoc, List.take_append_drop, h.whole.octets]
      exact (List.append_nil _).symm
    case pending =>
      have hp := h.whole.pending
      rw [ne_eq, ← List.length_eq_zero_iff, hlen] at hp
      rw [hrest, ne_eq, List.drop_eq_nil_iff, hlen]
      change (if c.writeLen - min n c.writeLen = 0 then false else c.pendingWrite) = true ↔ _
      by_cases hdone : c.writeLen - min n c.writeLen = 0
      · rw [if_pos hdone]
        exact iff_of_false Bool.false_ne_true (by omega)
      · rw [if_neg hdone, hp]
        omega
  case inside =>
    change c.writeLen - min n c.writeLen ≤ (Transport.Conn.copyWithin c.writeBuf (min n c.writeLen)).length
    rw [Transport.Conn.copyWithin_length (Nat.le_trans hmin h.inside)]
    exact Nat.le_trans (Nat.sub_le _ _) h.inside

theorem Held.step {hist : WriteHistory} {c : Conn} (h : Held hist c) {op : WriteOp} (hf : Framable (c, op)) :
    Held (hist ++ [(c, op)]) (c.write op) := by
  cases op with
  | wrote n => exact h.wrote n
  | offer payload =>
    by_cases hw : c.canWrite payload.length
    · exact h.offered (p := ⟨payload, hf payload rfl hw⟩) hw
    · exact h.refused hw

/-! ### Runs -/

theorem run_held {c₀ c : Conn} {hist : WriteHistory} (hlen : c₀.writeLen = 0) (hp : c₀.pendingWrite = false)
    (hrun : Run WriteStep c₀ hist c) (hf : ∀ p ∈ hist, Framable p) : Held hist c := by
  refine hrun.invariant (P := fun hist c => (∀ p ∈ hist, Framable p) → Held hist c) (fun _ => .start hlen hp) ?_ hf
  rintro hist t op u - hheld rfl hf
  rw [List.forall_mem_append, List.forall_mem_singleton] at hf
  exact (hheld hf.1).step hf.2

/-- Behind a payload that was armed but not encoded, a write is pending and nothing is left
to write. -/
theorem not_whole_of_long {hist : WriteHistory} {c : Conn} {payload : Bytes} (hw : c.canWrite payload.length)
    (hl : maxFramePayload < payload.length) : ¬ WholeFrames hist (c.write (.offer payload)) := by
  intro h
  have hp := h.pending
  rw [write, if_pos hw, takeWrite_long hw hl] at hp
  exact hp.mp rfl (writeRemaining_nil rfl)

/-- **Writes**: a connection with nothing to write, offered payloads and drained in any
order, has written whole frames in every state it passes through, if and only if no
payload is armed that the prefix cannot hold. -/
theorem writes_whole {c₀ c : Conn} {hist : WriteHistory} (hlen : c₀.writeLen = 0) (hp : c₀.pendingWrite = false)
    (hrun : Run WriteStep c₀ hist c) :
    (∀ pre t, pre <+: hist → Run WriteStep c₀ pre t → WholeFrames pre t) ↔ ∀ p ∈ hist, Framable p := by
  constructor
  · rintro hall ⟨u, op⟩ hmem payload rfl hw
    by_contra hl
    obtain ⟨a, b, rfl⟩ := List.append_of_mem hmem
    obtain ⟨t, hbefore, rfl, -⟩ := hrun.split
    have hpre : a ++ [(u, .offer payload)] <+: a ++ (u, .offer payload) :: b := ⟨b, by rw [List.append_assoc]; rfl⟩
    exact not_whole_of_long hw (Nat.lt_of_not_le hl) (hall _ _ hpre (hbefore.snoc rfl))
  · intro hf pre t hpre hrun'
    exact (run_held hlen hp hrun' fun p hmem => hf p (hpre.subset hmem)).whole

theorem one_frame_whole : ∃ hist c, Run WriteStep (.new 0 0) hist c ∧ hist.map Prod.snd = [.offer [0x61], .wrote 1] ∧
    ∀ pre t, pre <+: hist → Run WriteStep (.new 0 0) pre t → WholeFrames pre t := by
  have hfirst : Run WriteStep (.new 0 0) [(.new 0 0, .offer [0x61])] _ := Run.refl.snoc rfl
  have hrun : Run WriteStep (.new 0 0) ([(.new 0 0, .offer [0x61])] ++ [(_, .wrote 1)]) _ := hfirst.snoc rfl
  refine ⟨_, _, hrun, rfl, (writes_whole rfl rfl hrun).mpr fun p hmem payload hoffer _ => ?_⟩
  rcases List.mem_pair.mp hmem with rfl | rfl
  · cases hoffer
    decide
  · cases hoffer

/-- A payload one octet too long is taken and never written. -/
theorem long_payload_stuck : ¬ ∀ (hist : WriteHistory) (c : Conn), Run WriteStep (.new 0 0) hist c → WholeFrames hist c := by
  intro hall
  have hlen : (zeros 65536).length = 65536 := zeros_length _
  have hw : (Conn.new 0 0).canWrite (zeros 65536).length = true := by
    rw [hlen, canWrite_iff]
    exact ⟨rfl, by rw [Conn.new, zeros_length]; decide⟩
  exact not_whole_of_long hw (by rw [hlen]; decide) (hall _ _ (Run.refl.snoc rfl))

end Conn
end QuickRelay.Transport.EventLoop
