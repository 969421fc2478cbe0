import QuickRelay.Lib.Buffer
import QuickRelay.Lib.PrefixCode

/-! The 16-bit length prefix of the TCP stream: the encoder, the incremental decoder, and
the words both agree on. -/
namespace QuickRelay.Transport
open Lib

def framePrefixLen : Nat := 2
def maxFramePayload : Nat := 65535

inductive FrameError where
  | incompleteHeader
  | lengthTooLarge
  | incompletePayload
  | bufferTooSmall
  deriving DecidableEq, Repr

structure ConnectionId where
  value : UInt64
  deriving DecidableEq, Repr

structure QueuedReply where
  id : ConnectionId
  payload : Bytes
  deriving DecidableEq, Repr

structure DecodeOutcome where
  consumed : Nat
  packets : Nat
  eof : Bool
  deriving DecidableEq, Repr

def writeLengthPrefix (payload : Bytes) : Buffer FrameError Nat := do
  .lift (.refuse (65535 < payload.length) .lengthTooLarge)
  let n ← .len
  .lift (.refuse (n < framePrefixLen + payload.length) .bufferTooSmall)
  .copy 0 framePrefixLen (u16ToBe (UInt16.ofNat payload.length))
  return framePrefixLen

def encode (payload : Bytes) : Buffer FrameError Nat := do
  let written ← writeLengthPrefix payload
  .copy framePrefixLen (framePrefixLen + payload.length) payload
  return written + payload.length

/-- The decoding loop; the callback `f` threads a state and may reject a packet,
which is consumed and ends the loop. -/
def decodeWith {σ : Type} (f : σ → Bytes → Nat → σ × Option FrameError) (buf : Bytes) (eof : Bool) (consumed packets : Nat)
    (s : σ) : DecodeOutcome × σ :=
  let remaining := buf.drop consumed
  if h : remaining.length < framePrefixLen then (⟨consumed, packets, eof⟩, s)
  else
    have h2 : 2 ≤ remaining.length := Nat.le_of_not_lt h
    let len := (u16FromBe remaining[0] remaining[1]).toNat
    if maxFramePayload < len then (⟨consumed, packets, eof⟩, s)
    else
      let need := framePrefixLen + len
      if remaining.length < need then (⟨consumed, packets, eof⟩, s)
      else
        match f s ((remaining.drop framePrefixLen).take len) need with
        | (s, some _) => (⟨consumed + need, packets, eof⟩, s)
        | (s, none) => decodeWith f buf eof (consumed + need) (packets + 1) s
termination_by buf.length - consumed
decreasing_by
  simp only [remaining, List.length_drop] at h2
  simp only [framePrefixLen]
  omega

/-! ### Frames as code words -/

structure Payload where
  octets : Bytes
  fits : octets.length ≤ maxFramePayload
  deriving DecidableEq

def Payload.frame (p : Payload) : Bytes := u16ToBe (UInt16.ofNat p.octets.length) ++ p.octets

theorem Payload.frame_length (p : Payload) : p.frame.length = framePrefixLen + p.octets.length := by
  rw [frame, List.length_append, u16ToBe_length, framePrefixLen]

theorem Payload.prefix_toNat (p : Payload) : (UInt16.ofNat p.octets.length).toNat = p.octets.length := by
  have hp := p.fits
  rw [maxFramePayload] at hp
  rw [UInt16.toNat_ofNat', Nat.mod_eq_of_lt (by omega)]

theorem Payload.frame_append_inj {p q : Payload} {r s : Bytes} (h : p.frame ++ r = q.frame ++ s) : p = q ∧ r = s := by
  rw [frame, frame, List.append_assoc, List.append_assoc] at h
  obtain ⟨hn, hbody⟩ := List.append_inj h (by simp)
  have hlen : p.octets.length = q.octets.length := by
    rw [← p.prefix_toNat, ← q.prefix_toNat, u16ToBe_inj hn]
  obtain ⟨ho, hrest⟩ := List.append_inj hbody hlen
  obtain ⟨po, pf⟩ := p
  obtain ⟨qo, qf⟩ := q
  obtain rfl : po = qo := ho
  exact ⟨rfl, hrest⟩

/-- The frames of the stream. -/
def frames : PrefixCode Payload UInt8 where
  encode := Payload.frame
  encode_ne_nil p h := by
    have := p.frame_length
    rw [h, framePrefixLen, List.length_nil] at this
    omega
  append_inj := Payload.frame_append_inj

/-- The encoder writes a payload's frame. -/
theorem encode_run (p : Payload) {out : Bytes} (h : p.frame.length ≤ out.length) :
    encode p.octets out = (.ok p.frame.length, p.frame ++ out.drop p.frame.length) := by
  have hlen := p.frame_length
  have hfits := p.fits
  rw [maxFramePayload] at hfits
  have hprefix : writeLengthPrefix p.octets out =
      (.ok framePrefixLen, u16ToBe (UInt16.ofNat p.octets.length) ++ out.drop framePrefixLen) := by
    rw [writeLengthPrefix, Buffer.refuse_bind_run, if_neg (by omega), Buffer.bind_run_ok (Buffer.len_run out),
      Buffer.refuse_bind_run, if_neg (by omega)]
    have hroom : (u16ToBe (UInt16.ofNat p.octets.length)).length ≤ out.length := by
      rw [u16ToBe_length, ← framePrefixLen]
      omega
    have hcopy := Buffer.copy_zero_run (ε := FrameError) hroom
    rw [u16ToBe_length] at hcopy
    exact Buffer.bind_run_ok hcopy
  have hw : (u16ToBe (UInt16.ofNat p.octets.length)).length = framePrefixLen := u16ToBe_length _
  have hroom : framePrefixLen + p.octets.length ≤
      (u16ToBe (UInt16.ofNat p.octets.length) ++ out.drop framePrefixLen).length := by
    rw [List.length_append, hw, List.length_drop]
    omega
  have hcopy := Buffer.copy_run (ε := FrameError) (Nat.le_add_right _ _) hroom (Nat.add_sub_cancel_left _ _).symm
  have hrest : (u16ToBe (UInt16.ofNat p.octets.length) ++ out.drop framePrefixLen).drop (framePrefixLen + p.octets.length) =
      out.drop (framePrefixLen + p.octets.length) := by
    rw [List.drop_append, List.drop_eq_nil_of_le (by omega), hw, Nat.add_sub_cancel_left, List.drop_drop, List.nil_append]
  rw [List.take_left' hw, hrest, ← hlen] at hcopy
  rw [encode, Buffer.bind_run_ok hprefix, ← hlen, Buffer.bind_run_ok hcopy]
  rfl

/-- A payload too long for the prefix is refused. -/
theorem encode_long {payload : Bytes} (h : maxFramePayload < payload.length) (out : Bytes) :
    encode payload out = (.err .lengthTooLarge, out) := by
  have hl : 65535 < payload.length := h
  have hprefix : writeLengthPrefix payload out = (.err .lengthTooLarge, out) := by
    rw [writeLengthPrefix, Buffer.refuse_bind_run, if_pos hl]
  rw [encode, Buffer.bind_run, hprefix]

/-- A tail with a length field is shorter than the frame it announces. -/
theorem announces {x0 x1 : UInt8} {body : Bytes} (h : frames.Partial (x0 :: x1 :: body)) :
    body.length < (u16FromBe x0 x1).toNat := by
  by_contra hle
  have hlen : (body.take (u16FromBe x0 x1).toNat).length = (u16FromBe x0 x1).toNat := by
    rw [List.length_take]
    omega
  refine h ⟨body.take (u16FromBe x0 x1).toNat, ?_⟩ (body.drop (u16FromBe x0 x1).toNat) ?_
  · have := (u16FromBe x0 x1).toNat_lt
    rw [hlen, maxFramePayload]
    omega
  · change _ = Payload.frame _ ++ _
    rw [Payload.frame]
    simp only [hlen, UInt16.ofNat_toNat, u16ToBe_fromBe, List.cons_append, List.nil_append, List.take_append_drop]

section
variable {σ : Type} (f : σ → Bytes → Nat → σ × Option FrameError)

private theorem decodeWith_cons {buf : Bytes} {consumed : Nat} {x0 x1 : UInt8} {body : Bytes}
    (hb : buf.drop consumed = x0 :: x1 :: body) (eof : Bool) (packets : Nat) (s : σ) :
    decodeWith f buf eof consumed packets s =
      if body.length < (u16FromBe x0 x1).toNat then (⟨consumed, packets, eof⟩, s)
      else match f s (body.take (u16FromBe x0 x1).toNat) (framePrefixLen + (u16FromBe x0 x1).toNat) with
        | (s, some _) => (⟨consumed + (framePrefixLen + (u16FromBe x0 x1).toNat), packets, eof⟩, s)
        | (s, none) =>
          decodeWith f buf eof (consumed + (framePrefixLen + (u16FromBe x0 x1).toNat)) (packets + 1) s := by
  have hmax : ¬ maxFramePayload < (u16FromBe x0 x1).toNat := by
    have := (u16FromBe x0 x1).toNat_lt
    rw [maxFramePayload]
    omega
  conv_lhs => rw [decodeWith]
  simp only [hb, List.getElem_cons_zero, List.getElem_cons_succ, List.length_cons, framePrefixLen, List.drop_succ_cons,
    List.drop_zero, hmax, if_false]
  rw [dif_neg (by omega)]
  by_cases hlen : body.length < (u16FromBe x0 x1).toNat
  · rw [if_pos (by omega), if_pos hlen]
  · rw [if_neg (by omega), if_neg hlen]

/-- The loop stops at a partial tail. -/
theorem decodeWith_partial {tail : Bytes} (ht : frames.Partial tail) (pre : Bytes) (eof : Bool) (packets : Nat) (s : σ) :
    decodeWith f (pre ++ tail) eof pre.length packets s = (⟨pre.length, packets, eof⟩, s) := by
  rcases tail with _ | ⟨x0, _ | ⟨x1, body⟩⟩
  · rw [decodeWith]
    simp [framePrefixLen]
  · rw [decodeWith]
    simp [framePrefixLen]
  · rw [decodeWith_cons f List.drop_left, if_pos (announces ht)]

/-- A whole frame goes to the callback, which may end the loop behind it. -/
theorem decodeWith_offer (p : Payload) (pre rest : Bytes) (eof : Bool) (packets : Nat) (s : σ) :
    decodeWith f (pre ++ (p.frame ++ rest)) eof pre.length packets s =
      match f s p.octets p.frame.length with
      | (s, some _) => (⟨(pre ++ p.frame).length, packets, eof⟩, s)
      | (s, none) => decodeWith f (pre ++ (p.frame ++ rest)) eof (pre ++ p.frame).length (packets + 1) s := by
  obtain ⟨x0, x1, hx, hv⟩ := u16ToBe_eq (UInt16.ofNat p.octets.length)
  have hb : (pre ++ (p.frame ++ rest)).drop pre.length = x0 :: x1 :: (p.octets ++ rest) := by
    rw [List.drop_left, Payload.frame, hx]
    rfl
  have hlen := p.frame_length
  rw [decodeWith_cons f hb, hv, p.prefix_toNat, if_neg (by rw [List.length_append]; omega), List.take_left, ← hlen,
    List.length_append]

theorem decodeWith_frame (p : Payload) (pre rest : Bytes) (eof : Bool) (packets : Nat) (s : σ)
    (hf : (f s p.octets p.frame.length).2 = none) :
    decodeWith f (pre ++ (p.frame ++ rest)) eof pre.length packets s =
      decodeWith f (pre ++ (p.frame ++ rest)) eof (pre ++ p.frame).length (packets + 1) (f s p.octets p.frame.length).1 := by
  rw [decodeWith_offer]
  rcases hfs : f s p.octets p.frame.length with ⟨s', _ | e⟩
  · rfl
  · rw [hfs] at hf
    cases hf

theorem decodeWith_reject {p : Payload} {s s' : σ} {e : FrameError} (hf : f s p.octets p.frame.length = (s', some e))
    (pre rest : Bytes) (eof : Bool) (packets : Nat) : decodeWith f (pre ++ (p.frame ++ rest)) eof pre.length packets s =
      (⟨(pre ++ p.frame).length, packets, eof⟩, s') := by
  rw [decodeWith_offer, hf]

/-- The decoder, with a callback that takes every packet, hands over the whole frames of
its buffer and leaves the partial tail. -/
theorem decodeWith_split (hf : ∀ s p n, (f s p n).2 = none) (ps : List Payload) {tail : Bytes} (ht : frames.Partial tail)
    (pre : Bytes) (eof : Bool) (packets : Nat) (s : σ) :
    decodeWith f (pre ++ (frames.encodeAll ps ++ tail)) eof pre.length packets s =
      (⟨pre.length + (frames.encodeAll ps).length, packets + ps.length, eof⟩,
        ps.foldl (fun s p => (f s p.octets p.frame.length).1) s) := by
  induction ps generalizing pre packets s with
  | nil => exact decodeWith_partial f ht pre eof packets s
  | cons p ps ih =>
    rw [PrefixCode.encodeAll_cons, List.append_assoc]
    change decodeWith f (pre ++ (p.frame ++ _)) eof pre.length packets s = _
    rw [decodeWith_frame f p pre _ eof packets s (hf _ _ _), ← List.append_assoc, ih]
    simp only [List.length_append, List.length_cons, List.foldl_cons, Nat.add_assoc, Nat.add_comm 1]
    rfl

end

end QuickRelay.Transport
