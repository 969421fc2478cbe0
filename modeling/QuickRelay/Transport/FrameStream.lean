import QuickRelay.Transport.Framing

/-! The stream of encoder outputs: what the decoder hands over, however the stream is cut and
whatever the callback rejects. -/
namespace QuickRelay.Transport
open Lib

/-! ### Encoder outputs -/

/-- The encoder puts these octets into some buffer. -/
def Encoded (payload wire : Bytes) : Prop := ∃ out n buf, encode payload out = (.ok n, buf) ∧ wire = buf.take n

/-- The octets are a proper prefix of an encoder output. -/
def Cut (tail : Bytes) : Prop := ∃ payload wire rest, Encoded payload wire ∧ wire = tail ++ rest ∧ rest ≠ []

theorem encode_tooSmall {payload out : Bytes} (h : payload.length ≤ 65535) (hout : out.length < framePrefixLen + payload.length) :
    encode payload out = (.err .bufferTooSmall, out) := by
  have hprefix : writeLengthPrefix payload out = (.err .bufferTooSmall, out) := by
    rw [writeLengthPrefix, Buffer.refuse_bind_run, if_neg (Nat.not_lt.mpr h), Buffer.bind_run_ok (Buffer.len_run out),
      Buffer.refuse_bind_run, if_pos hout]
  rw [encode, Buffer.bind_run, hprefix]

/-- What the encoder puts into a buffer is the payload's frame. -/
theorem Encoded.frame {payload wire : Bytes} (h : Encoded payload wire) :
    ∃ p : Payload, p.octets = payload ∧ p.frame = wire := by
  obtain ⟨out, n, buf, hencode, rfl⟩ := h
  by_cases hfits : payload.length ≤ maxFramePayload
  · by_cases hroom : framePrefixLen + payload.length ≤ out.length
    · have hlen : (Payload.mk payload hfits).frame.length ≤ out.length := by
        rw [Payload.frame_length]
        exact hroom
      have hrun := encode_run _ hlen
      obtain ⟨hn, hbuf⟩ := Prod.mk.inj (hencode.symm.trans hrun)
      obtain rfl := Outcome.ok.inj hn
      exact ⟨⟨payload, hfits⟩, rfl, by rw [hbuf, List.take_left]⟩
    · rw [encode_tooSmall hfits (Nat.lt_of_not_le hroom)] at hencode
      cases hencode
  · rw [encode_long (Nat.lt_of_not_le hfits)] at hencode
    cases hencode

theorem encoded_frames {payloads wires : List Bytes} (h : List.Forall₂ Encoded payloads wires) :
    ∃ ps : List Payload, ps.map Payload.octets = payloads ∧ ps.map Payload.frame = wires := by
  induction h with
  | nil => exact ⟨[], rfl, rfl⟩
  | cons hencoded _ ih =>
    obtain ⟨p, rfl, rfl⟩ := hencoded.frame
    obtain ⟨ps, rfl, rfl⟩ := ih
    exact ⟨p :: ps, rfl, rfl⟩

theorem Cut.partial {tail : Bytes} (h : Cut tail) : frames.Partial tail := by
  obtain ⟨payload, wire, rest, hencoded, hwire, hrest⟩ := h
  obtain ⟨p, -, rfl⟩ := hencoded.frame
  exact frames.partial_of_cut hwire hrest

theorem encodeAll_frames (ps : List Payload) : frames.encodeAll ps = (ps.map Payload.frame).flatten :=
  List.flatMap_def

/-! ### Callbacks -/

section
variable {σ : Type} (f : σ → Bytes → Nat → σ × Option FrameError)

/-- The callback, with a record of the payloads it is called on. -/
def recording (s : σ × List Bytes) (payload : Bytes) (need : Nat) : (σ × List Bytes) × Option FrameError :=
  (((f s.1 payload need).1, s.2 ++ [payload]), (f s.1 payload need).2)

/-- The state of the callback after payloads it accepts, `none` once it rejects one. -/
def accepts : σ → List Bytes → Option σ
  | s, [] => some s
  | s, payload :: payloads =>
    match f s payload (framePrefixLen + payload.length) with
    | (s, none) => accepts s payloads
    | (_, some _) => none

/-- Accepted frames go to the callback one by one. -/
theorem decodeWith_accepted {ps : List Payload} {s s' : σ} (h : accepts f s (ps.map Payload.octets) = some s')
    (pre rest : Bytes) (log : List Bytes) (eof : Bool) (packets : Nat) :
    decodeWith (recording f) (pre ++ (frames.encodeAll ps ++ rest)) eof pre.length packets (s, log) =
      decodeWith (recording f) (pre ++ (frames.encodeAll ps ++ rest)) eof (pre ++ frames.encodeAll ps).length
        (packets + ps.length) (s', log ++ ps.map Payload.octets) := by
  induction ps generalizing pre packets s log with
  | nil =>
    obtain rfl : s = s' := Option.some.inj h
    simp
  | cons p ps ih =>
    rw [List.map_cons, accepts, ← p.frame_length] at h
    rcases hf : f s p.octets p.frame.length with ⟨t, _ | e⟩
    · rw [hf] at h
      have hrecord : recording f (s, log) p.octets p.frame.length = ((t, log ++ [p.octets]), none) := by
        rw [recording, hf]
      rw [PrefixCode.encodeAll_cons, List.append_assoc]
      change decodeWith _ (pre ++ (p.frame ++ _)) eof _ packets _ = _
      rw [decodeWith_frame _ p _ _ eof _ _ (by rw [hrecord]), hrecord, ← List.append_assoc, ih h]
      simp only [List.length_cons, List.map_cons, List.append_assoc, List.cons_append, List.nil_append, Nat.add_assoc,
        Nat.add_comm 1]
      rfl
    · rw [hf] at h
      cases h

theorem accepts_of_always (hf : ∀ s payload need, (f s payload need).2 = none) (s : σ) (payloads : List Bytes) :
    ∃ s', accepts f s payloads = some s' := by
  induction payloads generalizing s with
  | nil => exact ⟨s, rfl⟩
  | cons payload payloads ih =>
    have hnone := hf s payload (framePrefixLen + payload.length)
    rw [accepts]
    rcases hs : f s payload (framePrefixLen + payload.length) with ⟨t, _ | e⟩
    · exact ih t
    · rw [hs] at hnone
      cases hnone

theorem accepts_append (s : σ) (a b : List Bytes) : accepts f s (a ++ b) = (accepts f s a).bind fun s => accepts f s b := by
  induction a generalizing s with
  | nil => rfl
  | cons payload a ih =>
    rw [List.cons_append, accepts, accepts]
    rcases f s payload (framePrefixLen + payload.length) with ⟨t, _ | e⟩
    · exact ih t
    · rfl

/-- The callback accepts `before` and rejects the payload behind. -/
structure Rejects (s : σ) (before : List Payload) (p : Payload) (s' s'' : σ) (e : FrameError) : Prop where
  accepted : accepts f s (before.map Payload.octets) = some s'
  rejected : f s' p.octets p.frame.length = (s'', some e)

theorem Rejects.none {s s' s'' : σ} {before : List Payload} {p : Payload} {e : FrameError}
    (h : Rejects f s before p s' s'' e) : accepts f s (before.map Payload.octets ++ [p.octets]) = none := by
  rw [accepts_append, h.accepted, Option.bind_some, accepts, ← p.frame_length, h.rejected]

/-- A callback that does not accept all payloads rejects a first one. -/
theorem accepts_none {s : σ} {ps : List Payload} (h : accepts f s (ps.map Payload.octets) = none) :
    ∃ before p after s' s'' e, ps = before ++ p :: after ∧ Rejects f s before p s' s'' e := by
  induction ps generalizing s with
  | nil => cases h
  | cons p ps ih =>
    rw [List.map_cons, accepts, ← p.frame_length] at h
    rcases hs : f s p.octets p.frame.length with ⟨t, _ | e⟩
    · rw [hs] at h
      obtain ⟨before, q, after, s', s'', e, rfl, hrejects⟩ := ih h
      refine ⟨p :: before, q, after, s', s'', e, rfl, ?_, hrejects.rejected⟩
      rw [List.map_cons, accepts, ← p.frame_length, hs]
      exact hrejects.accepted
    · exact ⟨[], p, ps, s, t, e, rfl, rfl, hs⟩

/-- What a call of the decoder on a whole buffer reports, and which payloads it offers to the
callback. -/
def offer (s : σ) (buf : Bytes) (eof : Bool) : DecodeOutcome × σ × List Bytes := decodeWith (recording f) buf eof 0 0 (s, [])

/-- Whole frames that are all accepted, and a tail. -/
theorem offer_accepted {ps : List Payload} {s s' : σ} (h : accepts f s (ps.map Payload.octets) = some s') {tail : Bytes}
    (ht : frames.Partial tail) (eof : Bool) : offer f s (frames.encodeAll ps ++ tail) eof =
      (⟨(frames.encodeAll ps).length, ps.length, eof⟩, s', ps.map Payload.octets) := by
  have hdecode := decodeWith_accepted f h [] tail [] eof 0
  rw [List.nil_append, List.length_nil, List.nil_append, List.nil_append, Nat.zero_add,
    decodeWith_partial _ ht] at hdecode
  exact hdecode

/-- The first rejected payload is the last one offered; it is consumed and not counted. -/
theorem offer_rejected {before : List Payload} {p : Payload} {s s' s'' : σ} {e : FrameError}
    (h : Rejects f s before p s' s'' e) (rest : Bytes) (eof : Bool) :
    offer f s (frames.encodeAll before ++ (p.frame ++ rest)) eof =
      (⟨(frames.encodeAll before ++ p.frame).length, before.length, eof⟩, s'', before.map Payload.octets ++ [p.octets]) := by
  have hdecode := decodeWith_accepted f h.accepted [] (p.frame ++ rest) [] eof 0
  have hrecord : recording f (s', before.map Payload.octets) p.octets p.frame.length =
      ((s'', before.map Payload.octets ++ [p.octets]), some e) := by
    rw [recording, h.rejected]
  rw [List.nil_append, List.length_nil, List.nil_append, List.nil_append, Nat.zero_add,
    decodeWith_reject _ hrecord] at hdecode
  exact hdecode

theorem offer_rejected_all {before after : List Payload} {p : Payload} {s s' s'' : σ} {e : FrameError}
    (h : Rejects f s before p s' s'' e) (tail : Bytes) (eof : Bool) :
    offer f s (frames.encodeAll (before ++ p :: after) ++ tail) eof =
      (⟨(frames.encodeAll before ++ p.frame).length, before.length, eof⟩, s'', before.map Payload.octets ++ [p.octets]) := by
  rw [PrefixCode.encodeAll_append, PrefixCode.encodeAll_cons, List.append_assoc, List.append_assoc]
  exact offer_rejected f h _ eof

/-- Two calls, one after the other, offer and report together what a third does. -/
def Joins (first second whole : DecodeOutcome × σ × List Bytes) : Prop :=
  first.2.2 ++ second.2.2 = whole.2.2 ∧ second.2.1 = whole.2.1 ∧
    first.1.consumed + second.1.consumed = whole.1.consumed ∧ first.1.packets + second.1.packets = whole.1.packets

/-- Two calls, the second on what the first left and what came after it, do what one call on
the whole buffer does, unless the callback rejects a payload in the first. -/
theorem offer_append {s : σ} {a : Bytes} {eof₁ : Bool} (h : accepts f s (offer f s a eof₁).2.2 ≠ none) (b : Bytes)
    (eof₂ eof : Bool) :
    Joins (offer f s a eof₁) (offer f (offer f s a eof₁).2.1 (a.drop (offer f s a eof₁).1.consumed ++ b) eof₂)
      (offer f s (a ++ b) eof) := by
  obtain ⟨ps, x, rfl, hx⟩ := frames.exists_split a
  cases hs : accepts f s (ps.map Payload.octets) with
  | none =>
    obtain ⟨before, p, after, s', s'', e, rfl, hrejects⟩ := accepts_none f hs
    rw [offer_rejected_all f hrejects] at h
    exact absurd hrejects.none h
  | some t =>
    obtain ⟨qs, y, hxb, hy⟩ := frames.exists_split (x ++ b)
    rw [offer_accepted f hs hx]
    dsimp only
    rw [List.drop_left, List.append_assoc, hxb, ← List.append_assoc, ← PrefixCode.encodeAll_append]
    cases ht : accepts f t (qs.map Payload.octets) with
    | some u =>
      have hall : accepts f s ((ps ++ qs).map Payload.octets) = some u := by
        rw [List.map_append, accepts_append, hs]
        exact ht
      rw [offer_accepted f ht hy, offer_accepted f hall hy, PrefixCode.encodeAll_append]
      exact ⟨List.map_append.symm, rfl, List.length_append.symm, List.length_append.symm⟩
    | none =>
      obtain ⟨before, p, after, t', t'', e, rfl, hrejects⟩ := accepts_none f ht
      have hboth : Rejects f s (ps ++ before) p t' t'' e := by
        refine ⟨?_, hrejects.rejected⟩
        rw [List.map_append, accepts_append, hs]
        exact hrejects.accepted
      rw [offer_rejected_all f hrejects, ← List.append_assoc, offer_rejected_all f hboth, PrefixCode.encodeAll_append,
        List.append_assoc]
      refine ⟨?_, rfl, List.length_append.symm, List.length_append.symm⟩
      rw [List.map_append, List.append_assoc]

/-- **Framing**: every payload of at most 65535 octets encodes; over encoder outputs and a
proper prefix of one, the decoder offers and counts all payloads if the callback accepts
them, else those up to the first rejected one, which is consumed but not counted; and a
buffer decoded in two parts is decoded as a whole, unless the callback rejects a payload of
the first. -/
theorem framing (s : σ) (eof : Bool) :
    (∀ payload out : Bytes, payload.length ≤ maxFramePayload → framePrefixLen + payload.length ≤ out.length →
      ∃ n buf, encode payload out = (.ok n, buf)) ∧
    ((∀ s payload need, (f s payload need).2 = none) → ∀ s payloads, accepts f s payloads ≠ none) ∧
    (∀ payloads wires tail, List.Forall₂ Encoded payloads wires → Cut tail →
      (∀ s', accepts f s payloads = some s' →
        offer f s (wires.flatten ++ tail) eof = (⟨wires.flatten.length, payloads.length, eof⟩, s', payloads)) ∧
      (accepts f s payloads = none → ∃ before payload after s' s'' e, payloads = before ++ payload :: after ∧
        accepts f s before = some s' ∧ f s' payload (framePrefixLen + payload.length) = (s'', some e) ∧
        offer f s (wires.flatten ++ tail) eof =
          (⟨(wires.take (before.length + 1)).flatten.length, before.length, eof⟩, s'', before ++ [payload]))) ∧
    ∀ a b eof₁ eof₂, accepts f s (offer f s a eof₁).2.2 ≠ none →
      Joins (offer f s a eof₁) (offer f (offer f s a eof₁).2.1 (a.drop (offer f s a eof₁).1.consumed ++ b) eof₂)
        (offer f s (a ++ b) eof) := by
  refine ⟨fun payload out hfits hroom => ?_, fun hf s payloads hnone => ?_, fun payloads wires tail hwires hcut => ?_,
    fun a b eof₁ eof₂ h => offer_append f h b eof₂ eof⟩
  · exact ⟨_, _, encode_run ⟨payload, hfits⟩ (by rw [Payload.frame_length]; exact hroom)⟩
  · obtain ⟨s', hs⟩ := accepts_of_always f hf s payloads
    cases hs.symm.trans hnone
  · obtain ⟨ps, rfl, rfl⟩ := encoded_frames hwires
    constructor
    · intro s' hs
      rw [← encodeAll_frames, offer_accepted f hs hcut.partial, List.length_map]
    · intro hnone
      obtain ⟨before, p, after, s', s'', e, rfl, hrejects⟩ := accepts_none f hnone
      refine ⟨before.map Payload.octets, p.octets, after.map Payload.octets, s', s'', e, List.map_append, hrejects.accepted,
        ?_, ?_⟩
      · rw [← p.frame_length]
        exact hrejects.rejected
      · have htake : ((before ++ p :: after).map Payload.frame).take (before.length + 1) =
            (before ++ [p]).map Payload.frame := by
          rw [← List.map_take, List.take_append, List.take_of_length_le (Nat.le_succ _), Nat.add_sub_cancel_left]
          rfl
        rw [List.length_map, htake, ← encodeAll_frames, ← encodeAll_frames, offer_rejected_all f hrejects,
          PrefixCode.encodeAll_append, PrefixCode.encodeAll_cons, PrefixCode.encodeAll_nil, List.append_nil]
        rfl

end

/-- A callback that rejects the empty payload. -/
def refuseEmpty (s : Unit) (payload : Bytes) (_need : Nat) : Unit × Option FrameError :=
  (s, if payload = [] then some .incompletePayload else none)

theorem encoded_letter : Encoded [0x41] [0, 1, 0x41] := ⟨zeros 4, 3, [0, 1, 0x41, 0], by decide, rfl⟩

theorem encoded_empty : Encoded [] [0, 0] := ⟨zeros 2, 2, [0, 0], by decide, rfl⟩

/-- A letter, an empty payload and a letter: the last one is not offered. -/
theorem framing_refused : ∃ before payload after s' s'' e, [[0x41], [], [0x41]] = before ++ payload :: after ∧
    accepts refuseEmpty () before = some s' ∧
    refuseEmpty s' payload (framePrefixLen + payload.length) = (s'', some e) ∧
    offer refuseEmpty () [0, 1, 0x41, 0, 0, 0, 1, 0x41, 0] false =
      (⟨(([[0, 1, 0x41], [0, 0], [0, 1, 0x41]] : List Bytes).take (before.length + 1)).flatten.length, before.length, false⟩,
        s'', before ++ [payload]) := by
  have hwires : List.Forall₂ Encoded [[0x41], [], [0x41]] [[0, 1, 0x41], [0, 0], [0, 1, 0x41]] :=
    .cons encoded_letter (.cons encoded_empty (.cons encoded_letter .nil))
  have hcut : Cut [0] := ⟨[], [0, 0], [0], encoded_empty, rfl, List.cons_ne_nil _ _⟩
  exact ((framing refuseEmpty () false).2.2.1 _ _ _ hwires hcut).2 rfl

end QuickRelay.Transport
