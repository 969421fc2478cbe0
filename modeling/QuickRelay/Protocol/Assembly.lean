import QuickRelay.Protocol.RoundTrip

/-! Responses without trailers: when they can be built, how long they are, and that
they read back as their parts. -/
namespace QuickRelay.Protocol
open Lib

/-- The encoder takes the attribute and its scratch buffer holds the value. -/
def Encodable (txid : TransactionId) (a : Attribute) : Prop :=
  a.refusal = none ∧ (a.octets txid 0).length ≤ 2048

/-- The octets a list of attributes takes on the wire. -/
def wireLen (txid : TransactionId) (attrs : List Attribute) : Nat :=
  (attrs.map fun a => attrSize (a.octets txid 0).length).sum

@[simp] theorem wireLen_nil (txid : TransactionId) : wireLen txid [] = 0 := rfl

@[simp] theorem wireLen_cons (txid : TransactionId) (a : Attribute) (attrs : List Attribute) :
    wireLen txid (a :: attrs) = attrSize (a.octets txid 0).length + wireLen txid attrs := by
  simp [wireLen]

theorem emitAll_ok {txid : TransactionId} {attrs : List Attribute} (h : ∀ a ∈ attrs, Encodable txid a) (out : Bytes) :
    ∃ out', emitAll txid out attrs = .ok out' := by
  induction attrs generalizing out with
  | nil => exact ⟨out, rfl⟩
  | cons a attrs ih =>
    obtain ⟨hr, hl⟩ := h a (by simp)
    have hv : a.toValue txid = .ok (a.octets txid 0) := Attribute.toValue_eq_ok.mpr ⟨hr, hl, rfl⟩
    have hemit : ∃ out1, emitAttribute out (attributeKind a) (a.octets txid 0) = .ok out1 := by
      rw [emitAttribute, Outcome.refuse_neg (by omega)]
      exact ⟨_, rfl⟩
    obtain ⟨out1, h1⟩ := hemit
    rw [emitAll, hv, Outcome.ok_bind, h1, Outcome.ok_bind]
    exact ih (fun b hb => h b (by simp [hb])) out1

theorem Encodes.length {txid : TransactionId} {ts : List Tlv} {attrs : List Attribute} (h : Encodes txid ts attrs) :
    (Tlv.encodeAll ts).length = wireLen txid attrs := by
  induction h with
  | nil => rfl
  | @cons t a ts attrs ht _ ih =>
    obtain ⟨-, -, hv⟩ := Attribute.toValue_eq_ok.mp ht.2
    rw [Tlv.encodeAll_cons, List.length_append, ih, wireLen_cons, t.encode_length, hv]
    rfl

/-- A plain response is built exactly when its attributes fit, and has the length of
its parts. -/
theorem buildResponse_plain (crypto : Crypto) (ty : UInt16) {txid : TransactionId} {attrs : List Attribute}
    (h : ∀ a ∈ attrs, Encodable txid a) (hl : wireLen txid attrs < 65536) :
    ∃ out, buildResponse crypto ty txid attrs none false = .ok out ∧ out.length = 20 + wireLen txid attrs := by
  obtain ⟨out1, h1⟩ := emitAll_ok h (frame ty 0 txid [])
  obtain ⟨ts, hts, rfl⟩ := emitAll_eq_ok h1
  have hset := setLength_frame ty 0 txid (Tlv.encodeAll ts)
  rw [hts.length, if_pos hl] at hset
  refine ⟨frame ty (UInt16.ofNat (wireLen txid attrs)) txid (Tlv.encodeAll ts), ?_, by rw [frame_length, hts.length]⟩
  have hexec : setLength.exec (frame ty 0 txid (Tlv.encodeAll ts)) =
      .ok (frame ty (UInt16.ofNat (wireLen txid attrs)) txid (Tlv.encodeAll ts)) := Buffer.exec_eq_ok.mpr ⟨_, hset⟩
  simp only [buildResponse, header_eq]
  rw [h1, Outcome.ok_bind, ← frame_append, List.nil_append, hexec]
  rfl

/-- A canonical attribute that encodes is one that some value decodes to. -/
theorem sendable_of_canonical {txid : TransactionId} {a : Attribute} (hc : a.Canonical) (hr : a.refusal = none)
    (ht : ¬ isTrailerOnly (attributeKind a)) (hu : ¬ UnregisteredRequired (attributeKind a).asU16) : Sendable txid a :=
  ⟨⟨_, parse_octets hc hr txid 0⟩, ht, hu⟩

/-- A plain response reads back as its type, transaction id and attributes. -/
theorem buildResponse_plain_reads {crypto : Crypto} {t : MessageType} (ht : t.method.bits.toNat < 4096)
    {txid : TransactionId} {attrs : List Attribute} (ha : ∀ a ∈ attrs, Sendable txid a) {out : Bytes}
    (h : buildResponse crypto t.bits txid attrs none false = .ok out) :
    ∃ m, parse out = .ok m ∧ m.header.msgType = .fromMethodAndClass t.method.bits t.cls ∧ m.txid = txid ∧
      m.attributes = attrs := by
  obtain ⟨ts, hts, hold⟩ := buildResponse_eq_ok crypto h
  have hacc : Accepts txid (ts ++ [] ++ []) (attrs ++ [] ++ []) :=
    accepts_trailers (hts.decoded ha) .nil .nil (hts.ordinary ha) (by simp) (by simp) (by simp) (by simp)
  rw [tagTlvs, fingerprintTlvs, if_neg (by decide)] at hold
  exact ⟨_, parse_eq_ok.mpr ⟨t.bits, _, txid, _, _, MessageType.fromBits_bits t ht, hold.1, hold.2, hacc, rfl⟩, rfl, rfl,
    by simp [messageOf]⟩

end QuickRelay.Protocol
