import QuickRelay.Protocol.Acceptance
import QuickRelay.Protocol.Assembly
import QuickRelay.Protocol.Reencoding
import QuickRelay.Protocol.ResponseType

/-! A datagram read and built again: when that can be done, and that it keeps the message and
gives each message one form. -/
namespace QuickRelay.Protocol
open Lib

/-- `build_response` on what `parse` reads, trailers among the attributes. -/
def rebuild (crypto : Crypto) (d : Bytes) : Res Bytes := do
  let m ← parse d
  buildResponse crypto m.header.msgType.bits m.txid m.attributes none false

variable {crypto : Crypto} {txid : TransactionId} {ts us : List Tlv} {attrs : List Attribute}

/-! ### Building -/

theorem Encodes.encodable (h : Encodes txid ts attrs) : ∀ a ∈ attrs, Encodable txid a := by
  induction h with
  | nil => exact List.forall_mem_nil _
  | cons ht _ ih =>
    obtain ⟨hr, hroom, -⟩ := Attribute.toValue_eq_ok.mp ht.2
    exact List.forall_mem_cons.mpr ⟨⟨hr, hroom⟩, ih⟩

/-- A response without trailers can be built exactly if each attribute can be encoded and they
fit the length field together. -/
theorem buildResponse_isOk {ty : UInt16} : (∃ out, buildResponse crypto ty txid attrs none false = .ok out) ↔
    (∀ a ∈ attrs, Encodable txid a) ∧ wireLen txid attrs < 65536 := by
  constructor
  · rintro ⟨out, h⟩
    obtain ⟨ts, hts, hold⟩ := buildResponse_eq_ok crypto h
    rw [tagTlvs, fingerprintTlvs, if_neg (by decide), List.append_nil, List.append_nil] at hold
    exact ⟨hts.encodable, hts.length ▸ hold.1⟩
  · rintro ⟨ha, hlen⟩
    obtain ⟨out, hout, -⟩ := buildResponse_plain crypto ty ha hlen
    exact ⟨out, hout⟩

/-- What was decoded is encoded, or is too long. -/
theorem emitAll_decoded (h : List.Forall₂ (fun t a => decode txid t = .ok a) ts attrs) (out : Bytes) :
    (∃ out', emitAll txid out attrs = .ok out') ∨ ∃ e, emitAll txid out attrs = .err e ∧ e.kind = .valueTooLong := by
  induction h generalizing out with
  | nil => exact .inl ⟨out, rfl⟩
  | @cons t a ts attrs hdec _ ih =>
    obtain ⟨-, hkind⟩ := encodable_iff (Nat.le_of_lt_succ t.value_lt) hdec
    rw [emitAll, Attribute.toValue_eq]
    cases hr : a.refusal with
    | some e => exact .inr ⟨e, rfl, hkind e hr⟩
    | none =>
      dsimp only
      by_cases hroom : (a.octets txid 0).length ≤ 2048
      · rw [if_pos hroom, Outcome.ok_bind, emitAttribute, Outcome.refuse_neg (by omega)]
        exact ih _
      · rw [if_neg hroom]
        exact .inr ⟨_, rfl, rfl⟩

/-- A response to what was decoded is built, or is too long. -/
theorem buildResponse_decoded (h : List.Forall₂ (fun t a => decode txid t = .ok a) ts attrs) (ty : UInt16) :
    (∃ out, buildResponse crypto ty txid attrs none false = .ok out) ∨
      ∃ e, buildResponse crypto ty txid attrs none false = .err e ∧ (e.kind = .valueTooLong ∨ e.kind = .lengthTooLarge) := by
  by_cases hok : ∃ out, buildResponse crypto ty txid attrs none false = .ok out
  · exact .inl hok
  refine .inr ?_
  simp only [buildResponse, header_eq] at hok ⊢
  rcases emitAll_decoded h (frame ty 0 txid []) with ⟨out', hemit⟩ | ⟨e, hemit, hkind⟩
  · obtain ⟨us, -, rfl⟩ := emitAll_eq_ok hemit
    have hset := setLength_frame ty 0 txid (Tlv.encodeAll us)
    rw [hemit, Outcome.ok_bind, ← frame_append, List.nil_append] at hok ⊢
    by_cases hlen : (Tlv.encodeAll us).length < 65536
    · rw [if_pos hlen] at hset
      rw [Buffer.exec_eq_ok.mpr ⟨_, hset⟩] at hok
      exact absurd ⟨_, rfl⟩ hok
    · rw [if_neg hlen] at hset
      refine ⟨.new .lengthTooLarge, ?_, .inr rfl⟩
      rw [Buffer.exec, hset]
      rfl
  · rw [hemit]
    exact ⟨e, rfl, .inl hkind⟩

/-! ### Reading back -/

/-- The rules on an attribute list are about its codes. -/
theorem Accepts.of_codes (h : Accepts txid ts attrs) (hcodes : us.map Tlv.code = ts.map Tlv.code)
    (hdec : List.Forall₂ (fun t a => decode txid t = .ok a) us attrs) : Accepts txid us attrs := by
  have hcount : ∀ f : UInt16 → Bool, us.countP (fun t => f t.code) = ts.countP fun t => f t.code := by
    intro f
    have heq := congrArg (List.countP f) hcodes
    rwa [List.countP_map, List.countP_map] at heq
  constructor
  case decoded => exact hdec
  case required =>
    intro t ht
    obtain ⟨u, hu, heq⟩ := List.mem_map.mp (hcodes ▸ List.mem_map_of_mem ht)
    rw [← heq]
    exact h.required u hu
  case integrity => exact (hcount isIntegrityCode).trans_le h.integrity
  case fingerprint => exact (hcount isFingerprintCode).trans_le h.fingerprint
  case last =>
    rintro pre t post rfl hf
    rw [List.map_append, List.map_cons] at hcodes
    obtain ⟨pre', rest, rfl, -, hrest⟩ := List.map_eq_append_iff.mp hcodes.symm
    obtain ⟨t', post', rfl, hcode, hpost⟩ := List.map_eq_cons_iff.mp hrest
    have hf' : isFingerprint t' := by
      rw [isFingerprint, hcode]
      exact hf
    rw [h.last pre' t' post' rfl hf', List.map_nil] at hpost
    exact List.map_eq_nil_iff.mp hpost.symm

/-- A value that was decoded and encoded again decodes to the same attribute under the same
code. -/
theorem Encodes.again (h : List.Forall₂ (fun t a => decode txid t = .ok a) ts attrs) (he : Encodes txid us attrs) :
    us.map Tlv.code = ts.map Tlv.code ∧ List.Forall₂ (fun t a => decode txid t = .ok a) us attrs := by
  induction h generalizing us with
  | nil =>
    cases he
    exact ⟨rfl, .nil⟩
  | @cons t a ts attrs hdec _ ih =>
    cases he with
    | @cons u _ us _ hu hus =>
      obtain ⟨hcodes, hrest⟩ := ih hus
      have hcode : u.code = t.code := by
        rw [hu.1, attributeKind_eq hdec]
        split
        · rfl
        · exact AttrCode.asU16_attrFromWire t.code
      refine ⟨by rw [List.map_cons, List.map_cons, hcode, hcodes], .cons ?_ hrest⟩
      have hback := parse_toValue hdec hu.2
      rwa [← hu.1] at hback

/-- The values a list was decoded from fit the writer exactly if the list can be encoded. -/
theorem encodable_decoded (h : List.Forall₂ (fun t a => decode txid t = .ok a) ts attrs) :
    (∀ a ∈ attrs, Encodable txid a) ↔ ∀ t ∈ ts, FitsWriter (AttrCode.attrFromWire t.code) t.value := by
  induction h with
  | nil => exact ⟨fun _ => List.forall_mem_nil _, fun _ => List.forall_mem_nil _⟩
  | @cons t a ts attrs hdec _ ih =>
    rw [List.forall_mem_cons, List.forall_mem_cons, ih]
    exact and_congr_left' (encodable_iff (Nat.le_of_lt_succ t.value_lt) hdec).1

variable (crypto)

theorem rebuild_eq {d : Bytes} {m : Message} (h : parse d = .ok m) :
    rebuild crypto d = buildResponse crypto m.header.msgType.bits m.txid m.attributes none false := by
  rw [rebuild, h]
  rfl

theorem parse_decoded {d : Bytes} {m : Message} (h : parse d = .ok m) :
    ∃ ts, d.drop 20 = Tlv.encodeAll ts ∧ List.Forall₂ (fun t a => decode m.txid t = .ok a) ts m.attributes := by
  obtain ⟨ty, t, txid, ts, attrs, -, -, rfl, hacc, rfl⟩ := parse_eq_ok.mp h
  exact ⟨ts, frame_drop_header _ _ _ _, hacc.decoded⟩

/-- What is built again reads as the same message, with the codes in their places. -/
theorem rebuild_reads {d d' : Bytes} {m : Message} (h : parse d = .ok m) (hb : rebuild crypto d = .ok d') :
    ∃ m', parse d' = .ok m' ∧ m'.header.msgType = m.header.msgType ∧ m'.txid = m.txid ∧ m'.attributes = m.attributes ∧
      typeField d' = typeField d ∧ ∀ ts, d.drop 20 = Tlv.encodeAll ts →
        ∃ us, d'.drop 20 = Tlv.encodeAll us ∧ us.map Tlv.code = ts.map Tlv.code := by
  rw [rebuild_eq crypto h] at hb
  obtain ⟨ty, t, txid, ts, attrs, ht, -, rfl, hacc, rfl⟩ := parse_eq_ok.mp h
  obtain ⟨hbits, -, -⟩ := MessageType.bits_of_fromBits ht
  obtain ⟨us, hus, hlen, rfl⟩ := buildResponse_eq_ok crypto hb
  obtain ⟨hcodes, hdec⟩ := Encodes.again hacc.decoded hus
  rw [tagTlvs, fingerprintTlvs, if_neg (by decide), List.append_nil, List.append_nil] at hlen ⊢
  refine ⟨_, parse_eq_ok.mpr ⟨ty, t, txid, us, attrs, ht, hlen, ?_, hacc.of_codes hcodes hdec, rfl⟩, rfl, rfl, rfl, ?_, ?_⟩
  · rw [← hbits]
    rfl
  · rw [typeField_frame, typeField_frame]
    exact hbits
  · intro ts' hts'
    rw [frame_drop_header] at hts'
    obtain rfl := Tlv.encodeAll_inj hts'
    exact ⟨us, frame_drop_header _ _ _ _, hcodes⟩

/-- **Rebuilding**: an accepted datagram can be built again exactly if each of its values fits
the writer and the encoded attributes fit the length field, and is too long otherwise; the
result reads as the same message, is what it is itself built to, and is the form of no other
message. -/
theorem rebuild_normal {d : Bytes} {m : Message} (h : parse d = .ok m) :
    (∀ ts, d.drop 20 = Tlv.encodeAll ts → ((∃ d', rebuild crypto d = .ok d') ↔
      (∀ t ∈ ts, FitsWriter (AttrCode.attrFromWire t.code) t.value) ∧ wireLen m.txid m.attributes < 65536)) ∧
    ((∃ d', rebuild crypto d = .ok d') ∨
      ∃ e, rebuild crypto d = .err e ∧ (e.kind = .valueTooLong ∨ e.kind = .lengthTooLarge)) ∧
    ∀ d', rebuild crypto d = .ok d' →
      (∃ m', parse d' = .ok m' ∧ m'.header.msgType = m.header.msgType ∧ m'.txid = m.txid ∧ m'.attributes = m.attributes ∧
        typeField d' = typeField d ∧ ∀ ts, d.drop 20 = Tlv.encodeAll ts →
          ∃ us, d'.drop 20 = Tlv.encodeAll us ∧ us.map Tlv.code = ts.map Tlv.code) ∧
      rebuild crypto d' = .ok d' ∧
      ∀ e n, parse e = .ok n → (rebuild crypto e = .ok d' ↔
        n.header.msgType = m.header.msgType ∧ n.txid = m.txid ∧ n.attributes = m.attributes) := by
  have hsame : ∀ e n, parse e = .ok n → n.header.msgType = m.header.msgType → n.txid = m.txid → n.attributes = m.attributes →
      rebuild crypto e = rebuild crypto d := by
    intro e n hn htype htxid hattrs
    rw [rebuild_eq crypto hn, rebuild_eq crypto h, htype, htxid, hattrs]
  obtain ⟨us, hus, hdec⟩ := parse_decoded h
  refine ⟨fun ts hts => ?_, ?_, fun d' hb => ?_⟩
  · obtain rfl := Tlv.encodeAll_inj (hus.symm.trans hts)
    rw [rebuild_eq crypto h, buildResponse_isOk, encodable_decoded hdec]
  · rw [rebuild_eq crypto h]
    exact buildResponse_decoded hdec _
  · obtain ⟨m', hm', htype, htxid, hattrs, -⟩ := rebuild_reads crypto h hb
    refine ⟨rebuild_reads crypto h hb, (hsame d' m' hm' htype htxid hattrs).trans hb, fun e n hn => ⟨fun he => ?_, fun hall => ?_⟩⟩
    · obtain ⟨n', hn', htype', htxid', hattrs', -⟩ := rebuild_reads crypto hn he
      obtain rfl : m' = n' := Outcome.ok.inj (hm'.symm.trans hn')
      exact ⟨htype'.symm.trans htype, htxid'.symm.trans htxid, hattrs'.symm.trans hattrs⟩
    · rw [hsame e n hn hall.1 hall.2.1 hall.2.2, hb]

/-- A Binding request from "a" with something in the padding, and with nothing there. -/
def paddedRequest : Bytes :=
  [0x00, 0x01, 0x00, 0x08, 0x21, 0x12, 0xA4, 0x42, 0, 0, 0, 0, 0, 0, 0, 0, 0, 0, 0, 0, 0x00, 0x06, 0x00, 0x01, 0x61, 1, 2, 3]

def unpaddedRequest : Bytes :=
  [0x00, 0x01, 0x00, 0x08, 0x21, 0x12, 0xA4, 0x42, 0, 0, 0, 0, 0, 0, 0, 0, 0, 0, 0, 0, 0x00, 0x06, 0x00, 0x01, 0x61, 0, 0, 0]

theorem letter_lt : ([0x61] : Bytes).length < 65536 := by decide

theorem letter_padded : ([1, 2, 3] : Bytes).length = padding ([0x61] : Bytes).length := by decide

def paddedTlv : Tlv := ⟨0x0006, [0x61], [1, 2, 3], letter_lt, letter_padded⟩

theorem parse_paddedRequest : parse paddedRequest =
    .ok (messageOf .bindingRequest ⟨zeros 12, zeros_length 12⟩ paddedRequest [paddedTlv] [.username "a"]) := by decide +kernel

theorem unpadded_normal : rebuild signedResponseCrypto unpaddedRequest = .ok unpaddedRequest := by
  have hbuilt : rebuild signedResponseCrypto paddedRequest = .ok unpaddedRequest := by decide +kernel
  exact ((rebuild_normal signedResponseCrypto parse_paddedRequest).2.2 unpaddedRequest hbuilt).2.1

end QuickRelay.Protocol
