import Mathlib.Data.List.Forall2
import QuickRelay.Protocol.Offsets
import QuickRelay.Protocol.Trailers

/-! A built response parses back to its parts, and its trailers verify. -/
namespace QuickRelay.Protocol
open Lib

/-! ### The encoder, as frames -/

/-- The attribute list an encoder writes for a list of attributes. -/
def Encodes (txid : TransactionId) (ts : List Tlv) (attrs : List Attribute) : Prop :=
  List.Forall₂ (fun t a => t.code = (attributeKind a).asU16 ∧ a.toValue txid = .ok t.value) ts attrs

private theorem emitAttribute_eq_ok {out out' value : Bytes} {kind : AttributeKind}
    (h : emitAttribute out kind value = .ok out') :
    ∃ t : Tlv, t.code = kind.asU16 ∧ t.value = value ∧ out' = out ++ t.encode := by
  rw [emitAttribute, Outcome.refuse_bind_eq_ok] at h
  obtain ⟨hl, h⟩ := h
  cases h
  exact ⟨⟨kind.asU16, value, zeros (padLen value.length), by omega, zeros_length _⟩, rfl, rfl, rfl⟩

theorem emitAll_eq_ok {txid : TransactionId} {out out' : Bytes} {attrs : List Attribute}
    (h : emitAll txid out attrs = .ok out') : ∃ ts, Encodes txid ts attrs ∧ out' = out ++ Tlv.encodeAll ts := by
  induction attrs generalizing out with
  | nil =>
    cases h
    exact ⟨[], .nil, by simp⟩
  | cons a attrs ih =>
    simp only [emitAll, Outcome.bind_eq_ok] at h
    obtain ⟨v, hv, out1, h1, h⟩ := h
    obtain ⟨t, hc, rfl, rfl⟩ := emitAttribute_eq_ok h1
    obtain ⟨ts, hts, rfl⟩ := ih h
    exact ⟨t :: ts, .cons ⟨hc, hv⟩ hts, by simp⟩

theorem setLength_frame (ty len : UInt16) (txid : TransactionId) (body : Bytes) :
    setLength (frame ty len txid body) = if body.length < 65536
      then (.ok (), frame ty (UInt16.ofNat body.length) txid body)
      else (.err (.new .lengthTooLarge), frame ty len txid body) := by
  rw [setLength, Buffer.bind_run_ok (Buffer.len_run _), Buffer.refuse_bind_run, frame_length, headerLen]
  by_cases h : body.length < 65536
  · obtain ⟨a, b, hab, -⟩ := u16ToBe_eq ty
    obtain ⟨c, d, hcd, -⟩ := u16ToBe_eq len
    rw [if_pos h, if_neg (by omega), lengthOffset, Buffer.copy_run (by decide) (by simp; omega) (by simp)]
    simp [frame, hab, hcd]
  · rw [if_neg h, if_pos (by omega)]

/-! ### The trailers -/

variable (crypto : Crypto)

private theorem readU16_length_frame (ty len : UInt16) (txid : TransactionId) (body : Bytes) :
    (readU16 (frame ty len txid body) 2 : Res UInt16) = .ok len := by
  have := readU16_append (ε := Error) (u16ToBe ty) (u32ToBe magicCookie ++ (txid.val ++ body)) len
  rwa [u16ToBe_length] at this

private theorem take_frame (ty len : UInt16) (txid : TransactionId) (body rest : Bytes) :
    (frame ty len txid (body ++ rest)).take (20 + body.length) = frame ty len txid body := by
  rw [frame_append, List.take_left' (frame_length _ _ _ _)]

/-- The value octets behind an attribute header. -/
private theorem value_frame (ty len : UInt16) (txid : TransactionId) (body value rest : Bytes) {hdr : Bytes} (hh : hdr.length = 4) :
    ((frame ty len txid (body ++ (hdr ++ (value ++ rest)))).drop (20 + body.length + 4)).take value.length = value := by
  have hl : (frame ty len txid (body ++ hdr)).length = 20 + body.length + 4 := by
    rw [frame_length, List.length_append, hh, Nat.add_assoc]
  rw [← List.append_assoc body, frame_append, List.drop_left' hl, List.take_left]

/-- Other value octets behind the same header. -/
private theorem overwritten_frame (ty len : UInt16) (txid : TransactionId) (body old value : Bytes) {hdr : Bytes} (hh : hdr.length = 4) :
    (frame ty len txid (body ++ (hdr ++ old))).take (20 + body.length + 4) ++ value ++
      (frame ty len txid (body ++ (hdr ++ old))).drop (20 + body.length + 4 + old.length) =
    frame ty len txid (body ++ (hdr ++ value)) := by
  have hl : (frame ty len txid (body ++ hdr)).length = 20 + body.length + 4 := by
    rw [frame_length, List.length_append, hh, Nat.add_assoc]
  rw [← List.append_assoc body, frame_append, List.take_left' hl, List.drop_eq_nil_of_le (by rw [List.length_append, hl]),
    List.append_nil, ← frame_append, List.append_assoc]

/-- The MAC input is the frame around what precedes the integrity attribute, with a
length field that ends after that attribute. -/
theorem macInput_frame (ty : UInt16) (txid : TransactionId) {len : UInt16} (body rest : Bytes) {n : Nat}
    (hlen : len.toNat = (body ++ rest).length) (hn : 4 + n ≤ rest.length) :
    Integrity.macInput (frame ty len txid (body ++ rest)) (20 + body.length) n =
      .ok (frame ty (UInt16.ofNat (body.length + 4 + n)) txid body) := by
  have hfield : 20 + body.length + 4 + n - headerLen = body.length + 4 + n := by rw [headerLen]; omega
  obtain ⟨a, b, hab, -⟩ := u16ToBe_eq ty
  obtain ⟨c, d, hcd, -⟩ := u16ToBe_eq len
  rw [Integrity.macInput_run (Nat.le_add_right _ _) (by simp; omega) (readU16_length_frame _ _ _ _)
    (by rw [hlen, frame_length]; omega), take_frame, hfield]
  simp [frame, hab, hcd]

/-- The tag goes over the zeros that were reserved for it. -/
theorem compute_frame (ty : UInt16) (txid : TransactionId) {len : UInt16} {body : Bytes} (hdr : Bytes)
    {algorithm : IntegrityAlgorithm} (key : Bytes) (hlen : len.toNat = body.length + 4 + algorithm.macLen) (hh : hdr.length = 4) :
    ∃ tag, Integrity.compute crypto (20 + body.length) algorithm key
        (frame ty len txid (body ++ (hdr ++ zeros algorithm.macLen))) =
      (.ok tag, frame ty len txid (body ++ (hdr ++ mac crypto algorithm key
        (frame ty (UInt16.ofNat (body.length + 4 + algorithm.macLen)) txid body)))) := by
  have hfield : len.toNat = (body ++ (hdr ++ zeros algorithm.macLen)).length := by simp [hh]; omega
  have hin := macInput_frame ty txid body (hdr ++ zeros algorithm.macLen) (n := algorithm.macLen) hfield (by simp [hh])
  obtain ⟨tag, htag⟩ := Integrity.compute_run crypto key hin
  have hover := overwritten_frame ty len txid body (zeros algorithm.macLen) (mac crypto algorithm key
    (frame ty (UInt16.ofNat (body.length + 4 + algorithm.macLen)) txid body)) hh
  rw [zeros_length] at hover
  exact ⟨tag, htag.trans (congrArg (Prod.mk _) hover)⟩

/-- A tag of full length verifies if it is the MAC, whatever was appended behind it: the MAC
input does not reach past the attribute, and its length field ends there. -/
theorem verify_frame_iff {ty len : UInt16} {txid : TransactionId} {body hdr rest tag : Bytes}
    {algorithm : IntegrityAlgorithm} (key : Bytes) (hh : hdr.length = 4) (htl : tag.length = algorithm.macLen)
    (hlen : len.toNat = (body ++ (hdr ++ (tag ++ rest))).length) :
    Integrity.verify crypto (frame ty len txid (body ++ (hdr ++ (tag ++ rest)))) (20 + body.length) algorithm key =
      .ok () ↔ mac crypto algorithm key (frame ty (UInt16.ofNat (body.length + 4 + algorithm.macLen)) txid body) = tag := by
  have hin := macInput_frame ty txid body (hdr ++ (tag ++ rest)) (n := algorithm.macLen) hlen (by simp [hh, htl])
  rw [Integrity.verify_run crypto key hin, ← htl, value_frame ty len txid body tag rest hh, Outcome.refuse_eq_ok, ne_eq, not_not]

theorem verify_frame {ty len : UInt16} {txid : TransactionId} {body hdr rest tag : Bytes}
    {algorithm : IntegrityAlgorithm} (key : Bytes) (hh : hdr.length = 4)
    (ht : tag = mac crypto algorithm key (frame ty (UInt16.ofNat (body.length + 4 + algorithm.macLen)) txid body))
    (hlen : len.toNat = (body ++ (hdr ++ (tag ++ rest))).length) :
    Integrity.verify crypto (frame ty len txid (body ++ (hdr ++ (tag ++ rest)))) (20 + body.length) algorithm key =
      .ok () :=
  (verify_frame_iff crypto key hh (by rw [ht, mac_length]) hlen).mpr ht.symm

private theorem check_frame (ty len : UInt16) (txid : TransactionId) (body rest : Bytes)
    (hlen : len.toNat = (body ++ rest).length) (hr : 8 ≤ rest.length) :
    Fingerprint.check (frame ty len txid (body ++ rest)) (20 + body.length) = .ok () :=
  Fingerprint.check_eq_ok.mpr ⟨Nat.le_add_right _ _, by simp; omega, len, readU16_length_frame _ _ _ _,
    by rw [hlen, frame_length]; omega⟩

theorem fingerprint_compute_frame (ty : UInt16) (txid : TransactionId) {len : UInt16} {body : Bytes} (hdr : Bytes)
    (hlen : len.toNat = body.length + 8) (hh : hdr.length = 4) :
    ∃ v, Fingerprint.compute crypto (20 + body.length) (frame ty len txid (body ++ (hdr ++ zeros 4))) =
      (.ok v, frame ty len txid (body ++ (hdr ++ u32ToBe (Fingerprint.overOctets crypto (frame ty len txid body))))) := by
  have hc := check_frame ty len txid body (hdr ++ zeros 4) (by simp [hh]; omega) (by simp [hh])
  have hrun := Fingerprint.compute_run crypto hc
  rw [take_frame] at hrun
  exact ⟨_, hrun.trans (congrArg (Prod.mk _) (overwritten_frame ty len txid body (zeros 4) _ hh))⟩

theorem fingerprint_verify_frame {ty len : UInt16} {txid : TransactionId} {body hdr value : Bytes}
    (hh : hdr.length = 4) (hv : value = u32ToBe (Fingerprint.overOctets crypto (frame ty len txid body)))
    (hlen : len.toNat = body.length + 8) :
    Fingerprint.verify crypto (frame ty len txid (body ++ (hdr ++ value))) (20 + body.length) = .ok () := by
  have h4 : value.length = 4 := by rw [hv, u32ToBe_length]
  have hc := check_frame ty len txid body (hdr ++ value) (by simp [hh, h4]; omega) (by simp [hh, h4])
  obtain ⟨stored, hs, hrun⟩ := Fingerprint.verify_run crypto hc
  have hvalue := value_frame ty len txid body value [] hh
  rw [List.append_nil, h4, hs, hv] at hvalue
  rw [hrun, take_frame, Outcome.refuse_neg (not_not.mpr (u32ToBe_inj hvalue.symm))]

/-! ### Whole responses -/

/-- The integrity attribute behind a body. -/
def integrityTlv (algorithm : IntegrityAlgorithm) (key msg : Bytes) : Tlv where
  code := algorithm.attributeCode
  value := mac crypto algorithm key msg
  pad := []
  value_lt := by rw [mac_length]; cases algorithm <;> decide
  pad_length := by rw [mac_length]; cases algorithm <;> rfl

/-- The FINGERPRINT attribute behind a message. -/
def fingerprintTlv (msg : Bytes) : Tlv where
  code := fingerprintCode
  value := u32ToBe (Fingerprint.overOctets crypto msg)
  pad := []
  value_lt := by rw [u32ToBe_length]; decide
  pad_length := by rw [u32ToBe_length]; rfl

theorem appendTrailer_eq_ok {α : Type} {ty len : UInt16} {txid : TransactionId} {body out : Bytes} {value : UInt16 → Bytes}
    {code : UInt16} {n : Nat} {fill : Nat → Buffer Error α}
    (hfill : ∀ len : UInt16, len.toNat = body.length + 4 + n → ∃ a,
      fill (20 + body.length) (frame ty len txid (body ++ ((u16ToBe code ++ u16ToBe (UInt16.ofNat n)) ++ zeros n))) =
        (.ok a, frame ty len txid (body ++ ((u16ToBe code ++ u16ToBe (UInt16.ofNat n)) ++ value len))))
    (h : appendTrailer (frame ty len txid body) code n fill = .ok out) : body.length + 4 + n < 65536 ∧
      out = frame ty (UInt16.ofNat (body.length + 4 + n)) txid
        (body ++ ((u16ToBe code ++ u16ToBe (UInt16.ofNat n)) ++ value (UInt16.ofNat (body.length + 4 + n)))) := by
  have happ : frame ty len txid body ++ (u16ToBe code ++ (u16ToBe (UInt16.ofNat n) ++ zeros n)) =
      frame ty len txid (body ++ ((u16ToBe code ++ u16ToBe (UInt16.ofNat n)) ++ zeros n)) := by
    rw [← frame_append, List.append_assoc (u16ToBe code)]
  have hl : (body ++ ((u16ToBe code ++ u16ToBe (UInt16.ofNat n)) ++ zeros n)).length = body.length + 4 + n := by
    simp; omega
  obtain ⟨u, h⟩ := Buffer.exec_eq_ok.mp h
  rw [happ, Buffer.bind_run, setLength_frame, hl, frame_length] at h
  by_cases hb : body.length + 4 + n < 65536
  · obtain ⟨a, ha⟩ := hfill (UInt16.ofNat (body.length + 4 + n)) (by rw [UInt16.toNat_ofNat', Nat.mod_eq_of_lt hb])
    rw [if_pos hb] at h
    simp only [Buffer.bind_run_ok ha, Buffer.pure_run] at h
    cases h
    exact ⟨hb, rfl⟩
  · rw [if_neg hb] at h
    cases h

/-- The integrity attribute that a key asks for behind the attributes `ts`. -/
def tagTlvs (ty : UInt16) (txid : TransactionId) (ts : List Tlv) : Option (Bytes × IntegrityAlgorithm) → List Tlv
  | some (key, algorithm) => [integrityTlv crypto algorithm key
      (frame ty (UInt16.ofNat ((Tlv.encodeAll ts).length + 4 + algorithm.macLen)) txid (Tlv.encodeAll ts))]
  | none => []

/-- The FINGERPRINT that is asked for behind the attributes `ts`. -/
def fingerprintTlvs (ty : UInt16) (txid : TransactionId) (ts : List Tlv) (fingerprint : Bool) : List Tlv :=
  if fingerprint then
    [fingerprintTlv crypto (frame ty (UInt16.ofNat ((Tlv.encodeAll ts).length + 8)) txid (Tlv.encodeAll ts))]
  else []

/-- A datagram that holds exactly the attributes `ts`, with a right length field. -/
def Holds (ty : UInt16) (txid : TransactionId) (ts : List Tlv) (out : Bytes) : Prop :=
  (Tlv.encodeAll ts).length < 65536 ∧
    out = frame ty (UInt16.ofNat (Tlv.encodeAll ts).length) txid (Tlv.encodeAll ts)

private theorem appendTrailer_holds {α : Type} {ty : UInt16} {txid : TransactionId} {ts : List Tlv} {out out1 : Bytes}
    {n : Nat} {fill : Nat → Buffer Error α} {t : Tlv} (h : Holds ty txid ts out) (hn : t.value.length = n)
    (hp : t.pad = [])
    (hfill : ∀ len : UInt16, len.toNat = (Tlv.encodeAll ts).length + 4 + n → ∃ a, fill (20 + (Tlv.encodeAll ts).length)
      (frame ty len txid (Tlv.encodeAll ts ++ ((u16ToBe t.code ++ u16ToBe (UInt16.ofNat n)) ++ zeros n))) = (.ok a,
        frame ty len txid (Tlv.encodeAll ts ++ ((u16ToBe t.code ++ u16ToBe (UInt16.ofNat n)) ++ t.value))))
    (h1 : appendTrailer out t.code n fill = .ok out1) : Holds ty txid (ts ++ [t]) out1 := by
  obtain ⟨hb, rfl⟩ := h
  obtain ⟨hb1, rfl⟩ := appendTrailer_eq_ok hfill h1
  have henc : t.encode = (u16ToBe t.code ++ u16ToBe (UInt16.ofNat n)) ++ t.value := by
    rw [Tlv.encode, hn, hp, List.append_nil, List.append_assoc]
  have hl : (Tlv.encodeAll (ts ++ [t])).length = (Tlv.encodeAll ts).length + 4 + n := by
    simp [henc, hn]; omega
  exact ⟨hl ▸ hb1, by rw [hl, Tlv.encodeAll_append, Tlv.encodeAll_cons, Tlv.encodeAll_nil, List.append_nil, henc]⟩

/-- The header that `build_response` begins with is a frame around nothing. -/
theorem header_eq (ty : UInt16) (txid : TransactionId) :
    u16ToBe ty ++ (u16ToBe 0 ++ (u32ToBe magicCookie ++ txid.val)) = frame ty 0 txid [] := by
  rw [frame, List.append_nil]

theorem appendIntegrity_holds {ty : UInt16} {txid : TransactionId} {ts : List Tlv} {out out1 : Bytes}
    {key : Option (Bytes × IntegrityAlgorithm)} (h : Holds ty txid ts out)
    (h1 : appendIntegrity crypto out key = .ok out1) : Holds ty txid (ts ++ tagTlvs crypto ty txid ts key) out1 := by
  cases key with
  | none =>
    cases h1
    rwa [tagTlvs, List.append_nil]
  | some k =>
    obtain ⟨k, algorithm⟩ := k
    obtain ⟨t, ht⟩ : ∃ t, t = integrityTlv crypto algorithm k
      (frame ty (UInt16.ofNat ((Tlv.encodeAll ts).length + 4 + algorithm.macLen)) txid (Tlv.encodeAll ts)) := ⟨_, rfl⟩
    rw [tagTlvs, ← ht]
    have h1 : (appendTrailer out t.code algorithm.macLen fun at_ => Integrity.compute crypto at_ algorithm k) = .ok out1 :=
      ht ▸ h1
    refine appendTrailer_holds h (by rw [ht]; exact mac_length crypto algorithm k _) (by rw [ht]; rfl) ?_ h1
    intro len hlen
    have := compute_frame crypto ty txid (u16ToBe algorithm.attributeCode ++ u16ToBe (UInt16.ofNat algorithm.macLen)) k
      hlen (by simp)
    rw [ht]
    exact this

theorem appendFingerprint_holds {ty : UInt16} {txid : TransactionId} {ts : List Tlv} {out out1 : Bytes}
    {fingerprint : Bool} (h : Holds ty txid ts out) (h1 : appendFingerprint crypto out fingerprint = .ok out1) :
    Holds ty txid (ts ++ fingerprintTlvs crypto ty txid ts fingerprint) out1 := by
  cases fingerprint with
  | false =>
    cases h1
    rwa [fingerprintTlvs, if_neg (by decide), List.append_nil]
  | true =>
    rw [appendFingerprint, if_pos rfl] at h1
    obtain ⟨t, ht⟩ : ∃ t, t = fingerprintTlv crypto
      (frame ty (UInt16.ofNat ((Tlv.encodeAll ts).length + 8)) txid (Tlv.encodeAll ts)) := ⟨_, rfl⟩
    rw [fingerprintTlvs, if_pos rfl, ← ht]
    have h1 : (appendTrailer out t.code 4 fun at_ => Fingerprint.compute crypto at_) = .ok out1 := ht ▸ h1
    refine appendTrailer_holds h (by rw [ht]; exact u32ToBe_length _) (by rw [ht]; rfl) ?_ h1
    intro len hlen
    obtain rfl : len = UInt16.ofNat ((Tlv.encodeAll ts).length + 8) := by
      rw [← UInt16.ofNat_toNat (x := len), hlen]
    have := fingerprint_compute_frame crypto ty txid (u16ToBe fingerprintCode ++ u16ToBe (UInt16.ofNat 4)) hlen (by simp)
    rw [ht]
    exact this

/-- A built response is the encoded attributes, the tag over them and the checksum
over both. -/
theorem buildResponse_eq_ok {ty : UInt16} {txid : TransactionId} {attrs : List Attribute}
    {key : Option (Bytes × IntegrityAlgorithm)} {fingerprint : Bool} {out : Bytes}
    (h : buildResponse crypto ty txid attrs key fingerprint = .ok out) : ∃ ts, Encodes txid ts attrs ∧
      Holds ty txid (ts ++ tagTlvs crypto ty txid ts key ++
        fingerprintTlvs crypto ty txid (ts ++ tagTlvs crypto ty txid ts key) fingerprint) out := by
  simp only [buildResponse, header_eq, Outcome.bind_eq_ok] at h
  obtain ⟨out1, h1, out2, h2, out3, h3, h4⟩ := h
  obtain ⟨ts, hts, rfl⟩ := emitAll_eq_ok h1
  obtain ⟨u, h2⟩ := Buffer.exec_eq_ok.mp h2
  rw [← frame_append, List.nil_append, setLength_frame] at h2
  have hold : Holds ty txid ts out2 := by
    by_cases hb : (Tlv.encodeAll ts).length < 65536
    · rw [if_pos hb] at h2
      cases h2
      exact ⟨hb, rfl⟩
    · rw [if_neg hb] at h2
      cases h2
  exact ⟨ts, hts, appendFingerprint_holds crypto (appendIntegrity_holds crypto hold h3) h4⟩

/-! ### Reading a response back -/

/-- An attribute that some value decodes to under its own code, neither a trailer nor
one whose receiver must reject it. -/
def Sendable (txid : TransactionId) (a : Attribute) : Prop :=
  (∃ v, parseAttributeValue (AttrCode.attrFromWire (attributeKind a).asU16) v txid = .ok a) ∧
    ¬ isTrailerOnly (attributeKind a) ∧ ¬ UnregisteredRequired (attributeKind a).asU16

def tagAttribute (algorithm : IntegrityAlgorithm) (key msg : Bytes) : Attribute :=
  match algorithm with
  | .sha1 => .messageIntegrity (crypto.hmacSha1 key msg)
  | .sha256 => .messageIntegritySha256 (crypto.hmacSha256 key msg)

theorem decode_integrityTlv (txid : TransactionId) (algorithm : IntegrityAlgorithm) (key msg : Bytes) :
    decode txid (integrityTlv crypto algorithm key msg) = .ok (tagAttribute crypto algorithm key msg) := by
  cases algorithm with
  | sha1 =>
    change parseAttributeValue (.known .messageIntegrity) ((crypto.hmacSha1 key msg).val.take 20) txid = _
    rw [List.take_of_length_le (crypto.hmacSha1 key msg).property.le, parseAttributeValue, exactOctets_eq_ok.mpr rfl]
    rfl
  | sha256 =>
    have hl : LegalSha256Len (crypto.hmacSha256 key msg).val.length := by
      rw [(crypto.hmacSha256 key msg).property]; decide
    change parseAttributeValue (.known .messageIntegritySha256) ((crypto.hmacSha256 key msg).val.take 32) txid = _
    rw [List.take_of_length_le (crypto.hmacSha256 key msg).property.le, parse_messageIntegritySha256 txid hl]
    congr 2
    exact Subtype.ext (by simp [sha256Tag, zeros, (crypto.hmacSha256 key msg).property])

theorem decode_fingerprintTlv (txid : TransactionId) (msg : Bytes) :
    decode txid (fingerprintTlv crypto msg) = .ok (.fingerprint (Fingerprint.overOctets crypto msg)) := by
  change parseAttributeValue (.known .fingerprint) (u32ToBe _) txid = _
  rw [parseAttributeValue, exactU32_eq_ok.mpr rfl]
  rfl

theorem Encodes.decoded {txid : TransactionId} {ts : List Tlv} {attrs : List Attribute} (h : Encodes txid ts attrs)
    (ha : ∀ a ∈ attrs, Sendable txid a) : List.Forall₂ (fun t a => decode txid t = .ok a) ts attrs := by
  induction h with
  | nil => exact .nil
  | @cons t a ts attrs ht _ ih =>
    obtain ⟨hc, hv⟩ := ht
    obtain ⟨v, hp⟩ := (ha a (by simp)).1
    refine .cons ?_ (ih fun b hb => ha b (by simp [hb]))
    rw [decode, hc]
    exact parse_toValue hp hv

/-- No attribute that a sender may ask for looks like a trailer. -/
theorem Encodes.ordinary {txid : TransactionId} {ts : List Tlv} {attrs : List Attribute} (h : Encodes txid ts attrs)
    (ha : ∀ a ∈ attrs, Sendable txid a) :
    ∀ t ∈ ts, isIntegrity t = false ∧ isFingerprint t = false ∧ ¬ UnregisteredRequired t.code := by
  induction h with
  | nil => simp
  | @cons t a ts attrs ht _ ih =>
    obtain ⟨hc, hv⟩ := ht
    obtain ⟨⟨v, hp⟩, htr, hreq⟩ := ha a (by simp)
    have hd : decode txid t = .ok a := by
      rw [decode, hc]
      exact parse_toValue hp hv
    rw [isTrailerOnly_eq hd, not_or, Bool.not_eq_true, Bool.not_eq_true] at htr
    intro u hu
    rcases List.mem_cons.mp hu with rfl | hu
    · exact ⟨htr.1, htr.2, hc ▸ hreq⟩
    · exact ih (fun b hb => ha b (by simp [hb])) u hu

private theorem required_of_trailer {t : Tlv} (h : isIntegrity t ∨ isFingerprint t) : ¬ UnregisteredRequired t.code := by
  rintro ⟨hu, -⟩
  obtain ⟨hi, hf⟩ := not_trailer_of_unknown hu
  rcases h with h | h
  · rw [isIntegrity, hi] at h; cases h
  · rw [isFingerprint, hf] at h; cases h

/-- Ordinary attributes, at most one integrity attribute, at most one FINGERPRINT. -/
theorem accepts_trailers {txid : TransactionId} {ts tags fps : List Tlv} {attrs tagAttrs fpAttrs : List Attribute}
    (hts : List.Forall₂ (fun t a => decode txid t = .ok a) ts attrs)
    (htags : List.Forall₂ (fun t a => decode txid t = .ok a) tags tagAttrs)
    (hfps : List.Forall₂ (fun t a => decode txid t = .ok a) fps fpAttrs)
    (ho : ∀ t ∈ ts, isIntegrity t = false ∧ isFingerprint t = false ∧ ¬ UnregisteredRequired t.code)
    (ht : ∀ t ∈ tags, isIntegrity t = true ∧ isFingerprint t = false) (hf : ∀ t ∈ fps, isIntegrity t = false ∧ isFingerprint t = true)
    (ht1 : tags.length ≤ 1) (hf1 : fps.length ≤ 1) :
    Accepts txid (ts ++ tags ++ fps) (attrs ++ tagAttrs ++ fpAttrs) where
  decoded := List.rel_append (List.rel_append hts htags) hfps
  required := by
    intro t h
    simp only [List.mem_append] at h
    rcases h with (h | h) | h
    · exact (ho t h).2.2
    · exact required_of_trailer (.inl (ht t h).1)
    · exact required_of_trailer (.inr (hf t h).2)
  integrity := by
    have h1 : ts.countP isIntegrity = 0 := List.countP_eq_zero.mpr fun t h => by simp [(ho t h).1]
    have h2 : fps.countP isIntegrity = 0 := List.countP_eq_zero.mpr fun t h => by simp [(hf t h).1]
    have h3 := tags.countP_le_length (p := isIntegrity)
    rw [List.countP_append, List.countP_append]
    omega
  fingerprint := by
    have h1 : ts.countP isFingerprint = 0 := List.countP_eq_zero.mpr fun t h => by simp [(ho t h).2.1]
    have h2 : tags.countP isFingerprint = 0 := List.countP_eq_zero.mpr fun t h => by simp [(ht t h).2]
    have h3 := fps.countP_le_length (p := isFingerprint)
    rw [List.countP_append, List.countP_append]
    omega
  last := by
    intro pre t post h hft
    rcases List.eq_nil_or_concat post with rfl | ⟨post, u, rfl⟩
    · rfl
    -- an attribute before the last one is not a FINGERPRINT
    have hmem : ∀ init : List Tlv, ∀ f, init ++ [f] = pre ++ t :: (post ++ [u]) → t ∈ init := by
      intro init f hcut
      have : init ++ [f] = (pre ++ t :: post) ++ [u] := by rw [hcut]; simp
      obtain ⟨rfl, -⟩ := List.append_inj' this rfl
      simp
    rw [List.concat_eq_append] at h
    exfalso
    rcases fps with _ | ⟨f, _ | ⟨g, fps⟩⟩
    · have hin : t ∈ ts ++ tags := by rw [List.append_nil] at h; rw [h]; simp
      rcases List.mem_append.mp hin with hin | hin
      · rw [(ho t hin).2.1] at hft; cases hft
      · rw [(ht t hin).2] at hft; cases hft
    · rcases List.mem_append.mp (hmem _ f h) with hin | hin
      · rw [(ho t hin).2.1] at hft; cases hft
      · rw [(ht t hin).2] at hft; cases hft
    · simp at hf1

def fingerprintAttributes (out : Bytes) (fingerprint : Bool) : List Attribute :=
  if fingerprint then [.fingerprint (Fingerprint.overOctets crypto (out.take (out.length - 8)))] else []

/-- Where the integrity attribute of a built datagram starts. -/
def tagOffset (out : Bytes) (algorithm : IntegrityAlgorithm) (fingerprint : Bool) : Nat :=
  out.length - (if fingerprint then 8 else 0) - (4 + algorithm.macLen)

/-- What a built datagram reads back as. -/
structure ReadsBack (t : MessageType) (txid : TransactionId) (attrs : List Attribute)
    (key : Option (Bytes × IntegrityAlgorithm)) (fingerprint : Bool) (out : Bytes) (m : Message) : Prop where
  msgType : m.header.msgType = .fromMethodAndClass t.method.bits t.cls
  bits : m.header.msgType.bits = t.bits
  txid : m.txid = txid
  tagged : ∀ k algorithm, key = some (k, algorithm) → ∃ input,
    Integrity.macInput out (tagOffset out algorithm fingerprint) algorithm.macLen = .ok input ∧
    m.attributes = attrs ++ [tagAttribute crypto algorithm k input] ++ fingerprintAttributes crypto out fingerprint ∧
    m.integrityLocation = some ⟨tagOffset out algorithm fingerprint, algorithm.attributeCode, algorithm.macLen⟩ ∧
    Integrity.verify crypto out (tagOffset out algorithm fingerprint) algorithm k = .ok ()
  untagged : key = none → m.attributes = attrs ++ fingerprintAttributes crypto out fingerprint ∧ m.integrityLocation = none
  checked : fingerprint → m.fingerprintOffset = some (out.length - 8) ∧
    Fingerprint.verify crypto out (out.length - 8) = .ok ()
  unchecked : ¬ fingerprint → m.fingerprintOffset = none

theorem fingerprintTlvs_length (ty : UInt16) (txid : TransactionId) (ts : List Tlv) (fingerprint : Bool) :
    (Tlv.encodeAll (fingerprintTlvs crypto ty txid ts fingerprint)).length = if fingerprint then 8 else 0 := by
  cases fingerprint with
  | false => rfl
  | true =>
    rw [fingerprintTlvs, if_pos rfl, if_pos rfl, Tlv.encodeAll_cons, Tlv.encodeAll_nil, List.append_nil, Tlv.encode_length]
    simp [fingerprintTlv, padding]

private theorem holds_length {ty : UInt16} {txid : TransactionId} {ts : List Tlv} {out : Bytes}
    (h : Holds ty txid ts out) : out.length = 20 + (Tlv.encodeAll ts).length := by
  rw [h.2, frame_length]

/-- The checksum at the end of a datagram, as its readers see it. -/
theorem fingerprint_reads {ty : UInt16} {txid : TransactionId} {ts : List Tlv} {out : Bytes}
    (h : Holds ty txid (ts ++ fingerprintTlvs crypto ty txid ts true) out) :
    out.length - 8 = 20 + (Tlv.encodeAll ts).length ∧
      fingerprintTlvs crypto ty txid ts true = [fingerprintTlv crypto (out.take (out.length - 8))] ∧
      Fingerprint.verify crypto out (out.length - 8) = .ok () := by
  have hl := fingerprintTlvs_length crypto ty txid ts true
  have hlen := holds_length h
  obtain ⟨hb, rfl⟩ := h
  rw [Tlv.encodeAll_append, List.length_append, hl, if_pos rfl] at hb hlen ⊢
  have hoff : 20 + ((Tlv.encodeAll ts).length + 8) - 8 = 20 + (Tlv.encodeAll ts).length := by omega
  have ht : (frame ty (UInt16.ofNat ((Tlv.encodeAll ts).length + 8)) txid
      (Tlv.encodeAll ts ++ Tlv.encodeAll (fingerprintTlvs crypto ty txid ts true))).take (20 + (Tlv.encodeAll ts).length) =
        frame ty (UInt16.ofNat ((Tlv.encodeAll ts).length + 8)) txid (Tlv.encodeAll ts) := by
    rw [frame_append, List.take_left' (frame_length _ _ _ _)]
  rw [hlen, hoff, ht]
  refine ⟨rfl, rfl, ?_⟩
  have henc : Tlv.encodeAll (fingerprintTlvs crypto ty txid ts true) = (u16ToBe fingerprintCode ++ u16ToBe (UInt16.ofNat 4)) ++
      u32ToBe (Fingerprint.overOctets crypto
        (frame ty (UInt16.ofNat ((Tlv.encodeAll ts).length + 8)) txid (Tlv.encodeAll ts))) := by
    simp [fingerprintTlvs, fingerprintTlv, Tlv.encode]
  rw [henc]
  exact fingerprint_verify_frame crypto (by simp) rfl (by rw [UInt16.toNat_ofNat', Nat.mod_eq_of_lt hb])

/-- The tag in front of a datagram's last `rest` octets, as its readers see it. -/
theorem tag_reads {ty : UInt16} {txid : TransactionId} {ts us : List Tlv} {out k : Bytes} {algorithm : IntegrityAlgorithm}
    (h : Holds ty txid (ts ++ tagTlvs crypto ty txid ts (some (k, algorithm)) ++ us) out) {off : Nat}
    (hoff : off = 20 + (Tlv.encodeAll ts).length) :
    Integrity.macInput out off algorithm.macLen =
        .ok (frame ty (UInt16.ofNat ((Tlv.encodeAll ts).length + 4 + algorithm.macLen)) txid (Tlv.encodeAll ts)) ∧
      Integrity.verify crypto out off algorithm k = .ok () := by
  obtain ⟨hb, rfl⟩ := h
  obtain ⟨input, hi⟩ : ∃ input, input =
    frame ty (UInt16.ofNat ((Tlv.encodeAll ts).length + 4 + algorithm.macLen)) txid (Tlv.encodeAll ts) := ⟨_, rfl⟩
  have henc : Tlv.encodeAll (ts ++ tagTlvs crypto ty txid ts (some (k, algorithm)) ++ us) = Tlv.encodeAll ts ++
      ((u16ToBe algorithm.attributeCode ++ u16ToBe (UInt16.ofNat algorithm.macLen)) ++
        (mac crypto algorithm k input ++ Tlv.encodeAll us)) := by
    simp [tagTlvs, integrityTlv, Tlv.encode, hi]
  have hlen : (UInt16.ofNat (Tlv.encodeAll (ts ++ tagTlvs crypto ty txid ts (some (k, algorithm)) ++ us)).length).toNat =
      (Tlv.encodeAll (ts ++ tagTlvs crypto ty txid ts (some (k, algorithm)) ++ us)).length := by
    rw [UInt16.toNat_ofNat', Nat.mod_eq_of_lt hb]
  rw [henc] at hlen ⊢
  rw [hoff, ← hi]
  constructor
  · rw [macInput_frame _ _ _ _ hlen (by simp; omega), hi]
  · exact verify_frame crypto k (by simp) (by rw [hi]) hlen

private theorem tagTlvs_kinds (ty : UInt16) (txid : TransactionId) (ts : List Tlv)
    (key : Option (Bytes × IntegrityAlgorithm)) : (tagTlvs crypto ty txid ts key).length ≤ 1 ∧
      ∀ t ∈ tagTlvs crypto ty txid ts key, isIntegrity t = true ∧ isFingerprint t = false := by
  cases key with
  | none => simp [tagTlvs]
  | some k =>
    obtain ⟨k, algorithm⟩ := k
    refine ⟨Nat.le_refl 1, fun t ht => ?_⟩
    rw [List.mem_singleton.mp ht]
    cases algorithm
    · exact ⟨rfl, rfl⟩
    · exact ⟨rfl, rfl⟩

private theorem fingerprintTlvs_kinds (ty : UInt16) (txid : TransactionId) (ts : List Tlv) (fingerprint : Bool) :
    (fingerprintTlvs crypto ty txid ts fingerprint).length ≤ 1 ∧
      ∀ t ∈ fingerprintTlvs crypto ty txid ts fingerprint, isIntegrity t = false ∧ isFingerprint t = true := by
  cases fingerprint with
  | false => simp [fingerprintTlvs]
  | true =>
    refine ⟨Nat.le_refl 1, fun t ht => ?_⟩
    rw [List.mem_singleton.mp ht]
    exact ⟨rfl, rfl⟩

private theorem fingerprint_decoded {ty : UInt16} {txid : TransactionId} {ts : List Tlv} {out : Bytes} (fingerprint : Bool)
    (h : Holds ty txid (ts ++ fingerprintTlvs crypto ty txid ts fingerprint) out) :
    List.Forall₂ (fun t a => decode txid t = .ok a) (fingerprintTlvs crypto ty txid ts fingerprint)
      (fingerprintAttributes crypto out fingerprint) := by
  cases fingerprint with
  | false => exact .nil
  | true =>
    rw [(fingerprint_reads crypto h).2.1]
    exact .cons (decode_fingerprintTlv crypto txid _) .nil

private theorem tag_decoded (ty : UInt16) (txid : TransactionId) (ts : List Tlv)
    (key : Option (Bytes × IntegrityAlgorithm)) : ∃ tagAttrs,
      List.Forall₂ (fun t a => decode txid t = .ok a) (tagTlvs crypto ty txid ts key) tagAttrs ∧
      (∀ k algorithm, key = some (k, algorithm) → tagAttrs = [tagAttribute crypto algorithm k
        (frame ty (UInt16.ofNat ((Tlv.encodeAll ts).length + 4 + algorithm.macLen)) txid (Tlv.encodeAll ts))]) ∧
      (key = none → tagAttrs = []) := by
  cases key with
  | none => exact ⟨[], .nil, by simp, fun _ => rfl⟩
  | some k =>
    obtain ⟨k, algorithm⟩ := k
    refine ⟨_, .cons (decode_integrityTlv crypto txid algorithm k _) .nil, ?_, by simp⟩
    rintro k' algorithm' h
    cases h
    rfl

/-- **Encoder, parser and verifiers agree**: what `build_response` returns parses to
the type, transaction id and attributes it was given, followed by the trailers asked
for, and both trailers verify. -/
theorem buildResponse_readsBack (crypto : Crypto) (t : MessageType) (ht : t.method.bits.toNat < 4096)
    (txid : TransactionId) (attrs : List Attribute) (ha : ∀ a ∈ attrs, Sendable txid a)
    (key : Option (Bytes × IntegrityAlgorithm)) (fingerprint : Bool) (out : Bytes)
    (h : buildResponse crypto t.bits txid attrs key fingerprint = .ok out) :
    ∃ m, parse out = .ok m ∧ ReadsBack crypto t txid attrs key fingerprint out m := by
  obtain ⟨ts, hts, hold⟩ := buildResponse_eq_ok crypto h
  have hdec := hts.decoded ha
  have hord := hts.ordinary ha
  have hfd := fingerprint_decoded crypto fingerprint hold
  have hlen := holds_length hold
  obtain ⟨ht1, htk⟩ := tagTlvs_kinds crypto t.bits txid ts key
  obtain ⟨hf1, hfk⟩ := fingerprintTlvs_kinds crypto t.bits txid (ts ++ tagTlvs crypto t.bits txid ts key) fingerprint
  have hfl := fingerprintTlvs_length crypto t.bits txid (ts ++ tagTlvs crypto t.bits txid ts key) fingerprint
  obtain ⟨tagAttrs, htd, hsome, hnone⟩ := tag_decoded crypto t.bits txid ts key
  have hnf : ∀ u ∈ ts ++ tagTlvs crypto t.bits txid ts key, isFingerprint u = false := by
    intro u hu
    rcases List.mem_append.mp hu with hu | hu
    · exact (hord u hu).2.1
    · exact (htk u hu).2
  have hacc := accepts_trailers hdec htd hfd hord htk hfk ht1 hf1
  refine ⟨_, parse_eq_ok.mpr ⟨t.bits, _, txid, _, _, MessageType.fromBits_bits t ht, hold.1, hold.2, hacc, rfl⟩, ?_⟩
  constructor
  case msgType => rfl
  case bits => exact MessageType.fromMethodAndClass_bits t
  case txid => rfl
  case tagged =>
    rintro k algorithm rfl
    have hoff : tagOffset out algorithm fingerprint = 20 + (Tlv.encodeAll ts).length := by
      rw [tagOffset, hlen, Tlv.encodeAll_append, List.length_append, hfl, Tlv.encodeAll_append, List.length_append]
      have : (Tlv.encodeAll (tagTlvs crypto t.bits txid ts (some (k, algorithm)))).length = 4 + algorithm.macLen := by
        simp [tagTlvs, integrityTlv, Tlv.encode]
        omega
      omega
    obtain ⟨hin, hv⟩ := tag_reads crypto hold hoff
    refine ⟨_, hin, ?_, ?_, hv⟩
    · rw [← hsome k algorithm rfl]
      rfl
    · rw [hoff]
      have hloc : Tlv.locate isIntegrity 20 (ts ++ tagTlvs crypto t.bits txid ts (some (k, algorithm)) ++
          fingerprintTlvs crypto t.bits txid (ts ++ tagTlvs crypto t.bits txid ts (some (k, algorithm))) fingerprint) =
            some (20 + (Tlv.encodeAll ts).length, integrityTlv crypto algorithm k _) :=
        Tlv.locate_eq_some.mpr ⟨ts, _, List.append_assoc _ _ _, fun u hu => (hord u hu).1, (htk _ (by simp [tagTlvs])).1, rfl⟩
      change (Tlv.locate isIntegrity 20 _).map locationOf = _
      rw [hloc, Option.map_some, locationOf]
      congr 2
      exact mac_length crypto algorithm k _
  case untagged =>
    rintro rfl
    have hloc : Tlv.locate isIntegrity 20 (ts ++ tagTlvs crypto t.bits txid ts none ++
        fingerprintTlvs crypto t.bits txid (ts ++ tagTlvs crypto t.bits txid ts none) fingerprint) = none := by
      refine Tlv.locate_eq_none.mpr fun u hu => ?_
      rcases List.mem_append.mp hu with hu | hu
      · rw [tagTlvs, List.append_nil] at hu
        exact (hord u hu).1
      · exact (hfk u hu).1
    refine ⟨?_, by rw [messageOf, hloc]; rfl⟩
    rw [messageOf, hnone rfl, List.append_nil]
  case checked =>
    rintro rfl
    obtain ⟨hoff, htl, hv⟩ := fingerprint_reads crypto hold
    refine ⟨?_, hv⟩
    rw [hoff, messageOf, htl, Tlv.locate_eq_some.mpr ⟨_, [], rfl, hnf, rfl, rfl⟩]
    rfl
  case unchecked =>
    intro hf
    obtain rfl : fingerprint = false := by simpa using hf
    rw [messageOf, fingerprintTlvs, if_neg hf, List.append_nil, Tlv.locate_eq_none.mpr hnf]
    rfl

/-- A success response with SOFTWARE "qr", signed with the key "k" and checked. -/
def signedResponse : Bytes :=
  [0x01, 0x01, 0x00, 0x28, 0x21, 0x12, 0xA4, 0x42, 0, 0, 0, 0, 0, 0, 0, 0, 0, 0, 0, 0,
    0x80, 0x22, 0x00, 0x02, 0x71, 0x72, 0x00, 0x00,
    0x00, 0x08, 0x00, 0x14, 0x61, 0x5D, 0x69, 0x2C, 0xA0, 0xB2, 0x47, 0xBE, 0x43, 0x58, 0x10, 0x23, 0x60, 0xD2, 0xCF, 0xE3,
    0xE2, 0x74, 0x6A, 0x88, 0x80, 0x28, 0x00, 0x04, 0x90, 0xA9, 0xAE, 0x9B]

/-- The checksums with their values on that response. -/
def signedResponseCrypto : Crypto where
  hmacSha1 _ _ := ⟨[0x61, 0x5D, 0x69, 0x2C, 0xA0, 0xB2, 0x47, 0xBE, 0x43, 0x58, 0x10, 0x23, 0x60, 0xD2, 0xCF, 0xE3, 0xE2,
    0x74, 0x6A, 0x88], rfl⟩
  hmacSha256 _ _ := ⟨zeros 32, rfl⟩
  crc32 _ := 0xC3FDFBD5

theorem signedResponse_readsBack : ∃ m, parse signedResponse = .ok m ∧
    ReadsBack signedResponseCrypto .bindingSuccess ⟨zeros 12, rfl⟩ [.software "qr"] (some ([0x6B], .sha1)) true
      signedResponse m := by
  refine buildResponse_readsBack signedResponseCrypto .bindingSuccess (by decide) ⟨zeros 12, rfl⟩ [.software "qr"] ?_
    (some ([0x6B], .sha1)) true signedResponse (by decide +kernel)
  intro a ha
  rw [List.mem_singleton.mp ha]
  exact ⟨⟨[0x71, 0x72], by decide +kernel⟩, by decide, by decide⟩

end QuickRelay.Protocol
