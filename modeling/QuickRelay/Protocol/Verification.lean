import QuickRelay.Protocol.RoundTrip

/-! The trailers of an accepted datagram: the walks find the ones the parser recorded, and
what `verify` says of the integrity attribute found. -/
namespace QuickRelay.Protocol
open Lib

variable (crypto : Crypto)

/-- **The walks**: they find the attributes that the parser recorded. -/
theorem walks_agree {d : Bytes} {m : Message} (h : parse d = .ok m) :
    Integrity.attributeOffset d = m.integrityLocation ∧ Fingerprint.attributeOffset d = m.fingerprintOffset := by
  obtain ⟨ty, t, txid, ts, attrs, -, hb, rfl, hacc, rfl⟩ := parse_eq_ok.mp h
  exact ⟨Accepts.integrity_walk hb, hacc.fingerprint_walk hb⟩

theorem authenticated_walks : ∃ m, parse authenticatedRequest = .ok m ∧
    Integrity.attributeOffset authenticatedRequest = m.integrityLocation ∧
    Fingerprint.attributeOffset authenticatedRequest = m.fingerprintOffset :=
  ⟨_, parse_authenticated, walks_agree parse_authenticated⟩

/-! ### What the attribute says -/

def IntegrityAlgorithm.hmac (key msg : Bytes) : IntegrityAlgorithm → Bytes
  | .sha1 => (crypto.hmacSha1 key msg).val
  | .sha256 => (crypto.hmacSha256 key msg).val

theorem mac_eq_hmac (alg : IntegrityAlgorithm) (key msg : Bytes) : mac crypto alg key msg = alg.hmac crypto key msg := by
  cases alg with
  | sha1 => exact List.take_of_length_le (Nat.le_of_eq (crypto.hmacSha1 key msg).property)
  | sha256 => exact List.take_of_length_le (Nat.le_of_eq (crypto.hmacSha256 key msg).property)

namespace AttributeLocation

/-- The value octets. -/
def stored (l : AttributeLocation) (d : Bytes) : Bytes := (d.drop (l.off + 4)).take l.valueLen

/-- The datagram up to the attribute, with a length field that ends behind it. -/
def covered (l : AttributeLocation) (d : Bytes) : Bytes :=
  d.take 2 ++ (u16ToBe (UInt16.ofNat (l.off + 4 + l.valueLen - headerLen)) ++ (d.take l.off).drop 4)

/-- A value holds a whole MAC or, with SHA-256, the beginning of one. -/
theorem algorithm_eq_some {l : AttributeLocation} {alg : IntegrityAlgorithm} (h : l.algorithm = some alg) :
    l.valueLen = alg.macLen ∨ (l.valueLen < alg.macLen ∧ alg = .sha256) := by
  rw [algorithm] at h
  split at h
  case isTrue hsha1 =>
    cases h
    exact .inl hsha1.2
  case isFalse =>
    split at h
    case isTrue hsha256 =>
      cases h
      rcases Nat.eq_or_lt_of_le hsha256.2.2.1 with heq | hlt
      · exact .inl heq
      · exact .inr ⟨hlt, rfl⟩
    case isFalse => cases h

end AttributeLocation

/-- Verification accepts the attribute if and only if its value octets are the first of the
HMAC over what it covers. -/
def Honours (d : Bytes) (l : AttributeLocation) (alg : IntegrityAlgorithm) (key : Bytes) : Prop :=
  Integrity.verify crypto d l.off alg key = .ok () ↔ l.stored d = (alg.hmac crypto key (l.covered d)).take l.valueLen

/-- Where the parser finds an integrity attribute, the datagram is a frame around what comes
before it, its header, its value, and the rest. -/
theorem located_frame {d : Bytes} {m : Message} {l : AttributeLocation} (h : parse d = .ok m)
    (hl : m.integrityLocation = some l) : ∃ (ty len : UInt16) (txid : TransactionId) (body hdr value rest : Bytes),
      d = frame ty len txid (body ++ (hdr ++ (value ++ rest))) ∧ len.toNat = (body ++ (hdr ++ (value ++ rest))).length ∧
      hdr.length = 4 ∧ l.off = 20 + body.length ∧ l.valueLen = value.length := by
  obtain ⟨ty, t, txid, ts, attrs, -, hb, rfl, hacc, rfl⟩ := parse_eq_ok.mp h
  obtain ⟨⟨o, u⟩, hfind, rfl⟩ := Option.map_eq_some_iff.mp hl
  obtain ⟨pre, post, rfl, -, -, rfl⟩ := Tlv.locate_eq_some.mp hfind
  have hbody : Tlv.encodeAll (pre ++ u :: post) = Tlv.encodeAll pre ++
      ((u16ToBe u.code ++ u16ToBe (UInt16.ofNat u.value.length)) ++ (u.value ++ (u.pad ++ Tlv.encodeAll post))) := by
    simp [Tlv.encode]
  refine ⟨ty, _, txid, _, _, _, _, by rw [← hbody], ?_, rfl, rfl, rfl⟩
  rw [← hbody, UInt16.toNat_ofNat', Nat.mod_eq_of_lt hb]

private theorem stored_frame (ty len : UInt16) (txid : TransactionId) {body hdr value : Bytes} (rest : Bytes) {l : AttributeLocation}
    (hh : hdr.length = 4) (hoff : l.off = 20 + body.length) (hlen : l.valueLen = value.length) :
    l.stored (frame ty len txid (body ++ (hdr ++ (value ++ rest)))) = value := by
  have hcut : (frame ty len txid (body ++ hdr)).length = l.off + 4 := by
    rw [frame_length, List.length_append, hh, hoff, Nat.add_assoc]
  rw [AttributeLocation.stored, ← List.append_assoc, frame_append, ← hcut, List.drop_left, hlen, List.take_left]

private theorem covered_frame {ty len : UInt16} {txid : TransactionId} {body rest : Bytes} {l : AttributeLocation}
    (hoff : l.off = 20 + body.length) : l.covered (frame ty len txid (body ++ rest)) =
      frame ty (UInt16.ofNat (body.length + 4 + l.valueLen)) txid body := by
  have hfield : l.off + 4 + l.valueLen - headerLen = body.length + 4 + l.valueLen := by rw [hoff, headerLen]; omega
  have hcut : (frame ty len txid body).length = l.off := by rw [frame_length, hoff]
  obtain ⟨a, b, hab, -⟩ := u16ToBe_eq ty
  obtain ⟨c, e, hce, -⟩ := u16ToBe_eq len
  rw [AttributeLocation.covered, hfield, frame_append, ← hcut, List.take_left]
  simp [frame, hab, hce]

/-- What verifies is a whole MAC. -/
theorem verify_stored {d : Bytes} {off : Nat} {alg : IntegrityAlgorithm} {key : Bytes}
    (h : Integrity.verify crypto d off alg key = .ok ()) :
    ∃ input, (d.drop (off + 4)).take alg.macLen = alg.hmac crypto key input := by
  obtain ⟨input, -, hmac⟩ := Integrity.verify_eq_ok.mp h
  exact ⟨input, by rw [← mac_eq_hmac, hmac]⟩

private theorem filled_length (value : Bytes) (x : UInt8) (h : value.length ≤ 32) :
    (value ++ List.replicate (32 - value.length) x).length = 32 := by
  rw [List.length_append, List.length_replicate]
  omega

/-- HMACs that start with the given octets and differ from a datagram in the next one. -/
private def forged (value behind : Bytes) (h : value.length ≤ 32) : Crypto where
  hmacSha1 _ _ := ⟨zeros 20, zeros_length 20⟩
  hmacSha256 _ _ := ⟨value ++ List.replicate (32 - value.length) (behind.getD 0 0 + 1), filled_length value _ h⟩
  crc32 _ := 0

/-- A truncated value is never all that is compared: there are HMACs that begin with it and
do not verify. -/
theorem not_honours_of_truncated {d : Bytes} {l : AttributeLocation} (hlt : l.valueLen < 32) (hlen : (l.stored d).length = l.valueLen)
    (key : Bytes) : ∃ crypto, ¬ Honours crypto d l .sha256 key := by
  have hle : (l.stored d).length ≤ 32 := by omega
  refine ⟨forged (l.stored d) (d.drop (l.off + 4 + l.valueLen)) hle, fun hh => ?_⟩
  have hbegins : l.stored d = (IntegrityAlgorithm.hmac (forged (l.stored d) (d.drop (l.off + 4 + l.valueLen)) hle) key
      (l.covered d) .sha256).take l.valueLen := by
    conv_rhs => rw [← hlen]
    exact List.take_left.symm
  obtain ⟨input, hwhole⟩ := verify_stored _ (hh.mpr hbegins)
  -- the octet behind the value differs
  have hnext := congrArg (fun b : Bytes => b.getD l.valueLen 0) hwhole
  have hleft : ((d.drop (l.off + 4)).take 32).getD l.valueLen 0 = (d.drop (l.off + 4 + l.valueLen)).getD 0 0 := by
    simp [hlt]
  have hright : (l.stored d ++ List.replicate (32 - (l.stored d).length) ((d.drop (l.off + 4 + l.valueLen)).getD 0 0 + 1)).getD
      l.valueLen 0 = (d.drop (l.off + 4 + l.valueLen)).getD 0 0 + 1 := by
    simp [hlen, hlt]
  exact absurd (hleft.symm.trans (hnext.trans hright)) (by simp)

/-- **Verification**: whatever the HMACs are, it honours the attribute that the parser found,
if and only if the attribute holds a whole MAC. -/
theorem verify_honours_iff {d : Bytes} {m : Message} {l : AttributeLocation} {alg : IntegrityAlgorithm} (h : parse d = .ok m)
    (hl : m.integrityLocation = some l) (halg : l.algorithm = some alg) (key : Bytes) :
    (∀ crypto, Honours crypto d l alg key) ↔ l.valueLen = alg.macLen := by
  obtain ⟨ty, len, txid, body, hdr, value, rest, rfl, hlen, hh, hoff, hvalue⟩ := located_frame h hl
  have hstored := stored_frame ty len txid rest hh hoff hvalue
  constructor
  · intro hall
    rcases AttributeLocation.algorithm_eq_some halg with hwhole | ⟨hlt, rfl⟩
    · exact hwhole
    · obtain ⟨crypto, hnot⟩ := not_honours_of_truncated hlt (by rw [hstored, hvalue]) key
      exact absurd (hall crypto) hnot
  · intro hwhole crypto
    rw [Honours, hstored, covered_frame hoff, hoff, hwhole, ← mac_eq_hmac,
      verify_frame_iff crypto key hh (hvalue.symm.trans hwhole) hlen, List.take_of_length_le (by rw [mac_length])]
    exact eq_comm

theorem authenticated_honours : ∃ m, parse authenticatedRequest = .ok m ∧ m.integrityLocation = some ⟨20, 0x0008, 20⟩ ∧
    ∀ crypto, Honours crypto authenticatedRequest ⟨20, 0x0008, 20⟩ .sha1 [0x6B] :=
  ⟨_, parse_authenticated, rfl, (verify_honours_iff parse_authenticated rfl (by decide) [0x6B]).mpr rfl⟩

/-- A Binding request with a SHA-256 tag of 16 octets. -/
def truncatedRequest : Bytes :=
  [0x00, 0x01, 0x00, 0x14, 0x21, 0x12, 0xA4, 0x42, 0, 0, 0, 0, 0, 0, 0, 0, 0, 0, 0, 0, 0x00, 0x1C, 0x00, 0x10] ++ zeros 16

/-- Its tag is the beginning of the HMAC, and does not verify. -/
theorem truncated_unverified : ¬ ∀ (crypto : Crypto) (d : Bytes) (m : Message) (l : AttributeLocation)
    (alg : IntegrityAlgorithm) (key : Bytes), parse d = .ok m → m.integrityLocation = some l → l.algorithm = some alg →
    Honours crypto d l alg key := by
  intro hall
  have hparse : (parse truncatedRequest >>= fun m => .ok m.integrityLocation) = .ok (some ⟨20, 0x001C, 16⟩) := by
    decide +kernel
  obtain ⟨m, hm, hl⟩ := Outcome.bind_eq_ok.mp hparse
  have hh := hall signedResponseCrypto _ m _ .sha256 [0x6B] hm (Outcome.ok.inj hl) (by decide)
  have hverified := hh.mpr (by decide)
  exact absurd hverified (by decide)

end QuickRelay.Protocol
