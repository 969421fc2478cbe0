import QuickRelay.Protocol.Reencoding

/-! The recorded value lengths against the codec. The entries of the mapped addresses, of
MESSAGE-INTEGRITY-SHA256 and of DATA are one length of several. -/
namespace QuickRelay.Protocol
open Lib

/-! ### Mapped addresses -/

section
variable {buf : Bytes}

/-- The shared decoder takes a zero octet, a family and at least the octets of that family. -/
theorem readMapped_accepts : (∃ r, readMapped buf = .ok r) ↔
    ∃ f : AddressFamily, buf[0]? = some 0 ∧ buf[1]? = some f.toOctet ∧ f.valueLen ≤ buf.length := by
  constructor
  · rintro ⟨r, h⟩
    rcases readMapped_cases buf with ⟨e, he⟩ | ⟨f, p, ip, rest, hl, rfl, -⟩
    · rw [he] at h
      cases h
    · refine ⟨f, rfl, rfl, ?_⟩
      rw [List.length_append, mappedValue_length hl]
      exact Nat.le_add_right _ _
  · rintro ⟨f, h0, h1, hl⟩
    rw [AddressFamily.valueLen] at hl
    obtain ⟨x0, x1, x2, x3, body, rfl⟩ := exists_four (b := buf) (by omega)
    cases h0
    cases h1
    simp only [List.length_cons] at hl
    have hip : (body.take f.addressOctets).length = f.addressOctets := List.length_take_of_le (by omega)
    have hrun := readMapped_append hip (u16FromBe x2 x3) (body.drop f.addressOctets)
    rw [mappedValue, u16ToBe_fromBe] at hrun
    exact ⟨_, by simpa using hrun⟩

theorem readValue_accepts : (∃ a, MappedAddress.readValue buf = .ok a) ↔ ∃ r, readMapped buf = .ok r := by
  rcases readMapped_cases buf with ⟨e, h⟩ | ⟨f, p, ip, rest, hl, -, h⟩
  · simp [MappedAddress.readValue, h]
  · exact iff_of_true ⟨_, MappedAddress.readValue_of_mapped hl h⟩ ⟨_, h⟩

theorem readXorAddress_accepts (txid : Octets 12) : (∃ a, readXorAddress buf txid = .ok a) ↔ ∃ r, readMapped buf = .ok r := by
  rcases readMapped_cases buf with ⟨e, h⟩ | ⟨f, p, ip, rest, hl, -, h⟩
  · simp [readXorAddress, h]
  · exact iff_of_true ⟨_, readXorAddress_of_mapped hl h txid⟩ ⟨_, h⟩

end

/-- A mapped-address value of another length than that of an IPv4 address: an IPv6 one, or an
IPv4 one with octets behind it. -/
def OtherMappedLen (buf : Bytes) : Prop :=
  buf[0]? = some 0 ∧ (buf[1]? = some 0x01 ∧ 8 < buf.length ∨ buf[1]? = some 0x02 ∧ 20 ≤ buf.length)

theorem readMapped_otherLen {buf : Bytes} : (∃ r, readMapped buf = .ok r) ∧ buf.length ≠ 8 ↔ OtherMappedLen buf := by
  rw [readMapped_accepts]
  constructor
  · rintro ⟨⟨f, h0, h1, hl⟩, hne⟩
    cases f with
    | ipv4 =>
      have h8 : 8 ≤ buf.length := hl
      exact ⟨h0, .inl ⟨h1, by omega⟩⟩
    | ipv6 => exact ⟨h0, .inr ⟨h1, hl⟩⟩
  · rintro ⟨h0, ⟨h1, hl⟩ | ⟨h1, hl⟩⟩
    · exact ⟨⟨.ipv4, h0, h1, Nat.le_of_lt hl⟩, by omega⟩
    · exact ⟨⟨.ipv6, h0, h1, hl⟩, by omega⟩

/-! ### Decoding -/

/-- A value accepted under a code with a recorded length has that length. -/
def DecodesAt (code : AttrCode) (buf : Bytes) (txid : Octets 12) : Prop :=
  ∀ n a, code.fixedLen = some n → parseAttributeValue (.known code) buf txid = .ok a → buf.length = n

/-- The values that are accepted at another length than the recorded one. -/
def AttrCode.OtherLen (buf : Bytes) : AttrCode → Prop
  | .mappedAddress | .xorMappedAddress | .xorRelayedAddress | .xorPeerAddress => OtherMappedLen buf
  | .messageIntegritySha256 => 16 ≤ buf.length ∧ buf.length < 32 ∧ buf.length % 4 = 0
  | .data => buf.length < dataMaxLen
  | _ => False

section
variable {code : AttrCode} {buf : Bytes} {txid : Octets 12}

/-- A decoder that takes what the shared one takes. -/
theorem mapped_decodesAt {read : Res MappedAddress} {attr : MappedAddress → Attribute}
    (hread : (∃ a, read = .ok a) ↔ ∃ r, readMapped buf = .ok r) (hcode : code.fixedLen = some 8)
    (hparse : parseAttributeValue (.known code) buf txid = attr <$> read) : DecodesAt code buf txid ↔ ¬ OtherMappedLen buf := by
  have hlen : DecodesAt code buf txid ↔ ∀ a, parseAttributeValue (.known code) buf txid = .ok a → buf.length = 8 := by
    constructor
    · exact fun h a => h 8 a hcode
    · intro h n a hn
      cases hcode.symm.trans hn
      exact h a
  rw [hlen, hparse, ← readMapped_otherLen, ← hread, not_and, not_not]
  constructor
  · rintro h ⟨a, ha⟩
    exact h (attr a) (by rw [ha, Outcome.map_ok])
  · intro h a ha
    obtain ⟨addr, haddr, -⟩ := Outcome.map_eq_ok.mp ha
    exact h ⟨addr, haddr⟩

theorem sha256_decodesAt : DecodesAt .messageIntegritySha256 buf txid ↔
    ¬ (16 ≤ buf.length ∧ buf.length < 32 ∧ buf.length % 4 = 0) := by
  constructor
  · rintro h ⟨hmin, hmax, hmod⟩
    have hlen := h 32 _ rfl (parse_messageIntegritySha256 txid ⟨hmin, Nat.le_of_lt hmax, hmod⟩)
    omega
  · intro h n a hn ha
    cases hn
    by_cases hl : LegalSha256Len buf.length
    · obtain ⟨hmin, hmax, hmod⟩ := hl
      by_contra hne
      exact h ⟨hmin, Nat.lt_of_le_of_ne hmax hne, hmod⟩
    · rw [parse_sha256_illegal txid hl] at ha
      cases ha

theorem data_decodesAt : DecodesAt .data buf txid ↔ ¬ buf.length < dataMaxLen := by
  constructor
  · intro h hlt
    have hparse : parseAttributeValue (.known .data) buf txid = .ok (.data buf) :=
      Outcome.refuse_bind_eq_ok.mpr ⟨Nat.not_lt.mpr (Nat.le_of_lt hlt), rfl⟩
    exact absurd (h dataMaxLen _ rfl hparse) (Nat.ne_of_lt hlt)
  · intro h n a hn ha
    cases hn
    obtain ⟨hle, -⟩ := Outcome.refuse_bind_eq_ok.mp ha
    omega

theorem decodesAt_iff (code : AttrCode) (buf : Bytes) (txid : Octets 12) : DecodesAt code buf txid ↔ ¬ code.OtherLen buf := by
  cases code
  case mappedAddress => exact mapped_decodesAt readValue_accepts rfl rfl
  case xorMappedAddress => exact mapped_decodesAt (readXorAddress_accepts txid) rfl rfl
  case xorRelayedAddress => exact mapped_decodesAt (readXorAddress_accepts txid) rfl rfl
  case xorPeerAddress => exact mapped_decodesAt (readXorAddress_accepts txid) rfl rfl
  case messageIntegritySha256 => exact sha256_decodesAt
  case data => exact data_decodesAt
  all_goals
    refine iff_of_true (fun n a hn ha => ?_) id
    cases hn
  all_goals
    simp only [parseAttributeValue, Outcome.map_eq_ok] at ha
  case changeRequest | fingerprint | icePriority | lifetime =>
    obtain ⟨v, hv, -⟩ := ha
    rw [exactU32_eq_ok.mp hv, u32ToBe_length]
  case messageIntegrity | userHash | iceControlled | iceControlling =>
    obtain ⟨t, ht, -⟩ := ha
    rw [exactOctets_eq_ok.mp ht, t.property]
  case requestedAddressFamily | additionalAddressFamily =>
    obtain ⟨f, hf, -⟩ := ha
    rw [exactFamily_eq_ok.mp hf]
    rfl
  case channelNumber | responsePort | dontFragment | useCandidate => exact (checkExact_bind_eq_ok.mp ha).1

end

/-! ### Encoding -/

/-- An attribute of a code with a recorded length is written as that many octets. -/
def EncodesAt (a : Attribute) (txid : Octets 12) (out : Bytes) : Prop :=
  ∀ code n m buf, attributeKind a = .known code → code.fixedLen = some n → writeAttributeValue a txid out = (.ok m, buf) →
    m = n ∧ buf.length = out.length ∧ buf.drop n = out.drop n

/-- The attributes that are written at another length than the recorded one. -/
def Attribute.OtherLen (out : Bytes) : Attribute → Prop
  | .mappedAddress a | .xorMappedAddress a | .xorRelayedAddress a | .xorPeerAddress a => a.family = .ipv6 ∧ 20 ≤ out.length
  | .data b => b.length < dataMaxLen ∧ b.length ≤ out.length
  | _ => False

section
variable {a : Attribute} {txid : Octets 12} {out : Bytes}

/-- What is written are the octets of the attribute. -/
theorem encodesAt_iff_octets : EncodesAt a txid out ↔ ∀ code n, attributeKind a = .known code → code.fixedLen = some n →
    a.refusal = none → (a.octets txid (out.getD 1 0)).length ≤ out.length → (a.octets txid (out.getD 1 0)).length = n := by
  have hrun := writeAttributeValue_run a txid out
  constructor
  · intro h code n hk hn hr hroom
    rw [hr] at hrun
    exact (h code n _ _ hk hn (hrun.trans (if_pos hroom))).1
  · intro h code n m buf hk hn hw
    obtain ⟨rfl, hroom, -⟩ := write_ok hw
    cases hr : a.refusal with
    | some e =>
      rw [hr, hw] at hrun
      cases hrun
    | none =>
      have hlen := h code n hk hn hr hroom
      exact ⟨hlen, hlen ▸ write_behind hw⟩

theorem encodesAt_of_length (h : ∀ code n, attributeKind a = .known code → code.fixedLen = some n →
    ∀ x, (a.octets txid x).length = n) : EncodesAt a txid out :=
  encodesAt_iff_octets.mpr fun code n hcode hlen _ _ => h code n hcode hlen _

theorem mapped_encodesAt {code : AttrCode} {addr : MappedAddress} (hcode : attributeKind a = .known code)
    (hlen : code.fixedLen = some 8) (hr : a.refusal = none) (hoctets : ∀ x, (a.octets txid x).length = addr.family.valueLen) :
    EncodesAt a txid out ↔ ¬ (addr.family = .ipv6 ∧ 20 ≤ out.length) := by
  rw [encodesAt_iff_octets, hoctets]
  constructor
  · rintro h ⟨hf, hroom⟩
    rw [hf] at h
    exact absurd (h code 8 hcode hlen hr hroom) (by decide)
  · intro h code' n hcode' hlen' _ hroom
    cases hcode.symm.trans hcode'
    cases hlen.symm.trans hlen'
    cases hf : addr.family with
    | ipv4 => rfl
    | ipv6 =>
      rw [hf] at hroom
      exact absurd ⟨hf, hroom⟩ h

theorem data_encodesAt {b : Bytes} : EncodesAt (.data b) txid out ↔ ¬ (b.length < dataMaxLen ∧ b.length ≤ out.length) := by
  rw [encodesAt_iff_octets]
  constructor
  · rintro h ⟨hlt, hroom⟩
    exact absurd (h .data dataMaxLen rfl rfl (if_neg (Nat.not_lt.mpr (Nat.le_of_lt hlt))) hroom) (Nat.ne_of_lt hlt)
  · intro h code n hcode hlen hr hroom
    cases hcode
    cases hlen
    change b.length = dataMaxLen
    by_contra hne
    rcases Nat.lt_or_gt_of_ne hne with hlt | hgt
    · exact h ⟨hlt, hroom⟩
    · rw [Attribute.refusal, if_pos hgt] at hr
      cases hr

end

theorem encodesAt_iff (a : Attribute) (txid : Octets 12) (out : Bytes) : EncodesAt a txid out ↔ ¬ a.OtherLen out := by
  cases a
  case mappedAddress addr =>
    exact mapped_encodesAt rfl rfl rfl fun _ => mappedValue_length addr.octets_length _
  case xorMappedAddress addr =>
    exact mapped_encodesAt rfl rfl rfl fun _ => mappedValue_length (xorOctetsOf_length addr txid) _
  case xorRelayedAddress addr =>
    exact mapped_encodesAt rfl rfl rfl fun _ => mappedValue_length (xorOctetsOf_length addr txid) _
  case xorPeerAddress addr =>
    exact mapped_encodesAt rfl rfl rfl fun _ => mappedValue_length (xorOctetsOf_length addr txid) _
  case data b => exact data_encodesAt
  all_goals
    refine iff_of_true (encodesAt_of_length fun code n hcode hlen => ?_) id
    cases hcode
  all_goals cases hlen
  case changeRequest v | fingerprint v | icePriority v | lifetime v => exact fun _ => u32ToBe_length v
  case messageIntegrity t | messageIntegritySha256 t | userHash t | iceControlled t | iceControlling t =>
    exact fun _ => t.property
  case requestedAddressFamily f | additionalAddressFamily f => exact fun _ => rfl
  case channelNumber c =>
    intro x
    rw [Attribute.octets, List.length_append, u16ToBe_length]
    rfl
  case responsePort p => exact fun _ => u16ToBe_length p
  case dontFragment | useCandidate => exact fun _ => rfl

/-! ### The table -/

/-- The recorded length of a code, if there is one, is that of every value. -/
structure Recorded (code : AttrCode) : Prop where
  decoded : ∀ buf txid, DecodesAt code buf txid
  encoded : ∀ a txid out, attributeKind a = .known code → EncodesAt a txid out

/-- The codes whose values have several lengths, one of which is recorded. -/
def misrecorded : List AttrCode :=
  [.mappedAddress, .xorMappedAddress, .xorRelayedAddress, .xorPeerAddress, .messageIntegritySha256, .data]

/-- An IPv6 value: port and address are zero. -/
def ipv6Value : Bytes := [0, 2] ++ zeros 18

theorem not_recorded {code : AttrCode} (h : code ∈ misrecorded) : ¬ Recorded code := by
  intro hr
  have hother : ∃ buf, code.OtherLen buf := by
    cases code
    case mappedAddress | xorMappedAddress | xorRelayedAddress | xorPeerAddress =>
      exact ⟨ipv6Value, rfl, .inr ⟨rfl, Nat.le_refl 20⟩⟩
    case messageIntegritySha256 => exact ⟨zeros 16, Nat.le_refl 16, by decide, rfl⟩
    case data => exact ⟨[], Nat.zero_lt_succ _⟩
    all_goals simp [misrecorded] at h
  obtain ⟨buf, hbuf⟩ := hother
  exact (decodesAt_iff code buf ⟨zeros 12, rfl⟩).mp (hr.decoded buf _) hbuf

theorem recorded_iff (code : AttrCode) : Recorded code ↔ code ∉ misrecorded := by
  refine ⟨fun hr h => not_recorded h hr, fun h => ⟨fun buf txid => ?_, fun a txid out hcode => ?_⟩⟩
  · rw [decodesAt_iff]
    cases code
    case mappedAddress | xorMappedAddress | xorRelayedAddress | xorPeerAddress | messageIntegritySha256 | data =>
      exact absurd (by decide) h
    all_goals exact id
  · rw [encodesAt_iff]
    cases a
    case mappedAddress | xorMappedAddress | xorRelayedAddress | xorPeerAddress | data =>
      cases hcode
      exact absurd (by decide) h
    all_goals exact id

/-- **Recorded lengths**: six entries do not hold of every value; the values that miss them are
those of another length that the codec takes or writes. -/
theorem fixedLen_recorded_iff (code : AttrCode) : (Recorded code ↔ code ∉ misrecorded) ∧
    (∀ buf txid, DecodesAt code buf txid ↔ ¬ code.OtherLen buf) ∧
    ∀ a txid out, attributeKind a = .known code → (EncodesAt a txid out ↔ ¬ a.OtherLen out) :=
  ⟨recorded_iff code, decodesAt_iff code, fun a txid out _ => encodesAt_iff a txid out⟩

/-- MAPPED-ADDRESS is recorded with eight octets, and an IPv6 one is decoded from twenty. -/
theorem ipv6_not_recorded : AttrCode.mappedAddress.fixedLen = some 8 ∧ ipv6Value.length = 20 ∧
    (∃ a, parseAttributeValue (.known .mappedAddress) ipv6Value ⟨zeros 12, rfl⟩ = .ok a ∧
      (writeAttributeValue a ⟨zeros 12, rfl⟩ (zeros 20)).1 = .ok 20) ∧ ¬ ∀ code, Recorded code :=
  ⟨rfl, rfl, ⟨_, rfl, rfl⟩, fun hall => not_recorded (by decide) (hall .mappedAddress)⟩

end QuickRelay.Protocol
