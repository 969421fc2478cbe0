import QuickRelay.Protocol.ValueCodec

/-! The value encoder against the decoder's attributes and the caller's buffer: which
decoded values encode again, and what an encoding leaves in the buffer. -/
namespace QuickRelay.Protocol
open Lib

/-! ### Decoded values -/

/-- The values that the encoder has room for: a reason phrase within its ceiling, and at most
2048 octets of what decoding keeps. -/
def FitsWriter (kind : AttributeKind) (buf : Bytes) : Prop :=
  match kind with
  | .known .errorCode | .known .addressErrorCode => buf.length ≤ 4 + errorCodeReasonMaxLen
  | .known .passwordAlgorithms => ∀ s, fromUtf8 buf = some s → (utf8Bytes (commaJoin (commaParts s))).length ≤ 2048
  | .known .mappedAddress | .known .otherAddress | .known .xorMappedAddress | .known .xorRelayedAddress
  | .known .xorPeerAddress | .known .alternateServer => True
  | _ => buf.length ≤ 2048

theorem ErrorCode.readValue_eq_ok {buf : Bytes} {e : ErrorCode} (h : readValue buf = .ok e) :
    e.asU16 < 700 ∧ buf.length = 4 + e.reason.length := by
  obtain ⟨x, y, rfl, hlt⟩ := readValue_ok_iff.mp h
  refine ⟨hlt, ?_⟩
  simp only [List.length_cons]
  omega

private theorem errorCode_encodable {e : ErrorCode} (txid : Octets 12) {buf : Bytes} (h : ErrorCode.readValue buf = .ok e) :
    ((Attribute.errorCode e).refusal = none ∧ ((Attribute.errorCode e).octets txid 0).length ≤ 2048 ↔
      buf.length ≤ 4 + errorCodeReasonMaxLen) ∧
    ∀ err, (Attribute.errorCode e).refusal = some err → err.kind = .valueTooLong := by
  obtain ⟨hrange, hlen⟩ := ErrorCode.readValue_eq_ok h
  have hmax : errorCodeReasonMaxLen = 1024 := rfl
  simp only [Attribute.refusal, if_neg (UInt16.not_le.mpr hrange), Attribute.octets, List.length_cons, hlen]
  by_cases hl : errorCodeReasonMaxLen < e.reason.length
  · simp only [if_pos hl]
    refine ⟨iff_of_false (fun h => by cases h.1) (by omega), fun err herr => ?_⟩
    cases herr
    rfl
  · simp only [if_neg hl]
    refine ⟨⟨fun _ => by omega, fun _ => ⟨trivial, by omega⟩⟩, fun err herr => ?_⟩
    cases herr

/-- A decoded attribute is refused for its size only, and is small enough exactly if the
value it was decoded from fits. -/
theorem encodable_iff {code : UInt16} {buf : Bytes} {txid : Octets 12} {a : Attribute} (hlen : buf.length ≤ 65535)
    (h : parseAttributeValue (AttrCode.attrFromWire code) buf txid = .ok a) :
    (a.refusal = none ∧ (a.octets txid 0).length ≤ 2048 ↔ FitsWriter (AttrCode.attrFromWire code) buf) ∧
    ∀ e, a.refusal = some e → e.kind = .valueTooLong := by
  -- an attribute that is not refused
  have hplain : ∀ {p : Prop} {b : Attribute}, b.refusal = none → ((b.octets txid 0).length ≤ 2048 ↔ p) →
      (b.refusal = none ∧ (b.octets txid 0).length ≤ 2048 ↔ p) ∧ ∀ e, b.refusal = some e → e.kind = .valueTooLong := by
    intro p b hb hp
    rw [hb]
    exact ⟨⟨fun h => hp.mp h.2, fun h => ⟨rfl, hp.mpr h⟩⟩, fun e he => by cases he⟩
  have haddress : ∀ a : MappedAddress, 4 + a.family.addressOctets ≤ 2048 := fun a => by
    have := a.family.addressOctets_le
    omega
  cases hk : AttrCode.attrFromWire code with
  | unknown n =>
    rw [hk] at h
    cases h
    exact hplain rfl .rfl
  | known c =>
    rw [hk] at h
    cases c
    case unknown n => exact absurd hk (AttrCode.attrFromWire_ne_unknown code n)
    case messageIntegritySha256 =>
      by_cases hl : LegalSha256Len buf.length
      · rw [parse_messageIntegritySha256 txid hl] at h
        cases h
        have hle : buf.length ≤ 32 := hl.2.1
        have htag : (sha256Tag buf hl.2.1).val.length = 32 := (sha256Tag buf hl.2.1).property
        refine hplain rfl ⟨fun _ => Nat.le_trans hle (by decide), fun _ => ?_⟩
        exact Nat.le_trans (Nat.le_of_eq htag) (by decide)
      · rw [parse_sha256_illegal txid hl] at h
        cases h
    all_goals
      simp only [parseAttributeValue, Outcome.map_eq_ok, Outcome.bind_eq_ok, Outcome.pure_eq, Outcome.ok.injEq] at h
    case mappedAddress | otherAddress =>
      obtain ⟨a, -, rfl⟩ := h
      refine hplain rfl (iff_true_intro ?_)
      rw [Attribute.octets, mappedValue_length a.octets_length]
      exact haddress a
    case xorMappedAddress | xorRelayedAddress | xorPeerAddress =>
      obtain ⟨a, -, rfl⟩ := h
      refine hplain rfl (iff_true_intro ?_)
      rw [Attribute.octets, mappedValue_length (xorOctetsOf_length a txid)]
      exact haddress a
    case alternateServer =>
      obtain ⟨a, -, rfl⟩ := h
      refine hplain rfl (iff_true_intro ?_)
      rw [Attribute.octets, MappedAddress.familyFirstValue_length]
      exact haddress a
    case errorCode | addressErrorCode =>
      obtain ⟨e, he, rfl⟩ := h
      exact errorCode_encodable txid he
    case changeRequest | fingerprint | icePriority | lifetime =>
      obtain ⟨v, hv, rfl⟩ := h
      obtain rfl := exactU32_eq_ok.mp hv
      exact hplain rfl .rfl
    case username | realm | nonce | software | alternateDomain | thirdPartyAuthorization | extendedCandidate
        | extendedCandidateUfrag | requestedTransport | passwordAlgorithm =>
      obtain ⟨s, hs, rfl⟩ := h
      obtain rfl := utf8Bytes_of_fromUtf8 (Outcome.okOr_eq_ok.mp hs)
      exact hplain rfl .rfl
    case messageIntegrity | userHash | iceControlled | iceControlling =>
      obtain ⟨t, ht, rfl⟩ := h
      obtain rfl := exactOctets_eq_ok.mp ht
      exact hplain rfl .rfl
    case requestedAddressFamily | additionalAddressFamily =>
      obtain ⟨f, hf, rfl⟩ := h
      obtain rfl := exactFamily_eq_ok.mp hf
      exact hplain rfl .rfl
    case unknownAttributes =>
      obtain ⟨_, heven, rfl⟩ := h
      have heven := not_not.mp (Outcome.refuse_eq_ok.mp heven)
      have hcodes : ((u16Pairs buf).flatMap u16ToBe).length = buf.length := by
        rw [flatMap_u16ToBe_length, u16Pairs_length]
        omega
      refine hplain (if_neg ?_) (by rw [Attribute.octets, hcodes]; rfl)
      rw [u16Pairs_length]
      omega
    case channelNumber =>
      obtain ⟨_, hfour, c, -, _, hc, rfl⟩ := h
      have hfour := checkExact_eq_ok.mp hfour
      have hc := not_not.mp (Outcome.refuse_eq_ok.mp hc)
      refine hplain (if_neg ?_) (iff_of_true ?_ ?_)
      · rw [not_or, UInt16.not_lt, UInt16.not_lt]
        exact hc
      · rw [Attribute.octets, List.length_append, u16ToBe_length]
        decide
      · change buf.length ≤ 2048
        omega
    case responsePort =>
      obtain ⟨_, htwo, p, hp, rfl⟩ := h
      have htwo := checkExact_eq_ok.mp htwo
      refine hplain rfl (iff_of_true ?_ ?_)
      · rw [Attribute.octets, u16ToBe_length]
        decide
      · change buf.length ≤ 2048
        omega
    case data =>
      obtain ⟨_, hmax, rfl⟩ := h
      exact hplain (if_neg (Outcome.refuse_eq_ok.mp hmax)) .rfl
    case connectionId =>
      obtain ⟨_, hlegal, rfl⟩ := h
      exact hplain (if_neg (Outcome.refuse_eq_ok.mp hlegal)) .rfl
    case dontFragment | useCandidate =>
      obtain ⟨_, hnone, rfl⟩ := h
      have hnone := checkExact_eq_ok.mp hnone
      refine hplain rfl (iff_of_true (Nat.zero_le _) ?_)
      change buf.length ≤ 2048
      omega
    case passwordAlgorithms =>
      obtain ⟨s, hs, _, -, rfl⟩ := h
      have hs := Outcome.okOr_eq_ok.mp hs
      refine hplain rfl ⟨fun hle s' hs' => ?_, fun hall => hall s hs⟩
      cases hs.symm.trans hs'
      exact hle
    all_goals
      subst h
      exact hplain rfl .rfl

/-- **Re-encoding**: a decoded attribute encodes, and to octets that decode to it again, if and
only if its value fits; if it does not, the encoder says that it is too long. -/
theorem reencodes_iff {code : UInt16} {buf : Bytes} {txid : Octets 12} {a : Attribute} (hlen : buf.length ≤ 65535)
    (h : parseAttributeValue (AttrCode.attrFromWire code) buf txid = .ok a) :
    ((∃ v, a.toValue txid = .ok v ∧ parseAttributeValue (AttrCode.attrFromWire (attributeKind a).asU16) v txid = .ok a) ↔
      FitsWriter (AttrCode.attrFromWire code) buf) ∧
    (¬ FitsWriter (AttrCode.attrFromWire code) buf → ∃ e, a.toValue txid = .err e ∧ e.kind = .valueTooLong) := by
  obtain ⟨hiff, hkind⟩ := encodable_iff hlen h
  constructor
  · constructor
    · rintro ⟨v, hv, -⟩
      obtain ⟨hr, hroom, -⟩ := Attribute.toValue_eq_ok.mp hv
      exact hiff.mp ⟨hr, hroom⟩
    · intro hfits
      obtain ⟨hr, hroom⟩ := hiff.mpr hfits
      have hv := Attribute.toValue_eq_ok.mpr ⟨hr, hroom, rfl⟩
      exact ⟨_, hv, parse_toValue h hv⟩
  · intro hfits
    rw [Attribute.toValue_eq]
    cases hr : a.refusal with
    | some e => exact ⟨e, rfl, hkind e hr⟩
    | none =>
      have hroom : ¬ (a.octets txid 0).length ≤ 2048 := fun hroom => hfits (hiff.mp ⟨hr, hroom⟩)
      exact ⟨_, if_neg hroom, rfl⟩

/-- USERNAME "a". -/
theorem username_reencodes : ∃ v, (Attribute.username "a").toValue ⟨zeros 12, rfl⟩ = .ok v ∧
    parseAttributeValue (AttrCode.attrFromWire 0x0006) v ⟨zeros 12, rfl⟩ = .ok (.username "a") := by
  have hparse : parseAttributeValue (AttrCode.attrFromWire 0x0006) [0x61] ⟨zeros 12, rfl⟩ = .ok (.username "a") := by
    decide +kernel
  have hfits : FitsWriter (AttrCode.attrFromWire 0x0006) [0x61] := by
    change ([0x61] : Bytes).length ≤ 2048
    decide
  exact (reencodes_iff (by decide) hparse).1.mpr hfits

/-- PADDING of 2049 octets decodes and does not encode. -/
theorem padding_not_reencoded : ¬ ∀ (code : UInt16) (buf : Bytes) (txid : Octets 12) (a : Attribute), buf.length ≤ 65535 →
    parseAttributeValue (AttrCode.attrFromWire code) buf txid = .ok a → ∃ v, a.toValue txid = .ok v ∧
      parseAttributeValue (AttrCode.attrFromWire (attributeKind a).asU16) v txid = .ok a := by
  intro hall
  have hlen : (zeros 2049).length = 2049 := zeros_length _
  obtain ⟨v, hv, -⟩ := hall 0x0026 (zeros 2049) ⟨zeros 12, rfl⟩ (.padding (zeros 2049)) (by omega) rfl
  obtain ⟨-, hroom, -⟩ := Attribute.toValue_eq_ok.mp hv
  exact absurd hroom (by rw [Attribute.octets, hlen]; decide)

/-! ### The caller's buffer -/

/-- A failed encoding changes nothing; a successful one changes the octets it counts and no
others, and leaves the same there whatever the buffer held. -/
structure Clean (a : Attribute) (txid : Octets 12) : Prop where
  failed : ∀ out buf e, writeAttributeValue a txid out = (.err e, buf) → buf = out
  behind : ∀ out buf n, writeAttributeValue a txid out = (.ok n, buf) → buf.length = out.length ∧ buf.drop n = out.drop n
  stable : ∀ out₁ out₂ buf₁ buf₂ n₁ n₂, writeAttributeValue a txid out₁ = (.ok n₁, buf₁) →
    writeAttributeValue a txid out₂ = (.ok n₂, buf₂) → n₁ = n₂ ∧ buf₁.take n₁ = buf₂.take n₂

section
variable {a : Attribute} {txid : Octets 12} {out buf : Bytes}

/-- The encoder stores its octets at the front or leaves the buffer alone. -/
theorem write_cases (a : Attribute) (txid : Octets 12) (out : Bytes) :
    (∃ e, writeAttributeValue a txid out = (.err e, out)) ∨
    ((a.octets txid (out.getD 1 0)).length ≤ out.length ∧ writeAttributeValue a txid out =
      (.ok (a.octets txid (out.getD 1 0)).length,
        a.octets txid (out.getD 1 0) ++ out.drop (a.octets txid (out.getD 1 0)).length)) := by
  rw [writeAttributeValue_run]
  cases a.refusal with
  | some e => exact .inl ⟨e, rfl⟩
  | none =>
    by_cases hroom : (a.octets txid (out.getD 1 0)).length ≤ out.length
    · exact .inr ⟨hroom, if_pos hroom⟩
    · exact .inl ⟨_, if_neg hroom⟩

theorem write_err {e : Error} (h : writeAttributeValue a txid out = (.err e, buf)) : buf = out := by
  rcases write_cases a txid out with ⟨e', he⟩ | ⟨-, hok⟩
  · cases h.symm.trans he
    rfl
  · cases h.symm.trans hok

theorem write_ok {n : Nat} (h : writeAttributeValue a txid out = (.ok n, buf)) :
    n = (a.octets txid (out.getD 1 0)).length ∧ n ≤ out.length ∧ buf = a.octets txid (out.getD 1 0) ++ out.drop n := by
  rcases write_cases a txid out with ⟨e', he⟩ | ⟨hroom, hok⟩
  · cases h.symm.trans he
  · cases h.symm.trans hok
    exact ⟨rfl, hroom, rfl⟩

theorem write_front {n : Nat} (h : writeAttributeValue a txid out = (.ok n, buf)) :
    buf.take n = a.octets txid (out.getD 1 0) := by
  obtain ⟨rfl, -, rfl⟩ := write_ok h
  exact List.take_left

theorem write_behind {n : Nat} (h : writeAttributeValue a txid out = (.ok n, buf)) :
    buf.length = out.length ∧ buf.drop n = out.drop n := by
  obtain ⟨rfl, hroom, rfl⟩ := write_ok h
  refine ⟨?_, List.drop_left⟩
  rw [List.length_append, List.length_drop]
  omega

/-- No other value has an octet that the encoder does not store. -/
theorem octets_free (h : ∀ addr, a ≠ .alternateServer addr) (txid : Octets 12) (x y : UInt8) :
    a.octets txid x = a.octets txid y := by
  cases a with
  | alternateServer addr => exact absurd rfl (h addr)
  | _ => rfl

/-- Two buffers that differ in octet 1 alone still do so behind the encoder. -/
theorem MappedAddress.not_stable (addr : MappedAddress) : ¬ ∀ (out₁ out₂ buf₁ buf₂ : Bytes) (n₁ n₂ : Nat),
    writeAttributeValue (.alternateServer addr) txid out₁ = (.ok n₁, buf₁) →
    writeAttributeValue (.alternateServer addr) txid out₂ = (.ok n₂, buf₂) → n₁ = n₂ ∧ buf₁.take n₁ = buf₂.take n₂ := by
  intro hstable
  have hroom : ∀ x : UInt8, 4 + addr.family.addressOctets ≤ (0 :: x :: zeros 18 : Bytes).length := by
    intro x
    have := addr.family.addressOctets_le
    rw [List.length_cons, List.length_cons, zeros_length]
    omega
  have hrun : ∀ x : UInt8, writeAttributeValue (.alternateServer addr) txid (0 :: x :: zeros 18) =
      (.ok (4 + addr.family.addressOctets), _) := fun x => (writeFamilyFirst_run addr _).trans (if_pos (hroom x))
  obtain ⟨-, hfront⟩ := hstable _ _ _ _ _ _ (hrun 0) (hrun 1)
  have hoctet : addr.familyFirstValue 0 = addr.familyFirstValue 1 :=
    (write_front (hrun 0)).symm.trans (hfront.trans (write_front (hrun 1)))
  exact absurd (List.cons.inj (List.cons.inj hoctet).2).1 (by decide)

end

/-- **The buffer**: encoding is clean for every attribute but ALTERNATE-SERVER. -/
theorem writes_clean_iff (a : Attribute) (txid : Octets 12) : Clean a txid ↔ ∀ addr, a ≠ .alternateServer addr := by
  constructor
  · rintro hclean addr rfl
    exact addr.not_stable hclean.stable
  · intro hne
    constructor
    case failed => exact fun _ _ _ h => write_err h
    case behind => exact fun _ _ _ h => write_behind h
    case stable =>
      intro out₁ out₂ buf₁ buf₂ n₁ n₂ h₁ h₂
      have heq := octets_free hne txid (out₁.getD 1 0) (out₂.getD 1 0)
      refine ⟨?_, ?_⟩
      · rw [(write_ok h₁).1, (write_ok h₂).1, heq]
      · rw [write_front h₁, write_front h₂, heq]

/-- An octet of the buffer reaches the wire. -/
theorem alternateServer_leaks : ¬ ∀ (a : Attribute) (txid : Octets 12), Clean a txid := fun hall =>
  (MappedAddress.fromIpv4 ⟨[127, 0, 0, 1], rfl⟩ 3478).not_stable (hall _ ⟨zeros 12, rfl⟩).stable

end QuickRelay.Protocol
