import QuickRelay.Protocol.Value

/-! What the value decoder and encoder do on every input: which values panic,
which codes come out, what octets go in, and that decoding undoes encoding. -/
namespace QuickRelay.Protocol
open Lib

/-! ### Panics -/

namespace ErrorCode

theorem validateRange_eq_ok {code c : UInt16} : validateRange code = .ok c ↔ code < 700 ∧ c = code := by
  rw [validateRange, Outcome.refuse_bind_eq_ok, UInt16.not_le]
  simp [eq_comm]

theorem validateRange_ne_panic (code : UInt16) : validateRange code ≠ .panic := by
  rw [validateRange, ne_eq, Outcome.refuse_bind_eq_panic]
  simp

/-- Decoding keeps the two octets it checks and everything behind them. -/
theorem readValue_ok_iff {buf : Bytes} {e : ErrorCode} : readValue buf = .ok e ↔
    ∃ x y, buf = x :: y :: e.cls :: e.number :: e.reason ∧ e.asU16 < 700 := by
  rw [readValue, Outcome.refuse_bind_eq_ok]
  constructor
  · rintro ⟨h4, h⟩
    obtain ⟨x, y, c, n, body, rfl⟩ := exists_four (Nat.le_of_not_lt h4)
    simp only [octetAt_cons_succ, octetAt_cons_zero, Outcome.ok_bind, Outcome.bind_eq_ok, validateRange_eq_ok] at h
    obtain ⟨_, ⟨hlt, -⟩, reason, hs, h⟩ := h
    rw [slice_of_le (by simp) le_rfl] at hs
    cases hs
    cases h
    exact ⟨x, y, by simp, hlt⟩
  · rintro ⟨x, y, rfl, hlt⟩
    refine ⟨by simp, ?_⟩
    have hv : validateRange (e.cls.toUInt16 * 100 + e.number.toUInt16) = .ok e.asU16 :=
      validateRange_eq_ok.mpr ⟨hlt, rfl⟩
    simp only [octetAt_cons_succ, octetAt_cons_zero, Outcome.ok_bind, hv]
    rw [slice_of_le (by simp) le_rfl]
    simp

theorem readValue_ne_panic (buf : Bytes) : readValue buf ≠ .panic := by
  intro h
  rw [readValue, Outcome.refuse_bind_eq_panic] at h
  obtain ⟨h4, h⟩ := h
  obtain ⟨x0, x1, x2, x3, body, rfl⟩ := exists_four (Nat.le_of_not_lt h4)
  simp only [octetAt_cons_succ, octetAt_cons_zero, Outcome.ok_bind, Outcome.bind_eq_panic] at h
  rcases h with h | ⟨c, -, h | ⟨r, -, h⟩⟩
  · exact validateRange_ne_panic _ h
  · rw [slice_of_le (by simp) le_rfl] at h
    cases h
  · cases h

end ErrorCode

theorem utf8Attr_ne_panic (code : AttrCode) (buf : Bytes) : utf8Attr code buf ≠ .panic := Outcome.okOr_ne_panic

@[simp] theorem checkExact_eq_ok {code : AttrCode} {buf : Bytes} {n : Nat} {u : Unit} :
    checkExact code buf n = .ok u ↔ buf.length = n := by
  rw [checkExact, Outcome.refuse_eq_ok, not_not]

@[simp] theorem checkExact_ne_panic {code : AttrCode} {buf : Bytes} {n : Nat} : checkExact code buf n ≠ .panic :=
  Outcome.refuse_ne_panic

theorem checkExact_bind_eq_ok {α : Type} {code : AttrCode} {buf : Bytes} {n : Nat} {f : Unit → Res α} {a : α} :
    checkExact code buf n >>= f = .ok a ↔ buf.length = n ∧ f () = .ok a := by
  rw [checkExact, Outcome.refuse_bind_eq_ok, not_not]

theorem checkExact_bind_eq_panic {α : Type} {code : AttrCode} {buf : Bytes} {n : Nat} {f : Unit → Res α} :
    checkExact code buf n >>= f = .panic ↔ buf.length = n ∧ f () = .panic := by
  rw [checkExact, Outcome.refuse_bind_eq_panic, not_not]

theorem exactOctets_eq_ok {code : AttrCode} {buf : Bytes} {n : Nat} {t : Octets n} :
    exactOctets code buf n = .ok t ↔ buf = t.val := by
  rw [exactOctets, checkExact_bind_eq_ok]
  constructor
  · rintro ⟨hn, ht⟩
    rw [toOctets_of_length hn] at ht
    cases ht
    rfl
  · rintro rfl
    exact ⟨t.property, toOctets_of_length t.property⟩

theorem exactOctets_ne_panic (code : AttrCode) (buf : Bytes) (n : Nat) : exactOctets code buf n ≠ .panic := by
  rw [exactOctets, ne_eq, checkExact_bind_eq_panic]
  rintro ⟨hn, h⟩
  rw [toOctets_of_length hn] at h
  cases h

theorem exactU32_eq_ok {code : AttrCode} {buf : Bytes} {v : UInt32} : exactU32 code buf = .ok v ↔ buf = u32ToBe v := by
  rw [exactU32, checkExact_bind_eq_ok]
  constructor
  · rintro ⟨hn, hv⟩
    obtain ⟨a, b, c, d, rest, rfl⟩ := exists_four (Nat.le_of_eq hn.symm)
    obtain rfl : rest = [] := List.eq_nil_of_length_eq_zero (by simpa using hn)
    cases hv
    rw [u32ToBe_fromBe]
  · rintro rfl
    exact ⟨u32ToBe_length v, readU32_u32ToBe v⟩

theorem exactU32_ne_panic (code : AttrCode) (buf : Bytes) : exactU32 code buf ≠ .panic := by
  rw [exactU32, ne_eq, checkExact_bind_eq_panic]
  rintro ⟨hn, h⟩
  obtain ⟨a, b, c, d, rest, rfl⟩ := exists_four (Nat.le_of_eq hn.symm)
  cases h

theorem exactFamily_eq_ok {code : AttrCode} {buf : Bytes} {f : AddressFamily} :
    exactFamily code buf = .ok f ↔ buf = [f.toOctet] := by
  rw [exactFamily, checkExact_bind_eq_ok]
  constructor
  · rintro ⟨hn, h⟩
    obtain ⟨x, rfl⟩ := List.length_eq_one_iff.mp hn
    rw [octetAt_cons_zero, Outcome.ok_bind, Outcome.okOr_eq_ok] at h
    rw [AddressFamily.toOctet_of_fromOctet h]
  · rintro rfl
    simp [Outcome.okOr]

theorem exactFamily_ne_panic (code : AttrCode) (buf : Bytes) : exactFamily code buf ≠ .panic := by
  rw [exactFamily, ne_eq, checkExact_bind_eq_panic]
  rintro ⟨hn, h⟩
  obtain ⟨x, rfl⟩ := List.length_eq_one_iff.mp hn
  rw [octetAt_cons_zero, Outcome.ok_bind] at h
  exact Outcome.okOr_ne_panic h

/-- The tag a MESSAGE-INTEGRITY-SHA256 value of legal length decodes to. -/
def sha256Tag (buf : Bytes) (h : buf.length ≤ 32) : Octets 32 :=
  ⟨buf ++ zeros (32 - buf.length), by simp; omega⟩

theorem parse_messageIntegritySha256 {buf : Bytes} (txid : Octets 12) (h : LegalSha256Len buf.length) :
    parseAttributeValue (.known .messageIntegritySha256) buf txid = .ok (.messageIntegritySha256 (sha256Tag buf h.2.1)) := by
  rw [parseAttributeValue, Outcome.refuse_neg (not_not.mpr h), Outcome.ok_bind]
  split
  case isTrue h32 =>
    have : tryOctets 32 buf = some (sha256Tag buf h.2.1) := by
      rw [tryOctets, dif_pos h32]
      congr 2
      simp [h32, zeros]
    rw [this]
    rfl
  case isFalse h32 =>
    rw [copyInto_of_le (Nat.zero_le _) (by simpa using h.2.1) (by omega), Outcome.ok_bind, List.take_zero,
      List.nil_append, zeros_drop, toOctets_of_length (by have := h.2.1; simp; omega)]
    rfl

theorem parse_sha256_illegal {buf : Bytes} (txid : Octets 12) (h : ¬ LegalSha256Len buf.length) :
    parseAttributeValue (.known .messageIntegritySha256) buf txid = .err (.attr .malformedAttribute 0x001C) := by
  rw [parseAttributeValue, Outcome.refuse_pos h]
  rfl

private theorem readU16_ne_panic {buf : Bytes} (h : 2 ≤ buf.length) : (readU16 buf 0 : Res UInt16) ≠ .panic := by
  rw [readU16_of_lt (by omega)]
  simp

/-- The one value that panics the decoder is an empty ALTERNATE-SERVER. -/
theorem parseAttributeValue_eq_panic {code : UInt16} {buf : Bytes} {txid : Octets 12} :
    parseAttributeValue (AttrCode.attrFromWire code) buf txid = .panic ↔
      code = AttrCode.alternateServer.asU16 ∧ buf = [] := by
  cases hk : AttrCode.attrFromWire code with
  | unknown n =>
    simp only [parseAttributeValue, reduceCtorEq, false_iff, not_and]
    rintro rfl
    cases hk
  | known c =>
    rw [← AttrCode.asU16_of_known hk]
    cases c
    case unknown n => exact absurd hk (AttrCode.attrFromWire_ne_unknown code n)
    case alternateServer =>
      simp [parseAttributeValue, Outcome.map_eq_panic, readAlternateServer, readFamilyFirst_eq_panic]
    case messageIntegritySha256 =>
      by_cases h : LegalSha256Len buf.length
      · simp [parse_messageIntegritySha256 txid h, AttrCode.asU16]
      · simp [parse_sha256_illegal txid h, AttrCode.asU16]
    all_goals
      simp +contextual [parseAttributeValue, Outcome.map_eq_panic, Outcome.bind_eq_panic, AttrCode.asU16,
        MappedAddress.readValue_ne_panic, readXorAddress_ne_panic, exactU32_ne_panic, utf8Attr_ne_panic,
        ErrorCode.readValue_ne_panic, exactOctets_ne_panic, exactFamily_ne_panic, readU16_ne_panic]

/-! ### Codes -/

/-- The kind an attribute decoded under a wire code has: ICMP is kept verbatim as an
unregistered one, every other attribute keeps the kind of its code. -/
theorem attributeKind_eq {code : UInt16} {buf : Bytes} {txid : Octets 12} {a : Attribute}
    (h : parseAttributeValue (AttrCode.attrFromWire code) buf txid = .ok a) :
    attributeKind a = if AttrCode.attrFromWire code = .known .icmp then .unknown code else AttrCode.attrFromWire code := by
  cases hk : AttrCode.attrFromWire code with
  | unknown n =>
    rw [hk] at h
    cases h
    rfl
  | known c =>
    rw [hk] at h
    cases c
    case unknown n => exact absurd hk (AttrCode.attrFromWire_ne_unknown code n)
    case icmp =>
      cases h
      rw [if_pos rfl, AttrCode.asU16_of_known hk]
      rfl
    case messageIntegritySha256 =>
      by_cases hl : LegalSha256Len buf.length
      · rw [parse_messageIntegritySha256 txid hl] at h; cases h; rfl
      · rw [parse_sha256_illegal txid hl] at h; cases h
    all_goals
      simp only [parseAttributeValue, Outcome.map_eq_ok, Outcome.bind_eq_ok, Outcome.pure_eq, Outcome.ok.injEq] at h
      first
        | (obtain ⟨_, _, rfl⟩ := h; rfl)
        | (obtain ⟨_, _, _, _, rfl⟩ := h; rfl)
        | (obtain ⟨_, _, _, _, _, _, rfl⟩ := h; rfl)

/-- An attribute keeps the wire code it was decoded under. -/
theorem asU16_attributeKind {code : UInt16} {buf : Bytes} {txid : Octets 12} {a : Attribute}
    (h : parseAttributeValue (AttrCode.attrFromWire code) buf txid = .ok a) : (attributeKind a).asU16 = code := by
  rw [attributeKind_eq h]
  split
  · rfl
  · exact AttrCode.asU16_attrFromWire code

/-! ### What the encoder stores -/

namespace Attribute

/-- The refusals an encoder makes before it looks at the buffer. -/
def refusal : Attribute → Option Error
  | .errorCode e | .addressErrorCode e =>
    if 700 ≤ e.asU16 then some (.attr .malformedErrorCode AttrCode.errorCode.asU16)
    else if errorCodeReasonMaxLen < e.reason.length then some (.attr .valueTooLong AttrCode.errorCode.asU16)
    else none
  | .unknownAttributes l => if 2 ^ 32 ≤ l.length * 2 then some (.new .valueTooLong) else none
  | .channelNumber c => if c < 0x4000 ∨ 0xBFFF < c then some (.attr .malformedChannelNumber 0x000C) else none
  | .data b => if dataMaxLen < b.length then some (.attr .valueTooLong AttrCode.data.asU16) else none
  | .connectionId b =>
    if b = [] ∨ b.length ∉ connectionIdLengths then some (.attr .malformedConnectionId 0x002A) else none
  | _ => none

/-- The octets of a value; `x` is what the buffer holds at the one octet that
ALTERNATE-SERVER leaves alone. -/
def octets (txid : Octets 12) (x : UInt8) : Attribute → Bytes
  | .mappedAddress a | .otherAddress a => mappedValue a.family a.port a.octets
  | .xorMappedAddress a | .xorRelayedAddress a | .xorPeerAddress a =>
    mappedValue a.family (a.port ^^^ xorPortKey) (xorOctetsOf a txid)
  | .changeRequest v | .fingerprint v | .icePriority v | .lifetime v => u32ToBe v
  | .username s | .realm s | .nonce s | .software s | .alternateDomain s | .thirdPartyAuthorization s
  | .extendedCandidate s | .extendedCandidateUfrag s | .requestedTransport s | .passwordAlgorithm s => utf8Bytes s
  | .errorCode e | .addressErrorCode e => 0 :: 0 :: e.cls :: e.number :: e.reason
  | .unknownAttributes l => l.flatMap u16ToBe
  | .messageIntegrity tag => tag.val
  | .messageIntegritySha256 tag | .userHash tag => tag.val
  | .iceControlled t | .iceControlling t => t.val
  | .channelNumber c => u16ToBe c ++ [0, 0]
  | .responsePort p => u16ToBe p
  | .requestedAddressFamily f | .additionalAddressFamily f => [f.toOctet]
  | .alternateServer a => a.familyFirstValue x
  | .data b | .reservationToken b | .evenPort b | .accessToken b | .padding b | .unknown _ b | .connectionId b => b
  | .dontFragment | .useCandidate => []
  | .passwordAlgorithms parts => utf8Bytes (commaJoin parts)

end Attribute

theorem ErrorCode.writeValue_run (e : ErrorCode) (out : Bytes) :
    e.writeValue out = if 700 ≤ e.asU16 then (.err (.attr .malformedErrorCode AttrCode.errorCode.asU16), out)
      else if errorCodeReasonMaxLen < e.reason.length then (.err (.attr .valueTooLong AttrCode.errorCode.asU16), out)
      else if 4 + e.reason.length ≤ out.length then
        (.ok (4 + e.reason.length), 0 :: 0 :: e.cls :: e.number :: e.reason ++ out.drop (4 + e.reason.length))
      else (.err (.new .valueTooLong), out) := by
  by_cases hr : 700 ≤ e.asU16
  · have : validateRange (e.cls.toUInt16 * 100 + e.number.toUInt16) =
        .err (.attr .malformedErrorCode AttrCode.errorCode.asU16) := by
      change validateRange e.asU16 = _
      rw [validateRange, Outcome.refuse_pos hr]
      rfl
    rw [if_pos hr, writeValue, Buffer.bind_run, Buffer.lift_run, this]
  have hv : (Buffer.lift (validateRange (e.cls.toUInt16 * 100 + e.number.toUInt16)) : Buffer Error UInt16) out =
      (.ok e.asU16, out) := by
    rw [Buffer.lift_run, Prod.mk.injEq]
    exact ⟨validateRange_eq_ok.mpr ⟨UInt16.not_le.mp hr, rfl⟩, rfl⟩
  rw [if_neg hr, writeValue, Buffer.bind_run_ok hv,
    Buffer.refuse_bind_run]
  by_cases hl : errorCodeReasonMaxLen < e.reason.length
  · rw [if_pos hl, if_pos hl]
  rw [if_neg hl, if_neg hl, Buffer.bind_run_ok (Buffer.len_run _), Buffer.refuse_bind_run]
  by_cases hn : 4 + e.reason.length ≤ out.length
  · rw [if_pos hn, if_neg (by omega)]
    obtain ⟨x0, x1, x2, x3, body, rfl⟩ := exists_four (b := out) (by omega)
    simp only [List.length_cons] at hn
    rw [Buffer.bind_run_ok (Buffer.copy_run (by omega) (by simp) (by simp)),
      Buffer.bind_run_ok (Buffer.set_run _ (by simp [zeros])), Buffer.bind_run_ok (Buffer.set_run _ (by simp [zeros])),
      Buffer.bind_run_ok (Buffer.copy_run (by omega) (by simp [zeros]; omega) (by omega))]
    simp [zeros, Nat.add_comm 4]
  · rw [if_neg hn, if_pos (by omega)]

/-- The loop stores its codes one after the other. -/
theorem copyCodes_run (l : List UInt16) (w : Nat) {out : Bytes} (h : w + 2 * l.length ≤ out.length) :
    copyCodes w l out = (.ok (), out.take w ++ l.flatMap u16ToBe ++ out.drop (w + 2 * l.length)) := by
  induction l generalizing w out with
  | nil => simp [copyCodes]
  | cons c l ih =>
    rw [List.length_cons] at h
    rw [copyCodes, Buffer.bind_run_ok (Buffer.copy_run (by omega) (by omega) (by simp)), ih (w + 2) (by simp; omega)]
    have hw : (out.take w ++ u16ToBe c).length = w + 2 := by simp; omega
    rw [List.take_append_of_le_length (by omega), List.take_of_length_le (by omega), List.drop_append,
      List.drop_eq_nil_of_le (by omega), List.nil_append, hw, List.drop_drop, List.flatMap_cons, List.length_cons]
    simp only [List.append_assoc, Prod.mk.injEq, true_and]
    congr 4
    omega

private theorem errorCode_run (e : ErrorCode) (txid : Octets 12) (out : Bytes) :
    e.writeValue out = match (Attribute.errorCode e).refusal with
      | some err => (.err err, out)
      | none =>
        let v := (Attribute.errorCode e).octets txid (out.getD 1 0)
        if v.length ≤ out.length then (.ok v.length, v ++ out.drop v.length) else (.err (.new .valueTooLong), out) := by
  simp only [ErrorCode.writeValue_run, Attribute.refusal, Attribute.octets, List.length_cons, Nat.add_comm 4]
  by_cases hr : 700 ≤ e.asU16
  · simp only [hr, if_true]
  by_cases hl : errorCodeReasonMaxLen < e.reason.length
  · simp only [hr, hl, if_true, if_false]
  · simp only [hr, hl, if_false]
    rfl

/-- The encoder either refuses and leaves the buffer alone, or stores the
attribute's octets over its front. -/
theorem writeAttributeValue_run (a : Attribute) (txid : Octets 12) (out : Bytes) :
    writeAttributeValue a txid out = match a.refusal with
      | some e => (.err e, out)
      | none =>
        let v := a.octets txid (out.getD 1 0)
        if v.length ≤ out.length then (.ok v.length, v ++ out.drop v.length) else (.err (.new .valueTooLong), out) := by
  have hx := fun (src : Bytes) => Buffer.writeAll_writes (Error.new .valueTooLong) src out
  cases a
  case mappedAddress a => exact a.writeValue_writes out
  case otherAddress a => exact a.writeValue_writes out
  case xorMappedAddress a => exact writeXorAddress_writes a txid out
  case xorRelayedAddress a => exact writeXorAddress_writes a txid out
  case xorPeerAddress a => exact writeXorAddress_writes a txid out
  case errorCode e => exact errorCode_run e txid out
  case addressErrorCode e => exact errorCode_run e txid out
  case unknownAttributes l =>
    simp only [writeAttributeValue, Attribute.refusal, Attribute.octets, Buffer.refuse_bind_run]
    by_cases h32 : 2 ^ 32 ≤ l.length * 2
    · rw [if_pos h32, if_pos h32]
    · rw [if_neg h32, if_neg h32, Buffer.bind_run_ok (Buffer.len_run _), Buffer.refuse_bind_run]
      simp only [flatMap_u16ToBe_length]
      by_cases hn : 2 * l.length ≤ out.length
      · rw [if_neg (by omega), if_pos hn, Buffer.bind_run_ok (copyCodes_run l 0 (by omega))]
        simp [Nat.mul_comm]
      · rw [if_pos (by omega), if_neg hn]
  case channelNumber c =>
    simp only [writeAttributeValue, Attribute.refusal, Attribute.octets, Buffer.refuse_bind_run]
    split
    · rfl
    · exact hx _
  case data b =>
    simp only [writeAttributeValue, Attribute.refusal, Attribute.octets, Buffer.refuse_bind_run]
    split
    · rfl
    · exact hx _
  case connectionId b =>
    simp only [writeAttributeValue, Attribute.refusal, Attribute.octets, Buffer.refuse_bind_run]
    split
    · rfl
    · exact hx _
  case alternateServer a =>
    simp only [Attribute.refusal, Attribute.octets, MappedAddress.familyFirstValue_length]
    exact writeFamilyFirst_run a out
  case dontFragment => rfl
  case useCandidate => rfl
  all_goals exact hx _

/-- `to_value` is the encoder on a clean buffer of 2048 octets. -/
theorem Attribute.toValue_eq (a : Attribute) (txid : Octets 12) :
    a.toValue txid = match a.refusal with
      | some e => .err e
      | none =>
        if (a.octets txid 0).length ≤ 2048 then .ok (a.octets txid 0) else .err (.new .valueTooLong) := by
  simp only [toValue, writeAttributeValue_run, zeros_getD, zeros_length]
  cases a.refusal with
  | some e => rfl
  | none =>
    simp only
    split
    case h_1 n buf h =>
      split at h <;> cases h
      rename_i hl
      rw [if_pos hl, slice_of_le (Nat.zero_le _) (by simp)]
      simp
    case h_2 e buf h =>
      split at h <;> cases h
      rename_i hl
      rw [if_neg hl]
    case h_3 buf h => split at h <;> cases h

theorem Attribute.toValue_eq_ok {a : Attribute} {txid : Octets 12} {v : Bytes} :
    a.toValue txid = .ok v ↔ a.refusal = none ∧ (a.octets txid 0).length ≤ 2048 ∧ v = a.octets txid 0 := by
  rw [toValue_eq]
  cases a.refusal with
  | some e => simp
  | none =>
    by_cases h : (a.octets txid 0).length ≤ 2048
    · simp [h, eq_comm]
    · simp [h]

/-! ### Decoding undoes encoding -/

namespace Attribute

/-- What every decoded attribute satisfies: unused address octets are zero,
algorithm names are trimmed and free of commas, and a code kept verbatim is not
one with a decoder of its own. -/
def Canonical : Attribute → Prop
  | .mappedAddress a | .otherAddress a | .xorMappedAddress a | .xorRelayedAddress a | .xorPeerAddress a
  | .alternateServer a => a.Padded
  | .passwordAlgorithms parts => parts ≠ [] ∧
      ∀ p ∈ parts, trim p.toList = p.toList ∧ p.toList ≠ [] ∧ ',' ∉ p.toList
  | .unknown kind _ => AttrCode.attrFromWire kind = .unknown kind ∨ kind = AttrCode.icmp.asU16
  | _ => True

end Attribute

/-- Every decoded attribute is canonical. -/
theorem canonical_of_parse {code : UInt16} {buf : Bytes} {txid : Octets 12} {a : Attribute}
    (h : parseAttributeValue (AttrCode.attrFromWire code) buf txid = .ok a) : a.Canonical := by
  cases hk : AttrCode.attrFromWire code with
  | unknown n =>
    rw [hk] at h
    cases h
    exact .inl (AttrCode.eq_of_unknown hk ▸ hk)
  | known c =>
    rw [hk] at h
    cases c
    case unknown n => exact absurd hk (AttrCode.attrFromWire_ne_unknown code n)
    case messageIntegritySha256 =>
      by_cases hl : LegalSha256Len buf.length
      · rw [parse_messageIntegritySha256 txid hl] at h; cases h; trivial
      · rw [parse_sha256_illegal txid hl] at h; cases h
    all_goals
      simp only [parseAttributeValue, Outcome.map_eq_ok, Outcome.bind_eq_ok, Outcome.pure_eq, Outcome.ok.injEq] at h
    case mappedAddress | otherAddress =>
      obtain ⟨a, h, rfl⟩ := h
      exact MappedAddress.padded_of_readValue h
    case xorMappedAddress | xorRelayedAddress | xorPeerAddress =>
      obtain ⟨a, h, rfl⟩ := h
      exact padded_of_readXorAddress h
    case alternateServer =>
      obtain ⟨a, h, rfl⟩ := h
      exact MappedAddress.padded_of_readFamilyFirst h
    case passwordAlgorithms =>
      obtain ⟨s, -, _, hne, rfl⟩ := h
      exact ⟨Outcome.refuse_eq_ok.mp hne, fun p hp => mem_commaParts hp⟩
    case icmp => subst h; exact .inr rfl
    all_goals
      first
        | (obtain ⟨_, _, rfl⟩ := h; trivial)
        | (obtain ⟨_, _, _, _, rfl⟩ := h; trivial)
        | (obtain ⟨_, _, _, _, _, _, rfl⟩ := h; trivial)

private theorem utf8Attr_utf8Bytes (code : AttrCode) (s : String) : utf8Attr code (utf8Bytes s) = .ok s := by
  rw [utf8Attr, fromUtf8_utf8Bytes, Outcome.okOr]

private theorem errorCode_readValue {e : ErrorCode} (h : e.asU16 < 700) :
    ErrorCode.readValue (0 :: 0 :: e.cls :: e.number :: e.reason) = .ok e :=
  ErrorCode.readValue_ok_iff.mpr ⟨0, 0, rfl, h⟩

private theorem errorCode_lt {e : ErrorCode} (h : (Attribute.errorCode e).refusal = none) : e.asU16 < 700 := by
  by_contra hr
  simp [Attribute.refusal, UInt16.not_lt.mp hr] at h

/-- The octets an encodable attribute is written as decode to that attribute again. -/
theorem parse_octets {a : Attribute} (hc : a.Canonical) (hr : a.refusal = none) (txid : Octets 12) (x : UInt8) :
    parseAttributeValue (AttrCode.attrFromWire (attributeKind a).asU16) (a.octets txid x) txid = .ok a := by
  cases a
  case unknown kind value =>
    rcases hc with hk | rfl
    · change parseAttributeValue (AttrCode.attrFromWire kind) value txid = _
      rw [hk, parseAttributeValue]
    · rfl
  all_goals
    change parseAttributeValue (.known _) _ txid = _
    simp only [parseAttributeValue, Attribute.octets, Outcome.map_eq_ok]
  case mappedAddress a | otherAddress a =>
    exact ⟨a, by simpa using MappedAddress.readValue_append hc [], rfl⟩
  case xorMappedAddress a | xorRelayedAddress a | xorPeerAddress a =>
    exact ⟨a, by simpa using readXorAddress_append hc txid [], rfl⟩
  case alternateServer a =>
    exact ⟨a, by simpa [readAlternateServer] using
      MappedAddress.readFamilyFirst_familyFirstValue .malformedAlternateServer hc x [], rfl⟩
  case errorCode e | addressErrorCode e => exact ⟨e, errorCode_readValue (errorCode_lt hr), rfl⟩
  case changeRequest v | fingerprint v | icePriority v | lifetime v => exact ⟨v, exactU32_eq_ok.mpr rfl, rfl⟩
  case username s | realm s | nonce s | software s | alternateDomain s | thirdPartyAuthorization s
      | extendedCandidate s | extendedCandidateUfrag s | requestedTransport s | passwordAlgorithm s =>
    exact ⟨s, utf8Attr_utf8Bytes _ s, rfl⟩
  case messageIntegrity t | userHash t | iceControlled t | iceControlling t =>
    exact ⟨t, exactOctets_eq_ok.mpr rfl, rfl⟩
  case requestedAddressFamily f | additionalAddressFamily f => exact ⟨f, exactFamily_eq_ok.mpr rfl, rfl⟩
  case messageIntegritySha256 t =>
    have hl : LegalSha256Len t.val.length := by rw [t.property]; decide
    have ht : sha256Tag t.val hl.2.1 = t := Subtype.ext (by simp [sha256Tag, zeros, t.property])
    have := parse_messageIntegritySha256 txid hl
    rwa [ht] at this
  case unknownAttributes l =>
    refine Outcome.refuse_bind_eq_ok.mpr ⟨?_, by rw [u16Pairs_flatMap]; rfl⟩
    rw [flatMap_u16ToBe_length]; omega
  case channelNumber c =>
    have hc' : 0x4000 ≤ c ∧ c ≤ 0xBFFF := by
      have hn : ¬ (c < 0x4000 ∨ 0xBFFF < c) := fun h => by simp [Attribute.refusal, h] at hr
      rwa [not_or, UInt16.not_lt, UInt16.not_lt] at hn
    rw [checkExact_bind_eq_ok, readU16_u16ToBe, Outcome.ok_bind, Outcome.refuse_neg (not_not.mpr hc')]
    exact ⟨by simp, rfl⟩
  case responsePort p =>
    rw [checkExact_bind_eq_ok]
    have := readU16_u16ToBe (ε := Error) p []
    rw [List.append_nil] at this
    rw [this]
    exact ⟨by simp, rfl⟩
  case data b =>
    have hn : ¬ dataMaxLen < b.length := fun h => by simp [Attribute.refusal, h] at hr
    exact Outcome.refuse_bind_eq_ok.mpr ⟨hn, rfl⟩
  case connectionId b =>
    have hn : ¬ (b = [] ∨ b.length ∉ connectionIdLengths) := fun h => by simp [Attribute.refusal, h] at hr
    exact Outcome.refuse_bind_eq_ok.mpr ⟨hn, rfl⟩
  case passwordAlgorithms parts =>
    rw [utf8Attr_utf8Bytes, Outcome.ok_bind, commaParts_commaJoin hc.1 hc.2]
    exact Outcome.refuse_bind_eq_ok.mpr ⟨hc.1, rfl⟩
  all_goals rfl

/-- A decoded attribute that encodes decodes to itself again under its own code. -/
theorem parse_toValue {code : UInt16} {buf v : Bytes} {txid : Octets 12} {a : Attribute}
    (h : parseAttributeValue (AttrCode.attrFromWire code) buf txid = .ok a) (hv : a.toValue txid = .ok v) :
    parseAttributeValue (AttrCode.attrFromWire (attributeKind a).asU16) v txid = .ok a := by
  obtain ⟨hr, -, rfl⟩ := Attribute.toValue_eq_ok.mp hv
  exact parse_octets (canonical_of_parse h) hr txid 0

end QuickRelay.Protocol
