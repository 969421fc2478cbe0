import QuickRelay.Lib.Text
import QuickRelay.Protocol.Attribute

/-! Attribute values: one decoder and one encoder for every code. -/
namespace QuickRelay.Protocol
open Lib

namespace ErrorCode

def validateRange (code : UInt16) : Res UInt16 := do
  .refuse (700 ≤ code) (.attr .malformedErrorCode AttrCode.errorCode.asU16)
  return code

def asU16 (e : ErrorCode) : UInt16 := e.cls.toUInt16 * 100 + e.number.toUInt16

def fromNumber (code : UInt16) : Res ErrorCode := do
  let code ← validateRange code
  return ⟨(code / 100).toUInt8, (code % 100).toUInt8, []⟩

def readValue (buf : Bytes) : Res ErrorCode := do
  .refuse (buf.length < 4) (.attr .malformedErrorCode AttrCode.errorCode.asU16)
  let cls ← octetAt buf 2
  let number ← octetAt buf 3
  let _ ← validateRange (cls.toUInt16 * 100 + number.toUInt16)
  return ⟨cls, number, ← slice buf 4 buf.length⟩

def writeValue (e : ErrorCode) : Buffer Error Nat := do
  let _ ← .lift (validateRange (e.cls.toUInt16 * 100 + e.number.toUInt16))
  .lift (.refuse (errorCodeReasonMaxLen < e.reason.length) (.attr .valueTooLong AttrCode.errorCode.asU16))
  let need := 4 + e.reason.length
  let len ← .len
  .lift (.refuse (len < need) (.new .valueTooLong))
  .copy 0 2 (zeros 2)
  .set 2 e.cls
  .set 3 e.number
  .copy 4 need e.reason
  return need

end ErrorCode

def utf8Attr (code : AttrCode) (buf : Bytes) : Res String :=
  .okOr (.attr .invalidUtf8 code.asU16) (fromUtf8 buf)

def checkExact (code : AttrCode) (buf : Bytes) (want : Nat) : Res Unit :=
  .refuse (buf.length ≠ want) (.attr .malformedAttribute code.asU16)

/-- An exact-length check and the copy into a `[u8; n]`. -/
def exactOctets (code : AttrCode) (buf : Bytes) (n : Nat) : Res (Octets n) := do
  checkExact code buf n
  toOctets n buf

/-- An exact-length check and a 32-bit field. -/
def exactU32 (code : AttrCode) (buf : Bytes) : Res UInt32 := do
  checkExact code buf 4
  readU32 buf 0

/-- A one-octet address family. -/
def exactFamily (code : AttrCode) (buf : Bytes) : Res AddressFamily := do
  checkExact code buf 1
  .okOr (.attr .unsupportedAddressFamily code.asU16) (AddressFamily.fromOctet (← octetAt buf 0))

/-- The lengths RFC 8489 allows a MESSAGE-INTEGRITY-SHA256 value. -/
def LegalSha256Len (n : Nat) : Prop :=
  messageIntegritySha256MinLen ≤ n ∧ n ≤ messageIntegritySha256Len ∧ n % 4 = 0

instance (n : Nat) : Decidable (LegalSha256Len n) := inferInstanceAs (Decidable (_ ∧ _ ∧ _))

def parseAttributeValue (kind : AttributeKind) (buf : Bytes) (txid : Octets 12) : Res Attribute :=
  match kind with
  | .unknown code => .ok (.unknown code buf)
  | .known code =>
    let err := fun k => Error.attr k code.asU16
    match code with
    | .mappedAddress => .mappedAddress <$> MappedAddress.readValue buf
    | .xorMappedAddress => .xorMappedAddress <$> readXorAddress buf txid
    | .xorRelayedAddress => .xorRelayedAddress <$> readXorAddress buf txid
    | .xorPeerAddress => .xorPeerAddress <$> readXorAddress buf txid
    | .changeRequest => .changeRequest <$> exactU32 code buf
    | .username => .username <$> utf8Attr code buf
    | .realm => .realm <$> utf8Attr code buf
    | .nonce => .nonce <$> utf8Attr code buf
    | .software => .software <$> utf8Attr code buf
    | .errorCode => .errorCode <$> ErrorCode.readValue buf
    | .addressErrorCode => .addressErrorCode <$> ErrorCode.readValue buf
    | .unknownAttributes => do
      .refuse (buf.length % 2 ≠ 0) (err .malformedAttribute)
      return .unknownAttributes (u16Pairs buf)
    | .messageIntegrity => .messageIntegrity <$> exactOctets code buf messageIntegrityLen
    | .messageIntegritySha256 => do
      let n := buf.length
      .refuse (¬ LegalSha256Len n) (.attr .malformedAttribute AttrCode.messageIntegritySha256.asU16)
      if n = messageIntegritySha256Len then
        .messageIntegritySha256 <$> .okOr (.attr .malformedAttribute AttrCode.messageIntegritySha256.asU16)
          (tryOctets messageIntegritySha256Len buf)
      else
        -- A shorter tag is continued with zeros.
        .messageIntegritySha256 <$>
          (copyInto (zeros messageIntegritySha256Len) 0 n buf >>= toOctets messageIntegritySha256Len)
    | .fingerprint => .fingerprint <$> exactU32 code buf
    | .userHash => .userHash <$> exactOctets code buf userHashLen
    | .iceControlled => .iceControlled <$> exactOctets code buf 8
    | .iceControlling => .iceControlling <$> exactOctets code buf 8
    | .icePriority => .icePriority <$> exactU32 code buf
    | .lifetime => .lifetime <$> exactU32 code buf
    | .channelNumber => do
      checkExact code buf 4
      let channel ← readU16 buf 0
      .refuse (¬ (0x4000 ≤ channel ∧ channel ≤ 0xBFFF)) (err .malformedChannelNumber)
      return .channelNumber channel
    | .responsePort => do
      checkExact code buf 2
      return .responsePort (← readU16 buf 0)
    | .data => do
      .refuse (dataMaxLen < buf.length) (err .valueTooLong)
      return .data buf
    | .requestedAddressFamily => .requestedAddressFamily <$> exactFamily code buf
    | .additionalAddressFamily => .additionalAddressFamily <$> exactFamily code buf
    | .requestedTransport => .requestedTransport <$> utf8Attr code buf
    | .alternateServer => .alternateServer <$> readAlternateServer buf
    | .otherAddress => .otherAddress <$> MappedAddress.readValue buf
    | .reservationToken => .ok (.reservationToken buf)
    | .evenPort => .ok (.evenPort buf)
    | .accessToken => .ok (.accessToken buf)
    | .padding => .ok (.padding buf)
    | .icmp => .ok (.unknown code.asU16 buf)
    | .connectionId => do
      .refuse (buf = [] ∨ buf.length ∉ connectionIdLengths) (err .malformedConnectionId)
      return .connectionId buf
    | .dontFragment => do checkExact code buf 0; return .dontFragment
    | .useCandidate => do checkExact code buf 0; return .useCandidate
    | .passwordAlgorithm => .passwordAlgorithm <$> utf8Attr code buf
    | .alternateDomain => .alternateDomain <$> utf8Attr code buf
    | .thirdPartyAuthorization => .thirdPartyAuthorization <$> utf8Attr code buf
    | .extendedCandidate => .extendedCandidate <$> utf8Attr code buf
    | .extendedCandidateUfrag => .extendedCandidateUfrag <$> utf8Attr code buf
    | .passwordAlgorithms => do
      let s ← utf8Attr code buf
      let parts := commaParts s
      .refuse (parts = []) (err .malformedAttribute)
      return .passwordAlgorithms parts
    -- `unreachable!`
    | .unknown _ => .panic

def writeExact (src : Bytes) : Buffer Error Nat := .writeAll (.new .valueTooLong) src

def writeStr (s : String) : Buffer Error Nat := .writeAll (.new .valueTooLong) (utf8Bytes s)

/-- The loop `out[w..w + 2] = c; w += 2` over a list of codes. -/
def copyCodes (w : Nat) : List UInt16 → Buffer Error Unit
  | [] => pure ()
  | c :: cs => do
    .copy w (w + 2) (u16ToBe c)
    copyCodes (w + 2) cs

def writeAttributeValue (attr : Attribute) (txid : Octets 12) : Buffer Error Nat :=
  match attr with
  | .mappedAddress a | .otherAddress a => a.writeValue
  | .xorMappedAddress a | .xorRelayedAddress a | .xorPeerAddress a => writeXorAddress a txid
  | .changeRequest v | .fingerprint v | .icePriority v | .lifetime v => writeExact (u32ToBe v)
  | .username s | .realm s | .nonce s | .software s | .alternateDomain s | .thirdPartyAuthorization s
  | .extendedCandidate s | .extendedCandidateUfrag s | .requestedTransport s | .passwordAlgorithm s => writeStr s
  | .errorCode e | .addressErrorCode e => e.writeValue
  | .unknownAttributes list => do
    let n := list.length * 2
    .lift (.refuse (2 ^ 32 ≤ n) (.new .valueTooLong))
    let len ← .len
    .lift (.refuse (len < n) (.new .valueTooLong))
    copyCodes 0 list
    return n
  | .messageIntegrity tag => writeExact tag.val
  | .messageIntegritySha256 tag | .userHash tag => writeExact tag.val
  | .iceControlled t | .iceControlling t => writeExact t.val
  | .channelNumber c => do
    .lift (.refuse (c < 0x4000 ∨ 0xBFFF < c) (.attr .malformedChannelNumber 0x000C))
    writeExact (u16ToBe c ++ [0, 0])
  | .responsePort p => writeExact (u16ToBe p)
  | .requestedAddressFamily f | .additionalAddressFamily f => writeExact [f.toOctet]
  | .data b => do
    .lift (.refuse (dataMaxLen < b.length) (.attr .valueTooLong AttrCode.data.asU16))
    writeExact b
  | .alternateServer a => writeAlternateServer a
  | .reservationToken b | .evenPort b | .accessToken b | .padding b | .unknown _ b => writeExact b
  | .connectionId b => do
    .lift (.refuse (b = [] ∨ b.length ∉ connectionIdLengths) (.attr .malformedConnectionId 0x002A))
    writeExact b
  | .dontFragment | .useCandidate => pure 0
  | .passwordAlgorithms parts => writeStr (commaJoin parts)

/-- Appends one attribute, with zeros for padding. -/
def emitAttribute (out : Bytes) (kind : AttributeKind) (value : Bytes) : Res Bytes := do
  .refuse (65535 < value.length) (.new .valueTooLong)
  return out ++ (u16ToBe kind.asU16 ++ (u16ToBe (UInt16.ofNat value.length) ++ (value ++ zeros (padLen value.length))))

namespace Attribute

/-- The value octets, taken from a scratch buffer of 2048 zeros. -/
def toValue (attr : Attribute) (txid : Octets 12) : Res Bytes :=
  match writeAttributeValue attr txid (zeros 2048) with
  | (.ok n, buf) => slice buf 0 n
  | (.err e, _) => .err e
  | (.panic, _) => .panic

end Attribute
end QuickRelay.Protocol
