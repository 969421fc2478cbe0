import QuickRelay.Protocol.Integrity
import QuickRelay.Protocol.MessageType
import QuickRelay.Protocol.Value

/-! The 20-octet header, the attribute walk that parses a datagram, and the
assembly of a response. -/
namespace QuickRelay.Protocol
open Lib

def magicCookie : UInt32 := 0x2112A442
def fingerprintCode : UInt16 := 0x8028
def messageIntegrityCode : UInt16 := 0x0008
def messageIntegritySha256Code : UInt16 := 0x001C

abbrev TransactionId := Octets 12

structure Header where
  msgType : MessageType
  messageLength : UInt16
  txid : TransactionId
  deriving DecidableEq, Repr

namespace Header

def parse (datagram : Bytes) : Res Header := do
  .refuse (datagram.length < headerLen) (.new .tooShort)
  let msgTypeBits ← readU16 datagram 0
  let messageLength ← readU16 datagram lengthOffset
  let cookie ← readU32 datagram 4
  .refuse (cookie ≠ magicCookie) (.new .magicCookie)
  let txid ← toOctets 12 (← slice datagram 8 headerLen)
  let msgType ← .okOr (.new .malformedAttribute) (MessageType.fromBits msgTypeBits)
  return ⟨msgType, messageLength, txid⟩

def totalLen (h : Header) : Nat := headerLen + h.messageLength.toNat

end Header

/-- An unregistered comprehension-optional attribute, kept verbatim. -/
structure UnknownAttribute where
  code : UInt16
  kind : AttributeKind
  value : Bytes
  deriving DecidableEq, Repr

structure Message where
  header : Header
  txid : TransactionId
  datagramBytes : Bytes
  attributes : List Attribute
  unknown : List UnknownAttribute
  integrityLocation : Option AttributeLocation
  fingerprintOffset : Option Nat
  deriving DecidableEq, Repr

/-- The first parsed attribute with this code. -/
def Message.find (m : Message) (code : UInt16) : Option Attribute :=
  m.attributes.find? fun a => (attributeKind a).asU16 == code

/-- The local variables of the attribute loop. -/
structure ParseState where
  off : Nat
  attributes : List Attribute
  unknown : List UnknownAttribute
  integrityLocation : Option AttributeLocation
  fingerprintOffset : Option Nat
  deriving DecidableEq, Repr

def ParseState.init : ParseState := ⟨headerLen, [], [], none, none⟩

/-- The `match kind` of the loop body: what an attribute's kind adds to the state. -/
def noteKind (s : ParseState) (code : UInt16) (value : Bytes) : Res ParseState :=
  let valueLen := value.length
  match AttrCode.attrFromWire code with
  | .unknown c => do
    .refuse (¬ isComprehensionOptional (.unknown c)) (.attr .unknownRequired c)
    return { s with unknown := s.unknown ++ [⟨c, .unknown c, value⟩] }
  | .known c =>
    if isTrailerOnly (.known c) then
      match c with
      | .fingerprint => do
        .refuse s.fingerprintOffset.isSome (.attr .fingerprintNotLast fingerprintCode)
        return { s with fingerprintOffset := some s.off }
      | .messageIntegritySha256 => do
        .refuse (¬ LegalSha256Len valueLen) (.attr .messageIntegritySha256Length messageIntegritySha256Code)
        .refuse s.integrityLocation.isSome (.attr .duplicateAttribute messageIntegritySha256Code)
        return { s with integrityLocation := some ⟨s.off, code, valueLen⟩ }
      | .messageIntegrity => do
        .refuse s.integrityLocation.isSome (.attr .duplicateAttribute messageIntegrityCode)
        return { s with integrityLocation := some ⟨s.off, code, valueLen⟩ }
      -- `unreachable!`
      | _ => .panic
    else .ok s

/-- An attribute of known extent: its value is decoded, its kind noted, and it
is appended. -/
def takeAttribute (txid : TransactionId) (s : ParseState) (code : UInt16) (value : Bytes) (stop : Nat) :
    Res ParseState := do
  let attr ← parseAttributeValue (AttrCode.attrFromWire code) value txid
  let s' ← noteKind s code value
  return { s' with attributes := s'.attributes ++ [attr], off := stop }

/-- One turn of the attribute loop. -/
def parseAttribute (datagram : Bytes) (txid : TransactionId) (s : ParseState) : Res ParseState := do
  .refuse (datagram.length - s.off < 4) (.new .trailingOctets)
  let code ← readU16 datagram s.off
  let valueLen := (← readU16 datagram (s.off + 2)).toNat
  let stride := 4 + valueLen + (4 - valueLen % 4) % 4
  let stop ← .okOr (.new .lengthTooLarge) (checkedAdd s.off stride)
  .refuse (datagram.length < stop) (.new .truncatedAttribute)
  .refuse (code = messageIntegritySha256Code ∧ ¬ LegalSha256Len valueLen)
    (.attr .messageIntegritySha256Length messageIntegritySha256Code)
  let value ← slice datagram (s.off + 4) (s.off + 4 + valueLen)
  takeAttribute txid s code value stop

/-- The attribute loop; `budget` is what `count` leaves of the attribute cap. -/
def parseLoop (datagram : Bytes) (txid : TransactionId) : Nat → ParseState → Res ParseState
  | 0, s => if s.off < datagram.length then .err (.new .truncatedAttribute) else .ok s
  | budget + 1, s =>
    if s.off < datagram.length then do
      let s' ← parseAttribute datagram txid s
      parseLoop datagram txid budget s'
    else .ok s

/-- The position check after the loop. -/
def checkFingerprintLast (fingerprintOffset : Option Nat) (len : Nat) : Res Unit :=
  match fingerprintOffset with
  | some fp => .refuse (fp + 8 ≠ len) (.attr .fingerprintNotLast fingerprintCode)
  | none => .ok ()

def parse (datagram : Bytes) : Res Message := do
  let header ← Header.parse datagram
  .refuse (datagram.length ≠ header.totalLen) (.new .lengthMismatch)
  let s ← parseLoop datagram header.txid Fingerprint.maxAttributeCount .init
  checkFingerprintLast s.fingerprintOffset datagram.length
  return ⟨header, header.txid, datagram, s.attributes, s.unknown, s.integrityLocation, s.fingerprintOffset⟩

/-- Back-fills the length field. -/
def setLength : Buffer Error Unit := do
  let len ← .len
  .lift (.refuse (len < headerLen ∨ 65535 < len - headerLen) (.new .lengthTooLarge))
  .copy lengthOffset 4 (u16ToBe (UInt16.ofNat (len - headerLen)))

/-- `for a in attrs { emit_attribute(&mut out, attribute_kind(a), a.to_value(txid)?)? }`. -/
def emitAll (txid : TransactionId) : Bytes → List Attribute → Res Bytes
  | out, [] => .ok out
  | out, a :: attrs => do
    let value ← a.toValue txid
    let out ← emitAttribute out (attributeKind a) value
    emitAll txid out attrs

/-- A zeroed trailer is appended, the length patched, and the trailer filled in. -/
def appendTrailer {α : Type} (out : Bytes) (code : UInt16) (valueLen : Nat) (fill : Nat → Buffer Error α) : Res Bytes :=
  (do setLength; let _ ← fill out.length).exec
    (out ++ (u16ToBe code ++ (u16ToBe (UInt16.ofNat valueLen) ++ zeros valueLen)))

def appendIntegrity (crypto : Crypto) (out : Bytes) : Option (Bytes × IntegrityAlgorithm) → Res Bytes
  | some (key, algorithm) =>
    appendTrailer out algorithm.attributeCode algorithm.macLen fun at_ => Integrity.compute crypto at_ algorithm key
  | none => .ok out

def appendFingerprint (crypto : Crypto) (out : Bytes) (fingerprint : Bool) : Res Bytes :=
  if fingerprint then appendTrailer out fingerprintCode 4 fun at_ => Fingerprint.compute crypto at_ else .ok out

def buildResponse (crypto : Crypto) (msgType : UInt16) (txid : TransactionId) (attrs : List Attribute)
    (integrityKey : Option (Bytes × IntegrityAlgorithm)) (fingerprint : Bool) : Res Bytes := do
  let out := u16ToBe msgType ++ (u16ToBe 0 ++ (u32ToBe magicCookie ++ txid.val))
  let out ← emitAll txid out attrs
  let out ← setLength.exec out
  let out ← appendIntegrity crypto out integrityKey
  appendFingerprint crypto out fingerprint

end QuickRelay.Protocol
