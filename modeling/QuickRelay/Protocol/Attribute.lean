import QuickRelay.Lib.Tlv
import QuickRelay.Protocol.Address

/-! Attribute codes and decoded attributes. -/
namespace QuickRelay.Protocol
open Lib

abbrev messageIntegrityLen : Nat := 20
abbrev messageIntegritySha256Len : Nat := 32
abbrev messageIntegritySha256MinLen : Nat := 16
abbrev userHashLen : Nat := 32
abbrev dataMaxLen : Nat := 511
abbrev errorCodeReasonMaxLen : Nat := 1024
def connectionIdLengths : List Nat := [1, 4, 8, 16]

/-- The registered attributes, and any code point by number. -/
inductive AttrCode where
  | mappedAddress
  | changeRequest
  | username
  | messageIntegrity
  | errorCode
  | unknownAttributes
  | channelNumber
  | lifetime
  | xorPeerAddress
  | data
  | realm
  | nonce
  | xorRelayedAddress
  | requestedAddressFamily
  | evenPort
  | requestedTransport
  | dontFragment
  | accessToken
  | messageIntegritySha256
  | passwordAlgorithm
  | userHash
  | xorMappedAddress
  | reservationToken
  | icePriority
  | useCandidate
  | padding
  | responsePort
  | connectionId
  | additionalAddressFamily
  | addressErrorCode
  | passwordAlgorithms
  | alternateDomain
  | icmp
  | software
  | alternateServer
  | fingerprint
  | iceControlled
  | iceControlling
  | otherAddress
  | thirdPartyAuthorization
  | extendedCandidate
  | extendedCandidateUfrag
  | unknown (code : UInt16)
  deriving DecidableEq, Repr

/-- An attribute type: a registered code point or an unregistered one. -/
inductive AttributeKind where
  | known (code : AttrCode)
  | unknown (code : UInt16)
  deriving DecidableEq, Repr

namespace AttrCode

def asU16 : AttrCode → UInt16
  | .mappedAddress => 0x0001
  | .changeRequest => 0x0003
  | .username => 0x0006
  | .messageIntegrity => 0x0008
  | .errorCode => 0x0009
  | .unknownAttributes => 0x000A
  | .channelNumber => 0x000C
  | .lifetime => 0x000D
  | .xorPeerAddress => 0x0012
  | .data => 0x0013
  | .realm => 0x0014
  | .nonce => 0x0015
  | .xorRelayedAddress => 0x0016
  | .requestedAddressFamily => 0x0017
  | .evenPort => 0x0018
  | .requestedTransport => 0x0019
  | .dontFragment => 0x001A
  | .accessToken => 0x001B
  | .messageIntegritySha256 => 0x001C
  | .passwordAlgorithm => 0x001D
  | .userHash => 0x001E
  | .xorMappedAddress => 0x0020
  | .reservationToken => 0x0022
  | .icePriority => 0x0024
  | .useCandidate => 0x0025
  | .padding => 0x0026
  | .responsePort => 0x0027
  | .connectionId => 0x002A
  | .additionalAddressFamily => 0x8000
  | .addressErrorCode => 0x8001
  | .passwordAlgorithms => 0x8002
  | .alternateDomain => 0x8003
  | .icmp => 0x8004
  | .software => 0x8022
  | .alternateServer => 0x8023
  | .fingerprint => 0x8028
  | .iceControlled => 0x8029
  | .iceControlling => 0x802A
  | .otherAddress => 0x802C
  | .thirdPartyAuthorization => 0x802E
  | .extendedCandidate => 0x8038
  | .extendedCandidateUfrag => 0x8039
  | .unknown code => code

def attrFromWire (code : UInt16) : AttributeKind :=
  match code with
  | 0x0001 => .known .mappedAddress
  | 0x0003 => .known .changeRequest
  | 0x0006 => .known .username
  | 0x0008 => .known .messageIntegrity
  | 0x0009 => .known .errorCode
  | 0x000A => .known .unknownAttributes
  | 0x000C => .known .channelNumber
  | 0x000D => .known .lifetime
  | 0x0012 => .known .xorPeerAddress
  | 0x0013 => .known .data
  | 0x0014 => .known .realm
  | 0x0015 => .known .nonce
  | 0x0016 => .known .xorRelayedAddress
  | 0x0017 => .known .requestedAddressFamily
  | 0x0018 => .known .evenPort
  | 0x0019 => .known .requestedTransport
  | 0x001A => .known .dontFragment
  | 0x001B => .known .accessToken
  | 0x001C => .known .messageIntegritySha256
  | 0x001D => .known .passwordAlgorithm
  | 0x001E => .known .userHash
  | 0x0020 => .known .xorMappedAddress
  | 0x0022 => .known .reservationToken
  | 0x0024 => .known .icePriority
  | 0x0025 => .known .useCandidate
  | 0x0026 => .known .padding
  | 0x0027 => .known .responsePort
  | 0x002A => .known .connectionId
  | 0x8000 => .known .additionalAddressFamily
  | 0x8001 => .known .addressErrorCode
  | 0x8002 => .known .passwordAlgorithms
  | 0x8003 => .known .alternateDomain
  | 0x8004 => .known .icmp
  | 0x8022 => .known .software
  | 0x8023 => .known .alternateServer
  | 0x8028 => .known .fingerprint
  | 0x8029 => .known .iceControlled
  | 0x802A => .known .iceControlling
  | 0x802C => .known .otherAddress
  | 0x802E => .known .thirdPartyAuthorization
  | 0x8038 => .known .extendedCandidate
  | 0x8039 => .known .extendedCandidateUfrag
  | _ => .unknown code

/-- The value length that is recorded for a code. -/
def fixedLen : AttrCode → Option Nat
  | .mappedAddress | .xorMappedAddress | .xorRelayedAddress | .xorPeerAddress => some 8
  | .messageIntegrity => some messageIntegrityLen
  | .messageIntegritySha256 => some messageIntegritySha256Len
  | .userHash => some userHashLen
  | .fingerprint => some 4
  | .iceControlled | .iceControlling => some 8
  | .icePriority | .lifetime | .channelNumber => some 4
  | .useCandidate | .dontFragment => some 0
  | .requestedAddressFamily | .additionalAddressFamily => some 1
  | .responsePort => some 2
  | .changeRequest => some 4
  | .data => some dataMaxLen
  | .errorCode | .alternateServer | .otherAddress | .unknownAttributes | .username | .realm | .nonce | .software
  | .passwordAlgorithm | .passwordAlgorithms | .alternateDomain | .thirdPartyAuthorization | .extendedCandidate
  | .extendedCandidateUfrag | .requestedTransport | .reservationToken | .evenPort | .accessToken | .addressErrorCode
  | .padding | .icmp | .connectionId => none
  | .unknown _ => none

end AttrCode

namespace AttributeKind

def asU16 : AttributeKind → UInt16
  | .known code => code.asU16
  | .unknown code => code

end AttributeKind

structure ErrorCode where
  cls : UInt8
  number : UInt8
  reason : Bytes
  deriving DecidableEq, Repr

/-- A decoded attribute. An unregistered one keeps its code and octets. -/
inductive Attribute where
  | mappedAddress (addr : MappedAddress)
  | xorMappedAddress (addr : MappedAddress)
  | xorRelayedAddress (addr : MappedAddress)
  | xorPeerAddress (addr : MappedAddress)
  | changeRequest (value : UInt32)
  | username (text : String)
  | realm (text : String)
  | nonce (text : String)
  | software (text : String)
  | errorCode (code : ErrorCode)
  | unknownAttributes (codes : List UInt16)
  | messageIntegrity (tag : Octets 20)
  | messageIntegritySha256 (tag : Octets 32)
  | fingerprint (value : UInt32)
  | userHash (hash : Octets 32)
  | iceControlled (tieBreaker : Octets 8)
  | iceControlling (tieBreaker : Octets 8)
  | icePriority (value : UInt32)
  | alternateServer (addr : MappedAddress)
  | otherAddress (addr : MappedAddress)
  | lifetime (value : UInt32)
  | channelNumber (value : UInt16)
  | data (octets : Bytes)
  | requestedAddressFamily (family : AddressFamily)
  | requestedTransport (text : String)
  | reservationToken (octets : Bytes)
  | evenPort (octets : Bytes)
  | dontFragment
  | accessToken (octets : Bytes)
  | passwordAlgorithm (text : String)
  | passwordAlgorithms (parts : List String)
  | thirdPartyAuthorization (text : String)
  | extendedCandidate (text : String)
  | extendedCandidateUfrag (text : String)
  | useCandidate
  | responsePort (value : UInt16)
  | alternateDomain (text : String)
  | connectionId (octets : Bytes)
  | additionalAddressFamily (family : AddressFamily)
  | addressErrorCode (code : ErrorCode)
  | padding (octets : Bytes)
  | unknown (kind : UInt16) (value : Bytes)
  deriving DecidableEq, Repr

def attributeKind : Attribute → AttributeKind
  | .mappedAddress _ => .known .mappedAddress
  | .xorMappedAddress _ => .known .xorMappedAddress
  | .xorRelayedAddress _ => .known .xorRelayedAddress
  | .xorPeerAddress _ => .known .xorPeerAddress
  | .changeRequest _ => .known .changeRequest
  | .username _ => .known .username
  | .realm _ => .known .realm
  | .nonce _ => .known .nonce
  | .software _ => .known .software
  | .errorCode _ => .known .errorCode
  | .unknownAttributes _ => .known .unknownAttributes
  | .messageIntegrity _ => .known .messageIntegrity
  | .messageIntegritySha256 _ => .known .messageIntegritySha256
  | .fingerprint _ => .known .fingerprint
  | .userHash _ => .known .userHash
  | .iceControlled _ => .known .iceControlled
  | .iceControlling _ => .known .iceControlling
  | .icePriority _ => .known .icePriority
  | .alternateServer _ => .known .alternateServer
  | .otherAddress _ => .known .otherAddress
  | .lifetime _ => .known .lifetime
  | .channelNumber _ => .known .channelNumber
  | .data _ => .known .data
  | .requestedAddressFamily _ => .known .requestedAddressFamily
  | .requestedTransport _ => .known .requestedTransport
  | .reservationToken _ => .known .reservationToken
  | .evenPort _ => .known .evenPort
  | .dontFragment => .known .dontFragment
  | .accessToken _ => .known .accessToken
  | .passwordAlgorithm _ => .known .passwordAlgorithm
  | .passwordAlgorithms _ => .known .passwordAlgorithms
  | .thirdPartyAuthorization _ => .known .thirdPartyAuthorization
  | .extendedCandidate _ => .known .extendedCandidate
  | .extendedCandidateUfrag _ => .known .extendedCandidateUfrag
  | .useCandidate => .known .useCandidate
  | .responsePort _ => .known .responsePort
  | .alternateDomain _ => .known .alternateDomain
  | .connectionId _ => .known .connectionId
  | .additionalAddressFamily _ => .known .additionalAddressFamily
  | .addressErrorCode _ => .known .addressErrorCode
  | .padding _ => .known .padding
  | .unknown kind _ => .unknown kind

def isComprehensionOptional : AttributeKind → Bool
  | .known code => 0x8000 ≤ code.asU16
  | .unknown code => 0x8000 ≤ code

/-- The attributes that may be followed by no attribute of another kind. -/
def isTrailerOnly : AttributeKind → Bool
  | .known .messageIntegrity | .known .messageIntegritySha256 | .known .fingerprint => true
  | _ => false

def padLen (valueLen : Nat) : Nat := padding valueLen

/-- The wire size of an attribute: header, value and padding. -/
def attrSize (valueLen : Nat) : Nat := 4 + valueLen + padLen valueLen

/-! ### The registry -/

namespace AttrCode

/-- Naming a wire code loses nothing. -/
@[simp] theorem asU16_attrFromWire (code : UInt16) : (attrFromWire code).asU16 = code := by
  unfold attrFromWire
  split <;> rfl

theorem attrFromWire_asU16 {c : AttrCode} (h : ∀ n, c ≠ .unknown n) : attrFromWire c.asU16 = .known c := by
  cases c with
  | unknown n => exact absurd rfl (h n)
  | _ => rfl

theorem asU16_of_known {code : UInt16} {c : AttrCode} (h : attrFromWire code = .known c) : c.asU16 = code := by
  rw [← asU16_attrFromWire code, h]
  rfl

theorem eq_of_unknown {code n : UInt16} (h : attrFromWire code = .unknown n) : n = code := by
  rw [← asU16_attrFromWire code, h]
  rfl

/-- The wire never names a code point by number. -/
theorem attrFromWire_ne_unknown (code n : UInt16) : attrFromWire code ≠ .known (.unknown n) := by
  unfold attrFromWire
  split <;> simp

end AttrCode
end QuickRelay.Protocol
