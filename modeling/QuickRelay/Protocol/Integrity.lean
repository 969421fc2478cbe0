import QuickRelay.Lib.Buffer
import QuickRelay.Protocol.Attribute

/-! MESSAGE-INTEGRITY: the MAC input, the tag, its verification and the
length-only walk that finds the attribute. -/
namespace QuickRelay.Protocol
open Lib

def headerLen : Nat := 20
def lengthOffset : Nat := 2
def maxMessageLength : Nat := 65535
def maxDatagram : Nat := headerLen + maxMessageLength

/-- The checksums the codec takes from its dependencies: functions of a fixed
output length. -/
structure Crypto where
  hmacSha1 : Bytes → Bytes → Octets 20
  hmacSha256 : Bytes → Bytes → Octets 32
  crc32 : Bytes → UInt32

inductive IntegrityAlgorithm where
  | sha1
  | sha256
  deriving DecidableEq, Repr

namespace IntegrityAlgorithm

def attributeCode : IntegrityAlgorithm → UInt16
  | .sha1 => 0x0008
  | .sha256 => 0x001C

def macLen : IntegrityAlgorithm → Nat
  | .sha1 => messageIntegrityLen
  | .sha256 => messageIntegritySha256Len

end IntegrityAlgorithm

/-- A located MESSAGE-INTEGRITY attribute: where it starts, its code and value length. -/
structure AttributeLocation where
  off : Nat
  code : UInt16
  valueLen : Nat
  deriving DecidableEq, Repr

namespace AttributeLocation

def algorithm (l : AttributeLocation) : Option IntegrityAlgorithm :=
  if l.code = 0x0008 ∧ l.valueLen = messageIntegrityLen then some .sha1
  else if l.code = 0x001C ∧ messageIntegritySha256MinLen ≤ l.valueLen ∧ l.valueLen ≤ messageIntegritySha256Len ∧
      l.valueLen % 4 = 0 then some .sha256
  else none

def isLast (l : AttributeLocation) (datagram : Bytes) : Bool := l.off + attrSize l.valueLen = datagram.length

end AttributeLocation

/-- The walk over the attribute list by length alone, up to the first attribute
whose code and value length are wanted. -/
def walk (wanted : UInt16 → Nat → Bool) (d : Bytes) (off : Nat) : Option AttributeLocation :=
  if h : off + 4 ≤ d.length then
    let code := u16FromBe d[off] d[off + 1]
    let valueLen := (u16FromBe d[off + 2] d[off + 3]).toNat
    let stop := off + attrSize valueLen
    if d.length < stop then none
    else if wanted code valueLen then some ⟨off, code, valueLen⟩
    else walk wanted d stop
  else none
termination_by d.length - off
decreasing_by simp only [attrSize]; omega

/-- The checks both walks make before they start. -/
def walkFrom (wanted : UInt16 → Nat → Bool) (d : Bytes) : Option AttributeLocation :=
  if h : d.length < 20 then none
  else if (u16FromBe d[2] d[3]).toNat + 20 ≠ d.length then none
  else walk wanted d 20

namespace Integrity
variable (crypto : Crypto)

def tagLen (macLen : Nat) : Nat :=
  if macLen = messageIntegritySha256Len then messageIntegritySha256Len else messageIntegrityLen

def hmacOf (len : Nat) (key msg : Bytes) : Bytes :=
  let out := if len = messageIntegritySha256Len then (crypto.hmacSha256 key msg).val else (crypto.hmacSha1 key msg).val
  out.take len

def macInput (datagram : Bytes) (attrOff macLen : Nat) : Res Bytes := do
  .refuse (datagram.length < 20) (.new .tooShort)
  .refuse (attrOff < 20) (.attr .truncatedAttribute 0x0008)
  let need ← addUsize (← addUsize attrOff 4) macLen
  .refuse (datagram.length < need) (.attr .truncatedAttribute 0x0008)
  let recorded ← readU16 datagram 2
  .refuse (recorded.toNat + 20 ≠ datagram.length) (.new .lengthMismatch)
  let input ← slice datagram 0 attrOff
  let lengthField := UInt16.ofNat (need - headerLen)
  .refuse (maxDatagram < need) (.new .lengthTooLarge)
  copyInto input 2 4 (u16ToBe lengthField)

/-- The MAC in a 32-octet scratch array. -/
def computePrefix (key : Bytes) (datagram : Bytes) (attrOff macLen : Nat) : Res Bytes := do
  let input ← macInput datagram attrOff macLen
  let tag := hmacOf crypto (tagLen macLen) key input
  copyInto (zeros 32) 0 (tagLen macLen) tag

/-- Writes the tag into the attribute's value octets. -/
def compute (attrOff : Nat) (algorithm : IntegrityAlgorithm) (key : Bytes) : Buffer Error Bytes := do
  let macLen := algorithm.macLen
  let need ← .lift (do addUsize (← addUsize attrOff 4) macLen)
  let len ← .len
  .lift (.refuse (len < need) (.new .truncatedAttribute))
  let datagram ← .contents
  let tag ← .lift (computePrefix crypto key datagram attrOff macLen)
  let n := tagLen macLen
  .copy (attrOff + 4) need (← .lift (slice tag 0 n))
  return tag

def verify (datagram : Bytes) (attrOff : Nat) (algorithm : IntegrityAlgorithm) (key : Bytes) : Res Unit := do
  let macLen := algorithm.macLen
  let need ← addUsize (← addUsize attrOff 4) macLen
  .refuse (datagram.length < need) (.attr .truncatedAttribute algorithm.attributeCode)
  let expected := hmacOf crypto (tagLen macLen) key (← macInput datagram attrOff macLen)
  let stored ← slice datagram (attrOff + 4) (attrOff + 4 + expected.length)
  .refuse (expected ≠ stored) (.attr .messageIntegrityMismatch algorithm.attributeCode)

def attributeOffset (datagram : Bytes) : Option AttributeLocation :=
  walkFrom (fun code _ => code = 0x0008 ∨ code = 0x001C) datagram

end Integrity

namespace Fingerprint
variable (crypto : Crypto)

def fingerprintXor : UInt32 := 0x5354554E
def fingerprintAttr : UInt16 := 0x8028
def maxAttributeCount : Nat := 32767

def overOctets (octets : Bytes) : UInt32 := crypto.crc32 octets ^^^ fingerprintXor

/-- The checks of `compute` and `verify`. -/
def check (datagram : Bytes) (fpOff : Nat) : Res Unit := do
  .refuse (datagram.length < headerLen) (.new .tooShort)
  .refuse (fpOff < headerLen) (.attr .malformedAttribute fingerprintAttr)
  .refuse (datagram.length < (← addUsize fpOff 8)) (.attr .malformedAttribute fingerprintAttr)
  let recorded ← readU16 datagram 2
  .refuse (recorded.toNat + headerLen ≠ datagram.length) (.new .lengthMismatch)

/-- Writes the checksum into the attribute's value octets. -/
def compute (fpOff : Nat) : Buffer Error UInt32 := do
  let datagram ← .contents
  .lift (check datagram fpOff)
  let fingerprint := overOctets crypto (← .lift (slice datagram 0 fpOff))
  .copy (fpOff + 4) (fpOff + 8) (u32ToBe fingerprint)
  return fingerprint

def verify (datagram : Bytes) (fpOff : Nat) : Res Unit := do
  check datagram fpOff
  let value ← slice datagram (fpOff + 4) (fpOff + 8)
  let stored ← readU32 value 0
  let expected := overOctets crypto (← slice datagram 0 fpOff)
  .refuse (expected ≠ stored) (.attr .fingerprintMismatch fingerprintAttr)

def attributeOffset (datagram : Bytes) : Option Nat :=
  (walkFrom (fun code valueLen => code = 0x8028 ∧ valueLen = 4) datagram).map AttributeLocation.off

end Fingerprint
end QuickRelay.Protocol
