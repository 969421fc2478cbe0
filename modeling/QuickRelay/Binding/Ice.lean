import QuickRelay.Lib.Octets

/-! Error codes a Binding answer may carry, and the ICE attributes of a request. -/
namespace QuickRelay.Binding
open Lib

inductive ReasonPhrase where
  | tryAlternate
  | badRequest
  | unauthorized
  | unknownAttribute
  | staleNonce
  | roleConflict
  | serverError
  deriving DecidableEq, Repr

def ReasonPhrase.asStr : ReasonPhrase → String
  | .tryAlternate => "Try Alternate"
  | .badRequest => "Bad Request"
  | .unauthorized => "Unauthenticated"
  | .unknownAttribute => "Unknown Attribute"
  | .staleNonce => "Stale Nonce"
  | .roleConflict => "Role Conflict"
  | .serverError => "Server Error"

inductive ErrorCode where
  | tryAlternate
  | badRequest
  | unauthorized
  | unknownAttribute
  | staleNonce
  | roleConflict
  | serverError
  deriving DecidableEq, Repr

namespace ErrorCode

def number : ErrorCode → UInt16
  | .tryAlternate => 300
  | .badRequest => 400
  | .unauthorized => 401
  | .unknownAttribute => 420
  | .staleNonce => 438
  | .roleConflict => 487
  | .serverError => 500

def reason : ErrorCode → ReasonPhrase
  | .tryAlternate => .tryAlternate
  | .badRequest => .badRequest
  | .unauthorized => .unauthorized
  | .unknownAttribute => .unknownAttribute
  | .staleNonce => .staleNonce
  | .roleConflict => .roleConflict
  | .serverError => .serverError

end ErrorCode

inductive IpFamily where
  | v4
  | v6
  deriving DecidableEq, Repr

namespace IpFamily

/-- The address-family field of OTHER-ADDRESS. -/
def code : IpFamily → UInt8
  | .v4 => 0x01
  | .v6 => 0x02

/-- The family a code stands for and, through `octets`, the length of its address. -/
def fromCode (code : UInt8) : Option IpFamily :=
  match code with
  | 0x01 => some .v4
  | 0x02 => some .v6
  | _ => none

def octets : IpFamily → Nat
  | .v4 => 4
  | .v6 => 16

end IpFamily

inductive IceRole where
  | controlling
  | controlled
  | none
  | conflict
  deriving DecidableEq, Repr

/-- The 64-bit tiebreaker of a role attribute. -/
structure IceTiebreaker where
  value : UInt64
  deriving DecidableEq, Repr

def IceTiebreaker.fromBytes (bytes : Octets 8) : IceTiebreaker := ⟨u64FromBe bytes⟩

structure IceAttributes where
  role : IceRole
  tiebreaker : Option IceTiebreaker
  priority : Option UInt32
  useCandidate : Bool
  deriving DecidableEq, Repr

structure OtherAddress where
  family : IpFamily
  port : UInt16
  address : Octets 16
  deriving DecidableEq, Repr

/-- Decodes an OTHER-ADDRESS value; the unit error is `None`. -/
def otherAddressFromValue (value : Bytes) : Outcome Unit OtherAddress := do
  .refuse (value = []) ()
  .refuse ((← octetAt value 0) ≠ 0) ()
  let family ← .okOr () (value[1]?.bind IpFamily.fromCode)
  .refuse (value.length ≠ 4 + family.octets) ()
  let address ← copyInto (zeros 16) 0 family.octets (← slice value 4 (4 + family.octets))
  return ⟨family, ← readU16 value 2, ← toOctets 16 address⟩

def otherAddressToValue (other : OtherAddress) : Bytes :=
  0 :: other.family.code :: (u16ToBe other.port ++ other.address.val.take other.family.octets)

inductive IceValidation where
  | ok
  | roleConflict
  | conflict
  | wrongFamily
  | malformed
  | unknownAttribute
  deriving DecidableEq, Repr

def IceValidation.error : IceValidation → Option ErrorCode
  | .ok => none
  | .roleConflict | .conflict => some .roleConflict
  | .wrongFamily | .malformed => some .badRequest
  | .unknownAttribute => some .unknownAttribute

def roleConflict (peerRole : IceRole) (peerTiebreaker : Option IceTiebreaker) (localRole : Option IceRole)
    (_localTiebreaker : Option IceTiebreaker) : IceValidation :=
  if peerRole = .conflict then .conflict
  else if (peerRole = .controlled ∨ peerRole = .controlling) ∧ peerTiebreaker.isNone then .malformed
  else match localRole with
    | none => .ok
    -- All three comparisons of the tiebreakers end alike.
    | some role => if role = peerRole then .ok else .roleConflict

/-- The server never has a role of its own. -/
def validate (attributes : IceAttributes) (_peerFamily : IpFamily) : IceValidation :=
  roleConflict attributes.role attributes.tiebreaker none none

def validateOtherAddress (other : OtherAddress) (peerFamily : IpFamily) : IceValidation :=
  if other.family ≠ peerFamily then .wrongFamily else .ok

/-- ICE-PRIORITY does not belong on a Binding request. -/
def priorityOnBinding (priority : Option UInt32) : Option ErrorCode := priority.map fun _ => .unknownAttribute

/-- The ICE checks that gate a reply, as one error code. -/
def validateIce (ice : IceAttributes) (family : IpFamily) : Option ErrorCode :=
  match (validate ice family).error with
  | none => priorityOnBinding ice.priority
  | some code => some code

end QuickRelay.Binding
