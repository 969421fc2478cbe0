import QuickRelay.Lib.Outcome

/-! Codec errors: a kind and, when an attribute raised it, that attribute's code. -/
namespace QuickRelay.Protocol
open Lib

inductive ErrorKind where
  | magicCookie
  | tooShort
  | lengthMismatch
  | lengthTooLarge
  | truncatedAttribute
  | trailingOctets
  | malformedAttribute
  | malformedAddress
  | unsupportedAddressFamily
  | malformedErrorCode
  | malformedChannelNumber
  | malformedAlternateServer
  | malformedRelayedAddress
  | invalidUtf8
  | duplicateAttribute
  | unknownRequired
  | messageIntegrityMismatch
  | messageIntegritySha256Length
  | fingerprintMismatch
  | fingerprintNotLast
  | valueTooLong
  | malformedConnectionId
  deriving DecidableEq, Repr

structure Error where
  kind : ErrorKind
  attributeCode : Option UInt16
  deriving DecidableEq, Repr

def Error.new (kind : ErrorKind) : Error := ⟨kind, none⟩
def Error.attr (kind : ErrorKind) (code : UInt16) : Error := ⟨kind, some code⟩

/-- The result of a codec call. -/
abbrev Res (α : Type) := Outcome Error α

end QuickRelay.Protocol
