import QuickRelay.Binding.Decision
import QuickRelay.Protocol.RoundTrip

/-! Facts out of a parsed request, and a plan into wire octets. -/
namespace QuickRelay.Server
open Lib Protocol

def softwareName : String := "QuickRelay 0.1"

/-! ### A request's facts -/

def extractChangeRequest (msg : Message) : Option Binding.ChangeRequest :=
  match msg.find AttrCode.changeRequest.asU16 with
  | some (.changeRequest value) => some (.fromValue value)
  | _ => none

def extractIce (msg : Message) : Binding.IceAttributes :=
  let controlled := msg.find AttrCode.iceControlled.asU16
  let controlling := msg.find AttrCode.iceControlling.asU16
  { role := match controlled.isSome, controlling.isSome with
      | true, true => .conflict
      | true, false => .controlled
      | false, true => .controlling
      | false, false => .none
    tiebreaker := match controlled.or controlling with
      | some (.iceControlled t) | some (.iceControlling t) => some (.fromBytes t)
      | _ => none
    priority := match msg.find AttrCode.icePriority.asU16 with
      | some (.icePriority value) => some value
      | _ => none
    useCandidate := false }

def ipFamily : AddressFamily → Binding.IpFamily
  | .ipv4 => .v4
  | .ipv6 => .v6

def extractOtherAddress (msg : Message) : Option Binding.OtherAddress :=
  match msg.find AttrCode.otherAddress.asU16 with
  | some (.otherAddress addr) => some ⟨ipFamily addr.family, addr.port, addr.ip⟩
  | _ => none

/-- The attributes a Binding request may carry and the server reads: SOFTWARE,
ICE-CONTROLLED, ICE-CONTROLLING and OTHER-ADDRESS. -/
def bindingKnown : List UInt16 := [0x8022, 0x8029, 0x802A, 0x802C]

/-- The caller's scratch array and the count of codes noted, which goes on when the
array is full. -/
structure Scratch where
  codes : List UInt16
  n : Nat
  deriving DecidableEq, Repr

def scratchLen : Nat := 64

def Scratch.note (s : Scratch) (code : UInt16) : Scratch :=
  ⟨if s.n < scratchLen then s.codes ++ [code] else s.codes, s.n + 1⟩

/-- The turn of the first loop: an attribute on neither list is noted. -/
def Scratch.noteAttribute (s : Scratch) (attr : Attribute) : Scratch :=
  let code := (attributeKind attr).asU16
  if !Binding.notComprehensionRequired.contains code && !bindingKnown.contains code then s.note code else s

def unknownAttributeCodes (msg : Message) : Option (List UInt16) :=
  let s : Scratch := msg.attributes.foldl Scratch.noteAttribute ⟨[], 0⟩
  let s : Scratch := msg.unknown.foldl (fun s attr => s.note attr.code) s
  if s.n = 0 then none else some (s.codes.take (min s.n scratchLen))

def factsOf (msg : Message) (peer : Binding.SocketAddr) : Binding.BindingRequestFacts where
  peer := peer
  change := extractChangeRequest msg
  ice := extractIce msg
  otherAddress := extractOtherAddress msg
  softwareRequested := (msg.find AttrCode.software.asU16).isSome
  unknownAttributes := unknownAttributeCodes msg
  redirectTo := none

def planForRequest (msg : Message) (peer : Binding.SocketAddr) (source : Option Binding.ServerIdentity)
    (addresses : List Binding.ServerIdentity) : Binding.BindingResponsePlan :=
  Binding.decide (factsOf msg peer) source addresses

/-! ### A plan's octets -/

def identityAttr (id : Binding.ServerIdentity) : MappedAddress :=
  if id.isIpv4 then .fromIpv4 id.lastFour id.port else .fromIpv6 id.address id.port

def mappedAttr (source : Binding.ChangeSource) (default : Binding.ServerIdentity) : MappedAddress :=
  match source with
  | .default => identityAttr default
  | .explicit id => identityAttr id

def errorCodeAttr (code : Binding.ErrorCode) : Attribute :=
  let number := code.number
  .errorCode ⟨(number / 100).toUInt8, (number % 100).toUInt8, utf8Bytes code.reason.asStr⟩

def planAttributes (plan : Binding.BindingResponsePlan) (default : Binding.ServerIdentity) : List Attribute :=
  match plan.outcome with
  | .success =>
    (if plan.includeXorMapped then [.xorMappedAddress (mappedAttr plan.source default)] else []) ++
    (if plan.includeAlternateServer then [.alternateServer (mappedAttr plan.source default)] else []) ++
    (if plan.includeSoftware then [.software softwareName] else [])
  | .error code =>
    errorCodeAttr code :: match code, plan.unknownAttributes with
      | .unknownAttribute, some codes => [.unknownAttributes codes]
      | _, _ => []

def messageTypeOf (plan : Binding.BindingResponsePlan) : MessageType :=
  match plan.outcome with
  | .success => .bindingSuccess
  | .error _ => .bindingError

def renderPlan (crypto : Crypto) (plan : Binding.BindingResponsePlan) (txid : TransactionId)
    (default : Binding.ServerIdentity) : Res Bytes :=
  buildResponse crypto (messageTypeOf plan).bits txid (planAttributes plan default) none false

/-! ### Addresses -/

def identityOfSocket (addr : Binding.SocketAddr) : Binding.ServerIdentity :=
  match addr.ip with
  | .v4 octets => ⟨⟨zeros 12 ++ octets.val, by simp [octets.property]⟩, true, addr.port⟩
  | .v6 octets => ⟨octets, false, addr.port⟩

/-- Six octets are an IPv4 address and a port, eighteen an IPv6 one. -/
def parsePeerAddr (raw : Bytes) : Option Binding.SocketAddr :=
  if h : raw.length = 6 then some ⟨.v4 ⟨raw.take 4, by simp [h]⟩, u16FromBe raw[4] raw[5]⟩
  else if h : raw.length = 18 then some ⟨.v6 ⟨raw.take 16, by simp [h]⟩, u16FromBe raw[16] raw[17]⟩
  else none

end QuickRelay.Server
