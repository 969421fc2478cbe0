import QuickRelay.Binding.Ice

/-! Who the server answers as, and the plan of one answer. -/
namespace QuickRelay.Binding
open Lib

inductive IpAddr where
  | v4 (octets : Octets 4)
  | v6 (octets : Octets 16)
  deriving DecidableEq, Repr

structure SocketAddr where
  ip : IpAddr
  port : UInt16
  deriving DecidableEq, Repr

def SocketAddr.family (a : SocketAddr) : IpFamily :=
  match a.ip with
  | .v4 _ => .v4
  | .v6 _ => .v6

/-- An address of this host; an IPv4 one takes the last four octets. -/
structure ServerIdentity where
  address : Octets 16
  isIpv4 : Bool
  port : UInt16
  deriving DecidableEq, Repr

namespace ServerIdentity

/-- `address[12..]`. -/
def lastFour (id : ServerIdentity) : Octets 4 := ⟨id.address.val.drop 12, by simp [id.address.property]⟩

def toIp (id : ServerIdentity) : IpAddr := if id.isIpv4 then .v4 id.lastFour else .v6 id.address

def toSocketAddr (id : ServerIdentity) : SocketAddr := ⟨id.toIp, id.port⟩

def differsInIp (id other : ServerIdentity) : Bool := id.toIp != other.toIp

def differsInPort (id other : ServerIdentity) : Bool := id.port != other.port

/-- Whether the two differ in the dimensions asked for and in no other. -/
def differsFrom (id other : ServerIdentity) (changeIp changePort : Bool) : Bool :=
  let ipOk := if changeIp then id.differsInIp other else !id.differsInIp other
  let portOk := if changePort then id.differsInPort other else !id.differsInPort other
  ipOk && portOk

end ServerIdentity

inductive ChangeResponseAction where
  | noChange
  | changeIpOnly (id : ServerIdentity)
  | changePortOnly (id : ServerIdentity)
  | changeBoth (id : ServerIdentity)
  | unsatisfiable
  deriving DecidableEq, Repr

namespace ChangeResponseAction

def source : ChangeResponseAction → Option ServerIdentity
  | .changeIpOnly id | .changePortOnly id | .changeBoth id => some id
  | .noChange | .unsatisfiable => none

def error : ChangeResponseAction → Option ErrorCode
  | .unsatisfiable => some .unknownAttribute
  | _ => none

end ChangeResponseAction

inductive Outcome where
  | success
  | error (code : ErrorCode)
  deriving DecidableEq, Repr

inductive ChangeSource where
  | default
  | explicit (id : ServerIdentity)
  deriving DecidableEq, Repr

def ChangeSource.identity (s : ChangeSource) (default : ServerIdentity) : ServerIdentity :=
  match s with
  | .default => default
  | .explicit id => id

/-- The complete answer to one Binding request. -/
structure BindingResponsePlan where
  outcome : Outcome
  includeXorMapped : Bool
  source : ChangeSource
  includeAlternateServer : Bool
  includeSoftware : Bool
  unknownAttributes : Option (List UInt16)
  deriving DecidableEq, Repr

namespace BindingResponsePlan

def success (source : ChangeSource) : BindingResponsePlan := ⟨.success, true, source, false, false, none⟩

def error (code : ErrorCode) : BindingResponsePlan := ⟨.error code, false, .default, false, false, none⟩

/-- ALTERNATE-SERVER replaces the mapped address. -/
def redirect (source : ServerIdentity) : BindingResponsePlan := ⟨.success, false, .explicit source, true, false, none⟩

def withChangeAction (plan : BindingResponsePlan) (action : ChangeResponseAction) : BindingResponsePlan :=
  match action.source with
  | some id => { plan with source := .explicit id }
  | none =>
    match action.error with
    | some code => ⟨.error code, false, .default, false, false, none⟩
    | none => plan

def withSoftware (plan : BindingResponsePlan) (software : Bool) : BindingResponsePlan :=
  { plan with includeSoftware := software }

def withUnknownAttributes (plan : BindingResponsePlan) (codes : List UInt16) : BindingResponsePlan :=
  { plan with unknownAttributes := some codes }

/-- The identity the reply leaves from. -/
def replyIdentity (plan : BindingResponsePlan) (default : ServerIdentity) : ServerIdentity :=
  plan.source.identity default

end BindingResponsePlan
end QuickRelay.Binding
