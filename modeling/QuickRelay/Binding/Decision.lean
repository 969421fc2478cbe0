import QuickRelay.Binding.Response

/-! CHANGE-REQUEST and the decision table: the facts of a request in, a plan out. -/
namespace QuickRelay.Binding
open Lib

structure ChangeRequest where
  changeIp : Bool
  changePort : Bool
  deriving DecidableEq, Repr

namespace ChangeRequest

def none : ChangeRequest := ⟨false, false⟩

/-- Only the two low-order bits count. -/
def fromValue (value : UInt32) : ChangeRequest := ⟨value &&& 1 ≠ 0, value &&& 2 ≠ 0⟩

def isEmpty (r : ChangeRequest) : Bool := !r.changeIp && !r.changePort

/-- The first listen address that differs from the default in exactly what was
asked for. The peer never enters the comparison. -/
def findSource (r : ChangeRequest) (_peer : SocketAddr) (default : ServerIdentity) (addresses : List ServerIdentity) :
    Option ServerIdentity :=
  addresses.find? fun id =>
    if id = default then false
    else
      let sameIp := default.toIp == id.toIp
      let distinctFromDefault := if r.changeIp then !sameIp else sameIp
      let distinctPort := if r.changePort then id.port != default.port else id.port == default.port
      distinctFromDefault && distinctPort

/-- One error for every flag set, whatever the family. -/
def unsatisfiable (_r : ChangeRequest) (_family : IpFamily) : ChangeResponseAction := .unsatisfiable

def resolve (r : ChangeRequest) (peer : SocketAddr) (default : Option ServerIdentity) (addresses : List ServerIdentity) :
    ChangeResponseAction :=
  if r.isEmpty then .noChange
  else match default with
    | .none => r.unsatisfiable peer.family
    | some default =>
      match r.findSource peer default addresses with
      | .none => r.unsatisfiable peer.family
      | some candidate =>
        match r.changeIp, r.changePort with
        | true, false => .changeIpOnly candidate
        | false, true => .changePortOnly candidate
        | true, true => .changeBoth candidate
        -- `unreachable!`, handled above
        | false, false => .noChange

end ChangeRequest

/-- Codes that never reject a request: MAPPED-ADDRESS, RESPONSE-ADDRESS,
CHANGE-REQUEST, ERROR-CODE and RESPONSE-PORT. -/
def notComprehensionRequired : List UInt16 := [0x0001, 0x8000, 0x0003, 0x0009, 0x0027]

structure BindingRequestFacts where
  peer : SocketAddr
  change : Option ChangeRequest
  ice : IceAttributes
  otherAddress : Option OtherAddress
  softwareRequested : Bool
  unknownAttributes : Option (List UInt16)
  redirectTo : Option ServerIdentity
  deriving DecidableEq, Repr

/-- The codes that reject a request. -/
def rejecting (unknown : Option (List UInt16)) : List UInt16 :=
  (unknown.getD []).filter fun code => !notComprehensionRequired.contains code

/-- What answers a request that no ICE check rejects. -/
def decideChange (facts : BindingRequestFacts) (source : Option ServerIdentity) (addresses : List ServerIdentity) :
    BindingResponsePlan :=
  match facts.redirectTo with
  | some alternate => (BindingResponsePlan.redirect alternate).withSoftware facts.softwareRequested
  | none =>
    let change := facts.change.getD ChangeRequest.none
    match source with
    | none =>
      if !change.isEmpty then .error .unknownAttribute
      else (BindingResponsePlan.success .default).withSoftware facts.softwareRequested
    | some default =>
      let plan := match change.resolve facts.peer (some default) addresses with
        | .noChange => BindingResponsePlan.success .default
        | action => (BindingResponsePlan.success .default).withChangeAction action
      if plan.outcome = .success then { plan with includeSoftware := facts.softwareRequested } else plan

/-- What answers a request whose every attribute is understood. -/
def decideKnown (facts : BindingRequestFacts) (source : Option ServerIdentity) (addresses : List ServerIdentity) :
    BindingResponsePlan :=
  let family := facts.peer.family
  match facts.otherAddress.bind fun other => (validateOtherAddress other family).error with
  | some code => .error code
  | none =>
    match validateIce facts.ice family with
    | some code => .error code
    | none => decideChange facts source addresses

def decide (facts : BindingRequestFacts) (source : Option ServerIdentity) (addresses : List ServerIdentity) :
    BindingResponsePlan :=
  if rejecting facts.unknownAttributes ≠ [] then
    (BindingResponsePlan.error .unknownAttribute).withUnknownAttributes (rejecting facts.unknownAttributes)
  else decideKnown facts source addresses

/-! ### What a plan can be -/

/-- A plan for a request whose every attribute is understood and that is not sent
elsewhere: an error, or a success that maps an address of this host. -/
inductive Shape (default : ServerIdentity) (addresses : List ServerIdentity) : BindingResponsePlan → Prop
  | failed (code : ErrorCode) : Shape default addresses (.error code)
  | mapped (software : Bool) : Shape default addresses ((BindingResponsePlan.success .default).withSoftware software)
  | moved (id : ServerIdentity) (software : Bool) : id ∈ addresses →
      Shape default addresses ((BindingResponsePlan.success (.explicit id)).withSoftware software)

/-- A resolution changes nothing, fails, or names what the search found. -/
theorem ChangeRequest.resolve_inv (r : ChangeRequest) (peer : SocketAddr) (default : ServerIdentity)
    (addresses : List ServerIdentity) :
    (r.isEmpty ∧ r.resolve peer (some default) addresses = .noChange) ∨
    (r.isEmpty = false ∧ r.findSource peer default addresses = .none ∧
      r.resolve peer (some default) addresses = .unsatisfiable) ∨
    ∃ id, r.isEmpty = false ∧ r.findSource peer default addresses = some id ∧
      r.resolve peer (some default) addresses ∈ [.changeIpOnly id, .changePortOnly id, .changeBoth id] := by
  rw [resolve]
  cases he : r.isEmpty with
  | true => exact .inl ⟨rfl, rfl⟩
  | false =>
    cases hf : r.findSource peer default addresses with
    | none => exact .inr (.inl ⟨rfl, rfl, rfl⟩)
    | some id =>
      obtain ⟨ip, port⟩ := r
      cases ip <;> cases port
      · cases he
      all_goals exact .inr (.inr ⟨id, rfl, rfl, by simp⟩)

theorem ChangeRequest.resolve_cases (r : ChangeRequest) (peer : SocketAddr) (default : ServerIdentity)
    (addresses : List ServerIdentity) : r.resolve peer (some default) addresses = .noChange ∨
      r.resolve peer (some default) addresses = .unsatisfiable ∨
      ∃ id ∈ addresses, r.resolve peer (some default) addresses ∈
        [.changeIpOnly id, .changePortOnly id, .changeBoth id] := by
  rcases r.resolve_inv peer default addresses with ⟨-, h⟩ | ⟨-, -, h⟩ | ⟨id, -, hf, h⟩
  · exact .inl h
  · exact .inr (.inl h)
  · exact .inr (.inr ⟨id, List.mem_of_find?_eq_some hf, h⟩)

theorem decideChange_shape {facts : BindingRequestFacts} (h : facts.redirectTo = none) (default : ServerIdentity)
    (addresses : List ServerIdentity) : Shape default addresses (decideChange facts (some default) addresses) := by
  simp only [decideChange, h]
  rcases (facts.change.getD ChangeRequest.none).resolve_cases facts.peer default addresses with hr | hr | ⟨id, hid, hr⟩
  · rw [hr]
    exact .mapped _
  · rw [hr]
    exact .failed _
  · simp only [List.mem_cons, List.not_mem_nil, or_false] at hr
    rcases hr with hr | hr | hr
    all_goals
      rw [hr]
      exact .moved _ _ hid

theorem decideKnown_shape {facts : BindingRequestFacts} (h : facts.redirectTo = none) (default : ServerIdentity)
    (addresses : List ServerIdentity) : Shape default addresses (decideKnown facts (some default) addresses) := by
  simp only [decideKnown]
  split
  · exact .failed _
  · split
    · exact .failed _
    · exact decideChange_shape h default addresses

/-- Only a rejection for unknown attributes names codes. -/
theorem Shape.unknownAttributes {default : ServerIdentity} {addresses : List ServerIdentity} {plan : BindingResponsePlan}
    (h : Shape default addresses plan) : plan.unknownAttributes = none := by
  cases h <;> rfl

/-- The checks before CHANGE-REQUEST only ever answer with an error. -/
theorem decide_success {facts : BindingRequestFacts} {source : Option ServerIdentity} {addresses : List ServerIdentity}
    (h : (decide facts source addresses).outcome = .success) :
    decide facts source addresses = decideChange facts source addresses := by
  rw [decide] at h ⊢
  by_cases hr : rejecting facts.unknownAttributes ≠ []
  · rw [if_pos hr] at h
    cases h
  · rw [if_neg hr] at h ⊢
    simp only [decideKnown] at h ⊢
    split
    · rename_i hother
      rw [hother] at h
      cases h
    · rename_i hother
      rw [hother] at h
      split
      · rename_i hice
        rw [hice] at h
        cases h
      · rfl

/-- SOFTWARE is echoed only to a request that carries it. -/
theorem decideChange_software {facts : BindingRequestFacts} (hr : facts.redirectTo = none) {default : ServerIdentity}
    {addresses : List ServerIdentity} (h : (decideChange facts (some default) addresses).includeSoftware) :
    facts.softwareRequested := by
  simp only [decideChange, hr] at h
  rcases (facts.change.getD ChangeRequest.none).resolve_cases facts.peer default addresses with hc | hc | ⟨id, hid, hc⟩
  · rw [hc] at h
    exact h
  · rw [hc] at h
    cases h
  · simp only [List.mem_cons, List.not_mem_nil, or_false] at hc
    rcases hc with hc | hc | hc
    all_goals
      rw [hc] at h
      exact h

/-! ### Where an answer leaves from -/

/-- The address differs from the default in exactly what was asked for. -/
def ChangeRequest.Differs (r : ChangeRequest) (default id : ServerIdentity) : Prop :=
  id ≠ default ∧ (id.toIp = default.toIp ↔ r.changeIp = false) ∧ (id.port = default.port ↔ r.changePort = false)

instance (r : ChangeRequest) (default id : ServerIdentity) : Decidable (r.Differs default id) :=
  inferInstanceAs (Decidable (_ ∧ _))

theorem ChangeRequest.findSource_eq_find? (r : ChangeRequest) (peer : SocketAddr) (default : ServerIdentity)
    (addresses : List ServerIdentity) :
    r.findSource peer default addresses = addresses.find? fun id => r.Differs default id := by
  rw [findSource]
  congr 1
  funext id
  by_cases hid : id = default
  · rw [if_pos hid]
    exact (decide_eq_false fun h => h.1 hid).symm
  · rw [if_neg hid, Bool.eq_iff_iff, decide_eq_true_iff, Bool.and_eq_true, Differs]
    refine Iff.trans ?_ (and_iff_right hid).symm
    refine and_congr ?_ ?_
    · rw [eq_comm (a := id.toIp)]
      cases r.changeIp <;> simp
    · cases r.changePort <;> simp

theorem ChangeRequest.findSource_some {r : ChangeRequest} {peer : SocketAddr} {default id : ServerIdentity}
    {addresses : List ServerIdentity} (h : r.findSource peer default addresses = some id) :
    id ∈ addresses ∧ r.Differs default id := by
  rw [findSource_eq_find?] at h
  have hdiffers := List.find?_some h
  exact ⟨List.mem_of_find?_eq_some h, of_decide_eq_true hdiffers⟩

theorem ChangeRequest.findSource_eq_none {r : ChangeRequest} {peer : SocketAddr} {default : ServerIdentity}
    {addresses : List ServerIdentity} :
    r.findSource peer default addresses = .none ↔ ∀ id ∈ addresses, ¬ r.Differs default id := by
  rw [findSource_eq_find?, List.find?_eq_none]
  simp only [decide_eq_true_eq]

/-- A flag that is set moves the answer to another address or port. -/
theorem ChangeRequest.Differs.moved {r : ChangeRequest} {default id : ServerIdentity} (h : r.Differs default id)
    (ha : r.isEmpty = false) : id.toSocketAddr ≠ default.toSocketAddr := by
  intro he
  rw [ServerIdentity.toSocketAddr, ServerIdentity.toSocketAddr, SocketAddr.mk.injEq] at he
  rw [ChangeRequest.isEmpty, h.2.1.mp he.1, h.2.2.mp he.2] at ha
  cases ha

theorem ChangeRequest.resolve_source (r : ChangeRequest) (peer : SocketAddr) (default : ServerIdentity)
    (addresses : List ServerIdentity) : (r.resolve peer (some default) addresses).source =
      if r.isEmpty then .none else r.findSource peer default addresses := by
  rw [resolve]
  by_cases he : r.isEmpty
  · rw [if_pos he, if_pos he]
    rfl
  · rw [if_neg he, if_neg he]
    cases r.findSource peer default addresses with
    | none => rfl
    | some id =>
      obtain ⟨ip, port⟩ := r
      cases ip <;> cases port
      · exact absurd rfl he
      all_goals rfl

/-- The source a resolved change names. -/
def ChangeSource.named : Option ServerIdentity → ChangeSource
  | some id => .explicit id
  | none => .default

/-- The source of an answer that no ICE check rejects. -/
theorem decideChange_source {facts : BindingRequestFacts} (h : facts.redirectTo = none) (default : ServerIdentity)
    (addresses : List ServerIdentity) : (decideChange facts (some default) addresses).source =
      .named ((facts.change.getD ChangeRequest.none).resolve facts.peer (some default) addresses).source := by
  simp only [decideChange, h]
  cases (facts.change.getD ChangeRequest.none).resolve facts.peer (some default) addresses <;> rfl

end QuickRelay.Binding
