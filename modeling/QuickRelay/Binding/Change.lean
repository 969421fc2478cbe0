import QuickRelay.Binding.Plan

/-! CHANGE-REQUEST against its specification: the first listed identity that differs from the
default as asked, of whatever family. -/
namespace QuickRelay.Binding
open Lib

def ServerIdentity.family (id : ServerIdentity) : IpFamily := if id.isIpv4 then .v4 else .v6

/-- Identities of one address are of one family. -/
theorem ServerIdentity.family_eq {a b : ServerIdentity} (h : a.toIp = b.toIp) : a.family = b.family := by
  rw [toIp, toIp] at h
  rw [family, family]
  cases ha : a.isIpv4 <;> cases hb : b.isIpv4 <;> simp_all

theorem ServerIdentity.differsFrom_iff {id other : ServerIdentity} {changeIp changePort : Bool} :
    id.differsFrom other changeIp changePort ↔
      (id.toIp = other.toIp ↔ changeIp = false) ∧ (id.port = other.port ↔ changePort = false) := by
  simp only [differsFrom, differsInIp, differsInPort, Bool.and_eq_true]
  refine and_congr ?_ ?_
  · cases changeIp <;> simp
  · cases changePort <;> simp

namespace ChangeRequest
variable {r : ChangeRequest} {peer : SocketAddr} {default id : ServerIdentity} {addresses : List ServerIdentity}

/-- The action of a flag set once a source is chosen. -/
def action (r : ChangeRequest) (id : ServerIdentity) : ChangeResponseAction :=
  match r.changeIp, r.changePort with
  | true, false => .changeIpOnly id
  | false, true => .changePortOnly id
  | true, true => .changeBoth id
  | false, false => .noChange

/-- The identity differs from the default in what was asked for and in nothing else. -/
def Meets (r : ChangeRequest) (default id : ServerIdentity) : Prop := id.differsFrom default r.changeIp r.changePort

instance (r : ChangeRequest) (default id : ServerIdentity) : Decidable (r.Meets default id) :=
  inferInstanceAs (Decidable (_ = true))

/-- The specification of the search. -/
def firstMatch (r : ChangeRequest) (default : ServerIdentity) (addresses : List ServerIdentity) : Option ServerIdentity :=
  addresses.find? fun id => r.Meets default id

theorem meets_iff : r.Meets default id ↔
    (id.toIp = default.toIp ↔ r.changeIp = false) ∧ (id.port = default.port ↔ r.changePort = false) :=
  ServerIdentity.differsFrom_iff

/-- A flag keeps the default itself out, so comparing the structures adds nothing. -/
theorem Meets.ne (hne : r.isEmpty = false) (h : r.Meets default id) : id.toSocketAddr ≠ default.toSocketAddr := by
  intro he
  rw [ServerIdentity.toSocketAddr, ServerIdentity.toSocketAddr, SocketAddr.mk.injEq] at he
  obtain ⟨hip, hport⟩ := meets_iff.mp h
  rw [isEmpty, hip.mp he.1, hport.mp he.2] at hne
  cases hne

theorem differs_iff (hne : r.isEmpty = false) : r.Differs default id ↔ r.Meets default id := by
  rw [Differs, ← meets_iff]
  refine and_iff_right_of_imp fun h he => ?_
  exact h.ne hne (congrArg ServerIdentity.toSocketAddr he)

theorem findSource_eq (hne : r.isEmpty = false) (peer : SocketAddr) (default : ServerIdentity)
    (addresses : List ServerIdentity) : r.findSource peer default addresses = r.firstMatch default addresses := by
  rw [findSource_eq_find?, firstMatch]
  congr 1
  funext id
  exact decide_eq_decide.mpr (differs_iff hne)

theorem resolve_eq (hne : r.isEmpty = false) (peer : SocketAddr) (default : ServerIdentity)
    (addresses : List ServerIdentity) : r.resolve peer (some default) addresses =
      match r.firstMatch default addresses with
      | some id => r.action id
      | .none => .unsatisfiable := by
  rw [resolve, if_neg (Bool.eq_false_iff.mp hne)]
  simp only [findSource_eq hne]
  cases r.firstMatch default addresses <;> rfl

theorem action_source (hne : r.isEmpty = false) (id : ServerIdentity) : (r.action id).source = some id := by
  obtain ⟨ip, port⟩ := r
  cases ip <;> cases port
  · cases hne
  all_goals rfl

theorem firstMatch_eq_none : r.firstMatch default addresses = .none ↔ ∀ id ∈ addresses, ¬ r.Meets default id := by
  rw [firstMatch, List.find?_eq_none]
  simp only [decide_eq_true_eq]

theorem meets_of_firstMatch (h : r.firstMatch default addresses = some id) : r.Meets default id := by
  have hmeets := List.find?_some h
  exact of_decide_eq_true hmeets

theorem resolve_source_eq (hne : r.isEmpty = false) (peer : SocketAddr) (default : ServerIdentity)
    (addresses : List ServerIdentity) :
    (r.resolve peer (some default) addresses).source = r.firstMatch default addresses := by
  rw [resolve_source, hne, findSource_eq hne]
  rfl

theorem resolve_unsatisfiable_iff (hne : r.isEmpty = false) : r.resolve peer (some default) addresses = .unsatisfiable ↔
    ∀ id ∈ addresses, ¬ r.Meets default id := by
  rw [← firstMatch_eq_none, resolve_eq hne]
  cases r.firstMatch default addresses with
  | none => exact iff_of_true rfl rfl
  | some id =>
    refine iff_of_false (fun h => ?_) (fun h => ?_)
    · have hs := action_source hne id
      simp only at h
      rw [h] at hs
      cases hs
    · cases h

/-- What the specification says of a resolution. -/
structure FirstMatch (r : ChangeRequest) (peer : SocketAddr) (default : ServerIdentity)
    (addresses : List ServerIdentity) : Prop where
  action : r.resolve peer (some default) addresses =
    match addresses.find? fun c => c.differsFrom default r.changeIp r.changePort with
    | some c => r.action c
    | .none => .unsatisfiable
  unsatisfiable : r.resolve peer (some default) addresses = .unsatisfiable ↔
    ∀ c ∈ addresses, c.differsFrom default r.changeIp r.changePort = false
  moved : ∀ id, (r.resolve peer (some default) addresses).source = some id →
    id ≠ default ∧ id.toSocketAddr ≠ default.toSocketAddr
  peerless : ∀ peer', r.resolve peer' (some default) addresses = r.resolve peer (some default) addresses

/-- **CHANGE-REQUEST**: a flag set resolves to the first listed identity that differs as asked. -/
theorem resolve_firstMatch {r : ChangeRequest} (hne : r.isEmpty = false) (peer : SocketAddr) (default : ServerIdentity)
    (addresses : List ServerIdentity) : FirstMatch r peer default addresses := by
  constructor
  case action =>
    rw [resolve_eq hne]
    have hpred : (fun id => Decidable.decide (r.Meets default id)) = fun c => c.differsFrom default r.changeIp r.changePort := by
      funext c
      exact Bool.decide_coe _
    rw [firstMatch, hpred]
  case unsatisfiable =>
    rw [resolve_unsatisfiable_iff hne]
    exact forall₂_congr fun c _ => by rw [Meets, Bool.not_eq_true]
  case moved =>
    intro id h
    rw [resolve_source_eq hne] at h
    have hmoved := (meets_of_firstMatch h).ne hne
    exact ⟨fun he => hmoved (congrArg ServerIdentity.toSocketAddr he), hmoved⟩
  case peerless =>
    intro peer'
    rw [resolve_eq hne, resolve_eq hne]

/-- The first candidate that differs in the port alone; the ones before it have another address. -/
theorem changePort_firstMatch : FirstMatch ⟨false, true⟩ ⟨.v4 ⟨[192, 0, 2, 1], rfl⟩, 40000⟩ ⟨⟨zeros 16, rfl⟩, true, 3478⟩
    [⟨⟨zeros 16, rfl⟩, true, 3478⟩, ⟨⟨zeros 16, rfl⟩, false, 3479⟩, ⟨⟨zeros 16, rfl⟩, true, 3479⟩] :=
  resolve_firstMatch rfl _ _ _

/-! ### The family of a source -/

/-- A chosen source can reach the peer, and sources that cannot are none. -/
structure Reaches (r : ChangeRequest) (peer : SocketAddr) (default : ServerIdentity) (addresses : List ServerIdentity) :
    Prop where
  family : ∀ id, (r.resolve peer (some default) addresses).source = some id → id.family = peer.family
  otherFamily : (∀ id ∈ addresses, r.Meets default id → id.family ≠ peer.family) →
    r.resolve peer (some default) addresses = .unsatisfiable

/-- An IPv4 request for another address is answered from the IPv6 one listed first. -/
theorem family_not_kept : ¬ ∀ (r : ChangeRequest) (peer : SocketAddr) (default : ServerIdentity)
    (addresses : List ServerIdentity), r.isEmpty = false → default.family = peer.family →
    Reaches r peer default addresses := by
  intro h
  have hfamily := (h ⟨true, false⟩ ⟨.v4 ⟨[192, 0, 2, 1], rfl⟩, 40000⟩ ⟨⟨zeros 16, rfl⟩, true, 3478⟩
    [⟨⟨zeros 16, rfl⟩, true, 3478⟩, ⟨⟨zeros 16, rfl⟩, false, 3478⟩] rfl rfl).family ⟨⟨zeros 16, rfl⟩, false, 3478⟩ rfl
  cases hfamily

/-- The source of a resolution, and its family. -/
structure Chosen (r : ChangeRequest) (peer : SocketAddr) (default : ServerIdentity) (addresses : List ServerIdentity) :
    Prop where
  first : ∀ id, (r.resolve peer (some default) addresses).source = some id ↔ r.firstMatch default addresses = some id
  portOnly : r.changeIp = false → ∀ id, (r.resolve peer (some default) addresses).source = some id →
    id.family = peer.family
  uniform : (∀ id ∈ addresses, r.Meets default id → id.family = peer.family) →
    ∀ id, (r.resolve peer (some default) addresses).source = some id → id.family = peer.family
  otherFamily : (∀ id ∈ addresses, r.Meets default id → id.family ≠ peer.family) →
    (r.resolve peer (some default) addresses = .unsatisfiable ↔
      r.changeIp = false ∨ ∀ id ∈ addresses, ¬ r.Meets default id)
  decided : ∀ facts id, facts.peer = peer → facts.redirectTo = .none → facts.change = some r →
    (decide facts (some default) addresses).source = .explicit id →
    (r.resolve peer (some default) addresses).source = some id

theorem Meets.family (h : r.Meets default id) (hip : r.changeIp = false) : id.family = default.family :=
  ServerIdentity.family_eq ((meets_iff.mp h).1.mpr hip)

/-- A changed source is the first listed identity that differs as asked, whatever its family. -/
theorem resolve_chosen {r : ChangeRequest} {peer : SocketAddr} {default : ServerIdentity} (hne : r.isEmpty = false)
    (hfamily : default.family = peer.family) (addresses : List ServerIdentity) : Chosen r peer default addresses := by
  constructor
  case first =>
    intro id
    rw [resolve_source_eq hne]
  case portOnly =>
    intro hip id h
    rw [resolve_source_eq hne] at h
    exact ((meets_of_firstMatch h).family hip).trans hfamily
  case uniform =>
    intro hall id h
    rw [resolve_source_eq hne] at h
    exact hall id (List.mem_of_find?_eq_some h) (meets_of_firstMatch h)
  case otherFamily =>
    intro hother
    rw [resolve_unsatisfiable_iff hne]
    refine ⟨Or.inr, ?_⟩
    rintro (hip | hnone)
    · exact fun id hid hmeets => hother id hid hmeets ((hmeets.family hip).trans hfamily)
    · exact hnone
  case decided =>
    rintro facts id rfl hredirect hchange hsource
    have hasked : facts.asked = r := by
      rw [BindingRequestFacts.asked, hchange, Option.getD_some]
    rw [← hasked] at hne ⊢
    exact (decide_path facts (some default) addresses).source hredirect hne hsource

/-- Asked for the other port, the search passes over the IPv6 identity. -/
theorem changePort_chosen : Chosen ⟨false, true⟩ ⟨.v4 ⟨[192, 0, 2, 1], rfl⟩, 40000⟩ ⟨⟨zeros 16, rfl⟩, true, 3478⟩
    [⟨⟨zeros 16, rfl⟩, false, 3479⟩, ⟨⟨zeros 16, rfl⟩, true, 3479⟩] :=
  resolve_chosen rfl rfl _

end ChangeRequest
end QuickRelay.Binding
