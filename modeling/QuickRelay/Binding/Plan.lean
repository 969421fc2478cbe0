import QuickRelay.Binding.Decision

/-! The return paths of the decision: what every plan satisfies, and which rejections name no
attribute. -/
namespace QuickRelay.Binding
open Lib

/-! ### Return paths -/

/-- The role attributes of a request that is in no conflict and not malformed. -/
def IceAttributes.RoleOk (ice : IceAttributes) : Prop :=
  ice.role ≠ .conflict ∧ (ice.role = .none ∨ ice.tiebreaker.isSome)

theorem roleConflict_error {role : IceRole} {tiebreaker : Option IceTiebreaker} :
    (roleConflict role tiebreaker none none).error =
      if role ≠ .conflict ∧ (role = .none ∨ tiebreaker.isSome) then none
      else if role = .conflict then some .roleConflict else some .badRequest := by
  cases role <;> cases tiebreaker <;> rfl

/-- ICE-PRIORITY is looked at when the role is in order. -/
theorem validateIce_of_roleOk {ice : IceAttributes} {family : IpFamily} (h : ice.RoleOk) :
    validateIce ice family = priorityOnBinding ice.priority := by
  have hrole : (validate ice family).error = none := roleConflict_error.trans (if_pos h)
  rw [validateIce, hrole]

theorem validateIce_of_not_roleOk {ice : IceAttributes} {family : IpFamily} (h : ¬ ice.RoleOk) :
    validateIce ice family = some .roleConflict ∨ validateIce ice family = some .badRequest := by
  have hrole : (validate ice family).error = _ := roleConflict_error.trans (if_neg h)
  rw [validateIce, hrole]
  split_ifs <;> simp

theorem validateIce_eq_none {ice : IceAttributes} {family : IpFamily} :
    validateIce ice family = none ↔ ice.RoleOk ∧ ice.priority = none := by
  by_cases h : ice.RoleOk
  · rw [validateIce_of_roleOk h, priorityOnBinding, Option.map_eq_none_iff, and_iff_right h]
  · have hcode : validateIce ice family = _ ∨ _ := validateIce_of_not_roleOk h
    rcases hcode with he | he <;> simp [he, h]

theorem validateIce_eq_unknown {ice : IceAttributes} {family : IpFamily} :
    validateIce ice family = some .unknownAttribute ↔ ice.RoleOk ∧ ice.priority.isSome := by
  by_cases h : ice.RoleOk
  · rw [validateIce_of_roleOk h, priorityOnBinding, and_iff_right h]
    cases ice.priority <;> simp
  · have hcode : validateIce ice family = _ ∨ _ := validateIce_of_not_roleOk h
    rcases hcode with he | he <;> simp [he, h]

namespace BindingRequestFacts

/-- The change a request asks for. -/
def asked (facts : BindingRequestFacts) : ChangeRequest := facts.change.getD ChangeRequest.none

/-- OTHER-ADDRESS is of the family the request arrived on. -/
def FamilyOk (facts : BindingRequestFacts) : Prop :=
  ∀ other, facts.otherAddress = some other → other.family = facts.peer.family

end BindingRequestFacts

/-- The request passes the checks in front of the choice of a source. -/
structure Passes (facts : BindingRequestFacts) : Prop where
  understood : rejecting facts.unknownAttributes = []
  family : facts.FamilyOk
  ice : validateIce facts.ice facts.peer.family = none

/-- The plans by the return statement they come from. -/
inductive Path (facts : BindingRequestFacts) (source : Option ServerIdentity) (addresses : List ServerIdentity) :
    BindingResponsePlan → Prop
  | rejected : rejecting facts.unknownAttributes ≠ [] → Path facts source addresses
      ((BindingResponsePlan.error .unknownAttribute).withUnknownAttributes (rejecting facts.unknownAttributes))
  | foreign : ¬ facts.FamilyOk → Path facts source addresses (.error .badRequest)
  | ice (code : ErrorCode) : rejecting facts.unknownAttributes = [] → facts.FamilyOk →
      validateIce facts.ice facts.peer.family = some code → Path facts source addresses (.error code)
  | redirected (alternate : ServerIdentity) : Passes facts → facts.redirectTo = some alternate →
      Path facts source addresses ((BindingResponsePlan.redirect alternate).withSoftware facts.softwareRequested)
  | unsourced : Passes facts → facts.redirectTo = none → source = none → facts.asked.isEmpty = false →
      Path facts source addresses (.error .unknownAttribute)
  | unchanged : Passes facts → facts.redirectTo = none → facts.asked.isEmpty → Path facts source addresses
      ((BindingResponsePlan.success .default).withSoftware facts.softwareRequested)
  | moved (default id : ServerIdentity) : Passes facts → facts.redirectTo = none → source = some default →
      facts.asked.isEmpty = false → facts.asked.findSource facts.peer default addresses = some id →
      Path facts source addresses ((BindingResponsePlan.success (.explicit id)).withSoftware facts.softwareRequested)
  | unsatisfied (default : ServerIdentity) : Passes facts → facts.redirectTo = none → source = some default →
      facts.asked.isEmpty = false → facts.asked.findSource facts.peer default addresses = none →
      Path facts source addresses (.error .unknownAttribute)

section
variable {facts : BindingRequestFacts}

theorem decideChange_path (h : Passes facts) (source : Option ServerIdentity) (addresses : List ServerIdentity) :
    Path facts source addresses (decideChange facts source addresses) := by
  have hasked : facts.change.getD ChangeRequest.none = facts.asked := rfl
  rw [decideChange]
  cases hr : facts.redirectTo with
  | some alternate => exact .redirected alternate h hr
  | none =>
    rw [hasked]
    cases source with
    | none =>
      cases he : facts.asked.isEmpty with
      | true =>
        simp only [he, Bool.not_true, Bool.false_eq_true, if_false]
        exact .unchanged h hr he
      | false =>
        simp only [he, Bool.not_false, if_true]
        exact .unsourced h hr rfl he
    | some default =>
      rcases facts.asked.resolve_inv facts.peer default addresses with ⟨he, hres⟩ | ⟨he, hf, hres⟩ | ⟨id, he, hf, hres⟩
      · simp only [hres]
        exact .unchanged h hr he
      · simp only [hres]
        exact .unsatisfied default h hr rfl he hf
      · simp only [List.mem_cons, List.not_mem_nil, or_false] at hres
        rcases hres with hres | hres | hres
        all_goals
          simp only [hres]
          exact .moved default id h hr rfl he hf

theorem decide_path (facts : BindingRequestFacts) (source : Option ServerIdentity) (addresses : List ServerIdentity) :
    Path facts source addresses (decide facts source addresses) := by
  rw [decide]
  by_cases hr : rejecting facts.unknownAttributes = []
  swap
  · rw [if_pos hr]
    exact .rejected hr
  rw [if_neg (not_not_intro hr), decideKnown]
  have hother : ∀ other, (validateOtherAddress other facts.peer.family).error =
      if other.family = facts.peer.family then none else some .badRequest := by
    intro other
    rw [validateOtherAddress]
    split_ifs <;> simp_all [IceValidation.error]
  by_cases hf : facts.FamilyOk
  · have hnone : (facts.otherAddress.bind fun other => (validateOtherAddress other facts.peer.family).error) = none := by
      rw [Option.bind_eq_none_iff]
      intro other ho
      rw [hother, if_pos (hf other ho)]
    simp only [hnone]
    cases hi : validateIce facts.ice facts.peer.family with
    | some code => exact .ice code hr hf hi
    | none => exact decideChange_path ⟨hr, hf, hi⟩ source addresses
  · have hsome : (facts.otherAddress.bind fun other => (validateOtherAddress other facts.peer.family).error) =
        some .badRequest := by
      simp only [BindingRequestFacts.FamilyOk, not_forall] at hf
      obtain ⟨other, ho, hne⟩ := hf
      rw [ho, Option.bind_some, hother, if_neg hne]
    simp only [hsome]
    exact .foreign hf

end

/-! ### Well-formed plans -/

/-- The rules across the fields of a plan. -/
structure WellFormed (facts : BindingRequestFacts) (source : Option ServerIdentity) (addresses : List ServerIdentity)
    (plan : BindingResponsePlan) : Prop where
  failed : ∀ code, plan.outcome = .error code → plan.includeXorMapped = false ∧ plan.includeAlternateServer = false ∧
    plan.includeSoftware = false ∧ plan.source = .default
  address : plan.outcome = .success → (plan.includeXorMapped = true ↔ plan.includeAlternateServer = false)
  software : plan.outcome = .success → plan.includeSoftware = facts.softwareRequested
  explicit : ∀ id, plan.source = .explicit id → facts.redirectTo = some id ∨
    (id ∈ addresses ∧ ∃ default, source = some default ∧ id ≠ default)
  listed : ∀ codes, plan.unknownAttributes = some codes →
    plan.outcome = .error .unknownAttribute ∧ ∀ c ∈ codes, c ∉ notComprehensionRequired

theorem WellFormed.error {facts : BindingRequestFacts} {source : Option ServerIdentity} {addresses : List ServerIdentity}
    (code : ErrorCode) : WellFormed facts source addresses (.error code) where
  failed _ _ := ⟨rfl, rfl, rfl, rfl⟩
  address h := by cases h
  software h := by cases h
  explicit _ h := by cases h
  listed _ h := by cases h

theorem WellFormed.success {facts : BindingRequestFacts} {source : Option ServerIdentity}
    {addresses : List ServerIdentity} {origin : ChangeSource} (h : ∀ id, origin = .explicit id →
      facts.redirectTo = some id ∨ (id ∈ addresses ∧ ∃ default, source = some default ∧ id ≠ default)) :
    WellFormed facts source addresses ((BindingResponsePlan.success origin).withSoftware facts.softwareRequested) where
  failed _ h := by cases h
  address _ := iff_of_true rfl rfl
  software _ := rfl
  explicit := h
  listed _ h := by cases h

theorem mem_rejecting {unknown : Option (List UInt16)} {c : UInt16} :
    c ∈ rejecting unknown ↔ c ∈ unknown.getD [] ∧ c ∉ notComprehensionRequired := by
  rw [rejecting, List.mem_filter]
  simp

theorem Path.wellFormed {facts : BindingRequestFacts} {source : Option ServerIdentity} {addresses : List ServerIdentity}
    {plan : BindingResponsePlan} (h : Path facts source addresses plan) : WellFormed facts source addresses plan := by
  cases h with
  | rejected hr =>
    constructor
    case failed => exact fun _ _ => ⟨rfl, rfl, rfl, rfl⟩
    case address => exact fun h => by cases h
    case software => exact fun h => by cases h
    case explicit => exact fun id h => by cases h
    case listed =>
      intro codes h
      cases h
      exact ⟨rfl, fun c hc => (mem_rejecting.mp hc).2⟩
  | foreign _ => exact .error _
  | ice code _ _ _ => exact .error code
  | unsourced _ _ _ _ => exact .error _
  | unsatisfied default _ _ _ _ _ => exact .error _
  | redirected alternate _ hr =>
    constructor
    case failed => exact fun _ h => by cases h
    case address => exact fun _ => iff_of_false Bool.noConfusion Bool.noConfusion
    case software => exact fun _ => rfl
    case explicit =>
      intro id h
      cases h
      exact .inl hr
    case listed => exact fun _ h => by cases h
  | unchanged _ _ _ =>
    refine .success fun id h => ?_
    cases h
  | moved default id _ _ hs he hf =>
    refine .success fun id' h => ?_
    cases h
    obtain ⟨hmem, hdiffers⟩ := ChangeRequest.findSource_some hf
    exact .inr ⟨hmem, default, hs, hdiffers.1⟩

/-- **Plans**: every decision is well formed. -/
theorem decide_wellFormed (facts : BindingRequestFacts) (source : Option ServerIdentity)
    (addresses : List ServerIdentity) : WellFormed facts source addresses (decide facts source addresses) :=
  (decide_path facts source addresses).wellFormed

/-- An explicit source that is no redirect is what CHANGE-REQUEST resolves to. -/
theorem Path.source {facts : BindingRequestFacts} {default id : ServerIdentity} {addresses : List ServerIdentity}
    {plan : BindingResponsePlan} (h : Path facts (some default) addresses plan) (hr : facts.redirectTo = none)
    (he : facts.asked.isEmpty = false) (hs : plan.source = .explicit id) :
    (facts.asked.resolve facts.peer (some default) addresses).source = some id := by
  cases h with
  | rejected _ | foreign _ | ice _ _ _ _ | unsourced _ _ _ _ | unsatisfied _ _ _ _ _ _ | unchanged _ _ _ => cases hs
  | redirected alternate _ hr' =>
    rw [hr'] at hr
    cases hr
  | moved default id' _ _ hd _ hf =>
    cases hd
    cases hs
    rw [ChangeRequest.resolve_source, he, hf]
    rfl

/-! ### Rejections without a list -/

/-- A 420 names at least one attribute, and only attributes of the request. -/
def Named (facts : BindingRequestFacts) (plan : BindingResponsePlan) : Prop :=
  plan.outcome = .error .unknownAttribute → ∃ codes, plan.unknownAttributes = some codes ∧ codes ≠ [] ∧
    ∀ c ∈ codes, c ∈ facts.unknownAttributes.getD []

/-- No attribute code rejects the request, and it comes to one of the checks that answer 420 on
their own: ICE-PRIORITY in a request whose role is in order, or a change that no listed identity
meets. -/
structure Unexplained (facts : BindingRequestFacts) (source : Option ServerIdentity) (addresses : List ServerIdentity) :
    Prop where
  understood : rejecting facts.unknownAttributes = []
  family : facts.FamilyOk
  role : facts.ice.RoleOk
  reason : facts.ice.priority.isSome ∨ (facts.redirectTo = none ∧ facts.asked.isEmpty = false ∧
    ∀ default, source = some default → ∀ id ∈ addresses, ¬ facts.asked.Differs default id)

/-- A request that passes the checks can only be short of a source. -/
theorem Unexplained.unmet {facts : BindingRequestFacts} {source : Option ServerIdentity}
    {addresses : List ServerIdentity} (h : Unexplained facts source addresses) (hp : Passes facts) :
    facts.redirectTo = none ∧ facts.asked.isEmpty = false ∧
      ∀ default, source = some default → ∀ id ∈ addresses, ¬ facts.asked.Differs default id := by
  rcases h.reason with hpriority | hunmet
  · rw [(validateIce_eq_none.mp hp.ice).2] at hpriority
    cases hpriority
  · exact hunmet

theorem Path.named_iff {facts : BindingRequestFacts} {source : Option ServerIdentity} {addresses : List ServerIdentity}
    {plan : BindingResponsePlan} (h : Path facts source addresses plan) :
    Named facts plan ↔ ¬ Unexplained facts source addresses := by
  have hbare : ¬ Named facts (.error .unknownAttribute) := by
    intro hn
    obtain ⟨codes, hcodes, -⟩ := hn rfl
    cases hcodes
  have hother : ∀ {p : BindingResponsePlan}, p.outcome ≠ .error .unknownAttribute → Named facts p :=
    fun hp he => absurd he hp
  cases h with
  | rejected hr =>
    exact iff_of_true (fun _ => ⟨_, rfl, hr, fun c hc => (mem_rejecting.mp hc).1⟩) fun hu => hr hu.understood
  | foreign hf => exact iff_of_true (hother fun he => by cases he) fun hu => hf hu.family
  | ice code hr hf hi =>
    by_cases hc : code = .unknownAttribute
    · subst hc
      obtain ⟨hrole, hpriority⟩ := validateIce_eq_unknown.mp hi
      exact iff_of_false hbare (not_not_intro ⟨hr, hf, hrole, .inl hpriority⟩)
    · refine iff_of_true (hother fun he => hc (Outcome.error.inj he)) fun hu => ?_
      rw [validateIce_of_roleOk hu.role, priorityOnBinding, Option.map_eq_some_iff] at hi
      obtain ⟨_, -, hcode⟩ := hi
      exact hc hcode.symm
  | redirected alternate hp hr =>
    refine iff_of_true (hother Outcome.noConfusion) fun hu => ?_
    rw [(hu.unmet hp).1] at hr
    cases hr
  | unsourced hp hr hs he =>
    refine iff_of_false hbare (not_not_intro ⟨hp.understood, hp.family, (validateIce_eq_none.mp hp.ice).1,
      .inr ⟨hr, he, fun default hd => ?_⟩⟩)
    rw [hs] at hd
    cases hd
  | unchanged hp hr he =>
    refine iff_of_true (hother Outcome.noConfusion) fun hu => ?_
    rw [(hu.unmet hp).2.1] at he
    cases he
  | moved default id hp hr hs he hf =>
    refine iff_of_true (hother Outcome.noConfusion) fun hu => ?_
    obtain ⟨hmem, hdiffers⟩ := ChangeRequest.findSource_some hf
    exact (hu.unmet hp).2.2 default hs id hmem hdiffers
  | unsatisfied default hp hr hs he hf =>
    refine iff_of_false hbare (not_not_intro ⟨hp.understood, hp.family, (validateIce_eq_none.mp hp.ice).1,
      .inr ⟨hr, he, fun default' hd => ?_⟩⟩)
    rw [hs] at hd
    cases hd
    exact ChangeRequest.findSource_eq_none.mp hf

/-- **The list of a 420**: it is missing exactly where a check other than that of the codes
rejects the request. -/
theorem decide_named_iff (facts : BindingRequestFacts) (source : Option ServerIdentity) (addresses : List ServerIdentity) :
    Named facts (decide facts source addresses) ↔ ¬ Unexplained facts source addresses :=
  (decide_path facts source addresses).named_iff

/-- A plain request with ICE-PRIORITY. -/
def priorityFacts : BindingRequestFacts where
  peer := ⟨.v4 ⟨[192, 0, 2, 1], rfl⟩, 40000⟩
  change := none
  ice := ⟨.none, none, some 1, false⟩
  otherAddress := none
  softwareRequested := false
  unknownAttributes := none
  redirectTo := none

/-- The 420 for ICE-PRIORITY names nothing. -/
theorem priority_not_named : ¬ ∀ (facts : BindingRequestFacts) (source : Option ServerIdentity)
    (addresses : List ServerIdentity), Named facts (decide facts source addresses) := by
  intro h
  obtain ⟨codes, hcodes, -⟩ := h priorityFacts none [] rfl
  cases hcodes

end QuickRelay.Binding
