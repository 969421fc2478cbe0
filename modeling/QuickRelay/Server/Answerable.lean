import QuickRelay.Server.Mapped

/-! Every accepted request has an answer, and the rendered answer reads back as what was
decided. -/
namespace QuickRelay.Server
open Lib Protocol
open Binding (SocketAddr ServerIdentity BindingResponsePlan)

variable (crypto : Crypto)

/-! ### Every plan -/

/-- Without an identity of its own a server refuses every change. -/
theorem decideChange_sourceless {facts : Binding.BindingRequestFacts} (h : facts.redirectTo = none)
    (default : ServerIdentity) (addresses : List ServerIdentity) :
    Binding.Shape default addresses (Binding.decideChange facts none addresses) := by
  simp only [Binding.decideChange, h]
  split
  · exact .failed _
  · exact .mapped _

theorem shape_default {default default' : ServerIdentity} {addresses : List ServerIdentity} {plan : BindingResponsePlan}
    (h : Binding.Shape default addresses plan) : Binding.Shape default' addresses plan := by
  cases h with
  | failed code => exact .failed code
  | mapped software => exact .mapped software
  | moved id software hid => exact .moved id software hid

theorem decideKnown_answers {facts : Binding.BindingRequestFacts} (h : facts.redirectTo = none)
    (source : Option ServerIdentity) (default : ServerIdentity) (addresses : List ServerIdentity) :
    Binding.Shape default addresses (Binding.decideKnown facts source addresses) := by
  have hchange : Binding.Shape default addresses (Binding.decideChange facts source addresses) := by
    cases source with
    | none => exact decideChange_sourceless h default addresses
    | some identity =>
      exact shape_default (Binding.decideChange_shape h identity addresses)
  simp only [Binding.decideKnown]
  split
  · exact .failed _
  · split
    · exact .failed _
    · exact hchange

theorem planForRequest_answers (msg : Message) (peer : SocketAddr) (source : Option ServerIdentity)
    (default : ServerIdentity) (addresses : List ServerIdentity) :
    Decided default addresses (planForRequest msg peer source addresses) := by
  rw [planForRequest_eq]
  split
  case isTrue h => exact .rejected _ h (reported_length msg)
  case isFalse => exact .known (decideKnown_answers rfl source default addresses)

/-- Whether a plan echoes SOFTWARE to a request. -/
def Echoes (plan : BindingResponsePlan) (requested : Bool) : Prop :=
  plan.includeSoftware = true ↔ plan.outcome = .success ∧ requested = true

theorem error_not_success {code : Binding.ErrorCode} {p : Prop} : ¬ (Binding.Outcome.error code = .success ∧ p) := by
  rintro ⟨h, -⟩
  cases h

theorem error_echoes (code : Binding.ErrorCode) (requested : Bool) : Echoes (.error code) requested :=
  iff_of_false Bool.false_ne_true error_not_success

theorem decideChange_echoes {facts : Binding.BindingRequestFacts} (h : facts.redirectTo = none)
    (source : Option ServerIdentity) (addresses : List ServerIdentity) :
    Echoes (Binding.decideChange facts source addresses) facts.softwareRequested := by
  have hsuccess : ∀ source, Echoes ((BindingResponsePlan.success source).withSoftware facts.softwareRequested)
      facts.softwareRequested := fun _ => (and_iff_right rfl).symm
  simp only [Binding.decideChange, h]
  cases source with
  | none =>
    dsimp only
    split
    · exact error_echoes _ _
    · exact hsuccess _
  | some identity =>
    dsimp only
    cases (facts.change.getD Binding.ChangeRequest.none).resolve facts.peer (some identity) addresses with
    | noChange => exact hsuccess _
    | changeIpOnly id | changePortOnly id | changeBoth id => exact hsuccess (.explicit id)
    | unsatisfiable => exact error_echoes _ _

/-- SOFTWARE is echoed to exactly the requests that carry it and succeed. -/
theorem planForRequest_echoes (msg : Message) (peer : SocketAddr) (source : Option ServerIdentity)
    (addresses : List ServerIdentity) :
    Echoes (planForRequest msg peer source addresses) (msg.find AttrCode.software.asU16).isSome := by
  rw [planForRequest_eq]
  split
  case isTrue => exact error_echoes _ _
  case isFalse =>
    simp only [Binding.decideKnown]
    split
    · exact error_echoes _ _
    · split
      · exact error_echoes _ _
      · exact decideChange_echoes rfl source addresses

/-! ### What a reply says -/

/-- The message says what the plan says, and nothing else. -/
structure Says (m : Message) (plan : BindingResponsePlan) (default : ServerIdentity) (requested : Bool) : Prop where
  type : m.header.msgType = if plan.outcome = .success then .bindingSuccess else .bindingError
  errorCode : ∀ code, plan.outcome = .error code → ∃ e, m.find AttrCode.errorCode.asU16 = some (.errorCode e) ∧
    e.asU16 = code.number ∧ e.reason = utf8Bytes code.reason.asStr
  noErrorCode : plan.outcome = .success → m.find AttrCode.errorCode.asU16 = none
  mapped : m.find AttrCode.xorMappedAddress.asU16 =
    if plan.includeXorMapped then some (.xorMappedAddress (addressOf (plan.replyIdentity default).toSocketAddr)) else none
  software : m.find AttrCode.software.asU16 =
    if plan.outcome = .success ∧ requested = true then some (.software softwareName) else none
  unknown : m.find AttrCode.unknownAttributes.asU16 = plan.unknownAttributes.map .unknownAttributes
  rest : ∀ a ∈ m.attributes, attributeKind a ∈ [.known .errorCode, .known .xorMappedAddress, .known .software,
    .known .unknownAttributes]

theorem says_error {m : Message} {code : Binding.ErrorCode} (codes : Option (List UInt16)) {default : ServerIdentity}
    {requested : Bool} (ht : m.header.msgType = .bindingError)
    (hm : m.attributes = errorCodeAttr code :: (codes.map Attribute.unknownAttributes).toList) :
    Says m ⟨.error code, false, .default, false, false, codes⟩ default requested := by
  have hfind : ∀ c, m.find c = (errorCodeAttr code :: (codes.map Attribute.unknownAttributes).toList).find?
      fun a => (attributeKind a).asU16 == c := by
    intro c
    rw [Message.find, hm]
  constructor
  case type => exact ht
  case errorCode =>
    rintro code' hcode
    cases hcode
    obtain ⟨e, he, hnumber, hreason⟩ := errorCodeAttr_asU16 code
    refine ⟨e, ?_, hnumber, hreason⟩
    rw [hfind, he]
    rfl
  case noErrorCode =>
    intro h
    cases h
  case mapped =>
    rw [hfind]
    cases codes <;> rfl
  case software =>
    rw [if_neg error_not_success, hfind]
    cases codes <;> rfl
  case unknown =>
    rw [hfind]
    cases codes <;> rfl
  case rest =>
    intro a ha
    rw [hm] at ha
    rcases List.mem_cons.mp ha with rfl | ha
    · exact List.mem_cons_self ..
    · obtain ⟨l, -, rfl⟩ := Option.map_eq_some_iff.mp (Option.mem_toList.mp ha)
      exact List.mem_of_getLast? rfl

theorem says_success {m : Message} {source : Binding.ChangeSource} {default : ServerIdentity} {requested : Bool}
    (ht : m.header.msgType = .bindingSuccess)
    (hm : m.attributes = .xorMappedAddress (mappedAttr source default) :: if requested then [.software softwareName] else []) :
    Says m ((BindingResponsePlan.success source).withSoftware requested) default requested := by
  have hfind : ∀ c, m.find c = ((Attribute.xorMappedAddress (mappedAttr source default)) ::
      if requested then [.software softwareName] else []).find? fun a => (attributeKind a).asU16 == c := by
    intro c
    rw [Message.find, hm]
  constructor
  case type => exact ht
  case errorCode =>
    intro code h
    cases h
  case noErrorCode =>
    intro _
    rw [hfind]
    cases requested <;> rfl
  case mapped =>
    rw [hfind, ← mappedAttr_eq]
    rfl
  case software =>
    rw [hfind]
    cases requested <;> rfl
  case unknown =>
    rw [hfind]
    cases requested <;> rfl
  case rest =>
    intro a ha
    rw [hm] at ha
    rcases List.mem_cons.mp ha with rfl | ha
    · exact List.mem_cons_of_mem _ (List.mem_cons_self ..)
    · cases requested with
      | false => cases ha
      | true =>
        rw [List.mem_singleton.mp ha]
        exact List.mem_cons_of_mem _ (List.mem_cons_of_mem _ (List.mem_cons_self ..))

theorem Decided.says {default : ServerIdentity} {addresses : List ServerIdentity} {plan : BindingResponsePlan}
    (h : Decided default addresses plan) {requested : Bool} (he : Echoes plan requested) {m : Message}
    (ht : m.header.msgType = messageTypeOf plan) (hm : m.attributes = planAttributes plan default) :
    Says m plan default requested := by
  cases h with
  | rejected codes hne hl => exact says_error (some codes) ht hm
  | known hs =>
    cases hs with
    | failed code =>
      rw [planAttributes_failed] at hm
      exact says_error none ht hm
    | mapped software =>
      obtain rfl : software = requested := Bool.eq_iff_iff.mpr (he.trans (and_iff_right rfl))
      rw [planAttributes_success] at hm
      exact says_success ht hm
    | moved id software hid =>
      obtain rfl : software = requested := Bool.eq_iff_iff.mpr (he.trans (and_iff_right rfl))
      rw [planAttributes_success] at hm
      exact says_success ht hm

/-- **Answers**: whatever is decided about a request renders; the rendered reply parses and
says exactly what was decided; and the sink always has it to send. -/
theorem request_answered (msg : Message) (peer : SocketAddr) (source : Option ServerIdentity)
    (addresses : List ServerIdentity) (default : ServerIdentity) (txid : TransactionId) :
    ∃ d, renderPlan crypto (planForRequest msg peer source addresses) txid default = .ok d ∧
      (∃ m, parse d = .ok m ∧ m.txid = txid ∧ Says m (planForRequest msg peer source addresses) default
        (msg.find AttrCode.software.asU16).isSome) ∧
      ∀ path env, ∃ sink sent, (ServerBindingSink.forPath path default).sendPlan crypto env
        (planForRequest msg peer source addresses) txid = .ok (sink, sent) ∧ sink.rendered = some d := by
  have hdecided := planForRequest_answers msg peer source default addresses
  obtain ⟨d, hd, -, m, hm, ht, htxid, hattrs⟩ := renderPlan_reads crypto hdecided txid
  refine ⟨d, hd, ⟨m, hm, htxid, hdecided.says (planForRequest_echoes msg peer source addresses) ht hattrs⟩, ?_⟩
  intro path env
  obtain ⟨sink, hsink, hrendered, -⟩ := sendPlan_ok crypto path env hd
  exact ⟨sink, _, hsink, hrendered⟩

end QuickRelay.Server
