import QuickRelay.Protocol.Assembly
import QuickRelay.Server.Chain

/-! Rendered replies: every decided plan renders, the reply reads back as the plan's
attributes, and it is short. -/
namespace QuickRelay.Server
open Lib Protocol
open Binding (SocketAddr ServerIdentity BindingResponsePlan)

/-! ### Addresses -/

/-- The address attribute of a socket address. -/
def addressOf (a : SocketAddr) : MappedAddress :=
  match a.ip with
  | .v4 octets => .fromIpv4 octets a.port
  | .v6 octets => .fromIpv6 octets a.port

theorem identityAttr_eq (id : ServerIdentity) : identityAttr id = addressOf id.toSocketAddr := by
  rw [identityAttr, addressOf, ServerIdentity.toSocketAddr, ServerIdentity.toIp]
  split <;> rfl

theorem mappedAttr_eq (plan : BindingResponsePlan) (default : ServerIdentity) :
    mappedAttr plan.source default = addressOf (plan.replyIdentity default).toSocketAddr := by
  rw [BindingResponsePlan.replyIdentity, ← identityAttr_eq]
  cases plan.source <;> rfl

theorem addressOf_padded (a : SocketAddr) : (addressOf a).Padded := by
  obtain ⟨ip, port⟩ := a
  cases ip with
  | v4 o => simp [addressOf, MappedAddress.fromIpv4, MappedAddress.Padded, AddressFamily.addressOctets, o.property]
  | v6 o =>
    have : o.val.drop 16 = [] := List.drop_eq_nil_of_le o.property.le
    simpa [addressOf, MappedAddress.fromIpv6, MappedAddress.Padded, AddressFamily.addressOctets, zeros] using this

theorem addressOf_inj {a b : SocketAddr} (h : addressOf a = addressOf b) : a = b := by
  obtain ⟨ipa, pa⟩ := a
  obtain ⟨ipb, pb⟩ := b
  cases ipa with
  | v4 x =>
    cases ipb with
    | v4 y =>
      simp only [addressOf, MappedAddress.fromIpv4, MappedAddress.mk.injEq, Subtype.mk.injEq, true_and] at h
      obtain ⟨hip, rfl⟩ := h
      obtain ⟨hxy, -⟩ := List.append_inj hip (x.property.trans y.property.symm)
      rw [Subtype.ext hxy]
    | v6 y => cases h
  | v6 x =>
    cases ipb with
    | v4 y => cases h
    | v6 y =>
      simp only [addressOf, MappedAddress.fromIpv6, MappedAddress.mk.injEq, true_and] at h
      rw [h.1, h.2]

/-! ### The codes a request is rejected for -/

/-- An attribute's code that is on neither of the server's lists. -/
def offends (a : Attribute) : Bool :=
  !Binding.notComprehensionRequired.contains (attributeKind a).asU16 && !bindingKnown.contains (attributeKind a).asU16

def offending (attrs : List Attribute) : List UInt16 := (attrs.filter offends).map fun a => (attributeKind a).asU16

/-- All codes the scan of a message comes across; an unregistered attribute is listed
twice. -/
def scanned (msg : Message) : List UInt16 := offending msg.attributes ++ msg.unknown.map UnknownAttribute.code

/-- The scratch array after a list of codes. -/
def Scratch.ofCodes (l : List UInt16) : Scratch := ⟨l.take scratchLen, l.length⟩

theorem Scratch.note_ofCodes (l : List UInt16) (c : UInt16) : (ofCodes l).note c = ofCodes (l ++ [c]) := by
  have hn : (ofCodes l).n + 1 = (l ++ [c]).length := by rw [List.length_append]; rfl
  by_cases h : (ofCodes l).n < scratchLen
  · have hl : l.length < scratchLen := h
    rw [note, if_pos h, hn, ofCodes, ofCodes, List.take_of_length_le hl.le, List.take_of_length_le (by simp; omega)]
  · have hl : scratchLen ≤ l.length := Nat.le_of_not_lt h
    rw [note, if_neg h, hn, ofCodes, ofCodes, List.take_append_of_le_length hl]

theorem foldl_noteAttribute (l : List UInt16) (attrs : List Attribute) :
    attrs.foldl Scratch.noteAttribute (.ofCodes l) = .ofCodes (l ++ offending attrs) := by
  induction attrs generalizing l with
  | nil => simp [offending]
  | cons a attrs ih =>
    have hstep : (Scratch.ofCodes l).noteAttribute a = .ofCodes (l ++ offending [a]) := by
      change (if offends a then (Scratch.ofCodes l).note (attributeKind a).asU16 else Scratch.ofCodes l) = _
      by_cases h : offends a
      · rw [if_pos h, Scratch.note_ofCodes]
        simp [offending, h]
      · rw [if_neg h]
        simp [offending, h]
    rw [List.foldl_cons, hstep, ih, List.append_assoc]
    congr 2
    rw [offending, offending, offending, ← List.map_append, ← List.filter_append]
    rfl

theorem foldl_note (l : List UInt16) (us : List UnknownAttribute) :
    us.foldl (fun (s : Scratch) u => s.note u.code) (.ofCodes l) = .ofCodes (l ++ us.map UnknownAttribute.code) := by
  induction us generalizing l with
  | nil => simp
  | cons u us ih =>
    rw [List.foldl_cons, Scratch.note_ofCodes, ih, List.append_assoc]
    rfl

/-- The scan reports the first codes that fit its scratch array. -/
theorem unknownAttributeCodes_eq (msg : Message) :
    unknownAttributeCodes msg = if scanned msg = [] then none else some ((scanned msg).take scratchLen) := by
  have hs : (msg.unknown.foldl (fun (s : Scratch) u => s.note u.code)
      (msg.attributes.foldl Scratch.noteAttribute ⟨[], 0⟩)) = .ofCodes (scanned msg) := by
    have := foldl_noteAttribute [] msg.attributes
    rw [List.nil_append] at this
    rw [show (⟨[], 0⟩ : Scratch) = .ofCodes [] from rfl, this, foldl_note, scanned]
  simp only [unknownAttributeCodes, hs, Scratch.ofCodes, List.length_eq_zero_iff]
  split
  · rfl
  · rw [List.take_take]
    rcases Nat.le_total (scanned msg).length scratchLen with h | h
    · rw [Nat.min_eq_left h, Nat.min_eq_left h, List.take_length, List.take_of_length_le h]
    · rw [Nat.min_eq_right h, Nat.min_self]

/-- The codes a request is rejected for, as the reply lists them. -/
def reported (msg : Message) : List UInt16 :=
  ((scanned msg).take scratchLen).filter fun code => !Binding.notComprehensionRequired.contains code

theorem rejecting_eq (msg : Message) : Binding.rejecting (unknownAttributeCodes msg) = reported msg := by
  rw [unknownAttributeCodes_eq, Binding.rejecting, reported]
  split
  · rename_i h
    simp [h]
  · rfl

theorem reported_length (msg : Message) : (reported msg).length ≤ scratchLen :=
  Nat.le_trans (List.length_filter_le _ _) (List.length_take_le _ _)

theorem planForRequest_eq (msg : Message) (peer : SocketAddr) (source : Option ServerIdentity)
    (addresses : List ServerIdentity) : planForRequest msg peer source addresses =
      if reported msg ≠ [] then
        (BindingResponsePlan.error .unknownAttribute).withUnknownAttributes (reported msg)
      else Binding.decideKnown (factsOf msg peer) source addresses := by
  have h : Binding.rejecting (factsOf msg peer).unknownAttributes = reported msg := rejecting_eq msg
  rw [planForRequest, Binding.decide, h]

/-! ### The attributes of a reply -/

/-- An attribute the encoder takes and the parser returns. -/
def Plain (txid : TransactionId) (a : Attribute) : Prop := Encodable txid a ∧ Sendable txid a

private theorem plain_of {txid : TransactionId} {a : Attribute} {c : AttrCode} (hk : attributeKind a = .known c)
    (hc : a.Canonical) (hr : a.refusal = none) (hl : (a.octets txid 0).length ≤ 2048)
    (ht : ¬ isTrailerOnly (.known c)) (hu : ¬ UnregisteredRequired c.asU16) : Plain txid a :=
  ⟨⟨hr, hl⟩, sendable_of_canonical hc hr (hk ▸ ht) (hk ▸ hu)⟩

theorem xorMapped_length (txid : TransactionId) (a : MappedAddress) (x : UInt8) :
    ((Attribute.xorMappedAddress a).octets txid x).length = 4 + a.family.addressOctets := by
  rw [Attribute.octets, mappedValue_length (xorOctetsOf_length a txid)]
  rfl

theorem plain_xorMapped (txid : TransactionId) {a : MappedAddress} (h : a.Padded) : Plain txid (.xorMappedAddress a) := by
  refine plain_of rfl h rfl ?_ (by decide) (by decide)
  rw [xorMapped_length]
  cases a.family <;> decide

theorem software_length (txid : TransactionId) (x : UInt8) :
    ((Attribute.software softwareName).octets txid x).length = 14 := by
  change (utf8Bytes softwareName).length = 14
  decide +kernel

theorem plain_software (txid : TransactionId) : Plain txid (.software softwareName) :=
  plain_of rfl trivial rfl (by rw [software_length]; omega) (by decide) (by decide)

theorem reason_length (code : Binding.ErrorCode) : (utf8Bytes code.reason.asStr).length ≤ 17 := by
  cases code <;> decide +kernel

theorem errorCode_length (txid : TransactionId) (code : Binding.ErrorCode) (x : UInt8) :
    ((errorCodeAttr code).octets txid x).length ≤ 21 := by
  have := reason_length code
  simp [errorCodeAttr, Attribute.octets]
  omega

/-- The number on the wire is the decided one. -/
theorem errorCodeAttr_asU16 (code : Binding.ErrorCode) :
    ∃ e, errorCodeAttr code = .errorCode e ∧ e.asU16 = code.number ∧ e.reason = utf8Bytes code.reason.asStr := by
  refine ⟨_, rfl, ?_, rfl⟩
  cases code <;> decide

theorem plain_errorCode (txid : TransactionId) (code : Binding.ErrorCode) : Plain txid (errorCodeAttr code) := by
  obtain ⟨e, he, hn, hr⟩ := errorCodeAttr_asU16 code
  have hlt : ¬ 700 ≤ e.asU16 := by rw [hn]; cases code <;> decide
  have hrl : ¬ errorCodeReasonMaxLen < e.reason.length := by
    have := reason_length code
    rw [hr, errorCodeReasonMaxLen]; omega
  refine plain_of (c := .errorCode) (by rw [he]; rfl) (by rw [he]; trivial) (by simp [he, Attribute.refusal, hlt, hrl]) ?_
    (by decide) (by decide)
  have := errorCode_length txid code 0
  omega

theorem unknownAttributes_length (txid : TransactionId) (l : List UInt16) (x : UInt8) :
    ((Attribute.unknownAttributes l).octets txid x).length = 2 * l.length := by
  rw [Attribute.octets, flatMap_u16ToBe_length]

theorem plain_unknownAttributes (txid : TransactionId) {l : List UInt16} (h : l.length ≤ scratchLen) :
    Plain txid (.unknownAttributes l) := by
  rw [scratchLen] at h
  refine plain_of rfl trivial (by simp [Attribute.refusal]; omega) ?_ (by decide) (by decide)
  rw [unknownAttributes_length]
  omega

/-! ### Whole replies -/

/-- The plans of Binding requests. -/
inductive Decided (default : ServerIdentity) (addresses : List ServerIdentity) : BindingResponsePlan → Prop
  | rejected (codes : List UInt16) : codes ≠ [] → codes.length ≤ scratchLen →
      Decided default addresses ((BindingResponsePlan.error .unknownAttribute).withUnknownAttributes codes)
  | known {plan : BindingResponsePlan} : Binding.Shape default addresses plan → Decided default addresses plan

theorem planForRequest_decided (msg : Message) (peer : SocketAddr) (default : ServerIdentity)
    (addresses : List ServerIdentity) : Decided default addresses (planForRequest msg peer (some default) addresses) := by
  rw [planForRequest_eq]
  split
  case isTrue h => exact .rejected _ h (reported_length msg)
  case isFalse h => exact .known (Binding.decideKnown_shape rfl default addresses)

/-- What the attributes of a plan take at most. -/
def replyBound (plan : BindingResponsePlan) : Nat :=
  match plan.outcome with
  | .success => 24 + if plan.includeSoftware then 20 else 0
  | .error _ => 28 + match plan.unknownAttributes with
    | some codes => 6 + 2 * codes.length
    | none => 0

private theorem attrSize_le {n k : Nat} (h : n ≤ k) (h4 : k % 4 = 0) : attrSize n ≤ 4 + k := by
  simp only [attrSize, padLen, padding]
  omega

theorem planAttributes_rejected (codes : List UInt16) (default : ServerIdentity) :
    planAttributes ((BindingResponsePlan.error .unknownAttribute).withUnknownAttributes codes) default =
      [errorCodeAttr .unknownAttribute, .unknownAttributes codes] := rfl

theorem planAttributes_failed (code : Binding.ErrorCode) (default : ServerIdentity) :
    planAttributes (.error code) default = [errorCodeAttr code] := by
  cases code <;> rfl

theorem planAttributes_success (source : Binding.ChangeSource) (software : Bool) (default : ServerIdentity) :
    planAttributes ((BindingResponsePlan.success source).withSoftware software) default =
      .xorMappedAddress (mappedAttr source default) :: if software then [.software softwareName] else [] := by
  cases software <;> rfl

private theorem plain_success (source : Binding.ChangeSource) (software : Bool) (default : ServerIdentity)
    (txid : TransactionId) : ∀ a ∈ planAttributes ((BindingResponsePlan.success source).withSoftware software) default,
      Plain txid a := by
  intro a ha
  rw [planAttributes_success, List.mem_cons] at ha
  rcases ha with rfl | ha
  · have hm : mappedAttr source default = addressOf (source.identity default).toSocketAddr :=
      mappedAttr_eq (.success source) default
    rw [hm]
    exact plain_xorMapped txid (addressOf_padded _)
  · cases software with
    | false => cases ha
    | true =>
      rw [List.mem_singleton.mp ha]
      exact plain_software txid

theorem planAttributes_plain {default : ServerIdentity} {addresses : List ServerIdentity} {plan : BindingResponsePlan}
    (h : Decided default addresses plan) (txid : TransactionId) : ∀ a ∈ planAttributes plan default, Plain txid a := by
  cases h with
  | rejected codes hne hl =>
    intro a ha
    rw [planAttributes_rejected, List.mem_cons, List.mem_singleton] at ha
    rcases ha with rfl | rfl
    · exact plain_errorCode txid _
    · exact plain_unknownAttributes txid hl
  | known hs =>
    cases hs with
    | failed code =>
      intro a ha
      rw [planAttributes_failed, List.mem_singleton] at ha
      rw [ha]
      exact plain_errorCode txid code
    | mapped software => exact plain_success _ _ _ _
    | moved id software hid => exact plain_success _ _ _ _

private theorem wireLen_success (source : Binding.ChangeSource) (software : Bool) (default : ServerIdentity)
    (txid : TransactionId) : wireLen txid (planAttributes ((BindingResponsePlan.success source).withSoftware software) default) ≤
      24 + if software then 20 else 0 := by
  have hx : attrSize ((Attribute.xorMappedAddress (mappedAttr source default)).octets txid 0).length ≤ 24 := by
    rw [xorMapped_length]
    cases (mappedAttr source default).family <;> decide
  rw [planAttributes_success, wireLen_cons]
  cases software with
  | false => exact hx
  | true =>
    rw [if_pos rfl, wireLen_cons, wireLen_nil, software_length]
    exact Nat.add_le_add hx (Nat.le_refl 20)

theorem wireLen_le_replyBound {default : ServerIdentity} {addresses : List ServerIdentity} {plan : BindingResponsePlan}
    (h : Decided default addresses plan) (txid : TransactionId) :
    wireLen txid (planAttributes plan default) ≤ replyBound plan := by
  have he : ∀ code, attrSize ((errorCodeAttr code).octets txid 0).length ≤ 28 := fun code =>
    Nat.le_trans (attrSize_le (k := 24) (Nat.le_trans (errorCode_length txid code 0) (by decide)) rfl) (Nat.le_refl 28)
  cases h with
  | rejected codes hne hl =>
    have hu : attrSize ((Attribute.unknownAttributes codes).octets txid 0).length ≤ 6 + 2 * codes.length := by
      rw [unknownAttributes_length]
      simp only [attrSize, padLen, padding]
      omega
    rw [planAttributes_rejected, wireLen_cons, wireLen_cons, wireLen_nil]
    exact Nat.add_le_add (he _) hu
  | known hs =>
    cases hs with
    | failed code =>
      rw [planAttributes_failed, wireLen_cons, wireLen_nil]
      exact he code
    | mapped software => exact wireLen_success _ _ _ _
    | moved id software hid => exact wireLen_success _ _ _ _

theorem replyBound_lt {default : ServerIdentity} {addresses : List ServerIdentity} {plan : BindingResponsePlan}
    (h : Decided default addresses plan) : replyBound plan ≤ 162 := by
  cases h with
  | rejected codes hne hl =>
    change 28 + (6 + 2 * codes.length) ≤ 162
    rw [scratchLen] at hl
    omega
  | known hs =>
    cases hs with
    | failed code =>
      change 28 + 0 ≤ 162
      omega
    | mapped software =>
      change 24 + (if software then 20 else 0) ≤ 162
      split <;> omega
    | moved id software hid =>
      change 24 + (if software then 20 else 0) ≤ 162
      split <;> omega

/-- Every decided plan renders: the reply is short and reads back as the plan. -/
theorem renderPlan_reads (crypto : Crypto) {default : ServerIdentity} {addresses : List ServerIdentity}
    {plan : BindingResponsePlan} (h : Decided default addresses plan) (txid : TransactionId) :
    ∃ out, renderPlan crypto plan txid default = .ok out ∧ out.length ≤ 20 + replyBound plan ∧
      ∃ m, parse out = .ok m ∧ m.header.msgType = messageTypeOf plan ∧ m.txid = txid ∧
        m.attributes = planAttributes plan default := by
  have hp := planAttributes_plain h txid
  have hw := wireLen_le_replyBound h txid
  have hb := replyBound_lt h
  obtain ⟨out, hout, hlen⟩ := buildResponse_plain crypto (messageTypeOf plan).bits
    (fun a ha => (hp a ha).1) (by omega)
  have ht : (messageTypeOf plan).method.bits.toNat < 4096 := by
    rw [messageTypeOf]
    split <;> decide
  have hty : MessageType.fromMethodAndClass (messageTypeOf plan).method.bits (messageTypeOf plan).cls = messageTypeOf plan := by
    rw [messageTypeOf]
    split <;> rfl
  have hr := buildResponse_plain_reads ht (fun a ha => (hp a ha).2) hout
  rw [hty] at hr
  exact ⟨out, hout, by omega, hr⟩

end QuickRelay.Server
