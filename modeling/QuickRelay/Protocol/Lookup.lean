import QuickRelay.Protocol.Acceptance

/-! Looking attributes up in a parsed message, against the octets it was parsed from. -/
namespace QuickRelay.Protocol
open Lib

namespace Message

/-- Whether any attribute with this code is present, registered or not. -/
def has (m : Message) (code : UInt16) : Bool :=
  (m.attributes.any fun a => (attributeKind a).asU16 == code) || m.unknown.any fun u => u.code == code

def unknownOptionalCodes (m : Message) : List UInt16 := m.unknown.map UnknownAttribute.code

def hasMessageIntegrity (m : Message) : Bool := m.integrityLocation.isSome
def hasIntegrity (m : Message) : Bool := m.hasMessageIntegrity
def hasFingerprint (m : Message) : Bool := m.fingerprintOffset.isSome

/-- The value of the first attribute with this code, if it is of the right variant. -/
def valueOf {α : Type} (m : Message) (code : UInt16) (pick : Attribute → Option α) : Option α := (m.find code).bind pick

def fingerprint (m : Message) : Option UInt32 := m.valueOf fingerprintCode fun
  | .fingerprint v => some v
  | _ => none

def username (m : Message) : Option String := m.valueOf 0x0006 fun
  | .username s => some s
  | _ => none

def realm (m : Message) : Option String := m.valueOf 0x0014 fun
  | .realm s => some s
  | _ => none

def nonce (m : Message) : Option String := m.valueOf 0x0015 fun
  | .nonce s => some s
  | _ => none

def software (m : Message) : Option String := m.valueOf 0x8022 fun
  | .software s => some s
  | _ => none

def xorMappedAddress (m : Message) : Option MappedAddress := m.valueOf 0x0020 fun
  | .xorMappedAddress a => some a
  | _ => none

def xorRelayedAddress (m : Message) : Option MappedAddress := m.valueOf 0x0016 fun
  | .xorRelayedAddress a => some a
  | _ => none

def error (m : Message) : Option ErrorCode := m.valueOf 0x0009 fun
  | .errorCode e => some e
  | _ => none

def lifetimeSecs (m : Message) : Option UInt32 := m.valueOf 0x000D fun
  | .lifetime v => some v
  | _ => none

def dataBytes (m : Message) : Option Bytes := m.valueOf 0x0013 fun
  | .data v => some v
  | _ => none

def channelNumber (m : Message) : Option UInt16 := m.valueOf 0x000C fun
  | .channelNumber v => some v
  | _ => none

def icePriority (m : Message) : Option UInt32 := m.valueOf 0x0024 fun
  | .icePriority v => some v
  | _ => none

end Message

/-! ### The first of a code -/

def firstOf (code : UInt16) (ts : List Tlv) : Option Tlv := ts.find? fun t => t.code == code

theorem firstOf_code {code : UInt16} {ts : List Tlv} {t : Tlv} (h : firstOf code ts = some t) : t.code = code := by
  rw [firstOf] at h
  exact beq_iff_eq.mp (List.find?_some (p := fun t : Tlv => t.code == code) h)

section Decoded
variable {txid : TransactionId} {ts : List Tlv} {attrs : List Attribute}
  (h : List.Forall₂ (fun t a => decode txid t = .ok a) ts attrs)
include h

/-- Decoding keeps codes, and so the first of each. -/
theorem find_decoded (code : UInt16) : match firstOf code ts with
    | some t => ∃ a, (attrs.find? fun a => (attributeKind a).asU16 == code) = some a ∧ decode txid t = .ok a
    | none => (attrs.find? fun a => (attributeKind a).asU16 == code) = none := by
  induction h with
  | nil => exact rfl
  | @cons t a ts attrs ha _ ih =>
    rw [firstOf, List.find?_cons, List.find?_cons, asU16_attributeKind ha]
    cases t.code == code with
    | true => exact ⟨a, rfl, ha⟩
    | false => exact ih

theorem any_decoded (code : UInt16) : (attrs.any fun a => (attributeKind a).asU16 == code) = ts.any fun t => t.code == code := by
  induction h with
  | nil => rfl
  | @cons t a ts attrs ha _ ih => rw [List.any_cons, List.any_cons, asU16_attributeKind ha, ih]

end Decoded

/-! What is kept of the unregistered ones. -/

theorem any_unknown (code : UInt16) (ts : List Tlv) : ((ts.filterMap unknownOf).any fun u => u.code == code) =
    ts.any fun t => decide (AttrCode.attrFromWire t.code = .unknown t.code) && t.code == code := by
  induction ts with
  | nil => rfl
  | cons t ts ih =>
    rw [List.filterMap_cons, unknownOf]
    by_cases h : AttrCode.attrFromWire t.code = .unknown t.code
    · simp [h, ih]
    · simp [h, ih]

theorem map_unknown (ts : List Tlv) : (ts.filterMap unknownOf).map UnknownAttribute.code =
    (ts.filter fun t => AttrCode.attrFromWire t.code = .unknown t.code).map Tlv.code := by
  induction ts with
  | nil => rfl
  | cons t ts ih =>
    rw [List.filterMap_cons, unknownOf]
    by_cases h : AttrCode.attrFromWire t.code = .unknown t.code
    · simp [h, ih]
    · simp [h, ih]

/-- A getter reads the first attribute of its code: it has a value exactly if there is one,
namely what that one decodes to. -/
def Reads {α : Type} (get : Message → Option α) (code : UInt16) (variant : α → Attribute) (m : Message) (ts : List Tlv) : Prop :=
  match firstOf code ts with
  | some t => ∃ v, get m = some v ∧ decode m.txid t = .ok (variant v)
  | none => get m = none

/-- A code whose attributes are all of one variant is read by a getter that picks it. -/
theorem valueOf_reads {α : Type} {c : AttrCode} {variant : α → Attribute} {pick : Attribute → Option α} {m : Message} {ts : List Tlv}
    (h : List.Forall₂ (fun t a => decode m.txid t = .ok a) ts m.attributes) (hcode : AttrCode.attrFromWire c.asU16 = .known c)
    (hicmp : c ≠ .icmp) (hpick : ∀ a, attributeKind a = .known c → ∃ v, a = variant v ∧ pick a = some v) :
    Reads (fun m => m.valueOf c.asU16 pick) c.asU16 variant m ts := by
  have hfind := find_decoded h c.asU16
  rw [Reads]
  rw [Message.valueOf, Message.find]
  cases hfirst : firstOf c.asU16 ts with
  | none =>
    rw [hfirst] at hfind
    dsimp only at hfind ⊢
    rw [hfind]
    rfl
  | some t =>
    rw [hfirst] at hfind
    obtain ⟨a, ha, hdec⟩ := hfind
    have htcode : t.code = c.asU16 := firstOf_code hfirst
    have hkind : attributeKind a = .known c := by
      rw [attributeKind_eq hdec, htcode, hcode, if_neg fun heq => hicmp (AttributeKind.known.inj heq)]
    obtain ⟨v, rfl, hv⟩ := hpick a hkind
    dsimp only
    rw [ha]
    exact ⟨v, hv, hdec⟩

/-- **Lookups**: on an accepted datagram the accessors answer as a search of its octets would:
`has` and `find` for every code, the getters for theirs, and what a getter's attribute decodes
to is always of the variant it asks for. -/
theorem lookups_agree {d : Bytes} {m : Message} {ts : List Tlv} (h : parse d = .ok m) (hts : d.drop 20 = Tlv.encodeAll ts) :
    (∀ code, m.has code ↔ ∃ t ∈ ts, t.code = code) ∧
    (∀ code, match firstOf code ts with
      | some t => ∃ a, m.find code = some a ∧ decode m.txid t = .ok a
      | none => m.find code = none) ∧
    m.unknownOptionalCodes = (ts.filter fun t => AttrCode.attrFromWire t.code = .unknown t.code).map Tlv.code ∧
    (m.hasIntegrity ↔ m.has messageIntegrityCode ∨ m.has messageIntegritySha256Code) ∧
    (m.hasFingerprint ↔ m.has fingerprintCode) ∧
    Reads Message.fingerprint fingerprintCode .fingerprint m ts ∧ Reads Message.username 0x0006 .username m ts ∧
    Reads Message.realm 0x0014 .realm m ts ∧ Reads Message.nonce 0x0015 .nonce m ts ∧
    Reads Message.software 0x8022 .software m ts ∧ Reads Message.xorMappedAddress 0x0020 .xorMappedAddress m ts ∧
    Reads Message.xorRelayedAddress 0x0016 .xorRelayedAddress m ts ∧ Reads Message.error 0x0009 .errorCode m ts ∧
    Reads Message.lifetimeSecs 0x000D .lifetime m ts ∧ Reads Message.dataBytes 0x0013 .data m ts ∧
    Reads Message.channelNumber 0x000C .channelNumber m ts ∧ Reads Message.icePriority 0x0024 .icePriority m ts := by
  obtain ⟨ty, t, txid, us, attrs, ht, hb, hd, hacc, hm⟩ := parse_eq_ok.mp h
  have hus : d.drop 20 = Tlv.encodeAll us := by
    conv_lhs => rw [hd, frame_drop_header]
  obtain rfl := Tlv.encodeAll_inj (hts.symm.trans hus)
  subst hm
  have hdec : List.Forall₂ (fun u a => decode txid u = .ok a) ts attrs := hacc.decoded
  have hhas : ∀ code, (messageOf t txid d ts attrs).has code = ts.any fun u => u.code == code := by
    intro code
    have hattrs := any_decoded hdec code
    change (attrs.any _ || (ts.filterMap unknownOf).any _) = _
    rw [hattrs, any_unknown]
    refine Bool.or_eq_left_iff_imp.mpr fun hany => ?_
    obtain ⟨u, hu, hcode⟩ := List.any_eq_true.mp hany
    exact List.any_eq_true.mpr ⟨u, hu, (Bool.and_eq_true_iff.mp hcode).2⟩
  refine ⟨?_, ?_, ?_, ?_, ?_, ?_⟩
  · intro code
    rw [hhas, List.any_eq_true]
    simp only [beq_iff_eq]
  · exact find_decoded hdec
  · exact map_unknown ts
  · rw [hhas, hhas]
    change ((Tlv.locate isIntegrity 20 ts).map locationOf).isSome = true ↔ _
    rw [Option.isSome_map, Tlv.locate_isSome, List.any_eq_true, List.any_eq_true, List.any_eq_true, ← exists_or]
    apply exists_congr fun u => ?_
    rw [← and_or_left, isIntegrity, isIntegrityCode, decide_eq_true_iff, beq_iff_eq, beq_iff_eq]
  · rw [hhas]
    change ((Tlv.locate isFingerprint 20 ts).map Prod.fst).isSome = true ↔ _
    rw [Option.isSome_map, Tlv.locate_isSome]
    exact Iff.rfl
  · refine ⟨valueOf_reads (c := .fingerprint) hdec rfl (by decide) ?_, valueOf_reads (c := .username) hdec rfl (by decide) ?_,
      valueOf_reads (c := .realm) hdec rfl (by decide) ?_, valueOf_reads (c := .nonce) hdec rfl (by decide) ?_,
      valueOf_reads (c := .software) hdec rfl (by decide) ?_, valueOf_reads (c := .xorMappedAddress) hdec rfl (by decide) ?_,
      valueOf_reads (c := .xorRelayedAddress) hdec rfl (by decide) ?_, valueOf_reads (c := .errorCode) hdec rfl (by decide) ?_,
      valueOf_reads (c := .lifetime) hdec rfl (by decide) ?_, valueOf_reads (c := .data) hdec rfl (by decide) ?_,
      valueOf_reads (c := .channelNumber) hdec rfl (by decide) ?_, valueOf_reads (c := .icePriority) hdec rfl (by decide) ?_⟩
    all_goals
      intro a ha
      cases a
      all_goals first
        | exact ⟨_, rfl, rfl⟩
        | cases ha

/-- A Binding request from "a". -/
def usernameRequest : Bytes :=
  [0x00, 0x01, 0x00, 0x08, 0x21, 0x12, 0xA4, 0x42, 0, 0, 0, 0, 0, 0, 0, 0, 0, 0, 0, 0, 0x00, 0x06, 0x00, 0x01, 0x61, 0, 0, 0]

def usernameTlv : Tlv := ⟨0x0006, [0x61], [0, 0, 0], by decide, by decide⟩

theorem parse_usernameRequest : parse usernameRequest =
    .ok (messageOf .bindingRequest ⟨zeros 12, zeros_length 12⟩ usernameRequest [usernameTlv] [.username "a"]) := by decide +kernel

theorem usernameRequest_agrees : ∃ m, parse usernameRequest = .ok m ∧ Reads Message.username 0x0006 .username m [usernameTlv] :=
  ⟨_, parse_usernameRequest, (lookups_agree parse_usernameRequest rfl).2.2.2.2.2.2.1⟩

end QuickRelay.Protocol
