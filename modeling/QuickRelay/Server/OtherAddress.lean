import QuickRelay.Binding.OtherAddress
import QuickRelay.Server.Chain

/-! The two decoders of OTHER-ADDRESS side by side: the decision's own wants the length of the
family exactly, the codec's takes any value that is long enough. -/
namespace QuickRelay.Server
open Lib Protocol

/-- The parsed value as the decision carries it, field for field. -/
def carried (addr : MappedAddress) : Binding.OtherAddress := ⟨ipFamily addr.family, addr.port, addr.ip⟩

theorem ipFamily_octets (f : AddressFamily) : (ipFamily f).octets = f.addressOctets := by
  cases f <;> rfl

theorem ipFamily_code (f : AddressFamily) : (ipFamily f).code = f.toOctet := by
  cases f <;> rfl

theorem carried_surjective (o : Binding.OtherAddress) : ∃ addr, carried addr = o := by
  obtain ⟨f, p, a⟩ := o
  cases f
  · exact ⟨⟨.ipv4, a, p⟩, rfl⟩
  · exact ⟨⟨.ipv6, a, p⟩, rfl⟩

theorem carried_padded (addr : MappedAddress) : (carried addr).Padded ↔ addr.Padded := by
  simp only [Binding.OtherAddress.Padded, MappedAddress.Padded, carried, ipFamily_octets]

/-- Both encoders store one value. -/
theorem toValue_carried (addr : MappedAddress) :
    Binding.otherAddressToValue (carried addr) = mappedValue addr.family addr.port addr.octets := by
  simp only [Binding.otherAddressToValue, carried, mappedValue, MappedAddress.octets, ipFamily_octets, ipFamily_code]

/-- The codec's decoder takes a value and whatever follows it. -/
theorem parse_otherAddress {v : Bytes} {txid : Octets 12} {addr : MappedAddress} :
    parseAttributeValue (.known .otherAddress) v txid = .ok (.otherAddress addr) ↔
      (carried addr).Padded ∧ ∃ rest, v = Binding.otherAddressToValue (carried addr) ++ rest := by
  have hmap : parseAttributeValue (.known .otherAddress) v txid = .ok (.otherAddress addr) ↔
      MappedAddress.readValue v = .ok addr := by
    simp only [parseAttributeValue, Outcome.map_eq_ok, Attribute.otherAddress.injEq, exists_eq_right]
  rw [hmap, carried_padded, toValue_carried]
  constructor
  · intro h
    refine ⟨MappedAddress.padded_of_readValue h, ?_⟩
    rcases readMapped_cases v with ⟨e, he⟩ | ⟨f, p, ip, rest, hl, rfl, hr⟩
    · simp [MappedAddress.readValue, he] at h
    · refine ⟨rest, ?_⟩
      rw [MappedAddress.readValue_of_mapped hl hr] at h
      cases h
      simp only [MappedAddress.octets, ipPad, ← hl, List.take_left]
  · rintro ⟨hpad, rest, rfl⟩
    exact MappedAddress.readValue_append hpad rest

/-- The two decoders agree on a value, and both encoders give it back. -/
structure DecodersAgree (v : Bytes) (txid : Octets 12) : Prop where
  accept : (∃ o, Binding.otherAddressFromValue v = .ok o) ↔
    ∃ addr, parseAttributeValue (.known .otherAddress) v txid = .ok (.otherAddress addr)
  fields : ∀ o addr, Binding.otherAddressFromValue v = .ok o →
    parseAttributeValue (.known .otherAddress) v txid = .ok (.otherAddress addr) →
    ipFamily addr.family = o.family ∧ addr.port = o.port ∧ addr.ip = o.address
  encode : ∀ o, Binding.otherAddressFromValue v = .ok o → Binding.otherAddressToValue o = v
  write : ∀ addr, parseAttributeValue (.known .otherAddress) v txid = .ok (.otherAddress addr) →
    addr.writeValue.Writes (.new .valueTooLong) v

/-- A zero octet and a family code in front of more octets than an address of that family has. -/
def Overlong (v : Bytes) : Prop :=
  v[0]? = some 0 ∧ (v[1]? = some 0x01 ∧ 8 < v.length ∨ v[1]? = some 0x02 ∧ 20 < v.length)

theorem overlong_iff_code {v : Bytes} : Overlong v ↔
    ∃ f : Binding.IpFamily, v[0]? = some 0 ∧ v[1]? = some f.code ∧ 4 + f.octets < v.length := by
  constructor
  · rintro ⟨h0, ⟨h1, hl⟩ | ⟨h1, hl⟩⟩
    · exact ⟨.v4, h0, h1, hl⟩
    · exact ⟨.v6, h0, h1, hl⟩
  · rintro ⟨f, h0, h1, hl⟩
    cases f with
    | v4 => exact ⟨h0, .inl ⟨h1, hl⟩⟩
    | v6 => exact ⟨h0, .inr ⟨h1, hl⟩⟩

/-- An overlong value is a value with something behind it. -/
theorem overlong_iff {v : Bytes} : Overlong v ↔
    ∃ addr : MappedAddress, ∃ rest, (carried addr).Padded ∧ rest ≠ [] ∧
      v = Binding.otherAddressToValue (carried addr) ++ rest := by
  rw [overlong_iff_code]
  constructor
  · rintro ⟨f, h0, h1, hl⟩
    obtain ⟨x0, x1, x2, x3, body, rfl⟩ := exists_four (b := v) (by omega)
    simp only [List.length_cons] at hl
    cases h0
    cases h1
    have hb : (body.take f.octets).length = f.octets := by
      rw [List.length_take]
      omega
    obtain ⟨addr, haddr⟩ := carried_surjective (.pad f (u16FromBe x2 x3) _ hb)
    refine ⟨addr, body.drop f.octets, haddr ▸ Binding.OtherAddress.padded_pad hb, ?_, ?_⟩
    · intro hd
      have := congrArg List.length hd
      rw [List.length_drop, List.length_nil] at this
      omega
    · rw [haddr, Binding.OtherAddress.toValue_pad, u16ToBe_fromBe]
      simp
  · rintro ⟨addr, rest, -, hrest, rfl⟩
    refine ⟨(carried addr).family, rfl, rfl, ?_⟩
    rw [List.length_append, Binding.OtherAddress.toValue_length]
    have := List.length_pos_iff.mpr hrest
    omega

/-- **OTHER-ADDRESS**: the two decoders agree on every value but an overlong one. -/
theorem decodersAgree_iff (v : Bytes) (txid : Octets 12) : DecodersAgree v txid ↔ ¬ Overlong v := by
  rw [overlong_iff]
  constructor
  · rintro h ⟨addr, rest, hpad, hrest, rfl⟩
    have haddr : parseAttributeValue (.known .otherAddress) _ txid = .ok (.otherAddress addr) :=
      parse_otherAddress.mpr ⟨hpad, rest, rfl⟩
    obtain ⟨o, ho⟩ := h.accept.mpr ⟨addr, haddr⟩
    obtain ⟨hf, hp, hip⟩ := h.fields o addr ho haddr
    have hcarried : carried addr = o := by
      rw [carried, hf, hp, hip]
    have hv := h.encode o ho
    rw [hcarried] at hv
    exact hrest (List.append_right_eq_self.mp hv.symm)
  · intro hlong
    -- what the codec's decoder takes has nothing behind it
    have hexact : ∀ addr, parseAttributeValue (.known .otherAddress) v txid = .ok (.otherAddress addr) →
        (carried addr).Padded ∧ v = Binding.otherAddressToValue (carried addr) := by
      intro addr h
      obtain ⟨hpad, rest, hv⟩ := parse_otherAddress.mp h
      by_cases hrest : rest = []
      · exact ⟨hpad, by rw [hv, hrest, List.append_nil]⟩
      · exact absurd ⟨addr, rest, hpad, hrest, hv⟩ hlong
    constructor
    case accept =>
      constructor
      · rintro ⟨o, ho⟩
        obtain ⟨addr, rfl⟩ := carried_surjective o
        obtain ⟨hpad, hv⟩ := Binding.otherAddressFromValue_eq_ok.mp ho
        exact ⟨addr, parse_otherAddress.mpr ⟨hpad, [], by rw [hv, List.append_nil]⟩⟩
      · rintro ⟨addr, h⟩
        exact ⟨carried addr, Binding.otherAddressFromValue_eq_ok.mpr (hexact addr h)⟩
    case fields =>
      intro o addr ho h
      have hok := Binding.otherAddressFromValue_eq_ok.mpr (hexact addr h)
      rw [ho] at hok
      cases hok
      exact ⟨rfl, rfl, rfl⟩
    case encode => exact fun o ho => (Binding.otherAddressFromValue_eq_ok.mp ho).2.symm
    case write =>
      intro addr h
      rw [(hexact addr h).2, toValue_carried]
      exact addr.writeValue_writes

/-- An IPv4 value with one octet behind it is an address to the codec only. -/
theorem trailing_octet_disagrees :
    Binding.otherAddressFromValue [0x00, 0x01, 0xC3, 0x50, 10, 0, 0, 7, 0] = .err () ∧
    (∃ addr, parseAttributeValue (.known .otherAddress) [0x00, 0x01, 0xC3, 0x50, 10, 0, 0, 7, 0] ⟨zeros 12, rfl⟩ =
      .ok (.otherAddress addr)) ∧
    ¬ ∀ (v : Bytes) (txid : Octets 12), DecodersAgree v txid := by
  have hother : Binding.otherAddressFromValue [0x00, 0x01, 0xC3, 0x50, 10, 0, 0, 7, 0] = .err () := rfl
  have haddr : ∃ addr, parseAttributeValue (.known .otherAddress) [0x00, 0x01, 0xC3, 0x50, 10, 0, 0, 7, 0]
      ⟨zeros 12, rfl⟩ = .ok (.otherAddress addr) := ⟨_, rfl⟩
  refine ⟨hother, haddr, fun hall => ?_⟩
  obtain ⟨o, ho⟩ := (hall _ _).accept.mpr haddr
  rw [hother] at ho
  cases ho

end QuickRelay.Server
