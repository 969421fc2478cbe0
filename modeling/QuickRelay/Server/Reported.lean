import QuickRelay.Server.Comprehension

/-! The list of a 420: which codes of a request it names, and when it names each of them
once. -/
namespace QuickRelay.Server
open Lib Protocol
open Binding (SocketAddr ServerIdentity BindingResponsePlan)

/-! ### Registered codes -/

/-- The codes with a name. -/
def registered : List UInt16 :=
  [0x0001, 0x0003, 0x0006, 0x0008, 0x0009, 0x000A, 0x000C, 0x000D, 0x0012, 0x0013, 0x0014, 0x0015, 0x0016, 0x0017,
   0x0018, 0x0019, 0x001A, 0x001B, 0x001C, 0x001D, 0x001E, 0x0020, 0x0022, 0x0024, 0x0025, 0x0026, 0x0027, 0x002A,
   0x8000, 0x8001, 0x8002, 0x8003, 0x8004, 0x8022, 0x8023, 0x8028, 0x8029, 0x802A, 0x802C, 0x802E, 0x8038, 0x8039]

theorem mem_registered {code : UInt16} (h : AttrCode.attrFromWire code ≠ .unknown code) : code ∈ registered := by
  unfold AttrCode.attrFromWire at h
  split at h
  case h_43 => exact absurd rfl h
  all_goals decide

/-- A prefix names the members of a short enough list once each exactly if the list has no
repetition. -/
theorem take_nodup_iff {α : Type} {l r : List α} {n : Nat} (hs : l ⊆ r) (hr : r.length < n) :
    (l.take n).Nodup ∧ (∀ x, x ∈ l.take n ↔ x ∈ l) ↔ l.Nodup := by
  constructor
  · rintro ⟨hnodup, -⟩
    by_cases hl : l.length ≤ n
    · rwa [List.take_of_length_le hl] at hnodup
    · have hsub : l.take n ⊆ r := fun x hx => hs (List.mem_of_mem_take hx)
      have := hnodup.length_le_of_subset hsub
      rw [List.length_take] at this
      omega
  · intro h
    have hl := h.length_le_of_subset hs
    rw [List.take_of_length_le (by omega)]
    exact ⟨h, fun _ => Iff.rfl⟩

/-! ### The codes reported -/

/-- All attributes the server does not know and may not ignore are comprehension-required. -/
def RequiredOnly (m : Message) : Prop := ∀ a ∈ m.attributes, offends a → (attributeKind a).asU16 < 0x8000

instance (m : Message) : Decidable (RequiredOnly m) :=
  inferInstanceAs (Decidable (∀ a ∈ m.attributes, offends a → (attributeKind a).asU16 < 0x8000))

section
variable {d : Bytes} {m : Message}

theorem offending_registered (hm : parse d = .ok m) (hreq : RequiredOnly m) : offending m.attributes ⊆ registered := by
  obtain ⟨ty, t, txid, ts, attrs, -, -, -, hacc, rfl⟩ := parse_eq_ok.mp hm
  intro c hc
  obtain ⟨a, ha, rfl⟩ := List.mem_map.mp hc
  obtain ⟨ha, hoff⟩ := List.mem_filter.mp ha
  obtain ⟨t, ht, hdec⟩ := exists_wire hacc.decoded ha
  have hlt := hreq a ha hoff
  rw [asU16_attributeKind hdec] at hlt ⊢
  exact mem_registered fun hu => hacc.required t ht ⟨hu, hlt⟩

/-- Of the unregistered attributes none rejects the request. -/
theorem unknown_ignored (hm : parse d = .ok m) (hreq : RequiredOnly m) :
    ∀ u ∈ m.unknown, u.code ∈ Binding.notComprehensionRequired := by
  obtain ⟨ty, t, txid, ts, attrs, -, -, -, hacc, rfl⟩ := parse_eq_ok.mp hm
  intro u hu
  obtain ⟨t, ht, htu⟩ := List.mem_filterMap.mp hu
  rw [unknownOf] at htu
  split at htu
  case isFalse => cases htu
  rename_i hwire
  cases htu
  obtain ⟨a, ha, hdec⟩ := exists_of_forall₂ hacc.decoded ht
  by_contra hn
  have hknown : t.code ∉ bindingKnown := by
    intro hk
    simp only [bindingKnown, List.mem_cons, List.not_mem_nil, or_false] at hk
    rcases hk with hk | hk | hk | hk <;> rw [hk] at hwire <;> exact absurd hwire (by decide)
  have hoff : offends a := by
    rw [offends_eq hdec]
    simp only at hn
    simp [unlisted, hn, hknown]
  have hlt := hreq a ha hoff
  rw [asU16_attributeKind hdec] at hlt
  exact hacc.required t ht ⟨hwire, hlt⟩

/-- The 420 lists the first codes that fit the scratch array, with their repetitions. -/
theorem reported_requiredOnly (hm : parse d = .ok m) (hreq : RequiredOnly m) :
    reported m = (offending m.attributes).take scratchLen := by
  rw [reported, scanned, List.take_append, List.filter_append]
  have hleft : ((offending m.attributes).take scratchLen).filter
      (fun code => !Binding.notComprehensionRequired.contains code) = (offending m.attributes).take scratchLen :=
    List.filter_eq_self.mpr fun c hc => by rw [offending_ignored (List.mem_of_mem_take hc)]; rfl
  have hright : ((m.unknown.map UnknownAttribute.code).take (scratchLen - (offending m.attributes).length)).filter
      (fun code => !Binding.notComprehensionRequired.contains code) = [] := by
    refine List.filter_eq_nil_iff.mpr fun c hc => ?_
    obtain ⟨u, hu, rfl⟩ := List.mem_map.mp (List.mem_of_mem_take hc)
    simp [unknown_ignored hm hreq u hu]
  rw [hleft, hright, List.append_nil]

end

/-- The plan is a 420 whose list names every attribute that is neither known nor ignorable,
each code once, and nothing else. -/
structure NamesEach (m : Message) (plan : BindingResponsePlan) : Prop where
  outcome : plan.outcome = .error .unknownAttribute
  named : ∃ codes, plan.unknownAttributes = some codes ∧ codes.Nodup ∧ ∀ c, c ∈ codes ↔ c ∈ offending m.attributes

/-- **The 420 list**: it names each offending attribute once exactly if no two of them have one
code. -/
theorem namesEach_iff_nodup {d : Bytes} {m : Message} (hm : parse d = .ok m) (hreq : RequiredOnly m) (peer : SocketAddr)
    (source : Option ServerIdentity) (addresses : List ServerIdentity) :
    (offending m.attributes ≠ [] → NamesEach m (planForRequest m peer source addresses)) ↔
      (offending m.attributes).Nodup := by
  have hlist := take_nodup_iff (n := scratchLen) (offending_registered hm hreq) (by decide)
  by_cases hne : offending m.attributes = []
  · simp [hne]
  obtain ⟨c, hc⟩ := List.exists_mem_of_ne_nil _ hne
  have hplan := planForRequest_offending hc peer source addresses
  rw [reported_requiredOnly hm hreq] at hplan
  constructor
  · intro h
    obtain ⟨codes, hcodes, hnodup, hmem⟩ := (h hne).named
    rw [hplan] at hcodes
    cases hcodes
    exact hlist.mp ⟨hnodup, hmem⟩
  · intro hnodup _
    rw [hplan]
    exact ⟨rfl, _, rfl, hlist.mpr hnodup⟩

/-! ### Requests with attributes of TURN -/

theorem noValue_fits : ([] : Bytes).length < 65536 := Nat.zero_lt_succ 65535

theorem noValue_aligned : ([] : Bytes).length = padding ([] : Bytes).length := rfl

def emptyTlv (code : UInt16) : Tlv where
  code := code
  value := []
  pad := []
  value_lt := noValue_fits
  pad_length := noValue_aligned

/-- DONT-FRAGMENT and USE-CANDIDATE. -/
def turnTlvs : List Tlv := [emptyTlv 0x001A, emptyTlv 0x0025]

def turnMessage : Message :=
  messageOf .bindingRequest zeroTxid (requestOf zeroTxid turnTlvs) turnTlvs [.dontFragment, .useCandidate]

/-- A request of registered attributes without trailers parses if each of them decodes. -/
theorem parse_untrailed {txid : TransactionId} {ts : List Tlv} {attrs : List Attribute} (hl : (Tlv.encodeAll ts).length < 65536)
    (hlen : ts.length = attrs.length) (hdec : ∀ p ∈ ts.zip attrs, decode txid p.1 = .ok p.2)
    (hreq : ∀ t ∈ ts, ¬ UnregisteredRequired t.code) (hint : ∀ t ∈ ts, ¬ isIntegrity t) (hfp : ∀ t ∈ ts, ¬ isFingerprint t) :
    parse (requestOf txid ts) = .ok (messageOf .bindingRequest txid (requestOf txid ts) ts attrs) := by
  refine parse_eq_ok.mpr ⟨_, _, txid, ts, attrs, MessageType.fromBits_bits .bindingRequest (by decide), hl, rfl, ?_, rfl⟩
  constructor
  case decoded => exact List.forall₂_iff_zip.mpr ⟨hlen, fun hp => hdec _ hp⟩
  case required => exact hreq
  case integrity =>
    rw [List.countP_eq_zero.mpr hint]
    exact Nat.zero_le 1
  case fingerprint =>
    rw [List.countP_eq_zero.mpr hfp]
    exact Nat.zero_le 1
  case last =>
    rintro pre t post rfl hf
    exact absurd hf (hfp t (List.mem_append_right pre List.mem_cons_self))

theorem parse_turnMessage : parse (requestOf zeroTxid turnTlvs) = .ok turnMessage :=
  parse_untrailed (by decide) rfl (by decide) (by decide) (by decide) (by decide)

theorem turnMessage_named : NamesEach turnMessage (planForRequest turnMessage samplePeer (some sampleIdentity) [sampleIdentity]) :=
  (namesEach_iff_nodup parse_turnMessage (by decide) samplePeer (some sampleIdentity) [sampleIdentity]).mpr (by decide)
    (by decide)

/-- Sixty-four times DONT-FRAGMENT, then USE-CANDIDATE. -/
def crowdedTlvs : List Tlv := List.replicate 64 (emptyTlv 0x001A) ++ [emptyTlv 0x0025]

def crowdedMessage : Message :=
  messageOf .bindingRequest zeroTxid (requestOf zeroTxid crowdedTlvs) crowdedTlvs
    (List.replicate 64 .dontFragment ++ [.useCandidate])

theorem parse_crowdedMessage : parse (requestOf zeroTxid crowdedTlvs) = .ok crowdedMessage :=
  parse_untrailed (by decide +kernel) rfl (by decide) (by decide) (by decide) (by decide)

/-- The 420 names DONT-FRAGMENT sixty-four times, and USE-CANDIDATE not at all. -/
theorem crowded_not_named : ¬ ∀ (d : Bytes) (m : Message) (peer : SocketAddr) (source : Option ServerIdentity)
    (addresses : List ServerIdentity), parse d = .ok m → m.header.msgType = .bindingRequest → RequiredOnly m →
    offending m.attributes ≠ [] → NamesEach m (planForRequest m peer source addresses) := by
  intro h
  obtain ⟨codes, hcodes, -, hmem⟩ := (h _ crowdedMessage samplePeer (some sampleIdentity) [sampleIdentity]
    parse_crowdedMessage rfl (by decide) (by decide)).named
  have hlist : (planForRequest crowdedMessage samplePeer (some sampleIdentity) [sampleIdentity]).unknownAttributes =
      some (List.replicate 64 0x001A) := by decide +kernel
  rw [hlist] at hcodes
  cases hcodes
  exact absurd ((hmem 0x0025).mpr (by decide)) (by decide)

end QuickRelay.Server
