import QuickRelay.Lib.Interleave
import QuickRelay.Protocol.Acceptance
import QuickRelay.Server.Steps

/-! Attributes the server does not read: what it makes of comprehension-optional ones,
and of unregistered required ones. -/
namespace QuickRelay.Server
open Lib Protocol
open Binding (SocketAddr ServerIdentity BindingResponsePlan)

/-! ### Codes of a parsed message -/

/-- On neither of the server's lists. -/
def unlisted (code : UInt16) : Bool := !Binding.notComprehensionRequired.contains code && !bindingKnown.contains code

theorem offends_eq {txid : TransactionId} {t : Tlv} {a : Attribute} (h : decode txid t = .ok a) :
    offends a = unlisted t.code := by
  rw [offends, unlisted, asU16_attributeKind h]

theorem exists_wire {txid : TransactionId} {ts : List Tlv} {attrs : List Attribute}
    (h : List.Forall₂ (fun t a => decode txid t = .ok a) ts attrs) {a : Attribute} (ha : a ∈ attrs) :
    ∃ t ∈ ts, decode txid t = .ok a := by
  induction h with
  | nil => cases ha
  | @cons t b ts attrs ht _ ih =>
    rcases List.mem_cons.mp ha with rfl | ha
    · exact ⟨t, List.mem_cons_self, ht⟩
    · obtain ⟨u, hu, hdec⟩ := ih ha
      exact ⟨u, List.mem_cons_of_mem t hu, hdec⟩

/-- The unlisted codes of the list are what the scan finds first. -/
theorem mem_offending {txid : TransactionId} {ts : List Tlv} {attrs : List Attribute}
    (hd : List.Forall₂ (fun t a => decode txid t = .ok a) ts attrs) {t : Tlv} (ht : t ∈ ts) (hu : unlisted t.code) :
    t.code ∈ offending attrs := by
  obtain ⟨a, ha, hdec⟩ := exists_of_forall₂ hd ht
  rw [← asU16_attributeKind hdec]
  exact List.mem_map_of_mem (List.mem_filter.mpr ⟨ha, by rw [offends_eq hdec, hu]⟩)

theorem offending_ignored {attrs : List Attribute} {c : UInt16} (h : c ∈ offending attrs) :
    Binding.notComprehensionRequired.contains c = false := by
  obtain ⟨a, ha, rfl⟩ := List.mem_map.mp h
  have := (List.mem_filter.mp ha).2
  simp only [offends, Bool.and_eq_true, Bool.not_eq_true'] at this
  exact this.1

/-- The reply lists an unlisted code, or sixty-four others. -/
theorem reported_of_offending {m : Message} {c : UInt16} (h : c ∈ offending m.attributes) :
    c ∈ reported m ∨ (reported m).length = scratchLen := by
  by_cases hl : (offending m.attributes).length ≤ scratchLen
  · left
    refine List.mem_filter.mpr ⟨?_, by rw [offending_ignored h]; rfl⟩
    rw [scanned, List.take_append, List.take_of_length_le hl]
    exact List.mem_append_left _ h
  · right
    have hl' : scratchLen ≤ (offending m.attributes).length := Nat.le_of_not_le hl
    have hall : ∀ d ∈ (offending m.attributes).take scratchLen, (!Binding.notComprehensionRequired.contains d) = true :=
      fun d hd => by rw [offending_ignored (List.mem_of_mem_take hd)]; rfl
    rw [reported, scanned, List.take_append_of_le_length hl', List.filter_eq_self.mpr hall, List.length_take,
      Nat.min_eq_left hl']

/-- A plan for a message with an unlisted code. -/
theorem planForRequest_offending {m : Message} {c : UInt16} (h : c ∈ offending m.attributes) (peer : SocketAddr)
    (source : Option ServerIdentity) (addresses : List ServerIdentity) :
    planForRequest m peer source addresses = (BindingResponsePlan.error .unknownAttribute).withUnknownAttributes (reported m) := by
  have hne : reported m ≠ [] := by
    rcases reported_of_offending h with hm | hl
    · exact List.ne_nil_of_mem hm
    · intro he
      rw [he] at hl
      cases hl
  rw [planForRequest_eq, if_pos hne]

/-! ### Comprehension-optional attributes -/

/-- The datagram `d'` is `d` with the attributes `new` put into its list. -/
def Extends (d : Bytes) (new : List Tlv) (d' : Bytes) : Prop :=
  ∃ ty len len' txid ts ts', d = frame ty len txid (Tlv.encodeAll ts) ∧ d' = frame ty len' txid (Tlv.encodeAll ts') ∧
    Interleave ts new ts'

/-- A comprehension-optional code that the server does not read. -/
def Unread (code : UInt16) : Prop := 0x8000 ≤ code ∧ code ∉ bindingKnown

/-- The one optional code that the server keeps on its list of ignored ones. -/
def responseAddress : UInt16 := 0x8000

theorem Unread.unlisted {code : UInt16} (h : Unread code) (hr : code ≠ responseAddress) : unlisted code := by
  have hn : code ∉ Binding.notComprehensionRequired := by
    intro hm
    simp only [Binding.notComprehensionRequired, List.mem_cons, List.not_mem_nil, or_false] at hm
    rcases hm with rfl | rfl | rfl | rfl | rfl
    · exact absurd h.1 (by decide)
    · exact hr rfl
    all_goals exact absurd h.1 (by decide)
  simp [Server.unlisted, hn, h.2]

/-- What `parse` makes of a frame around a known list. -/
theorem parse_frame_ok {ty len : UInt16} {txid : TransactionId} {ts : List Tlv} {m : Message}
    (h : parse (frame ty len txid (Tlv.encodeAll ts)) = .ok m) :
    List.Forall₂ (fun t a => decode txid t = .ok a) ts m.attributes ∧ m.unknown = ts.filterMap unknownOf ∧
      ∀ t ∈ ts, ¬ UnregisteredRequired t.code := by
  obtain ⟨ty', t, txid', us, attrs, -, -, hd, hacc, rfl⟩ := parse_eq_ok.mp h
  have hbody := congrArg (List.drop 20) hd
  rw [frame_drop_header, frame_drop_header] at hbody
  obtain rfl := Tlv.encodeAll_inj hbody
  have htx : txid = txid' := by
    rw [← txidField_frame ty len txid (Tlv.encodeAll ts) (by simp)]
    simp only [hd, txidField_frame]
  rw [htx]
  exact ⟨hacc.decoded, rfl, hacc.required⟩

theorem extends_parsed {d d' : Bytes} {new : List Tlv} {m m' : Message} (h : Extends d new d') (hm : parse d = .ok m)
    (hm' : parse d' = .ok m') : ∃ txid attrs, List.Forall₂ (fun t a => decode txid t = .ok a) new attrs ∧
      Interleave m.attributes attrs m'.attributes ∧ ∃ ts ts', Interleave ts new ts' ∧
      List.Forall₂ (fun t a => decode txid t = .ok a) ts' m'.attributes ∧
      m.unknown = ts.filterMap unknownOf ∧ m'.unknown = ts'.filterMap unknownOf := by
  obtain ⟨ty, len, len', txid, ts, ts', rfl, rfl, hi⟩ := h
  obtain ⟨hd, hu, -⟩ := parse_frame_ok hm
  obtain ⟨hd', hu', -⟩ := parse_frame_ok hm'
  obtain ⟨attrs, hnew, hattrs⟩ := hi.forall₂ (fun t a b ha hb => Outcome.ok.inj (ha.symm.trans hb)) hd hd'
  exact ⟨txid, attrs, hnew, hattrs, ts, ts', hi, hd', hu, hu'⟩

/-- Attributes under codes that neither the facts nor the scan look at leave the facts
alone. -/
theorem factsOf_extends {d d' : Bytes} {new : List Tlv} {m m' : Message} (h : Extends d new d') (hm : parse d = .ok m)
    (hm' : parse d' = .ok m') (hnew : ∀ t ∈ new, t.code = responseAddress) (peer : SocketAddr) :
    factsOf m' peer = factsOf m peer := by
  obtain ⟨txid, attrs, hd, hattrs, ts, ts', hts, -, hu, hu'⟩ := extends_parsed h hm hm'
  have hcode : ∀ a ∈ attrs, (attributeKind a).asU16 = responseAddress := by
    intro a ha
    obtain ⟨t, ht, hdec⟩ := exists_wire hd ha
    rw [asU16_attributeKind hdec, hnew t ht]
  have hfind : ∀ code, code ≠ responseAddress → m'.find code = m.find code := by
    intro code hne
    refine hattrs.find?_eq fun a ha => ?_
    rw [hcode a ha]
    exact beq_eq_false_iff_ne.mpr hne.symm
  have hunknown : m'.unknown = m.unknown := by
    rw [hu, hu']
    refine hts.filterMap_eq fun t ht => ?_
    rw [unknownOf, hnew t ht]
    rfl
  have hoff : offending m'.attributes = offending m.attributes := by
    refine congrArg (List.map _) (hattrs.filter_eq fun a ha => ?_)
    rw [offends, hcode a ha]
    rfl
  have hscan : unknownAttributeCodes m' = unknownAttributeCodes m := by
    rw [unknownAttributeCodes_eq, unknownAttributeCodes_eq, scanned, scanned, hoff, hunknown]
  simp only [factsOf, extractChangeRequest, extractIce, extractOtherAddress, hscan]
  rw [hfind AttrCode.changeRequest.asU16 (by decide), hfind AttrCode.iceControlled.asU16 (by decide),
    hfind AttrCode.iceControlling.asU16 (by decide), hfind AttrCode.icePriority.asU16 (by decide),
    hfind AttrCode.otherAddress.asU16 (by decide), hfind AttrCode.software.asU16 (by decide)]

/-- Comprehension-optional attributes the server does not read: RESPONSE-ADDRESS changes
nothing, every other one makes the answer a 420 that lists its code or sixty-four
others. -/
theorem unread_attributes {d d' : Bytes} {new : List Tlv} {m m' : Message} (h : Extends d new d')
    (hnew : ∀ t ∈ new, Unread t.code) (hm : parse d = .ok m) (hm' : parse d' = .ok m') (peer : SocketAddr)
    (source : Option ServerIdentity) (addresses : List ServerIdentity) :
    ((∀ t ∈ new, t.code = responseAddress) →
      planForRequest m' peer source addresses = planForRequest m peer source addresses) ∧
    ∀ t ∈ new, t.code ≠ responseAddress →
      (planForRequest m' peer source addresses).outcome = .error .unknownAttribute ∧
      ∃ codes, (planForRequest m' peer source addresses).unknownAttributes = some codes ∧
        (t.code ∈ codes ∨ codes.length = scratchLen) := by
  constructor
  · intro hall
    rw [planForRequest, planForRequest, factsOf_extends h hm hm' hall]
  · intro t ht hne
    obtain ⟨txid, attrs, -, -, ts, ts', hts, hd', -, -⟩ := extends_parsed h hm hm'
    have hoff := mem_offending hd' (hts.mem_right ht) ((hnew t ht).unlisted hne)
    rw [planForRequest_offending hoff]
    exact ⟨rfl, reported m', rfl, reported_of_offending hoff⟩

def zeroFingerprint : Tlv where
  code := fingerprintCode
  value := zeros 4
  pad := []
  value_lt := by decide
  pad_length := rfl

/-- The same request with a FINGERPRINT. -/
def fingerprintedRequest : Bytes := frame 0x0001 8 zeroTxid (Tlv.encodeAll [zeroFingerprint])

def fingerprintedMessage : Message :=
  messageOf .bindingRequest zeroTxid fingerprintedRequest [zeroFingerprint] [.fingerprint 0]

theorem parse_fingerprintedRequest : parse fingerprintedRequest = .ok fingerprintedMessage := by decide +kernel

theorem fingerprinted_extends : Extends plainRequest [zeroFingerprint] fingerprintedRequest :=
  ⟨_, _, _, _, [], [zeroFingerprint], rfl, rfl, .right zeroFingerprint .nil⟩

theorem fingerprint_unread : ∀ t ∈ [zeroFingerprint], Unread t.code := by
  intro t ht
  rw [List.mem_singleton.mp ht]
  exact ⟨by decide, by decide⟩

theorem fingerprint_answered :
    (planForRequest fingerprintedMessage samplePeer (some sampleIdentity) [sampleIdentity]).outcome =
      .error .unknownAttribute :=
  ((unread_attributes fingerprinted_extends fingerprint_unread parse_plainRequest parse_fingerprintedRequest samplePeer
    (some sampleIdentity) [sampleIdentity]).2 zeroFingerprint List.mem_cons_self (by decide)).1

theorem fingerprint_rejected : ¬ ∀ (d d' : Bytes) (new : List Tlv) (m m' : Message) (peer : SocketAddr)
    (source : Option ServerIdentity) (addresses : List ServerIdentity), Extends d new d' → (∀ t ∈ new, Unread t.code) →
    parse d = .ok m → parse d' = .ok m' → m.header.msgType = .bindingRequest →
    planForRequest m' peer source addresses = planForRequest m peer source addresses := by
  intro h
  have hsame := h _ _ _ _ _ samplePeer (some sampleIdentity) [sampleIdentity] fingerprinted_extends fingerprint_unread
    parse_plainRequest parse_fingerprintedRequest rfl
  exact absurd hsame (by decide +kernel)

/-! ### Unregistered required attributes -/

/-- Every value decodes and the trailers are where they belong. -/
structure WellFramed (txid : TransactionId) (ts : List Tlv) : Prop where
  decodes : ∀ t ∈ ts, ∃ a, decode txid t = .ok a
  integrity : ts.countP isIntegrity ≤ 1
  fingerprint : ts.countP isFingerprint ≤ 1
  last : ∀ pre t post, ts = pre ++ t :: post → isFingerprint t → post = []

/-- The Binding request around a list of attributes. -/
def requestOf (txid : TransactionId) (ts : List Tlv) : Bytes :=
  frame MessageType.bindingRequest.bits (UInt16.ofNat (Tlv.encodeAll ts).length) txid (Tlv.encodeAll ts)

/-- The one datagram sent is a Binding error to the peer: error 420, and a list that
names every unregistered required attribute of the request. -/
def Answers420 (peer : SocketAddr) (txid : TransactionId) (ts : List Tlv) (sent : List Sent) : Prop :=
  ∃ out m e codes, sent = [⟨peer, out⟩] ∧ parse out = .ok m ∧ m.header.msgType = .bindingError ∧ m.txid = txid ∧
    m.find AttrCode.errorCode.asU16 = some (.errorCode e) ∧ e.asU16 = 420 ∧
    m.find AttrCode.unknownAttributes.asU16 = some (.unknownAttributes codes) ∧
    ∀ t ∈ ts, UnregisteredRequired t.code → t.code ∈ codes

theorem requestOf_ne_panic {txid : TransactionId} {ts : List Tlv} (hl : (Tlv.encodeAll ts).length < 65536)
    (hw : WellFramed txid ts) : parse (requestOf txid ts) ≠ .panic := by
  intro hp
  have hlen : (UInt16.ofNat (Tlv.encodeAll ts).length).toNat = (Tlv.encodeAll ts ++ []).length := by
    rw [UInt16.toNat_ofNat', Nat.mod_eq_of_lt hl, List.append_nil]
  have hfold : takeAll txid .init ts = .panic := by
    rw [← parse_frame_eq_panic (MessageType.fromBits_bits .bindingRequest (by decide)) (.inl rfl) hlen, List.append_nil]
    exact hp
  obtain ⟨pre, t, post, s, rfl, -, hc, hv⟩ := takeAll_eq_panic.mp hfold
  obtain ⟨a, ha⟩ := hw.decodes t (by simp)
  rw [decode, parseAttributeValue_eq_panic.mpr ⟨hc, hv⟩] at ha
  cases ha

/-- Such a request does not parse, wherever the attribute stands. -/
theorem parse_required {txid : TransactionId} {ts : List Tlv} (hl : (Tlv.encodeAll ts).length < 65536)
    (hw : WellFramed txid ts) (hu : ∃ t ∈ ts, UnregisteredRequired t.code) : ∃ e, parse (requestOf txid ts) = .err e := by
  cases hp : parse (requestOf txid ts) with
  | err e => exact ⟨e, rfl⟩
  | ok m =>
    obtain ⟨t, ht, hreq⟩ := hu
    exact absurd hreq ((parse_frame_ok hp).2.2 t ht)
  | panic => exact absurd hp (requestOf_ne_panic hl hw)

variable (crypto : Crypto)

theorem onStun_unparsed (h : BindingHandler) (env : Env) {datagram : Bytes} {e : Error} (hp : parse datagram = .err e)
    (src : Bytes) : h.onStun crypto env datagram src = .ok (h, []) := by
  rw [BindingHandler.onStun, hp]

/-- A well-framed Binding request with an unregistered required attribute is dropped:
no handler in any state answers it with the 420. -/
theorem required_dropped {txid : TransactionId} {ts : List Tlv} (hl : (Tlv.encodeAll ts).length < 65536)
    (hw : WellFramed txid ts) (hu : ∃ t ∈ ts, UnregisteredRequired t.code) (h : BindingHandler) (env : Env) (src : Bytes)
    (peer : SocketAddr) : ¬ ∃ h' sent, h.onStun crypto env (requestOf txid ts) src = .ok (h', sent) ∧
      Answers420 peer txid ts sent := by
  obtain ⟨e, he⟩ := parse_required hl hw hu
  rintro ⟨h', sent, hs, out, m, c, codes, rfl, -⟩
  rw [onStun_unparsed crypto h env he] at hs
  cases hs

/-- An attribute no registry assigns. -/
def unassignedTlv : Tlv where
  code := 0x7F00
  value := []
  pad := []
  value_lt := Nat.zero_lt_succ 65535
  pad_length := rfl

theorem unassigned_framed : WellFramed zeroTxid [unassignedTlv] where
  decodes t ht := ⟨.unknown 0x7F00 [], by rw [List.mem_singleton.mp ht]; rfl⟩
  integrity := by decide
  fingerprint := by decide
  last pre t post h hf := by
    have ht : t ∈ [unassignedTlv] := h ▸ List.mem_append_right pre List.mem_cons_self
    rw [List.mem_singleton.mp ht] at hf
    exact absurd hf (by decide)

theorem unassigned_required : ∃ t ∈ [unassignedTlv], UnregisteredRequired t.code :=
  ⟨unassignedTlv, List.mem_cons_self, by decide⟩

theorem unassigned_dropped :
    ¬ ∃ h' sent, sampleHandler.onStun signedResponseCrypto sampleEnv (requestOf zeroTxid [unassignedTlv])
        samplePeerOctets = .ok (h', sent) ∧ Answers420 samplePeer zeroTxid [unassignedTlv] sent :=
  required_dropped signedResponseCrypto (by decide) unassigned_framed unassigned_required sampleHandler sampleEnv
    samplePeerOctets samplePeer

theorem unassigned_unanswered : ¬ ∀ (crypto : Crypto) (h : BindingHandler) (env : Env) (txid : TransactionId)
    (ts : List Tlv) (src : Bytes) (peer : SocketAddr), (Tlv.encodeAll ts).length < 65536 → WellFramed txid ts →
    (∃ t ∈ ts, UnregisteredRequired t.code) → parsePeerAddr src = some peer → h.udpIdentity.isSome → Live h env →
    env.sendOk → (h.transactions.lookup env.lookupAt ⟨peer, txid, none⟩).1 = none →
    ∃ h' sent, h.onStun crypto env (requestOf txid ts) src = .ok (h', sent) ∧ Answers420 peer txid ts sent := by
  intro hall
  obtain ⟨h', sent, hs, out, m, e, codes, rfl, -⟩ := hall signedResponseCrypto sampleHandler sampleEnv zeroTxid
    [unassignedTlv] samplePeerOctets samplePeer (by decide) unassigned_framed unassigned_required rfl rfl rfl rfl rfl
  obtain ⟨e, he⟩ := parse_required (by decide) unassigned_framed unassigned_required
  rw [onStun_unparsed signedResponseCrypto sampleHandler sampleEnv he] at hs
  cases hs

end QuickRelay.Server
