import QuickRelay.Protocol.Acceptance

/-! Trailers: the length-only walks find what the parser recorded, and what may
stand behind an integrity attribute. -/
namespace QuickRelay.Protocol
open Lib

/-! ### The walks -/

/-- On attributes to the end of the datagram, the walk is a search through them. -/
theorem walk_encodeAll (wanted : UInt16 → Nat → Bool) (pre : Bytes) (ts : List Tlv) :
    walk wanted (pre ++ Tlv.encodeAll ts) pre.length =
      (Tlv.locate (fun t => wanted t.code t.value.length) pre.length ts).map locationOf := by
  induction ts generalizing pre with
  | nil =>
    rw [walk, dif_neg (by simp)]
    rfl
  | cons t ts ih =>
    have h4 := t.four_le_encode_length
    have hlen := t.encode_length
    have hd : pre.length + 4 ≤ (pre ++ (t.encode ++ Tlv.encodeAll ts)).length := by simp; omega
    have hcode : u16FromBe (pre ++ (t.encode ++ Tlv.encodeAll ts))[pre.length]
        (pre ++ (t.encode ++ Tlv.encodeAll ts))[pre.length + 1] = t.code := by
      have h := readU16_of_lt (ε := Error) (b := pre ++ (t.encode ++ Tlv.encodeAll ts)) (i := pre.length) (by omega)
      rw [Tlv.readU16_code] at h
      exact (Outcome.ok.inj h).symm
    have hvl : (u16FromBe (pre ++ (t.encode ++ Tlv.encodeAll ts))[pre.length + 2]
        (pre ++ (t.encode ++ Tlv.encodeAll ts))[pre.length + 3]).toNat = t.value.length := by
      have h := readU16_of_lt (ε := Error) (b := pre ++ (t.encode ++ Tlv.encodeAll ts)) (i := pre.length + 2) (by omega)
      rw [Tlv.readU16_lengthField] at h
      rw [← Outcome.ok.inj h, t.lengthField]
    rw [Tlv.encodeAll_cons, walk, dif_pos hd]
    simp only [hcode, hvl]
    have hsize : attrSize t.value.length = t.encode.length := by rw [hlen]; rfl
    rw [hsize, if_neg (by simp)]
    by_cases hw : wanted t.code t.value.length
    · simp [hw, Tlv.locate, locationOf]
    · have := ih (pre ++ t.encode)
      rw [List.append_assoc, List.length_append] at this
      simp only [hw, Tlv.locate, this]
      rfl

theorem walkFrom_frame (wanted : UInt16 → Nat → Bool) {ty len : UInt16} {txid : TransactionId} {ts : List Tlv}
    (hlen : len.toNat = (Tlv.encodeAll ts).length) : walkFrom wanted (frame ty len txid (Tlv.encodeAll ts)) =
      (Tlv.locate (fun t => wanted t.code t.value.length) 20 ts).map locationOf := by
  have h20 : ¬ (frame ty len txid (Tlv.encodeAll ts)).length < 20 := by simp
  have hl : u16FromBe (frame ty len txid (Tlv.encodeAll ts))[2] (frame ty len txid (Tlv.encodeAll ts))[3] = len := by
    have := lengthField_frame ty len txid (Tlv.encodeAll ts)
    rwa [lengthField, List.getD_eq_getElem?_getD, List.getD_eq_getElem?_getD, List.getElem?_eq_getElem (by simp; omega),
      List.getElem?_eq_getElem (by simp; omega)] at this
  rw [walkFrom, dif_neg h20, hl, if_neg (by simp [hlen]; omega)]
  have := walk_encodeAll wanted (frame ty len txid []) ts
  rw [← frame_append] at this
  simpa using this

/-- The integrity walk and the parser find the same attribute. -/
theorem Accepts.integrity_walk {ty : UInt16} {txid : TransactionId} {ts : List Tlv}
    (hb : (Tlv.encodeAll ts).length < 65536) :
    Integrity.attributeOffset (frame ty (UInt16.ofNat (Tlv.encodeAll ts).length) txid (Tlv.encodeAll ts)) =
      (Tlv.locate isIntegrity 20 ts).map locationOf :=
  walkFrom_frame _ (by rw [UInt16.toNat_ofNat', Nat.mod_eq_of_lt hb])

/-- The fingerprint walk, which also asks for a four-octet value, finds the same
attribute as the parser, which has decoded every value. -/
theorem Accepts.fingerprint_walk {ty : UInt16} {txid : TransactionId} {ts : List Tlv} {attrs : List Attribute}
    (h : Accepts txid ts attrs) (hb : (Tlv.encodeAll ts).length < 65536) :
    Fingerprint.attributeOffset (frame ty (UInt16.ofNat (Tlv.encodeAll ts).length) txid (Tlv.encodeAll ts)) =
      (Tlv.locate isFingerprint 20 ts).map Prod.fst := by
  have hlen : (UInt16.ofNat (Tlv.encodeAll ts).length).toNat = (Tlv.encodeAll ts).length := by
    rw [UInt16.toNat_ofNat', Nat.mod_eq_of_lt hb]
  rw [Fingerprint.attributeOffset, walkFrom_frame _ hlen, Option.map_map]
  rw [Tlv.locate_congr (q := isFingerprint)]
  · rfl
  · intro t ht
    obtain ⟨a, -, ha⟩ := exists_of_forall₂ h.decoded ht
    by_cases hf : isFingerprint t
    · have hc : t.code = fingerprintCode := by simpa [isFingerprint, isFingerprintCode] using hf
      rw [hf, hc, fingerprint_value_length ha hf]
      rfl
    · have hc : t.code ≠ fingerprintCode := by simpa [isFingerprint, isFingerprintCode] using hf
      have hc' : t.code ≠ 0x8028 := hc
      simp [hf, hc']

/-! ### What follows an integrity attribute -/

/-- MESSAGE-INTEGRITY or MESSAGE-INTEGRITY-SHA256. -/
def isIntegrityAttribute (a : Attribute) : Bool :=
  attributeKind a = .known .messageIntegrity ∨ attributeKind a = .known .messageIntegritySha256

/-- Every attribute behind an integrity attribute is a trailer. -/
def TrailersOnly (attrs : List Attribute) : Prop :=
  ∀ pre a post, attrs = pre ++ a :: post → isIntegrityAttribute a → ∀ b ∈ post, isTrailerOnly (attributeKind b)

/-- The integrity attribute ends the datagram, or the FINGERPRINT starts where it
ends. -/
def IntegrityClosed (d : Bytes) : Prop :=
  ∀ loc, Integrity.attributeOffset d = some loc →
    loc.isLast d ∨ Fingerprint.attributeOffset d = some (loc.off + attrSize loc.valueLen)

private theorem attributeKind_iff {txid : TransactionId} {t : Tlv} {a : Attribute} (h : decode txid t = .ok a)
    {c : AttrCode} (hc : ∀ n, c ≠ .unknown n) (hi : c ≠ .icmp) : attributeKind a = .known c ↔ t.code = c.asU16 := by
  constructor
  · intro hk
    rw [← asU16_attributeKind h, hk]
    rfl
  · intro hk
    rw [attributeKind_eq h, hk, AttrCode.attrFromWire_asU16 hc, if_neg (by simpa using hi)]

theorem isIntegrityAttribute_eq {txid : TransactionId} {t : Tlv} {a : Attribute} (h : decode txid t = .ok a) :
    isIntegrityAttribute a = isIntegrity t := by
  have h1 := attributeKind_iff h (c := .messageIntegrity) (by simp) (by simp)
  have h2 := attributeKind_iff h (c := .messageIntegritySha256) (by simp) (by simp)
  rw [isIntegrityAttribute, decide_eq_decide.mpr (or_congr h1 h2)]
  rfl

private theorem isTrailerOnly_iff (k : AttributeKind) : isTrailerOnly k ↔
    (k = .known .messageIntegrity ∨ k = .known .messageIntegritySha256) ∨ k = .known .fingerprint := by
  rcases k with c | n
  · cases c <;> simp [isTrailerOnly]
  · simp [isTrailerOnly]

theorem isTrailerOnly_eq {txid : TransactionId} {t : Tlv} {a : Attribute} (h : decode txid t = .ok a) :
    isTrailerOnly (attributeKind a) ↔ isIntegrity t ∨ isFingerprint t := by
  have h3 := attributeKind_iff h (c := .fingerprint) (by simp) (by simp)
  rw [isTrailerOnly_iff, h3, ← isIntegrityAttribute_eq h, isIntegrityAttribute, isFingerprint, isFingerprintCode,
    decide_eq_true_iff, decide_eq_true_iff]
  rfl

/-- Splitting a decoded list splits the wire list at the same place. -/
private theorem forall₂_split {txid : TransactionId} {ts : List Tlv} {pre post : List Attribute} {a : Attribute}
    (h : List.Forall₂ (fun t a => decode txid t = .ok a) ts (pre ++ a :: post)) : ∃ tpre t tpost,
      ts = tpre ++ t :: tpost ∧ decode txid t = .ok a ∧ List.Forall₂ (fun t a => decode txid t = .ok a) tpost post := by
  induction pre generalizing ts with
  | nil =>
    cases h with
    | @cons t _ tpost _ ht hp => exact ⟨[], t, tpost, rfl, ht, hp⟩
  | cons b pre ih =>
    cases h with
    | @cons u _ ts' _ _ hp =>
      obtain ⟨tpre, t, tpost, rfl, ht, hpost⟩ := ih hp
      exact ⟨u :: tpre, t, tpost, rfl, ht, hpost⟩

private theorem forall₂_split' {txid : TransactionId} {tpre tpost : List Tlv} {t : Tlv} {attrs : List Attribute}
    (h : List.Forall₂ (fun t a => decode txid t = .ok a) (tpre ++ t :: tpost) attrs) : ∃ pre a post,
      attrs = pre ++ a :: post ∧ decode txid t = .ok a ∧ List.Forall₂ (fun t a => decode txid t = .ok a) tpost post := by
  induction tpre generalizing attrs with
  | nil =>
    cases h with
    | @cons _ a _ post ha hp => exact ⟨[], a, post, rfl, ha, hp⟩
  | cons u tpre ih =>
    cases h with
    | @cons _ b _ attrs' _ hp =>
      obtain ⟨pre, a, post, rfl, ha, hpost⟩ := ih hp
      exact ⟨b :: pre, a, post, rfl, ha, hpost⟩

private theorem exists_tlv {txid : TransactionId} {ts : List Tlv} {attrs : List Attribute}
    (h : List.Forall₂ (fun t a => decode txid t = .ok a) ts attrs) {a : Attribute} (ha : a ∈ attrs) :
    ∃ t ∈ ts, decode txid t = .ok a := by
  obtain ⟨pre, post, rfl⟩ := List.append_of_mem ha
  obtain ⟨tpre, t, tpost, rfl, ht, -⟩ := forall₂_split h
  exact ⟨t, by simp, ht⟩

/-- `TrailersOnly` on the wire list. -/
theorem trailersOnly_iff {txid : TransactionId} {ts : List Tlv} {attrs : List Attribute}
    (h : List.Forall₂ (fun t a => decode txid t = .ok a) ts attrs) : TrailersOnly attrs ↔
      ∀ pre t post, ts = pre ++ t :: post → isIntegrity t → ∀ u ∈ post, isIntegrity u ∨ isFingerprint u := by
  constructor
  · rintro hT pre t post rfl ht u hu
    obtain ⟨apre, a, apost, rfl, ha, hp⟩ := forall₂_split' h
    obtain ⟨b, hb, hub⟩ := exists_of_forall₂ hp hu
    exact (isTrailerOnly_eq hub).mp (hT apre a apost rfl (by rw [isIntegrityAttribute_eq ha, ht]) b hb)
  · rintro hT pre a post rfl ha b hb
    obtain ⟨tpre, t, tpost, rfl, ht, hp⟩ := forall₂_split h
    obtain ⟨u, hu, hub⟩ := exists_tlv hp hb
    exact (isTrailerOnly_eq hub).mpr (hT tpre t tpost rfl (by rwa [isIntegrityAttribute_eq ht] at ha) u hu)

/-- In an accepted datagram nothing but trailers stands behind the integrity
attribute exactly when that attribute ends the datagram or FINGERPRINT follows it
at once. -/
theorem trailersOnly_iff_integrityClosed (d : Bytes) (m : Message) (h : parse d = .ok m) :
    TrailersOnly m.attributes ↔ IntegrityClosed d := by
  obtain ⟨ty, mt, txid, ts, attrs, -, hb, rfl, hacc, rfl⟩ := parse_eq_ok.mp h
  rw [IntegrityClosed, Accepts.integrity_walk hb, hacc.fingerprint_walk hb]
  refine (trailersOnly_iff hacc.decoded).trans ?_
  have hsize : ∀ t : Tlv, attrSize t.value.length = t.encode.length := fun t => by rw [t.encode_length]; rfl
  constructor
  · intro hT loc hloc
    obtain ⟨⟨o, t⟩, hfind, rfl⟩ := Option.map_eq_some_iff.mp hloc
    obtain ⟨pre, post, rfl, hpre, ht, rfl⟩ := Tlv.locate_eq_some.mp hfind
    have hpost := hT pre t post rfl ht
    cases post with
    | nil =>
      left
      simp [AttributeLocation.isLast, locationOf, hsize]
      omega
    | cons u post =>
      right
      have hu : isFingerprint u := by
        -- a second integrity attribute would have been refused as a duplicate
        rcases hpost u (by simp) with hi | hf
        · have hcount := hacc.integrity
          rw [List.countP_append, List.countP_cons_of_pos ht, List.countP_cons_of_pos hi] at hcount
          omega
        · exact hf
      have happ : pre ++ t :: u :: post = (pre ++ [t]) ++ u :: post := by simp
      have hfp := hacc.fingerprint
      rw [happ] at hfp ⊢
      rw [Tlv.locate_eq_some.mpr ⟨pre ++ [t], post, rfl, Tlv.none_before hfp hu, hu, rfl⟩]
      simp [locationOf, hsize, Nat.add_assoc]
  · rintro hC pre t post rfl ht u hu
    have hfind : Tlv.locate isIntegrity 20 (pre ++ t :: post) = some (20 + (Tlv.encodeAll pre).length, t) :=
      Tlv.locate_eq_some.mpr ⟨pre, post, rfl, Tlv.none_before hacc.integrity ht, ht, rfl⟩
    rcases hC _ (by rw [hfind]; rfl) with hlast | hfp
    · have hl : 20 + (Tlv.encodeAll pre).length + t.encode.length = 20 + (Tlv.encodeAll (pre ++ t :: post)).length := by
        simpa [AttributeLocation.isLast, locationOf, hsize] using hlast
      rw [Tlv.encodeAll_append, Tlv.encodeAll_cons, List.length_append, List.length_append] at hl
      have h4 := Tlv.four_mul_length_le post
      have : post = [] := List.eq_nil_of_length_eq_zero (by omega)
      simp [this] at hu
    · obtain ⟨⟨o, f⟩, hfind, ho⟩ := Option.map_eq_some_iff.mp hfp
      obtain ⟨fpre, fpost, hts, -, hf, rfl⟩ := Tlv.locate_eq_some.mp hfind
      have hcut : (pre ++ [t]) ++ post = fpre ++ f :: fpost := by rw [← hts]; simp
      simp only [locationOf, hsize] at ho
      obtain ⟨-, rfl⟩ := Tlv.split_unique hcut (by simp; omega)
      obtain rfl := hacc.last fpre f fpost hts hf
      right
      rwa [List.mem_singleton.mp hu]

/-- A Binding request with MESSAGE-INTEGRITY alone. -/
def authenticatedRequest : Bytes :=
  [0x00, 0x01, 0x00, 0x18, 0x21, 0x12, 0xA4, 0x42, 0, 0, 0, 0, 0, 0, 0, 0, 0, 0, 0, 0, 0x00, 0x08, 0x00, 0x14] ++ zeros 20

/-- The same request with USERNAME behind the integrity attribute. -/
def appendedRequest : Bytes :=
  [0x00, 0x01, 0x00, 0x20, 0x21, 0x12, 0xA4, 0x42, 0, 0, 0, 0, 0, 0, 0, 0, 0, 0, 0, 0, 0x00, 0x08, 0x00, 0x14] ++
    zeros 20 ++ [0x00, 0x06, 0x00, 0x01, 0x61, 0, 0, 0]

theorem parse_authenticated : parse authenticatedRequest = .ok (messageOf .bindingRequest ⟨zeros 12, rfl⟩
    authenticatedRequest [⟨0x0008, zeros 20, [], by decide, by decide⟩] [.messageIntegrity ⟨zeros 20, rfl⟩]) := by
  decide +kernel

theorem authenticated_trailersOnly :
    ∃ m, parse authenticatedRequest = .ok m ∧ (TrailersOnly m.attributes ↔ IntegrityClosed authenticatedRequest) :=
  ⟨_, parse_authenticated, trailersOnly_iff_integrityClosed _ _ parse_authenticated⟩

/-- The parser accepts an attribute the HMAC does not cover. -/
theorem appended_username_accepted : ∃ m, parse appendedRequest = .ok m ∧ ¬ TrailersOnly m.attributes := by
  have h : (parse appendedRequest >>= fun m => .ok m.attributes) =
      .ok [.messageIntegrity ⟨zeros 20, rfl⟩, .username "a"] := by decide +kernel
  obtain ⟨m, hm, ha⟩ := Outcome.bind_eq_ok.mp h
  refine ⟨m, hm, fun hT => ?_⟩
  rw [Outcome.ok.inj ha] at hT
  have := hT [] _ [.username "a"] rfl (by decide) (.username "a") (by simp)
  cases this

end QuickRelay.Protocol
