import QuickRelay.Protocol.Grammar

/-! What `parse` accepts, field by field, and the datagrams on which it panics. -/
namespace QuickRelay.Protocol
open Lib

/-! ### Acceptance -/

/-- The wire grammar of a datagram: header, tiling and the rules on its attributes. -/
def WellFormed (d : Bytes) : Prop :=
  ∃ h : 20 ≤ d.length, (d.drop 4).take 4 = magicCookieOctets ∧ typeField d &&& 0xC000 = 0 ∧
    (lengthField d).toNat = d.length - 20 ∧
    ∃ ts attrs, d.drop 20 = Tlv.encodeAll ts ∧ Accepts (txidField d h) ts attrs

@[simp] theorem typeField_frame (ty len : UInt16) (txid : TransactionId) (body : Bytes) :
    typeField (frame ty len txid body) = ty := by
  obtain ⟨a, b, hab, rfl⟩ := u16ToBe_eq ty
  simp [typeField, frame, hab]

@[simp] theorem lengthField_frame (ty len : UInt16) (txid : TransactionId) (body : Bytes) :
    lengthField (frame ty len txid body) = len := by
  obtain ⟨a, b, hab, -⟩ := u16ToBe_eq ty
  obtain ⟨c, e, hce, rfl⟩ := u16ToBe_eq len
  simp [lengthField, frame, hab, hce]

theorem frame_drop_four (ty len : UInt16) (txid : TransactionId) (body : Bytes) :
    (frame ty len txid body).drop 4 = magicCookieOctets ++ (txid.val ++ body) := by
  have hc : u32ToBe magicCookie = magicCookieOctets := by decide
  rw [frame, hc, ← List.append_assoc]
  exact List.drop_left' (by simp)

@[simp] theorem txidField_frame (ty len : UInt16) (txid : TransactionId) (body : Bytes) (h) :
    txidField (frame ty len txid body) h = txid := by
  apply Subtype.ext
  have h8 : (frame ty len txid body).drop 8 = txid.val ++ body := by
    have : (8 : Nat) = 4 + 4 := rfl
    rw [this, ← List.drop_drop, frame_drop_four]
    rfl
  simp only [txidField, h8]
  exact List.take_left' txid.property

@[simp] theorem frame_drop_header (ty len : UInt16) (txid : TransactionId) (body : Bytes) :
    (frame ty len txid body).drop 20 = body := by
  rw [frame, ← List.append_assoc, ← List.append_assoc, ← List.append_assoc]
  exact List.drop_left' (by simp [txid.property])

/-- `parse` accepts exactly the well-formed datagrams. -/
theorem parse_ok_iff {d : Bytes} : (∃ m, parse d = .ok m) ↔ WellFormed d := by
  constructor
  · rintro ⟨m, hm⟩
    obtain ⟨ty, t, txid, ts, attrs, ht, hb, rfl, hacc, -⟩ := parse_eq_ok.mp hm
    refine ⟨by simp, ?_, ?_, ?_, ts, attrs, by simp, by simpa using hacc⟩
    · rw [frame_drop_four]; rfl
    · rw [typeField_frame]
      exact (MessageType.fromBits_isSome_iff ty).mp ⟨t, ht⟩
    · rw [lengthField_frame, UInt16.toNat_ofNat', Nat.mod_eq_of_lt hb, frame_length, Nat.add_sub_cancel_left]
  · rintro ⟨h20, hc, hty, hlen, ts, attrs, hts, hacc⟩
    obtain ⟨t, ht⟩ := (MessageType.fromBits_isSome_iff _).mpr hty
    have hl : d.length - 20 = (Tlv.encodeAll ts).length := by rw [← hts, List.length_drop]
    have hb : (Tlv.encodeAll ts).length < 65536 := by
      rw [← hl, ← hlen]; exact UInt16.toNat_lt _
    have hlf : lengthField d = UInt16.ofNat (Tlv.encodeAll ts).length := by
      rw [← hl, ← hlen, UInt16.ofNat_toNat]
    have hd := eq_frame h20 hc
    rw [hlf, hts] at hd
    exact ⟨_, parse_eq_ok.mpr ⟨_, t, _, ts, attrs, ht, hb, hd, hacc, rfl⟩⟩

/-- The message then holds the decoded list in wire order, and its unregistered members in
order. -/
theorem parse_accepts (d : Bytes) :
    ((∃ m, parse d = .ok m) ↔ WellFormed d) ∧
    ∀ m, parse d = .ok m → m.txid.val = (d.drop 8).take 12 ∧ ∀ ts, d.drop 20 = Tlv.encodeAll ts →
      List.Forall₂ (fun t a => decode m.txid t = .ok a) ts m.attributes ∧ m.unknown = ts.filterMap unknownOf := by
  refine ⟨parse_ok_iff, ?_⟩
  intro m hm
  obtain ⟨ty, t, txid, us, attrs, ht, hb, rfl, hacc, rfl⟩ := parse_eq_ok.mp hm
  have htx := congrArg Subtype.val (txidField_frame ty (UInt16.ofNat (Tlv.encodeAll us).length) txid
    (Tlv.encodeAll us) (by simp))
  refine ⟨htx.symm, fun ts hts => ?_⟩
  rw [frame_drop_header] at hts
  obtain rfl := Tlv.encodeAll_inj hts
  exact ⟨hacc.decoded, rfl⟩

/-! ### Panics -/

theorem takeAll_append {txid : TransactionId} {s : ParseState} {ts us : List Tlv} :
    takeAll txid s (ts ++ us) = takeAll txid s ts >>= fun s' => takeAll txid s' us := by
  induction ts generalizing s with
  | nil => rfl
  | cons t ts ih => simp only [List.cons_append, takeAll, bind_assoc, ih]

private theorem noteKind_ne_panic (s : ParseState) (code : UInt16) (value : Bytes) : noteKind s code value ≠ .panic := by
  unfold noteKind
  cases hk : AttrCode.attrFromWire code with
  | unknown n => simp [Outcome.refuse_bind_eq_panic]
  | known c => cases c <;> simp [isTrailerOnly, Outcome.refuse_bind_eq_panic]

/-- A turn of the loop panics on one attribute only. -/
theorem takeTlv_eq_panic {txid : TransactionId} {s : ParseState} {t : Tlv} :
    takeTlv txid s t = .panic ↔ t.code = AttrCode.alternateServer.asU16 ∧ t.value = [] := by
  rw [takeTlv, Outcome.refuse_bind_eq_panic]
  simp only [takeAttribute, Outcome.bind_eq_panic, parseAttributeValue_eq_panic, noteKind_ne_panic, Outcome.pure_eq,
    reduceCtorEq, and_false, exists_false, or_false, and_iff_right_iff_imp, and_imp]
  rintro hc - ⟨h, -⟩
  rw [hc] at h
  exact absurd h (by decide)

theorem takeAll_eq_panic {txid : TransactionId} {s : ParseState} {ts : List Tlv} :
    takeAll txid s ts = .panic ↔ ∃ pre t post s', ts = pre ++ t :: post ∧ takeAll txid s pre = .ok s' ∧
      t.code = AttrCode.alternateServer.asU16 ∧ t.value = [] := by
  constructor
  · induction ts generalizing s with
    | nil => intro h; cases h
    | cons t ts ih =>
      rw [takeAll, Outcome.bind_eq_panic]
      rintro (h | ⟨s1, h1, h⟩)
      · exact ⟨[], t, ts, s, rfl, rfl, takeTlv_eq_panic.mp h⟩
      · obtain ⟨pre, u, post, s', rfl, hs, hu⟩ := ih h
        exact ⟨t :: pre, u, post, s', rfl, by rw [takeAll, h1]; exact hs, hu⟩
  · rintro ⟨pre, t, post, s', rfl, hs, ht⟩
    rw [takeAll_append, hs, Outcome.ok_bind, takeAll, takeTlv_eq_panic.mpr ht]
    rfl

/-- The header and the attributes before it are in order, and then comes an
ALTERNATE-SERVER attribute with no value. -/
def EmptyAlternateServer (d : Bytes) : Prop :=
  ∃ h : 20 ≤ d.length, (d.drop 4).take 4 = magicCookieOctets ∧ typeField d &&& 0xC000 = 0 ∧
    (lengthField d).toNat = d.length - 20 ∧
    ∃ pre rest, d.drop 20 = Tlv.encodeAll pre ++ ([0x80, 0x23, 0x00, 0x00] ++ rest) ∧
      (∀ t ∈ pre, (∃ a, decode (txidField d h) t = .ok a) ∧ ¬ UnregisteredRequired t.code) ∧
      pre.countP isIntegrity ≤ 1 ∧ pre.countP isFingerprint ≤ 1

private theorem forall₂_iff_mem {txid : TransactionId} {ts : List Tlv} :
    (∃ attrs, List.Forall₂ (fun t a => decode txid t = .ok a) ts attrs) ↔ ∀ t ∈ ts, ∃ a, decode txid t = .ok a := by
  constructor
  · rintro ⟨attrs, h⟩ t ht
    obtain ⟨a, -, ha⟩ := exists_of_forall₂ h ht
    exact ⟨a, ha⟩
  · intro h
    induction ts with
    | nil => exact ⟨[], .nil⟩
    | cons t ts ih =>
      obtain ⟨a, ha⟩ := h t (by simp)
      obtain ⟨attrs, hd⟩ := ih fun u hu => h u (by simp [hu])
      exact ⟨a :: attrs, .cons ha hd⟩

private theorem takeAll_init_iff {txid : TransactionId} {ts : List Tlv} : (∃ s, takeAll txid .init ts = .ok s) ↔
    (∀ t ∈ ts, (∃ a, decode txid t = .ok a) ∧ ¬ UnregisteredRequired t.code) ∧ ts.countP isIntegrity ≤ 1 ∧
      ts.countP isFingerprint ≤ 1 := by
  constructor
  · rintro ⟨s, hs⟩
    obtain ⟨attrs, hd, hu, hi, hf, -⟩ := takeAll_init.mp hs
    exact ⟨fun t ht => ⟨forall₂_iff_mem.mp ⟨attrs, hd⟩ t ht, hu t ht⟩, hi, hf⟩
  · rintro ⟨h, hi, hf⟩
    obtain ⟨attrs, hd⟩ := forall₂_iff_mem.mpr fun t ht => (h t ht).1
    exact ⟨_, takeAll_init.mpr ⟨attrs, hd, fun t ht => (h t ht).2, hi, hf, rfl⟩⟩

private def emptyAlternateServer : Tlv := ⟨0x8023, [], [], by decide, by decide⟩

private theorem encode_of_empty {t : Tlv} (hc : t.code = AttrCode.alternateServer.asU16) (hv : t.value = []) :
    t.encode = [0x80, 0x23, 0x00, 0x00] := by
  have hp : t.pad = [] := List.eq_nil_of_length_eq_zero (by rw [t.pad_length, hv]; rfl)
  rw [Tlv.encode, hc, hv, hp]
  decide

/-- The loop's panics, on a framed body, are those of the fold. -/
theorem parse_frame_eq_panic {ty len : UInt16} {txid : TransactionId} {ts : List Tlv} {tail : Bytes}
    {t : MessageType} (ht : MessageType.fromBits ty = some t) (htail : tail = [] ∨ Tlv.Stuck tail)
    (hlen : len.toNat = (Tlv.encodeAll ts ++ tail).length) :
    parse (frame ty len txid (Tlv.encodeAll ts ++ tail)) = .panic ↔ takeAll txid .init ts = .panic := by
  have hb : (Tlv.encodeAll ts ++ tail).length < 65536 := hlen ▸ len.toNat_lt
  have hcheck : ∀ fp n, checkFingerprintLast fp n ≠ .panic := fun fp n => by cases fp <;> simp [checkFingerprintLast]
  rw [parse_frame ht, Outcome.refuse_neg (by rw [hlen]; simp), Outcome.ok_bind]
  simp only [Outcome.bind_eq_panic, hcheck, Outcome.pure_eq, reduceCtorEq, and_false, exists_false, or_false]
  rcases htail with rfl | hstuck
  · rw [List.append_nil] at hb ⊢
    rw [parseLoop_frame hb]
  · obtain ⟨e, he⟩ := parseLoop_frame_stuck ty len txid hstuck hb
    rw [he, Outcome.bind_eq_panic]
    simp

theorem parse_eq_panic (d : Bytes) : parse d = .panic ↔ EmptyAlternateServer d := by
  constructor
  · intro h
    rcases Header.parse_cases d with ⟨e, he⟩ | ⟨ty, len, txid, body, t, ht, rfl⟩
    · rw [parse, he] at h
      cases h
    obtain ⟨ts, tail, rfl, htail⟩ := Tlv.exists_reading body
    have hlen : len.toNat = (Tlv.encodeAll ts ++ tail).length := by
      by_contra hne
      rw [parse_frame ht, Outcome.refuse_pos (show _ ≠ _ from Ne.symm hne)] at h
      cases h
    obtain ⟨pre, e, post, s', rfl, hs, hc, hv⟩ := takeAll_eq_panic.mp ((parse_frame_eq_panic ht htail hlen).mp h)
    refine ⟨by simp, by rw [frame_drop_four]; rfl, ?_, ?_, pre, Tlv.encodeAll post ++ tail, ?_, ?_⟩
    · rw [typeField_frame]
      exact (MessageType.fromBits_isSome_iff ty).mp ⟨t, ht⟩
    · rw [lengthField_frame, hlen, frame_length, Nat.add_sub_cancel_left]
    · rw [frame_drop_header, Tlv.encodeAll_append, Tlv.encodeAll_cons, encode_of_empty hc hv]
      simp
    · rw [txidField_frame]
      exact takeAll_init_iff.mp ⟨s', hs⟩
  · rintro ⟨h20, hcookie, hty, hlen, pre, rest, hd, hpre⟩
    obtain ⟨t, ht⟩ := (MessageType.fromBits_isSome_iff _).mpr hty
    obtain ⟨ts, tail, rfl, htail⟩ := Tlv.exists_reading rest
    have he : emptyAlternateServer.encode = [0x80, 0x23, 0x00, 0x00] := encode_of_empty rfl rfl
    have hbody : d.drop 20 = Tlv.encodeAll (pre ++ emptyAlternateServer :: ts) ++ tail := by
      rw [hd, Tlv.encodeAll_append, Tlv.encodeAll_cons, he]
      simp
    have hf := eq_frame h20 hcookie
    rw [hbody] at hf
    rw [hf]
    refine (parse_frame_eq_panic ht htail ?_).mpr ?_
    · rw [hlen, ← hbody, List.length_drop]
    · obtain ⟨s, hs⟩ := takeAll_init_iff.mpr hpre
      exact takeAll_eq_panic.mpr ⟨pre, emptyAlternateServer, ts, s, rfl, hs, rfl, rfl⟩

/-- `parse` returns on every datagram but those with a valueless ALTERNATE-SERVER
behind a prefix it accepts. -/
theorem parse_ne_panic_iff (d : Bytes) : parse d ≠ .panic ↔ ¬ EmptyAlternateServer d :=
  not_congr (parse_eq_panic d)

/-- A Binding request whose only attribute is ALTERNATE-SERVER of length zero. -/
def emptyAlternateServerRequest : Bytes :=
  [0x00, 0x01, 0x00, 0x04, 0x21, 0x12, 0xA4, 0x42, 0, 0, 0, 0, 0, 0, 0, 0, 0, 0, 0, 0, 0x80, 0x23, 0x00, 0x00]

theorem parse_panics : parse emptyAlternateServerRequest = .panic := by
  decide +kernel

end QuickRelay.Protocol
