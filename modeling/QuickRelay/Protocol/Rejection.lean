import QuickRelay.Protocol.Acceptance

/-! What `parse` refuses and why: the first defect in wire order decides the error. -/
namespace QuickRelay.Protocol
open Lib

/-! ### Defects -/

/-- What is wrong with an attribute that stands behind the others. -/
def fault (txid : TransactionId) (before : List Tlv) (t : Tlv) : Option Error :=
  if t.code = messageIntegritySha256Code ∧ ¬ LegalSha256Len t.value.length then
    some (.attr .messageIntegritySha256Length messageIntegritySha256Code)
  else match decode txid t with
    | .err e => some e
    | .panic => none
    | .ok _ =>
      if UnregisteredRequired t.code then some (.attr .unknownRequired t.code)
      else if isFingerprint t && before.any isFingerprint then some (.attr .fingerprintNotLast t.code)
      else if isIntegrity t && before.any isIntegrity then some (.attr .duplicateAttribute t.code)
      else none

/-- Nothing is wrong with these. -/
structure Faultless (txid : TransactionId) (ts : List Tlv) : Prop where
  sound : ∀ t ∈ ts, (∃ a, decode txid t = .ok a) ∧ ¬ UnregisteredRequired t.code
  integrity : ts.countP isIntegrity ≤ 1
  fingerprint : ts.countP isFingerprint ≤ 1

/-- A header of this type and length, and the cookie. -/
structure Headed (d : Bytes) : Prop where
  size : 20 ≤ d.length
  cookie : (d.drop 4).take 4 = magicCookieOctets
  type : typeField d &&& 0xC000 = 0
  length : (lengthField d).toNat = d.length - 20

/-- The first defect of a datagram, as the error that reports it. -/
inductive Rejected (d : Bytes) : Error → Prop
  | short : d.length < 20 → Rejected d (.new .tooShort)
  | cookie : 20 ≤ d.length → (d.drop 4).take 4 ≠ magicCookieOctets → Rejected d (.new .magicCookie)
  | type : 20 ≤ d.length → (d.drop 4).take 4 = magicCookieOctets → typeField d &&& 0xC000 ≠ 0 →
      Rejected d (.new .malformedAttribute)
  | length : 20 ≤ d.length → (d.drop 4).take 4 = magicCookieOctets → typeField d &&& 0xC000 = 0 →
      (lengthField d).toNat ≠ d.length - 20 → Rejected d (.new .lengthMismatch)
  | faulty {pre : List Tlv} {t : Tlv} {rest : Bytes} {e : Error} (h : Headed d) :
      d.drop 20 = Tlv.encodeAll pre ++ (t.encode ++ rest) → Faultless (txidField d h.size) pre →
      fault (txidField d h.size) pre t = some e → Rejected d e
  | trailing {pre : List Tlv} {tail : Bytes} (h : Headed d) : d.drop 20 = Tlv.encodeAll pre ++ tail →
      Faultless (txidField d h.size) pre → tail ≠ [] → tail.length < 4 → Rejected d (.new .trailingOctets)
  | truncated {pre : List Tlv} {tail : Bytes} (h : Headed d) : d.drop 20 = Tlv.encodeAll pre ++ tail →
      Faultless (txidField d h.size) pre → 4 ≤ tail.length → (∀ (t : Tlv) rest, tail ≠ t.encode ++ rest) →
      Rejected d (.new .truncatedAttribute)
  | behind {pre post : List Tlv} {t : Tlv} (h : Headed d) : d.drop 20 = Tlv.encodeAll (pre ++ t :: post) →
      Faultless (txidField d h.size) (pre ++ t :: post) → isFingerprint t → post ≠ [] →
      Rejected d (.attr .fingerprintNotLast fingerprintCode)

/-! ### One attribute -/

section Attribute
variable {txid : TransactionId} {s : ParseState} {t : Tlv} {ts pre : List Tlv} {e : Error}

theorem refuse_bind_eq_err {β : Type} {c : Prop} [Decidable c] {e e' : Error} {f : Unit → Res β} :
    (Outcome.refuse c e' >>= f) = .err e ↔ (c ∧ e' = e) ∨ (¬ c ∧ f () = .err e) := by
  by_cases hc : c
  · rw [Outcome.refuse_pos hc, Outcome.err_bind, Outcome.err.injEq]
    simp [hc]
  · rw [Outcome.refuse_neg hc, Outcome.ok_bind]
    simp [hc]

theorem bind_eq_err {α β : Type} {x : Res α} {f : α → Res β} {e : Error} :
    (x >>= f) = .err e ↔ x = .err e ∨ ∃ a, x = .ok a ∧ f a = .err e := by
  cases x <;> simp

theorem takeAll_faultless : (∃ s, takeAll txid .init ts = .ok s) ↔ Faultless txid ts := by
  constructor
  · rintro ⟨s, hs⟩
    obtain ⟨attrs, hd, hu, hi, hf, -⟩ := takeAll_init.mp hs
    refine ⟨fun t ht => ⟨?_, hu t ht⟩, hi, hf⟩
    obtain ⟨a, -, ha⟩ := exists_of_forall₂ hd ht
    exact ⟨a, ha⟩
  · rintro ⟨h, hi, hf⟩
    have hd : ∃ attrs, List.Forall₂ (fun t a => decode txid t = .ok a) ts attrs := by
      clear hi hf
      induction ts with
      | nil => exact ⟨[], .nil⟩
      | cons t ts ih =>
        obtain ⟨⟨a, ha⟩, -⟩ := h t List.mem_cons_self
        obtain ⟨attrs, hd⟩ := ih fun u hu => h u (List.mem_cons_of_mem _ hu)
        exact ⟨a :: attrs, .cons ha hd⟩
    obtain ⟨attrs, hd⟩ := hd
    exact ⟨_, takeAll_init.mpr ⟨attrs, hd, fun t ht => (h t ht).2, hi, hf, rfl⟩⟩

/-- What the state remembers of the attributes before. -/
theorem takeAll_seen (h : takeAll txid .init pre = .ok s) : s.off = 20 + (Tlv.encodeAll pre).length ∧
    s.integrityLocation.isSome = pre.any isIntegrity ∧ s.fingerprintOffset.isSome = pre.any isFingerprint := by
  obtain ⟨attrs, -, -, -, -, rfl⟩ := takeAll_init.mp h
  rw [ParseState.addAll_init]
  exact ⟨rfl, by rw [Option.isSome_map, Tlv.locate_isSome], by rw [Option.isSome_map, Tlv.locate_isSome]⟩

/-- What an attribute's kind does not let through. -/
theorem noteKind_eq_err (hl : t.code = messageIntegritySha256Code → LegalSha256Len t.value.length) :
    noteKind s t.code t.value = .err e ↔
      (if UnregisteredRequired t.code then some (.attr .unknownRequired t.code)
      else if isFingerprint t && s.fingerprintOffset.isSome then some (.attr .fingerprintNotLast t.code)
      else if isIntegrity t && s.integrityLocation.isSome then some (.attr .duplicateAttribute t.code)
      else none) = some e := by
  cases hk : AttrCode.attrFromWire t.code with
  | unknown n =>
    obtain rfl := AttrCode.eq_of_unknown hk
    obtain ⟨hi, hf⟩ := not_trailer_of_unknown hk
    simp only [noteKind, hk, refuse_bind_eq_err, UnregisteredRequired, isFingerprint, isIntegrity, hi, hf]
    simp [isComprehensionOptional]
  | known c =>
    have hc := AttrCode.asU16_of_known hk
    simp only [noteKind, hk, UnregisteredRequired, isFingerprint, isIntegrity]
    cases c
    case unknown n => exact absurd hk (AttrCode.attrFromWire_ne_unknown _ n)
    case fingerprint =>
      have hi : isIntegrityCode t.code = false := by rw [← hc]; rfl
      have hf : isFingerprintCode t.code = true := by rw [← hc]; rfl
      have hcode : t.code = fingerprintCode := by rw [← hc]; rfl
      rw [hcode] at hi hf
      simp [isTrailerOnly, refuse_bind_eq_err, hi, hf, hcode]
    case messageIntegrity =>
      have hi : isIntegrityCode t.code = true := by rw [← hc]; rfl
      have hf : isFingerprintCode t.code = false := by rw [← hc]; rfl
      have hcode : t.code = messageIntegrityCode := by rw [← hc]; rfl
      rw [hcode] at hi hf
      simp [isTrailerOnly, refuse_bind_eq_err, hi, hf, hcode]
    case messageIntegritySha256 =>
      have hi : isIntegrityCode t.code = true := by rw [← hc]; rfl
      have hf : isFingerprintCode t.code = false := by rw [← hc]; rfl
      have hcode : t.code = messageIntegritySha256Code := by rw [← hc]; rfl
      rw [hcode] at hi hf
      have hlegal := hl hcode
      simp [isTrailerOnly, refuse_bind_eq_err, hi, hf, hcode, hlegal]
    all_goals
      have hi : isIntegrityCode t.code = false := by rw [← hc]; rfl
      have hf : isFingerprintCode t.code = false := by rw [← hc]; rfl
      simp [isTrailerOnly, hi, hf]

/-- Behind faultless attributes, one turn of the loop reports an attribute's fault. -/
theorem takeTlv_eq_err (h : takeAll txid .init pre = .ok s) : takeTlv txid s t = .err e ↔ fault txid pre t = some e := by
  obtain ⟨-, hi, hf⟩ := takeAll_seen h
  rw [takeTlv, refuse_bind_eq_err, fault]
  by_cases hl : t.code = messageIntegritySha256Code ∧ ¬ LegalSha256Len t.value.length
  · simp [hl]
  · have hl' : t.code = messageIntegritySha256Code → LegalSha256Len t.value.length := fun hc => not_not.mp fun hn => hl ⟨hc, hn⟩
    rw [if_neg hl, takeAttribute]
    simp only [hl, false_and, not_false_eq_true, true_and, false_or]
    rw [decode, bind_eq_err]
    cases hv : parseAttributeValue (AttrCode.attrFromWire t.code) t.value txid with
    | err e' => simp
    | panic => simp
    | ok a =>
      rw [← hi, ← hf, ← noteKind_eq_err hl']
      simp [bind_eq_err]

end Attribute

/-! ### The loop -/

/-- The loop takes the attributes in front, and goes on behind them. -/
theorem parseLoop_append {ts : List Tlv} {pre rest : Bytes} {txid : TransactionId} {s : ParseState} {budget : Nat}
    (hoff : s.off = pre.length) (hlen : (pre ++ (Tlv.encodeAll ts ++ rest)).length < 2 ^ 64) :
    parseLoop (pre ++ (Tlv.encodeAll ts ++ rest)) txid (ts.length + budget) s =
      takeAll txid s ts >>= parseLoop (pre ++ (Tlv.encodeAll ts ++ rest)) txid budget := by
  induction ts generalizing pre s with
  | nil => rw [List.length_nil, Nat.zero_add, takeAll, Outcome.ok_bind]
  | cons t ts ih =>
    have h4 := t.four_le_encode_length
    rw [Tlv.encodeAll_cons, List.append_assoc] at hlen ⊢
    rw [List.length_cons, Nat.add_right_comm, parseLoop, if_pos (by rw [hoff]; simp; omega), parseAttribute_encode hoff hlen,
      takeAll]
    cases hs : takeTlv txid s t with
    | err e => rfl
    | panic => rfl
    | ok s' =>
      rw [Outcome.ok_bind, Outcome.ok_bind]
      have hoff' : s'.off = (pre ++ t.encode).length := by
        rw [takeTlv_off hs, hoff, List.length_append]
      rw [← List.append_assoc] at hlen ⊢
      exact ih hoff' hlen

theorem parseAttribute_trailing {pre tail : Bytes} {txid : TransactionId} {s : ParseState} (hoff : s.off = pre.length)
    (h4 : tail.length < 4) : parseAttribute (pre ++ tail) txid s = .err (.new .trailingOctets) := by
  rw [parseAttribute, Outcome.refuse_pos (by rw [hoff, List.length_append]; omega)]
  rfl

theorem parseAttribute_truncated {pre tail : Bytes} {txid : TransactionId} {s : ParseState} (hoff : s.off = pre.length)
    (h4 : 4 ≤ tail.length) (h : ∀ (t : Tlv) rest, tail ≠ t.encode ++ rest) (hlen : (pre ++ tail).length < 2 ^ 63) :
    parseAttribute (pre ++ tail) txid s = .err (.new .truncatedAttribute) := by
  have hstuck : Tlv.Stuck tail := ⟨fun hnil => by rw [hnil] at h4; exact absurd h4 (by decide), h⟩
  have hann := hstuck.announces h4
  obtain ⟨x0, x1, x2, x3, rest, rfl⟩ := exists_four h4
  simp only [List.getElem_cons_succ, List.getElem_cons_zero, padding] at hann
  have hlt := (u16FromBe x2 x3).toNat_lt
  simp only [List.length_append] at hlen
  have hcode : (readU16 (pre ++ x0 :: x1 :: x2 :: x3 :: rest) pre.length : Res UInt16) = .ok (u16FromBe x0 x1) :=
    readU16_append_add pre _ 0
  have hlenf : (readU16 (pre ++ x0 :: x1 :: x2 :: x3 :: rest) (pre.length + 2) : Res UInt16) =
      .ok (u16FromBe x2 x3) := readU16_append_add pre _ 2
  rw [parseAttribute, hoff, Outcome.refuse_neg (by rw [List.length_append]; omega), Outcome.ok_bind, hcode,
    Outcome.ok_bind, hlenf, Outcome.ok_bind]
  dsimp only
  rw [checkedAdd_of_lt (by omega), Outcome.okOr, Outcome.ok_bind, Outcome.refuse_pos (by rw [List.length_append]; omega)]
  rfl

section Body
variable {ty len : UInt16} {txid : TransactionId} {ts pre : List Tlv} {tail rest : Bytes} {s : ParseState} {t : Tlv} {e : Error}

/-- The loop of `parse` takes the attributes in front, with turns to spare for the rest. -/
theorem parseLoop_body (ty len : UInt16) (txid : TransactionId) (hlen : (Tlv.encodeAll ts ++ tail).length < 65536) : ∃ budget,
    parseLoop (frame ty len txid (Tlv.encodeAll ts ++ tail)) txid Fingerprint.maxAttributeCount .init =
      takeAll txid .init ts >>= parseLoop (frame ty len txid (Tlv.encodeAll ts) ++ tail) txid (budget + 1) := by
  have h4 := Tlv.four_mul_length_le ts
  rw [List.length_append] at hlen
  have hframe : frame ty len txid (Tlv.encodeAll ts ++ tail) = frame ty len txid [] ++ (Tlv.encodeAll ts ++ tail) := by
    rw [← frame_append, List.nil_append]
  have hspare : Fingerprint.maxAttributeCount = ts.length + (Fingerprint.maxAttributeCount - ts.length - 1 + 1) := by
    rw [Fingerprint.maxAttributeCount]
    omega
  refine ⟨Fingerprint.maxAttributeCount - ts.length - 1, ?_⟩
  rw [← frame_append, hframe]
  nth_rewrite 1 [hspare]
  refine parseLoop_append (by rw [frame_length]; rfl) ?_
  simp only [List.length_append, frame_length, List.length_nil]
  omega

theorem parseLoop_fault (hpre : Faultless txid pre) (hfault : fault txid pre t = some e)
    (hlen : (Tlv.encodeAll pre ++ (t.encode ++ rest)).length < 65536) :
    parseLoop (frame ty len txid (Tlv.encodeAll pre ++ (t.encode ++ rest))) txid Fingerprint.maxAttributeCount .init = .err e := by
  obtain ⟨s, hs⟩ := takeAll_faultless.mpr hpre
  obtain ⟨budget, hloop⟩ := parseLoop_body ty len txid hlen
  have hoff : s.off = (frame ty len txid (Tlv.encodeAll pre)).length := (takeAll_seen hs).1.trans (frame_length ..).symm
  have h4 := t.four_le_encode_length
  simp only [List.length_append] at hlen
  rw [hloop, hs, Outcome.ok_bind, parseLoop, if_pos (by rw [hoff]; simp only [List.length_append]; omega),
    parseAttribute_encode hoff (by simp only [List.length_append, frame_length]; omega), (takeTlv_eq_err hs).mpr hfault]
  rfl

/-- What is wrong with octets that no attribute starts. -/
theorem parseLoop_tail (hpre : Faultless txid pre) (htail : tail ≠ []) (hlen : (Tlv.encodeAll pre ++ tail).length < 65536) :
    (tail.length < 4 → parseLoop (frame ty len txid (Tlv.encodeAll pre ++ tail)) txid Fingerprint.maxAttributeCount .init =
      .err (.new .trailingOctets)) ∧
    (4 ≤ tail.length → (∀ (t : Tlv) rest, tail ≠ t.encode ++ rest) →
      parseLoop (frame ty len txid (Tlv.encodeAll pre ++ tail)) txid Fingerprint.maxAttributeCount .init =
        .err (.new .truncatedAttribute)) := by
  obtain ⟨s, hs⟩ := takeAll_faultless.mpr hpre
  obtain ⟨budget, hloop⟩ := parseLoop_body ty len txid hlen
  have hoff : s.off = (frame ty len txid (Tlv.encodeAll pre)).length := (takeAll_seen hs).1.trans (frame_length ..).symm
  have hpos := List.length_pos_iff.mpr htail
  rw [List.length_append] at hlen
  rw [hloop, hs, Outcome.ok_bind, parseLoop, if_pos (by rw [hoff, List.length_append]; omega)]
  constructor
  · intro h4
    rw [parseAttribute_trailing hoff h4]
    rfl
  · intro h4 h
    rw [parseAttribute_truncated hoff h4 h (by rw [List.length_append, frame_length]; omega)]
    rfl

/-- The walk fails at the first attribute with a fault. -/
theorem takeAll_eq_err : takeAll txid .init ts = .err e ↔ ∃ pre t post, ts = pre ++ t :: post ∧ Faultless txid pre ∧
    fault txid pre t = some e := by
  have hsplit : ∀ {s : ParseState}, takeAll txid s ts = .err e ↔ ∃ pre t post s', ts = pre ++ t :: post ∧
      takeAll txid s pre = .ok s' ∧ takeTlv txid s' t = .err e := by
    induction ts with
    | nil =>
      intro s
      simp [takeAll]
    | cons t ts ih =>
      intro s
      rw [takeAll, bind_eq_err]
      constructor
      · rintro (h | ⟨s1, h1, h⟩)
        · exact ⟨[], t, ts, s, rfl, rfl, h⟩
        · obtain ⟨pre, u, post, s', rfl, hs, hu⟩ := ih.mp h
          exact ⟨t :: pre, u, post, s', rfl, by rw [takeAll, h1]; exact hs, hu⟩
      · rintro ⟨pre, u, post, s', heq, hs, hu⟩
        cases pre with
        | nil =>
          cases heq
          cases hs
          exact .inl hu
        | cons v pre =>
          cases heq
          rw [takeAll] at hs
          obtain ⟨s1, h1, hs⟩ := Outcome.bind_eq_ok.mp hs
          exact .inr ⟨s1, h1, ih.mpr ⟨pre, u, post, s', rfl, hs, hu⟩⟩
  rw [hsplit]
  constructor
  · rintro ⟨pre, t, post, s', rfl, hs, ht⟩
    exact ⟨pre, t, post, rfl, takeAll_faultless.mp ⟨s', hs⟩, (takeTlv_eq_err hs).mp ht⟩
  · rintro ⟨pre, t, post, rfl, hpre, ht⟩
    obtain ⟨s', hs⟩ := takeAll_faultless.mpr hpre
    exact ⟨pre, t, post, s', rfl, hs, (takeTlv_eq_err hs).mpr ht⟩

end Body

/-! ### The header -/

section Header
variable {d : Bytes}

/-- Past a header that is in order. -/
theorem Headed.parse_eq (h : Headed d) {b : Bytes} (hb : d.drop 20 = b) : b.length < 65536 ∧ ∃ t,
    d = frame (typeField d) (lengthField d) (txidField d h.size) b ∧
    parse d = (do
      let s ← parseLoop (frame (typeField d) (lengthField d) (txidField d h.size) b) (txidField d h.size)
        Fingerprint.maxAttributeCount .init
      checkFingerprintLast s.fingerprintOffset (20 + b.length)
      return ⟨⟨t, lengthField d, txidField d h.size⟩, txidField d h.size, d, s.attributes, s.unknown, s.integrityLocation,
        s.fingerprintOffset⟩) := by
  have hblen : (lengthField d).toNat = b.length := by rw [h.length, ← hb, List.length_drop]
  obtain ⟨t, ht⟩ := (MessageType.fromBits_isSome_iff _).mpr h.type
  have hd := eq_frame h.size h.cookie
  rw [hb] at hd
  refine ⟨hblen ▸ UInt16.toNat_lt _, t, hd, ?_⟩
  conv_lhs => rw [hd]
  rw [parse_frame ht, Outcome.refuse_neg (by rw [hblen]; simp), Outcome.ok_bind, ← hd]

end Header

/-! ### Whole datagrams -/

theorem checkFingerprintLast_cases (fp : Option Nat) (n : Nat) :
    checkFingerprintLast fp n = .ok () ∨ checkFingerprintLast fp n = .err (.attr .fingerprintNotLast fingerprintCode) := by
  cases fp with
  | none => exact .inl rfl
  | some o =>
    rw [checkFingerprintLast]
    by_cases h : o + 8 ≠ n
    · exact .inr (Outcome.refuse_pos h)
    · exact .inl (Outcome.refuse_neg h)

section Whole
variable {d : Bytes} {ts : List Tlv} {e : Error}

/-- With nothing wrong before the end, what is left to refuse is an attribute behind the
FINGERPRINT. -/
theorem parse_last (h : Headed d) (hts : d.drop 20 = Tlv.encodeAll ts) (hgood : Faultless (txidField d h.size) ts) :
    ((∃ m, parse d = .ok m) ∧ ∀ pre t post, ts = pre ++ t :: post → isFingerprint t → post = []) ∨
    (parse d = .err (.attr .fingerprintNotLast fingerprintCode) ∧
      ∃ pre t post, ts = pre ++ t :: post ∧ isFingerprint t ∧ post ≠ []) := by
  obtain ⟨hlen, t, hd, hparse⟩ := h.parse_eq hts
  obtain ⟨s, hs⟩ := takeAll_faultless.mpr hgood
  rw [parseLoop_frame hlen, hs, Outcome.ok_bind] at hparse
  have hok : (∃ m, parse d = .ok m) ↔ ∀ pre t post, ts = pre ++ t :: post → isFingerprint t → post = [] := by
    constructor
    · rintro ⟨m, hm⟩
      obtain ⟨_, _, _, us, _, _, _, hd', hacc, _⟩ := parse_eq_ok.mp hm
      have hus : d.drop 20 = Tlv.encodeAll us := by
        conv_lhs => rw [hd', frame_drop_header]
      obtain rfl := Tlv.encodeAll_inj (hts.symm.trans hus)
      exact hacc.last
    · intro hlast
      refine parse_ok_iff.mpr ⟨h.size, h.cookie, h.type, h.length, ts, ?_⟩
      obtain ⟨attrs, hdec, hu, hi, hf, -⟩ := takeAll_init.mp hs
      exact ⟨attrs, hts, hdec, hu, hi, hf, hlast⟩
  rcases checkFingerprintLast_cases s.fingerprintOffset (20 + (Tlv.encodeAll ts).length) with hcheck | hcheck
  · rw [hcheck, Outcome.ok_bind] at hparse
    exact .inl ⟨⟨_, hparse⟩, hok.mp ⟨_, hparse⟩⟩
  · rw [hcheck, Outcome.err_bind] at hparse
    refine .inr ⟨hparse, ?_⟩
    by_contra hnone
    obtain ⟨m, hm⟩ := hok.mpr fun pre t post heq ht => by_contra fun hpost => hnone ⟨pre, t, post, heq, ht, hpost⟩
    rw [hparse] at hm
    cases hm

theorem Headed.rejected (h : Headed d) (herr : parse d = .err e) : Rejected d e := by
  obtain ⟨ts, tail, hts, htail⟩ := Tlv.exists_reading (d.drop 20)
  obtain ⟨hlen, t, hd, hparse⟩ := h.parse_eq hts
  cases hall : takeAll (txidField d h.size) .init ts with
  | panic =>
    obtain ⟨budget, hloop⟩ := parseLoop_body (typeField d) (lengthField d) (txidField d h.size) hlen
    rw [hparse, hloop, hall] at herr
    cases herr
  | err e' =>
    obtain ⟨pre, u, post, rfl, hpre, hfault⟩ := takeAll_eq_err.mp hall
    have hbody : Tlv.encodeAll (pre ++ u :: post) ++ tail = Tlv.encodeAll pre ++ (u.encode ++ (Tlv.encodeAll post ++ tail)) := by
      rw [Tlv.encodeAll_append, Tlv.encodeAll_cons]
      simp only [List.append_assoc]
    rw [hbody] at hts hlen hparse
    rw [hparse, parseLoop_fault hpre hfault hlen] at herr
    cases herr
    exact .faulty h hts hpre hfault
  | ok s =>
    have hgood := takeAll_faultless.mp ⟨s, hall⟩
    rcases htail with rfl | hstuck
    · rw [List.append_nil] at hts
      rcases parse_last h hts hgood with ⟨⟨m, hm⟩, -⟩ | ⟨hrej, pre, u, post, rfl, hu, hpost⟩
      · rw [hm] at herr
        cases herr
      · rw [hrej] at herr
        cases herr
        exact .behind h hts hgood hu hpost
    · obtain ⟨htrailing, htruncated⟩ := parseLoop_tail hgood hstuck.1 hlen
      by_cases h4 : tail.length < 4
      · rw [hparse, htrailing h4] at herr
        cases herr
        exact .trailing h hts hgood hstuck.1 h4
      · have h4' := Nat.le_of_not_lt h4
        rw [hparse, htruncated h4' hstuck.2] at herr
        cases herr
        exact .truncated h hts hgood h4' hstuck.2

end Whole

/-! ### Whom an error names -/

/-- An attribute code in an error of this call is this one. -/
def Names {α : Type} (code : UInt16) (x : Res α) : Prop := ∀ e, x = .err e → ∀ c, e.attributeCode = some c → c = code

namespace Names
variable {α β : Type} {code : UInt16} {x : Res α}

theorem ok (a : α) : Names code (.ok a) := by
  rintro _ ⟨⟩

theorem panic : Names code (.panic : Res α) := by
  rintro _ ⟨⟩

theorem unnamed {k : ErrorKind} : ∀ c, (Error.new k).attributeCode = some c → c = code := by
  rintro _ ⟨⟩

theorem bind {f : α → Res β} (h : Names code x) (hf : ∀ a, Names code (f a)) : Names code (x >>= f) := by
  intro e he
  rcases bind_eq_err.mp he with hx | ⟨a, -, ha⟩
  · exact h e hx
  · exact hf a e ha

theorem map (f : α → β) (h : Names code x) : Names code (f <$> x) := by
  intro e he
  cases hx : x with
  | ok a =>
    rw [hx] at he
    cases he
  | panic =>
    rw [hx] at he
    cases he
  | err e' =>
    rw [hx] at he
    cases he
    exact h e hx

theorem refuse {c : Prop} [Decidable c] {e : Error} (h : ∀ c, e.attributeCode = some c → c = code) :
    Names code (.refuse c e) := by
  by_cases hc : c
  · rw [Outcome.refuse_pos hc]
    rintro _ ⟨⟩
    exact h
  · rw [Outcome.refuse_neg hc]
    exact ok _

theorem okOr {o : Option α} {e : Error} (h : ∀ c, e.attributeCode = some c → c = code) : Names code (.okOr e o) := by
  cases o with
  | some a => exact ok a
  | none =>
    rintro _ ⟨⟩
    exact h

theorem octetAt (b : Bytes) (i : Nat) : Names code (Lib.octetAt b i) := by
  rw [Lib.octetAt]
  cases b[i]? with
  | none => exact panic
  | some a => exact ok a

theorem ite_panic {c : Prop} [Decidable c] {a : α} : Names code (if c then .ok a else .panic) := by
  split
  · exact ok a
  · exact panic

theorem toOctets (n : Nat) (b : Bytes) : Names code (Lib.toOctets n b) := by
  rw [Lib.toOctets]
  split
  · exact ok _
  · exact panic

theorem slice (b : Bytes) (lo hi : Nat) : Names code (Lib.slice b lo hi) := ite_panic

theorem copyInto (dst : Bytes) (lo hi : Nat) (src : Bytes) : Names code (Lib.copyInto dst lo hi src) := ite_panic

theorem readU16 (b : Bytes) (i : Nat) : Names code (Lib.readU16 b i) :=
  (octetAt b i).bind fun _ => (octetAt b (i + 1)).bind fun _ => ok _

theorem readU32 (b : Bytes) (i : Nat) : Names code (Lib.readU32 b i) :=
  (octetAt b i).bind fun _ => (octetAt b (i + 1)).bind fun _ => (octetAt b (i + 2)).bind fun _ =>
    (octetAt b (i + 3)).bind fun _ => ok _

/-! The decoders of addresses name no attribute. -/

theorem ipFrom (src : Bytes) : Names code (ipFrom src) := (copyInto _ _ _ _).bind fun _ => toOctets 16 _

theorem readMapped (buf : Bytes) : Names code (readMapped buf) := by
  apply bind (refuse unnamed) fun _ => ?_
  apply bind (octetAt buf 0) fun _ => ?_
  apply bind (refuse unnamed) fun _ => ?_
  apply bind (octetAt buf 1) fun _ => ?_
  apply bind (okOr unnamed) fun _ => ?_
  apply bind (refuse unnamed) fun _ => ?_
  exact (readU16 buf 2).bind fun _ => (slice _ _ _).bind fun _ => ok _

theorem readValue (buf : Bytes) : Names code (MappedAddress.readValue buf) :=
  (readMapped buf).bind fun _ => (ipFrom _).bind fun _ => ok _

theorem readXorAddress (buf : Bytes) (txid : Octets 12) : Names code (readXorAddress buf txid) :=
  (readMapped buf).bind fun _ => bind ite_panic fun _ => (ipFrom _).bind fun _ => ok _

theorem readAlternateServer (buf : Bytes) : Names code (readAlternateServer buf) := by
  apply bind (octetAt buf 0) fun _ => ?_
  apply bind (okOr unnamed) fun _ => ?_
  apply bind (refuse unnamed) fun _ => ?_
  exact (slice _ _ _).bind fun _ => (ipFrom _).bind fun _ => (readU16 buf 2).bind fun _ => ok _

/-! The other decoders name the attribute they are told of, and ERROR-CODE's names itself. -/

theorem errorCode (buf : Bytes) : Names AttrCode.errorCode.asU16 (ErrorCode.readValue buf) := by
  have hself : ∀ c, (Error.attr .malformedErrorCode AttrCode.errorCode.asU16).attributeCode = some c →
      c = AttrCode.errorCode.asU16 := by
    rintro _ ⟨⟩
    rfl
  apply bind (refuse hself) fun _ => ?_
  apply bind (octetAt buf 2) fun _ => ?_
  apply bind (octetAt buf 3) fun _ => ?_
  apply bind ((refuse hself).bind fun _ => ok _) fun _ => ?_
  exact (slice _ _ _).bind fun _ => ok _

variable {c : AttrCode}

theorem own {k : ErrorKind} : ∀ n, (Error.attr k c.asU16).attributeCode = some n → n = c.asU16 := by
  rintro _ ⟨⟩
  rfl

theorem utf8Attr (buf : Bytes) : Names c.asU16 (utf8Attr c buf) := okOr own

theorem checkExact (buf : Bytes) (n : Nat) : Names c.asU16 (checkExact c buf n) := refuse own

theorem exactOctets (buf : Bytes) (n : Nat) : Names c.asU16 (exactOctets c buf n) :=
  (checkExact buf n).bind fun _ => toOctets n buf

theorem exactU32 (buf : Bytes) : Names c.asU16 (exactU32 c buf) := (checkExact buf 4).bind fun _ => readU32 buf 0

theorem exactFamily (buf : Bytes) : Names c.asU16 (exactFamily c buf) :=
  (checkExact buf 1).bind fun _ => (octetAt buf 0).bind fun _ => okOr own

/-- ADDRESS-ERROR-CODE has the decoder of ERROR-CODE. -/
theorem parseAttributeValue (hc : c ≠ .addressErrorCode) (buf : Bytes) (txid : Octets 12) :
    Names c.asU16 (parseAttributeValue (.known c) buf txid) := by
  cases c with
  | mappedAddress | otherAddress => exact (readValue buf).map _
  | xorMappedAddress | xorRelayedAddress | xorPeerAddress => exact (readXorAddress buf txid).map _
  | changeRequest | fingerprint | icePriority | lifetime => exact (exactU32 buf).map _
  | username | realm | nonce | software | requestedTransport | passwordAlgorithm | alternateDomain | thirdPartyAuthorization
  | extendedCandidate | extendedCandidateUfrag => exact (utf8Attr buf).map _
  | errorCode => exact (errorCode buf).map _
  | addressErrorCode => exact absurd rfl hc
  | unknownAttributes | data | connectionId => exact (refuse own).bind fun _ => ok _
  | messageIntegrity | userHash | iceControlled | iceControlling => exact (exactOctets buf _).map _
  | messageIntegritySha256 =>
    apply bind (refuse own) fun _ => ?_
    split
    · exact (okOr own).map _
    · exact ((copyInto _ _ _ _).bind fun _ => toOctets _ _).map _
  | channelNumber =>
    apply bind (checkExact buf 4) fun _ => ?_
    exact (readU16 buf 0).bind fun _ => (refuse own).bind fun _ => ok _
  | responsePort => exact (checkExact buf 2).bind fun _ => (readU16 buf 0).bind fun _ => ok _
  | requestedAddressFamily | additionalAddressFamily => exact (exactFamily buf).map _
  | alternateServer => exact (readAlternateServer buf).map _
  | reservationToken | evenPort | accessToken | padding | icmp => exact ok _
  | dontFragment | useCandidate => exact (checkExact buf 0).bind fun _ => ok _
  | passwordAlgorithms => exact (utf8Attr buf).bind fun _ => (refuse own).bind fun _ => ok _
  | unknown => exact panic

end Names

end QuickRelay.Protocol
