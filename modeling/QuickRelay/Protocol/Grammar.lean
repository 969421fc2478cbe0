import QuickRelay.Protocol.Message
import QuickRelay.Protocol.ValueCodec

/-! The attribute walk, read as a fold over a type-length-value list, and the
grammar `parse` accepts. -/
namespace QuickRelay.Protocol
open Lib

/-! ### One attribute at a time -/

def decode (txid : TransactionId) (t : Tlv) : Res Attribute :=
  parseAttributeValue (AttrCode.attrFromWire t.code) t.value txid

/-- The loop body on an attribute of known extent. -/
def takeTlv (txid : TransactionId) (s : ParseState) (t : Tlv) : Res ParseState := do
  .refuse (t.code = messageIntegritySha256Code ∧ ¬ LegalSha256Len t.value.length)
    (.attr .messageIntegritySha256Length messageIntegritySha256Code)
  takeAttribute txid s t.code t.value (s.off + t.encode.length)

def takeAll (txid : TransactionId) : ParseState → List Tlv → Res ParseState
  | s, [] => .ok s
  | s, t :: ts => do
    let s' ← takeTlv txid s t
    takeAll txid s' ts

theorem takeTlv_off {txid : TransactionId} {s s' : ParseState} {t : Tlv} (h : takeTlv txid s t = .ok s') :
    s'.off = s.off + t.encode.length := by
  rw [takeTlv, Outcome.refuse_bind_eq_ok] at h
  simp only [takeAttribute, Outcome.bind_eq_ok] at h
  obtain ⟨-, a, -, s1, -, h⟩ := h
  cases h
  rfl

/-- On a datagram that continues with an attribute, one turn of the loop takes
that attribute. -/
theorem parseAttribute_encode {pre rest : Bytes} {t : Tlv} {txid : TransactionId} {s : ParseState}
    (hoff : s.off = pre.length) (hlen : (pre ++ (t.encode ++ rest)).length < 2 ^ 64) :
    parseAttribute (pre ++ (t.encode ++ rest)) txid s = takeTlv txid s t := by
  have ht := t.encode_length
  have hv := t.lengthField
  simp only [List.length_append] at hlen
  have hstride : 4 + t.value.length + (4 - t.value.length % 4) % 4 = t.encode.length := ht.symm
  rw [parseAttribute, hoff, Outcome.refuse_neg (by simp only [List.length_append]; omega), Outcome.ok_bind,
    Tlv.readU16_code, Outcome.ok_bind, Tlv.readU16_lengthField, Outcome.ok_bind]
  simp only [hv, hstride, Tlv.slice_value, Outcome.ok_bind]
  rw [checkedAdd_of_lt (by omega), Outcome.okOr, Outcome.ok_bind,
    Outcome.refuse_neg (by simp only [List.length_append]; omega), Outcome.ok_bind, takeTlv, hoff]

/-- On leftover octets that no attribute starts, one turn of the loop fails. -/
theorem parseAttribute_stuck {pre tail : Bytes} (h : Tlv.Stuck tail) (hlen : (pre ++ tail).length < 2 ^ 63)
    (txid : TransactionId) : ∃ e, ∀ s : ParseState, s.off = pre.length → parseAttribute (pre ++ tail) txid s = .err e := by
  by_cases h4 : tail.length < 4
  · refine ⟨.new .trailingOctets, fun s hs => ?_⟩
    rw [parseAttribute, Outcome.refuse_pos (by rw [hs]; simp; omega)]
    rfl
  · refine ⟨.new .truncatedAttribute, fun s hs => ?_⟩
    have hann := h.announces (Nat.le_of_not_lt h4)
    obtain ⟨x0, x1, x2, x3, rest, rfl⟩ := exists_four (Nat.le_of_not_lt h4)
    simp only [List.getElem_cons_succ, List.getElem_cons_zero, padding] at hann
    have hlt := (u16FromBe x2 x3).toNat_lt
    simp only [List.length_append] at hlen
    have hcode : (readU16 (pre ++ x0 :: x1 :: x2 :: x3 :: rest) pre.length : Res UInt16) = .ok (u16FromBe x0 x1) :=
      readU16_append_add pre _ 0
    have hlenf : (readU16 (pre ++ x0 :: x1 :: x2 :: x3 :: rest) (pre.length + 2) : Res UInt16) =
        .ok (u16FromBe x2 x3) := readU16_append_add pre _ 2
    rw [parseAttribute, hs, Outcome.refuse_neg (by rw [List.length_append]; omega), Outcome.ok_bind, hcode,
      Outcome.ok_bind, hlenf, Outcome.ok_bind]
    simp only
    rw [checkedAdd_of_lt (by omega), Outcome.okOr, Outcome.ok_bind, Outcome.refuse_pos (by rw [List.length_append]; omega)]
    rfl

/-! ### The loop -/

/-- On attributes to the end of the datagram, the loop is a fold over them. -/
theorem parseLoop_encodeAll {ts : List Tlv} {pre : Bytes} {txid : TransactionId} {s : ParseState} {budget : Nat}
    (hoff : s.off = pre.length) (hlen : (pre ++ Tlv.encodeAll ts).length < 2 ^ 64) (hb : ts.length ≤ budget) :
    parseLoop (pre ++ Tlv.encodeAll ts) txid budget s = takeAll txid s ts := by
  induction ts generalizing pre s budget with
  | nil => cases budget <;> simp [parseLoop, takeAll, hoff]
  | cons t ts ih =>
    obtain ⟨budget, rfl⟩ : ∃ b, budget = b + 1 := ⟨budget - 1, by simp at hb; omega⟩
    have h4 := t.four_le_encode_length
    rw [Tlv.encodeAll_cons] at hlen ⊢
    rw [parseLoop, if_pos (by rw [hoff]; simp; omega), parseAttribute_encode hoff hlen, takeAll]
    cases hs : takeTlv txid s t with
    | err e => rfl
    | panic => rfl
    | ok s' =>
      rw [Outcome.ok_bind, Outcome.ok_bind]
      have hoff' : s'.off = (pre ++ t.encode).length := by
        rw [takeTlv_off hs, hoff, List.length_append]
      rw [← List.append_assoc] at hlen ⊢
      exact ih hoff' hlen (by simpa using hb)

/-- Leftover octets make the loop fail, unless an attribute before them already
ended it. -/
theorem parseLoop_stuck {ts : List Tlv} {pre tail : Bytes} {txid : TransactionId} {s : ParseState} {budget : Nat}
    (h : Tlv.Stuck tail) (hoff : s.off = pre.length) (hlen : (pre ++ (Tlv.encodeAll ts ++ tail)).length < 2 ^ 63)
    (hb : ts.length < budget) :
    ∃ e, parseLoop (pre ++ (Tlv.encodeAll ts ++ tail)) txid budget s = takeAll txid s ts >>= fun _ => .err e := by
  induction ts generalizing pre s budget with
  | nil =>
    obtain ⟨budget, rfl⟩ : ∃ b, budget = b + 1 := ⟨budget - 1, by simp at hb; omega⟩
    rw [Tlv.encodeAll_nil, List.nil_append] at hlen ⊢
    obtain ⟨e, he⟩ := parseAttribute_stuck h hlen txid
    have hpos : 0 < tail.length := List.length_pos_iff.mpr h.1
    refine ⟨e, ?_⟩
    rw [parseLoop, if_pos (by rw [hoff]; simp; omega), he s hoff, takeAll]
    rfl
  | cons t ts ih =>
    obtain ⟨budget, rfl⟩ : ∃ b, budget = b + 1 := ⟨budget - 1, by simp at hb; omega⟩
    have h4 := t.four_le_encode_length
    rw [Tlv.encodeAll_cons, List.append_assoc] at hlen ⊢
    rw [parseLoop, if_pos (by rw [hoff]; simp; omega), parseAttribute_encode hoff (by omega), takeAll]
    cases hs : takeTlv txid s t with
    | err e => exact ⟨e, rfl⟩
    | panic => exact ⟨.new .tooShort, rfl⟩
    | ok s' =>
      simp only [Outcome.ok_bind]
      have hoff' : s'.off = (pre ++ t.encode).length := by
        rw [takeTlv_off hs, hoff, List.length_append]
      rw [← List.append_assoc] at hlen ⊢
      exact ih hoff' hlen (by simpa using hb)

/-! ### What the fold accepts -/

/-- The code is not in the registry and its high bit is clear. -/
def UnregisteredRequired (code : UInt16) : Prop := AttrCode.attrFromWire code = .unknown code ∧ code < 0x8000

instance (code : UInt16) : Decidable (UnregisteredRequired code) := inferInstanceAs (Decidable (_ ∧ _))

def isIntegrityCode (code : UInt16) : Bool := code = messageIntegrityCode ∨ code = messageIntegritySha256Code
def isFingerprintCode (code : UInt16) : Bool := code = fingerprintCode

/-- An unregistered attribute as `Message.unknown` keeps it. -/
def unknownOf (t : Tlv) : Option UnknownAttribute :=
  if AttrCode.attrFromWire t.code = .unknown t.code then some ⟨t.code, .unknown t.code, t.value⟩ else none

/-- The state after an accepted attribute. -/
def ParseState.add (s : ParseState) (t : Tlv) (a : Attribute) : ParseState where
  off := s.off + t.encode.length
  attributes := s.attributes ++ [a]
  unknown := s.unknown ++ (unknownOf t).toList
  integrityLocation := if isIntegrityCode t.code then some ⟨s.off, t.code, t.value.length⟩ else s.integrityLocation
  fingerprintOffset := if isFingerprintCode t.code then some s.off else s.fingerprintOffset

theorem not_trailer_of_unknown {code n : UInt16} (h : AttrCode.attrFromWire code = .unknown n) :
    isIntegrityCode code = false ∧ isFingerprintCode code = false := by
  refine ⟨?_, ?_⟩
  · rw [isIntegrityCode, decide_eq_false_iff_not]
    rintro (rfl | rfl) <;> cases h
  · rw [isFingerprintCode, decide_eq_false_iff_not]
    rintro rfl
    cases h

/-- What an attribute's kind lets through and what it records. -/
private theorem noteKind_eq_ok {s s' : ParseState} {t : Tlv}
    (hl : t.code = messageIntegritySha256Code → LegalSha256Len t.value.length) :
    noteKind s t.code t.value = .ok s' ↔ ¬ UnregisteredRequired t.code ∧
      (isIntegrityCode t.code → s.integrityLocation = none) ∧ (isFingerprintCode t.code → s.fingerprintOffset = none) ∧
      s' = { s.add t .dontFragment with off := s.off, attributes := s.attributes } := by
  cases hk : AttrCode.attrFromWire t.code with
  | unknown n =>
    obtain rfl := AttrCode.eq_of_unknown hk
    obtain ⟨hi, hf⟩ := not_trailer_of_unknown hk
    simp only [noteKind, hk, Outcome.refuse_bind_eq_ok, UnregisteredRequired, ParseState.add, unknownOf, hi, hf]
    simp [isComprehensionOptional, eq_comm]
  | known c =>
    have hc := AttrCode.asU16_of_known hk
    simp only [noteKind, hk, UnregisteredRequired, ParseState.add, unknownOf]
    cases c
    case unknown n => exact absurd hk (AttrCode.attrFromWire_ne_unknown _ n)
    case fingerprint =>
      have hi : isIntegrityCode t.code = false := by rw [← hc]; rfl
      have hf : isFingerprintCode t.code = true := by rw [← hc]; rfl
      simp [isTrailerOnly, Outcome.refuse_bind_eq_ok, hi, hf]
      exact fun _ => eq_comm
    case messageIntegrity =>
      have hi : isIntegrityCode t.code = true := by rw [← hc]; rfl
      have hf : isFingerprintCode t.code = false := by rw [← hc]; rfl
      simp [isTrailerOnly, Outcome.refuse_bind_eq_ok, hi, hf]
      exact fun _ => eq_comm
    case messageIntegritySha256 =>
      have hi : isIntegrityCode t.code = true := by rw [← hc]; rfl
      have hf : isFingerprintCode t.code = false := by rw [← hc]; rfl
      have := hl hc.symm
      simp [isTrailerOnly, Outcome.refuse_bind_eq_ok, hi, hf, this]
      exact fun _ => eq_comm
    all_goals
      have hi : isIntegrityCode t.code = false := by rw [← hc]; rfl
      have hf : isFingerprintCode t.code = false := by rw [← hc]; rfl
      simp [isTrailerOnly, hi, hf]
      exact eq_comm

/-- The conditions under which an attribute is taken, and the state it leaves. -/
theorem takeTlv_eq_ok {txid : TransactionId} {s s' : ParseState} {t : Tlv} :
    takeTlv txid s t = .ok s' ↔ ∃ a, decode txid t = .ok a ∧ ¬ UnregisteredRequired t.code ∧
      (isIntegrityCode t.code → s.integrityLocation = none) ∧ (isFingerprintCode t.code → s.fingerprintOffset = none) ∧
      s' = s.add t a := by
  rw [takeTlv, Outcome.refuse_bind_eq_ok]
  simp only [takeAttribute, Outcome.bind_eq_ok]
  constructor
  · rintro ⟨hl, a, ha, s1, hn, hs⟩
    have hl' : t.code = messageIntegritySha256Code → LegalSha256Len t.value.length := by
      simpa only [not_and, not_not] using hl
    obtain ⟨hu, hi, hf, rfl⟩ := (noteKind_eq_ok hl').mp hn
    cases hs
    exact ⟨a, ha, hu, hi, hf, rfl⟩
  · rintro ⟨a, ha, hu, hi, hf, rfl⟩
    have hl : t.code = messageIntegritySha256Code → LegalSha256Len t.value.length := by
      intro hc
      by_contra hn
      rw [decode, hc] at ha
      change parseAttributeValue (.known .messageIntegritySha256) t.value txid = _ at ha
      rw [parse_sha256_illegal txid hn] at ha
      cases ha
    exact ⟨fun h => h.2 (hl h.1), a, ha, _, (noteKind_eq_ok hl).mpr ⟨hu, hi, hf, rfl⟩, rfl⟩

def isIntegrity (t : Tlv) : Bool := isIntegrityCode t.code
def isFingerprint (t : Tlv) : Bool := isFingerprintCode t.code

def locationOf (p : Nat × Tlv) : AttributeLocation := ⟨p.1, p.2.code, p.2.value.length⟩

/-- The state after a list of accepted attributes. -/
def ParseState.addAll (s : ParseState) (ts : List Tlv) (attrs : List Attribute) : ParseState where
  off := s.off + (Tlv.encodeAll ts).length
  attributes := s.attributes ++ attrs
  unknown := s.unknown ++ ts.filterMap unknownOf
  integrityLocation := s.integrityLocation <|> (Tlv.locate isIntegrity s.off ts).map locationOf
  fingerprintOffset := s.fingerprintOffset <|> (Tlv.locate isFingerprint s.off ts).map Prod.fst

theorem ParseState.addAll_nil (s : ParseState) : s.addAll [] [] = s := by
  simp [addAll, Tlv.locate]

theorem ParseState.addAll_cons {s : ParseState} {t : Tlv} {a : Attribute} (ts : List Tlv) (attrs : List Attribute)
    (hi : isIntegrityCode t.code → s.integrityLocation = none)
    (hf : isFingerprintCode t.code → s.fingerprintOffset = none) :
    (s.add t a).addAll ts attrs = s.addAll (t :: ts) (a :: attrs) := by
  have hu : (unknownOf t).toList ++ ts.filterMap unknownOf = (t :: ts).filterMap unknownOf := by
    cases h : unknownOf t <;> simp [h]
  simp only [addAll, add, Tlv.encodeAll_cons, List.length_append, List.append_assoc, List.singleton_append, hu,
    Tlv.locate, isIntegrity, isFingerprint, Nat.add_assoc]
  congr 1
  · by_cases h : isIntegrityCode t.code
    · simp [h, hi h, locationOf]
    · simp [h]
  · by_cases h : isFingerprintCode t.code
    · simp [h, hf h]
    · simp [h]

/-- How many trailers of a kind a state has seen. -/
def seen {α : Type} (o : Option α) : Nat := if o.isSome then 1 else 0

theorem seen_or {α : Type} {b : Bool} {o : Option α} {x : α} {n : Nat} :
    (b → o = none) ∧ seen (if b then some x else o) + n ≤ 1 ↔ seen o + (n + if b then 1 else 0) ≤ 1 := by
  cases b <;> cases o <;> simp [seen]

/-- The walk takes a list exactly when every value decodes, no code is
unregistered and required, and each trailer is new. -/
theorem takeAll_eq_ok {txid : TransactionId} {ts : List Tlv} {s s' : ParseState} :
    takeAll txid s ts = .ok s' ↔ ∃ attrs, List.Forall₂ (fun t a => decode txid t = .ok a) ts attrs ∧
      (∀ t ∈ ts, ¬ UnregisteredRequired t.code) ∧ seen s.integrityLocation + ts.countP isIntegrity ≤ 1 ∧
      seen s.fingerprintOffset + ts.countP isFingerprint ≤ 1 ∧ s' = s.addAll ts attrs := by
  induction ts generalizing s with
  | nil =>
    have h1 : ∀ {α : Type} (o : Option α), seen o ≤ 1 := fun o => by cases o <;> simp [seen]
    constructor
    · rintro ⟨⟩
      exact ⟨[], .nil, by simp, h1 _, h1 _, (ParseState.addAll_nil _).symm⟩
    · rintro ⟨_, ⟨⟩, -, -, -, rfl⟩
      rw [takeAll, s.addAll_nil]
  | cons t ts ih =>
    rw [takeAll, Outcome.bind_eq_ok]
    simp only [takeTlv_eq_ok, ih, List.countP_cons, List.forall_mem_cons]
    constructor
    · rintro ⟨_, ⟨a, ha, hu, hi, hf, rfl⟩, attrs, hd, hus, hin, hfp, rfl⟩
      exact ⟨a :: attrs, .cons ha hd, ⟨hu, hus⟩, seen_or.mp ⟨hi, hin⟩, seen_or.mp ⟨hf, hfp⟩,
        ParseState.addAll_cons ts attrs hi hf⟩
    · rintro ⟨_, hd, ⟨hu, hus⟩, hin, hfp, rfl⟩
      cases hd with
      | @cons _ a _ attrs ha hd =>
        obtain ⟨hi, hin⟩ := seen_or.mpr hin
        obtain ⟨hf, hfp⟩ := seen_or.mpr hfp
        exact ⟨_, ⟨a, ha, hu, hi, hf, rfl⟩, attrs, hd, hus, hin, hfp, (ParseState.addAll_cons ts attrs hi hf).symm⟩

/-! ### Whole datagrams -/

/-- A datagram by its header fields and body. -/
def frame (msgType length : UInt16) (txid : TransactionId) (body : Bytes) : Bytes :=
  u16ToBe msgType ++ (u16ToBe length ++ (u32ToBe magicCookie ++ (txid.val ++ body)))

@[simp] theorem frame_length (msgType length : UInt16) (txid : TransactionId) (body : Bytes) :
    (frame msgType length txid body).length = 20 + body.length := by
  simp only [frame, List.length_append, u16ToBe_length, u32ToBe_length, txid.property]
  omega

theorem frame_append (msgType length : UInt16) (txid : TransactionId) (a b : Bytes) :
    frame msgType length txid (a ++ b) = frame msgType length txid a ++ b := by
  simp [frame]

/-- The header of a datagram with the magic cookie in place. -/
theorem Header.parse_frame (msgType length : UInt16) (txid : TransactionId) (body : Bytes) :
    Header.parse (frame msgType length txid body) = match MessageType.fromBits msgType with
      | some t => .ok ⟨t, length, txid⟩
      | none => .err (.new .malformedAttribute) := by
  obtain ⟨a, b, hab, rfl⟩ := u16ToBe_eq msgType
  obtain ⟨c, d, hcd, rfl⟩ := u16ToBe_eq length
  have hlen : ¬ (frame (u16FromBe a b) (u16FromBe c d) txid body).length < headerLen := by simp [headerLen]
  have hs : (slice (a :: b :: c :: d :: 33 :: 18 :: 164 :: 66 :: (txid.val ++ body)) 8 20 : Res Bytes) = .ok txid.val := by
    have := slice_append (ε := Error) [a, b, c, d, 33, 18, 164, 66] txid.val body
    simpa [txid.property] using this
  have hc : u32ToBe magicCookie = [33, 18, 164, 66] := by decide
  have hf : frame (u16FromBe a b) (u16FromBe c d) txid body =
      a :: b :: c :: d :: 33 :: 18 :: 164 :: 66 :: (txid.val ++ body) := by
    simp [frame, hab, hcd, hc]
  have hcookie : u32FromBe 33 18 164 66 = magicCookie := by decide
  rw [hf] at hlen ⊢
  rw [Header.parse, Outcome.refuse_neg hlen, Outcome.ok_bind]
  simp only [readU16, readU32, lengthOffset, octetAt_cons_zero, octetAt_cons_succ, Outcome.ok_bind, Outcome.pure_eq]
  rw [Outcome.refuse_neg (by rw [hcookie]; simp), Outcome.ok_bind, headerLen, hs, Outcome.ok_bind,
    toOctets_of_length txid.property, Outcome.ok_bind]
  cases MessageType.fromBits (u16FromBe a b) <;> rfl

def typeField (d : Bytes) : UInt16 := u16FromBe (d.getD 0 0) (d.getD 1 0)
def lengthField (d : Bytes) : UInt16 := u16FromBe (d.getD 2 0) (d.getD 3 0)
def txidField (d : Bytes) (h : 20 ≤ d.length) : TransactionId := ⟨(d.drop 8).take 12, by simp; omega⟩

private theorem exists_eight {d : Bytes} (h : 20 ≤ d.length) :
    ∃ x0 x1 x2 x3 x4 x5 x6 x7 rest, d = x0 :: x1 :: x2 :: x3 :: x4 :: x5 :: x6 :: x7 :: rest ∧ 12 ≤ rest.length := by
  obtain ⟨x0, x1, x2, x3, r, rfl⟩ := exists_four (b := d) (by omega)
  simp only [List.length_cons] at h
  obtain ⟨x4, x5, x6, x7, rest, rfl⟩ := exists_four (b := r) (by omega)
  simp only [List.length_cons] at h
  exact ⟨x0, x1, x2, x3, x4, x5, x6, x7, rest, rfl, by omega⟩

/-- Twenty octets with the cookie in place are a header. -/
theorem eq_frame {d : Bytes} (h : 20 ≤ d.length) (hc : (d.drop 4).take 4 = magicCookieOctets) :
    d = frame (typeField d) (lengthField d) (txidField d h) (d.drop 20) := by
  obtain ⟨x0, x1, x2, x3, x4, x5, x6, x7, rest, rfl, -⟩ := exists_eight h
  have hm : u32ToBe magicCookie = magicCookieOctets := by decide
  simp only [List.drop_succ_cons, List.drop_zero, List.take_succ_cons, List.take_zero] at hc
  rw [frame, hm, ← hc]
  simp [typeField, lengthField, txidField, u16ToBe_fromBe]

/-- The header parser never panics, and reads exactly the frames whose reserved
type bits are clear. -/
theorem Header.parse_cases (d : Bytes) : (∃ e, Header.parse d = .err e) ∨
    ∃ ty len txid body t, MessageType.fromBits ty = some t ∧ d = frame ty len txid body := by
  by_cases h20 : d.length < headerLen
  · left
    rw [Header.parse, Outcome.refuse_pos h20]
    exact ⟨_, rfl⟩
  obtain ⟨x0, x1, x2, x3, x4, x5, x6, x7, rest, hd, -⟩ := exists_eight (Nat.le_of_not_lt h20)
  by_cases hc : u32FromBe x4 x5 x6 x7 = magicCookie
  · have hm : [x4, x5, x6, x7] = magicCookieOctets := by
      rw [← u32ToBe_fromBe, hc]
      decide
    have hf := eq_frame (Nat.le_of_not_lt h20) (by rw [hd]; simpa using hm)
    cases ht : MessageType.fromBits (typeField d) with
    | some t => exact .inr ⟨_, _, _, _, t, ht, hf⟩
    | none =>
      left
      rw [hf, Header.parse_frame, ht]
      exact ⟨_, rfl⟩
  · left
    subst hd
    rw [Header.parse, Outcome.refuse_neg h20]
    simp only [readU16, readU32, lengthOffset, octetAt_cons_zero, octetAt_cons_succ, Outcome.ok_bind, Outcome.pure_eq]
    rw [Outcome.refuse_pos hc]
    exact ⟨_, rfl⟩

/-- What the attribute list of an accepted datagram satisfies. -/
structure Accepts (txid : TransactionId) (ts : List Tlv) (attrs : List Attribute) : Prop where
  decoded : List.Forall₂ (fun t a => decode txid t = .ok a) ts attrs
  required : ∀ t ∈ ts, ¬ UnregisteredRequired t.code
  integrity : ts.countP isIntegrity ≤ 1
  fingerprint : ts.countP isFingerprint ≤ 1
  last : ∀ pre t post, ts = pre ++ t :: post → isFingerprint t → post = []

/-- The message an accepted datagram parses to. -/
def messageOf (t : MessageType) (txid : TransactionId) (datagram : Bytes) (ts : List Tlv) (attrs : List Attribute) :
    Message where
  header := ⟨t, UInt16.ofNat (Tlv.encodeAll ts).length, txid⟩
  txid := txid
  datagramBytes := datagram
  attributes := attrs
  unknown := ts.filterMap unknownOf
  integrityLocation := (Tlv.locate isIntegrity 20 ts).map locationOf
  fingerprintOffset := (Tlv.locate isFingerprint 20 ts).map Prod.fst

theorem ParseState.addAll_init (ts : List Tlv) (attrs : List Attribute) : ParseState.init.addAll ts attrs =
    ⟨20 + (Tlv.encodeAll ts).length, attrs, ts.filterMap unknownOf, (Tlv.locate isIntegrity 20 ts).map locationOf,
      (Tlv.locate isFingerprint 20 ts).map Prod.fst⟩ := by
  simp [addAll, init, headerLen]

theorem exists_of_forall₂ {txid : TransactionId} {ts : List Tlv} {attrs : List Attribute}
    (h : List.Forall₂ (fun t a => decode txid t = .ok a) ts attrs) {t : Tlv} (ht : t ∈ ts) :
    ∃ a ∈ attrs, decode txid t = .ok a := by
  induction h with
  | nil => cases ht
  | @cons u a ts attrs hu _ ih =>
    rcases List.mem_cons.mp ht with rfl | ht
    · exact ⟨a, by simp, hu⟩
    · obtain ⟨b, hb, h⟩ := ih ht
      exact ⟨b, by simp [hb], h⟩

theorem fingerprint_value_length {txid : TransactionId} {t : Tlv} {a : Attribute} (h : decode txid t = .ok a)
    (hf : isFingerprint t) : t.value.length = 4 := by
  have hc : t.code = fingerprintCode := by simpa [isFingerprint, isFingerprintCode] using hf
  rw [decode, hc] at h
  change parseAttributeValue (.known .fingerprint) t.value txid = _ at h
  obtain ⟨v, hv, -⟩ := Outcome.map_eq_ok.mp h
  rw [exactU32_eq_ok.mp hv, u32ToBe_length]

theorem fingerprint_encode_length {txid : TransactionId} {t : Tlv} {a : Attribute} (h : decode txid t = .ok a)
    (hf : isFingerprint t) : t.encode.length = 8 := by
  rw [t.encode_length, fingerprint_value_length h hf]
  rfl

/-- The position check after the loop asks for nothing after the FINGERPRINT. -/
private theorem fingerprint_last {txid : TransactionId} {ts : List Tlv} {attrs : List Attribute}
    (hd : List.Forall₂ (fun t a => decode txid t = .ok a) ts attrs) (h1 : ts.countP isFingerprint ≤ 1) :
    checkFingerprintLast ((Tlv.locate isFingerprint 20 ts).map Prod.fst) (20 + (Tlv.encodeAll ts).length) = .ok () ↔
      ∀ pre t post, ts = pre ++ t :: post → isFingerprint t → post = [] := by
  constructor
  · rintro h pre t post rfl ht
    have hloc : Tlv.locate isFingerprint 20 (pre ++ t :: post) = some (20 + (Tlv.encodeAll pre).length, t) :=
      Tlv.locate_eq_some.mpr ⟨pre, post, rfl, Tlv.none_before h1 ht, ht, rfl⟩
    have hfp : 20 + (Tlv.encodeAll pre).length + 8 = 20 + (Tlv.encodeAll (pre ++ t :: post)).length := by
      rw [hloc] at h
      exact not_not.mp (Outcome.refuse_eq_ok.mp h)
    obtain ⟨a, -, ha⟩ := exists_of_forall₂ hd (t := t) (by simp)
    have h8 := fingerprint_encode_length ha ht
    have hpost := Tlv.four_mul_length_le post
    rw [Tlv.encodeAll_append, Tlv.encodeAll_cons, List.length_append, List.length_append] at hfp
    exact List.eq_nil_of_length_eq_zero (by omega)
  · intro h
    cases hloc : Tlv.locate isFingerprint 20 ts with
    | none => rfl
    | some p =>
      obtain ⟨pre, post, rfl, -, ht, ho⟩ := Tlv.locate_eq_some.mp hloc
      obtain rfl := h pre p.2 post rfl ht
      obtain ⟨a, -, ha⟩ := exists_of_forall₂ hd (t := p.2) (by simp)
      have h8 := fingerprint_encode_length ha ht
      refine Outcome.refuse_eq_ok.mpr (not_not.mpr ?_)
      rw [ho, Tlv.encodeAll_append, Tlv.encodeAll_cons, List.length_append, List.length_append, Tlv.encodeAll_nil,
        List.length_nil]
      omega

/-- The fold accepts from the initial state what `Accepts` says, up to the final
position check. -/
theorem takeAll_init {txid : TransactionId} {ts : List Tlv} {s : ParseState} :
    takeAll txid .init ts = .ok s ↔ ∃ attrs, List.Forall₂ (fun t a => decode txid t = .ok a) ts attrs ∧
      (∀ t ∈ ts, ¬ UnregisteredRequired t.code) ∧ ts.countP isIntegrity ≤ 1 ∧ ts.countP isFingerprint ≤ 1 ∧
      s = ParseState.init.addAll ts attrs := by
  rw [takeAll_eq_ok]
  simp [seen, ParseState.init]

private theorem frame_eq_append (ty len : UInt16) (txid : TransactionId) (body : Bytes) :
    frame ty len txid body = frame ty len txid [] ++ body := by
  rw [← frame_append, List.nil_append]

/-- The attribute cap is never reached: a body that fits the length field holds at
most a quarter as many attributes as octets. -/
theorem parseLoop_frame {ty len : UInt16} {txid : TransactionId} {ts : List Tlv}
    (h : (Tlv.encodeAll ts).length < 65536) :
    parseLoop (frame ty len txid (Tlv.encodeAll ts)) txid Fingerprint.maxAttributeCount .init =
      takeAll txid .init ts := by
  have h4 := Tlv.four_mul_length_le ts
  rw [frame_eq_append]
  refine parseLoop_encodeAll (by simp [ParseState.init, headerLen]) ?_ (by rw [Fingerprint.maxAttributeCount]; omega)
  rw [List.length_append, frame_length]
  simp only [List.length_nil]; omega

theorem parseLoop_frame_stuck (ty len : UInt16) (txid : TransactionId) {ts : List Tlv} {tail : Bytes}
    (ht : Tlv.Stuck tail) (h : (Tlv.encodeAll ts ++ tail).length < 65536) :
    ∃ e, parseLoop (frame ty len txid (Tlv.encodeAll ts ++ tail)) txid Fingerprint.maxAttributeCount .init =
      takeAll txid .init ts >>= fun _ => .err e := by
  have h4 := Tlv.four_mul_length_le ts
  rw [List.length_append] at h
  rw [frame_eq_append]
  refine parseLoop_stuck ht (by simp [ParseState.init, headerLen]) ?_ (by rw [Fingerprint.maxAttributeCount]; omega)
  simp only [List.length_append, frame_length, List.length_nil]
  omega

/-- `parse` past a readable header. -/
theorem parse_frame {ty len : UInt16} {txid : TransactionId} {body : Bytes} {t : MessageType}
    (ht : MessageType.fromBits ty = some t) :
    parse (frame ty len txid body) = (do
      .refuse (body.length ≠ len.toNat) (.new .lengthMismatch)
      let s ← parseLoop (frame ty len txid body) txid Fingerprint.maxAttributeCount .init
      checkFingerprintLast s.fingerprintOffset (20 + body.length)
      return ⟨⟨t, len, txid⟩, txid, frame ty len txid body, s.attributes, s.unknown, s.integrityLocation,
        s.fingerprintOffset⟩) := by
  rw [parse, Header.parse_frame, ht]
  simp only [Outcome.ok_bind, Header.totalLen, frame_length, headerLen]
  congr 2
  exact propext (not_congr Nat.add_left_cancel_iff)

/-- **The grammar of `parse`**: a datagram is accepted exactly when it is a frame
around a list of attributes that `Accepts` admits, and the message is then read off
that list. -/
theorem parse_eq_ok {d : Bytes} {m : Message} : parse d = .ok m ↔ ∃ ty t txid ts attrs,
    MessageType.fromBits ty = some t ∧ (Tlv.encodeAll ts).length < 65536 ∧
    d = frame ty (UInt16.ofNat (Tlv.encodeAll ts).length) txid (Tlv.encodeAll ts) ∧ Accepts txid ts attrs ∧
    m = messageOf t txid d ts attrs := by
  constructor
  · intro h
    rcases Header.parse_cases d with ⟨e, he⟩ | ⟨ty, len, txid, body, t, ht, rfl⟩
    · rw [parse, he] at h
      cases h
    · rw [parse_frame ht, Outcome.refuse_bind_eq_ok, not_not] at h
      obtain ⟨hlen, h⟩ := h
      obtain ⟨s, hs, h⟩ := Outcome.bind_eq_ok.mp h
      have hb : body.length < 65536 := hlen ▸ len.toNat_lt
      obtain ⟨ts, tail, rfl, rfl | hstuck⟩ := Tlv.exists_reading body
      swap
      · obtain ⟨e, he⟩ := parseLoop_frame_stuck ty len txid hstuck hb
        rw [he] at hs
        obtain ⟨s', -, hs⟩ := Outcome.bind_eq_ok.mp hs
        cases hs
      rw [List.append_nil] at *
      rw [parseLoop_frame hb] at hs
      obtain ⟨attrs, hd, hu, hi, hf, rfl⟩ := takeAll_init.mp hs
      rw [ParseState.addAll_init] at h
      obtain ⟨_, hfp, h⟩ := Outcome.bind_eq_ok.mp h
      have hlen' : len = UInt16.ofNat (Tlv.encodeAll ts).length := by rw [hlen, UInt16.ofNat_toNat]
      refine ⟨ty, t, txid, ts, attrs, ht, hb, by rw [← hlen'], ⟨hd, hu, hi, hf, ?_⟩, ?_⟩
      · exact (fingerprint_last hd hf).mp hfp
      · cases h
        rw [messageOf, ← hlen']
  · rintro ⟨ty, t, txid, ts, attrs, ht, hb, rfl, ⟨hd, hu, hi, hf, hl⟩, rfl⟩
    have hlen : (UInt16.ofNat (Tlv.encodeAll ts).length).toNat = (Tlv.encodeAll ts).length := by
      rw [UInt16.toNat_ofNat', Nat.mod_eq_of_lt hb]
    have hs := takeAll_init.mpr ⟨attrs, hd, hu, hi, hf, rfl⟩
    rw [parse_frame ht, Outcome.refuse_neg (by rw [hlen]; simp), Outcome.ok_bind, parseLoop_frame hb, hs,
      Outcome.ok_bind, ParseState.addAll_init]
    rw [(fingerprint_last hd hf).mpr hl]
    rfl

end QuickRelay.Protocol
