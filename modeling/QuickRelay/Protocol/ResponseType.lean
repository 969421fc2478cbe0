import QuickRelay.Protocol.MessageType

/-! The rest of the message type: every field without the reserved bits is the encoding of one
type, and the types that answer a request. -/
namespace QuickRelay.Protocol

namespace Class

def isRequest (c : Class) : Bool := c.bits = Class.request.bits
def isIndication (c : Class) : Bool := c.bits = Class.indication.bits
def isResponse (c : Class) : Bool := c matches .successResponse | .errorResponse

end Class

namespace MessageType

def isRequest (t : MessageType) : Bool := t.cls.isRequest

/-- The type of a response, or none if nothing answers this type. -/
def responseType (cls : Class) (t : MessageType) : Option MessageType :=
  if t.cls.isResponse || t.cls.isIndication then none else some ⟨t.method, cls⟩

def successResponseType (t : MessageType) : Option MessageType := t.responseType .successResponse
def errorResponseType (t : MessageType) : Option MessageType := t.responseType .errorResponse
def canReply420 (t : MessageType) : Bool := !t.cls.isResponse && !t.cls.isIndication
def unknownAttributeReplyType (t : MessageType) : Option MessageType := t.responseType .errorResponse

/-! ### The field from its parts -/

/-- The method number in a field, on bit vectors. -/
private def gather (b : BitVec 16) : BitVec 16 := (b &&& 0xF#16) ||| ((b >>> 1) &&& 0x70#16) ||| ((b >>> 2) &&& 0xF80#16)

private theorem gather_lt (b : BitVec 16) : (gather b).toNat < 4096 := by
  have h : gather b = gather b &&& 0xFFF#16 := by
    unfold gather
    apply BitVec.eq_of_getElem_eq
    intro i hi
    interval_cases i <;> simp
  rw [h, BitVec.toNat_and]
  exact Nat.lt_succ_of_le Nat.and_le_right

private theorem clear_high {b : BitVec 16} (h : b &&& 0xC000#16 = 0#16) : b[14] = false ∧ b[15] = false := by
  have hbit : ∀ i (hi : i < 16), (b &&& 0xC000#16)[i] = false := fun i hi => by rw [h]; simp
  exact ⟨by simpa using hbit 14 (by decide), by simpa using hbit 15 (by decide)⟩

private theorem spread_gather {b : BitVec 16} (h : b &&& 0xC000#16 = 0#16) :
    ((gather b &&& 0xF#16) ||| (((gather b >>> 4) &&& 0x7#16) <<< 5) ||| (((gather b >>> 7) &&& 0x1F#16) <<< 9)) |||
      (b &&& 0x0110#16) = b := by
  obtain ⟨h14, h15⟩ := clear_high h
  unfold gather
  apply BitVec.eq_of_getElem_eq
  intro i hi
  interval_cases i <;> simp [h14, h15]

/-- A class is read off the two bits it sets. -/
theorem classBits_of_fromBits {b : UInt16} {c : Class} (h : Class.fromBits b = some c) : c.bits = b &&& classMask := by
  unfold Class.fromBits at h
  split at h
  all_goals
    cases h
  all_goals
    rename_i heq
    rw [heq]
    rfl

/-- A field that is read is the encoding of what it is read as. -/
theorem bits_of_fromBits {b : UInt16} {t : MessageType} (h : fromBits b = some t) :
    t.bits = b ∧ t.method.bits.toNat < 4096 ∧ Method.fromBits t.method.bits = t.method := by
  have hres : b &&& reserveBits = 0 := (fromBits_isSome_iff b).mp ⟨t, h⟩
  obtain ⟨c, hc⟩ := class_isSome b
  simp only [fromBits, hres, hc, ne_eq, not_true_eq_false, if_false, Option.some.injEq] at h
  subst h
  have hcls := classBits_of_fromBits hc
  rw [bits, Method.bits_fromBits, hcls]
  exact ⟨UInt16.toBitVec_inj.mp (spread_gather (UInt16.toBitVec_inj.mpr hres)), gather_lt b.toBitVec, rfl⟩

/-! ### Requests and their responses -/

/-- A request's class sets no bits. -/
theorem isRequest_iff {b : UInt16} {t : MessageType} (h : fromBits b = some t) : t.isRequest ↔ b &&& classMask = 0 := by
  have hcls : t.cls.bits = b &&& classMask := by
    obtain ⟨c, hc⟩ := class_isSome b
    have hres : b &&& reserveBits = 0 := (fromBits_isSome_iff b).mp ⟨t, h⟩
    simp only [fromBits, hres, hc, ne_eq, not_true_eq_false, if_false, Option.some.injEq] at h
    subst h
    exact classBits_of_fromBits hc
  rw [← hcls, isRequest, Class.isRequest]
  cases t.cls <;> decide

theorem canReply420_eq (t : MessageType) : t.canReply420 = t.isRequest := by
  rw [canReply420, isRequest]
  cases t.cls <;> rfl

/-- Requests are answered, by the type that adds the bits of the response's class. -/
theorem responseType_eq_some {cls : Class} {t r : MessageType} :
    t.responseType cls = some r ↔ t.isRequest ∧ r = ⟨t.method, cls⟩ := by
  rw [responseType, isRequest]
  cases t.cls <;> simp [Class.isResponse, Class.isIndication, Class.isRequest, Class.bits, eq_comm]

theorem response_bits {cls : Class} {t : MessageType} (h : t.isRequest) : (MessageType.mk t.method cls).bits = t.bits ||| cls.bits := by
  have hcls : t.cls.bits = 0 := by
    rw [isRequest, Class.isRequest] at h
    exact of_decide_eq_true h
  rw [bits, bits, hcls]
  simp

/-- What answers the type in a field: a type that reads back from its own field, and that
nothing answers. -/
theorem response_reads {b : UInt16} {cls : Class} {t r : MessageType} (h : fromBits b = some t) (hr : t.responseType cls = some r)
    (hcls : cls.isResponse) : r.bits = b ||| cls.bits ∧ fromBits r.bits = some r ∧ ∀ c, r.responseType c = none := by
  obtain ⟨hreq, rfl⟩ := responseType_eq_some.mp hr
  obtain ⟨hb, hlt, hcanon⟩ := bits_of_fromBits h
  refine ⟨by rw [response_bits hreq, hb], ?_, fun c => ?_⟩
  · rw [fromBits_bits ⟨t.method, cls⟩ hlt, fromMethodAndClass]
    dsimp only
    rw [hcanon]
  · rw [responseType, hcls]
    rfl

/-- Two requests with a response in common are the same. -/
theorem response_inj {b b' : UInt16} {cls cls' : Class} {t t' r : MessageType} (h : fromBits b = some t) (h' : fromBits b' = some t')
    (hr : t.responseType cls = some r) (hr' : t'.responseType cls' = some r) : cls = cls' ∧ b = b' := by
  obtain ⟨hreq, rfl⟩ := responseType_eq_some.mp hr
  obtain ⟨hreq', heq⟩ := responseType_eq_some.mp hr'
  obtain ⟨hmethod, hcls⟩ := MessageType.mk.inj heq
  obtain ⟨m, c⟩ := t
  obtain ⟨m', c'⟩ := t'
  dsimp only at hmethod
  subst hmethod
  have hc : ∀ {c : Class}, (MessageType.mk m c).isRequest → c = .request := fun {c} hc => by
    cases c <;> first | rfl | cases hc
  obtain rfl := hc hreq
  obtain rfl := hc hreq'
  exact ⟨hcls, (bits_of_fromBits h).1.symm.trans (bits_of_fromBits h').1⟩

/-- **Message types**: a 16-bit field that is read is the encoding of exactly the type it is read
as; a type is answered, by a success, an error or a 420, exactly if no class bit of its field is
set; the answers' fields are that one with the class bits added, they read back, nothing answers
them, and no two fields share one. -/
theorem fields_answered {b : UInt16} {t : MessageType} (h : fromBits b = some t) :
    t.bits = b ∧ (t.canReply420 ↔ b &&& classMask = 0) ∧ t.unknownAttributeReplyType = t.errorResponseType ∧
    (∀ cls ∈ [Class.successResponse, Class.errorResponse], ((∃ r, t.responseType cls = some r) ↔ b &&& classMask = 0) ∧
      ∀ r, t.responseType cls = some r → r.bits = b ||| cls.bits ∧ fromBits r.bits = some r ∧
        r.successResponseType = none ∧ r.errorResponseType = none ∧ ¬ r.canReply420 ∧
        ∀ b' t' cls', fromBits b' = some t' → t'.responseType cls' = some r → b' = b) := by
  refine ⟨(bits_of_fromBits h).1, by rw [canReply420_eq, isRequest_iff h], rfl, fun cls hcls => ⟨?_, fun r hr => ?_⟩⟩
  · simp only [responseType_eq_some, exists_and_left, exists_eq, and_true]
    exact isRequest_iff h
  · have hresp : cls.isResponse := by
      rcases List.mem_cons.mp hcls with rfl | hcls
      · rfl
      · rw [List.mem_singleton.mp hcls]
        rfl
    obtain ⟨hbits, hread, hnone⟩ := response_reads h hr hresp
    refine ⟨hbits, hread, hnone _, hnone _, ?_, fun b' t' cls' h' hr' => (response_inj h h' hr hr').2.symm⟩
    rw [canReply420_eq]
    intro hreq
    cases (hnone .successResponse).symm.trans (responseType_eq_some.mpr ⟨hreq, rfl⟩)

/-- The Allocate request. -/
theorem allocate_answered : (MessageType.mk .allocate .request).canReply420 ↔ (0x0003 : UInt16) &&& classMask = 0 :=
  (fields_answered (b := 0x0003) (t := ⟨.allocate, .request⟩) (by decide)).2.1

end MessageType
end QuickRelay.Protocol
