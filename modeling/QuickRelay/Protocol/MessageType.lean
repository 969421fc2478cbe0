import Mathlib.Tactic.IntervalCases
import Mathlib.Tactic.Common

/-! The 16-bit message type: a 12-bit method number interleaved with two class bits. -/
namespace QuickRelay.Protocol

inductive Class where
  | request
  | indication
  | successResponse
  | errorResponse
  deriving DecidableEq, Repr

def classMask : UInt16 := 0x0110
def reserveBits : UInt16 := 0xC000
def methodABits : UInt16 := 0x000F
def methodBBits : UInt16 := 0x0070
def methodDBits : UInt16 := 0x0F80

namespace Class

def fromBits (bits : UInt16) : Option Class :=
  match bits &&& classMask with
  | 0x0000 => some .request
  | 0x0010 => some .indication
  | 0x0100 => some .successResponse
  | 0x0110 => some .errorResponse
  | _ => none

def bits : Class → UInt16
  | .request => 0x0000
  | .indication => 0x0010
  | .successResponse => 0x0100
  | .errorResponse => 0x0110

end Class

inductive Method where
  | binding
  | allocate
  | refresh
  | send
  | data
  | createPermission
  | channelBind
  | connect
  | connectionBind
  | connectionAttempt
  | unknown (number : UInt16)
  deriving DecidableEq, Repr

namespace Method

def bits : Method → UInt16
  | .binding => 0x001
  | .allocate => 0x003
  | .refresh => 0x004
  | .send => 0x006
  | .data => 0x007
  | .createPermission => 0x008
  | .channelBind => 0x009
  | .connect => 0x00A
  | .connectionBind => 0x00B
  | .connectionAttempt => 0x00C
  | .unknown n => n

def fromBits (bits : UInt16) : Method :=
  match bits with
  | 0x001 => .binding
  | 0x003 => .allocate
  | 0x004 => .refresh
  | 0x006 => .send
  | 0x007 => .data
  | 0x008 => .createPermission
  | 0x009 => .channelBind
  | 0x00A => .connect
  | 0x00B => .connectionBind
  | 0x00C => .connectionAttempt
  | n => .unknown n

/-- Decoding loses no method number. -/
theorem bits_fromBits (n : UInt16) : (fromBits n).bits = n := by
  unfold fromBits
  split <;> rfl

end Method

structure MessageType where
  method : Method
  cls : Class
  deriving DecidableEq, Repr

namespace MessageType

def bindingRequest : MessageType := ⟨.binding, .request⟩
def bindingSuccess : MessageType := ⟨.binding, .successResponse⟩
def bindingError : MessageType := ⟨.binding, .errorResponse⟩

def bits (t : MessageType) : UInt16 :=
  let m := t.method.bits
  (m &&& methodABits) ||| (((m >>> 4) &&& 0x07) <<< 5) ||| (((m >>> 7) &&& 0x1F) <<< 9) ||| t.cls.bits

def fromBits (bits : UInt16) : Option MessageType :=
  if bits &&& reserveBits ≠ 0 then none
  else match Class.fromBits bits with
    | none => none
    | some c =>
      let methodBits := (bits &&& methodABits) ||| ((bits >>> 1) &&& methodBBits) ||| ((bits >>> 2) &&& methodDBits)
      some ⟨Method.fromBits methodBits, c⟩

def fromMethodAndClass (methodBits : UInt16) (c : Class) : MessageType := ⟨Method.fromBits methodBits, c⟩

theorem fromMethodAndClass_bits (t : MessageType) : (fromMethodAndClass t.method.bits t.cls).bits = t.bits := by
  rw [bits, bits, fromMethodAndClass, Method.bits_fromBits]

/-! ### The two field layouts undo each other -/

private theorem classBits_cases (x : BitVec 16) :
    x &&& 0x0110#16 = 0x0000#16 ∨ x &&& 0x0110#16 = 0x0010#16 ∨ x &&& 0x0110#16 = 0x0100#16 ∨
      x &&& 0x0110#16 = 0x0110#16 := by
  have e : x &&& 0x0110#16 = (if x[4] then 0x0010#16 else 0) ||| (if x[8] then 0x0100#16 else 0) := by
    apply BitVec.eq_of_getElem_eq
    intro i hi
    interval_cases i <;> cases h4 : x[4] <;> cases h8 : x[8] <;> simp [*]
  rw [e]
  cases x[4] <;> cases x[8] <;> decide

/-- The two class bits always name a class. -/
theorem class_isSome (b : UInt16) : ∃ c, Class.fromBits b = some c := by
  have h : ∀ v : UInt16, b &&& classMask = v ↔ b.toBitVec &&& 0x0110#16 = v.toBitVec := fun v => by
    rw [← UInt16.toBitVec_inj]; rfl
  rcases classBits_cases b.toBitVec with hb | hb | hb | hb
  · exact ⟨.request, by simp [Class.fromBits, (h 0x0000).mpr hb]⟩
  · exact ⟨.indication, by simp [Class.fromBits, (h 0x0010).mpr hb]⟩
  · exact ⟨.successResponse, by simp [Class.fromBits, (h 0x0100).mpr hb]⟩
  · exact ⟨.errorResponse, by simp [Class.fromBits, (h 0x0110).mpr hb]⟩

/-- Only the two reserved bits can make a message type unreadable. -/
theorem fromBits_isSome_iff (b : UInt16) : (∃ t, fromBits b = some t) ↔ b &&& reserveBits = 0 := by
  obtain ⟨c, hc⟩ := class_isSome b
  by_cases h : b &&& reserveBits = 0 <;> simp [fromBits, hc, h]

private theorem highBits_clear {m : BitVec 16} (h : m.toNat < 4096) :
    m[12] = false ∧ m[13] = false ∧ m[14] = false ∧ m[15] = false := by
  have hb : ∀ i, 12 ≤ i → m.toNat.testBit i = false := fun i hi =>
    Nat.testBit_lt_two_pow (lt_of_lt_of_le h (by simpa using Nat.pow_le_pow_right (n := 2) (by omega) hi))
  refine ⟨?_, ?_, ?_, ?_⟩ <;> rw [← BitVec.getLsbD_eq_getElem, ← BitVec.testBit_toNat] <;> exact hb _ (by omega)

/-- A class sets its own two bits only. -/
private theorem classBits_clear {x : BitVec 16} (hx : x = 0x0000#16 ∨ x = 0x0010#16 ∨ x = 0x0100#16 ∨ x = 0x0110#16)
    {i : Nat} (hi : i < 16) (h4 : i ≠ 4) (h8 : i ≠ 8) : x[i] = false := by
  rcases hx with rfl | rfl | rfl | rfl
  all_goals
    revert i
    decide

/-- The field of a message type, on bit vectors. -/
private def spread (m c : BitVec 16) : BitVec 16 :=
  (m &&& 0xF#16) ||| (((m >>> 4) &&& 0x7#16) <<< 5) ||| (((m >>> 7) &&& 0x1F#16) <<< 9) ||| c

private theorem gather_spread {m c : BitVec 16} (h : m.toNat < 4096)
    (hc : c = 0x0000#16 ∨ c = 0x0010#16 ∨ c = 0x0100#16 ∨ c = 0x0110#16) :
    spread m c &&& 0xC000#16 = 0#16 ∧ spread m c &&& 0x0110#16 = c ∧
      (spread m c &&& 0xF#16) ||| ((spread m c >>> 1) &&& 0x70#16) ||| ((spread m c >>> 2) &&& 0xF80#16) = m := by
  obtain ⟨h12, h13, h14, h15⟩ := highBits_clear h
  have hclear := @classBits_clear c hc
  unfold spread
  refine ⟨?_, ?_, ?_⟩ <;>
  · apply BitVec.eq_of_getElem_eq
    intro i hi
    interval_cases i <;> simp [h12, h13, h14, h15, hclear]

private theorem bits_toBitVec (t : MessageType) :
    t.bits.toBitVec = spread t.method.bits.toBitVec t.cls.bits.toBitVec := rfl

/-- A 12-bit method number and a class come back from the field they encode to. -/
theorem fromBits_bits (t : MessageType) (h : t.method.bits.toNat < 4096) :
    fromBits t.bits = some (fromMethodAndClass t.method.bits t.cls) := by
  have hc : t.cls.bits.toBitVec = 0x0000#16 ∨ t.cls.bits.toBitVec = 0x0010#16 ∨
      t.cls.bits.toBitVec = 0x0100#16 ∨ t.cls.bits.toBitVec = 0x0110#16 := by
    cases t.cls <;> decide
  obtain ⟨hr, hm, hg⟩ := gather_spread (m := t.method.bits.toBitVec) h hc
  rw [← bits_toBitVec] at hr hm hg
  have hres : t.bits &&& reserveBits = 0 := UInt16.toBitVec_inj.mp hr
  have hcls : t.bits &&& classMask = t.cls.bits := UInt16.toBitVec_inj.mp hm
  have hmeth : (t.bits &&& methodABits) ||| ((t.bits >>> 1) &&& methodBBits) ||| ((t.bits >>> 2) &&& methodDBits)
      = t.method.bits := UInt16.toBitVec_inj.mp hg
  have hfrom : Class.fromBits t.bits = some t.cls := by
    rw [Class.fromBits, hcls]
    cases t.cls <;> rfl
  simp only [fromBits, hres, hfrom, hmeth, fromMethodAndClass, ne_eq, not_true_eq_false, if_false]

end MessageType
end QuickRelay.Protocol
