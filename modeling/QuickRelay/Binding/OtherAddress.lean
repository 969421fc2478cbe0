import QuickRelay.Binding.Ice

/-! The decision's decoder and encoder of OTHER-ADDRESS values, inverse to each other. -/
namespace QuickRelay.Binding
open Lib

namespace IpFamily

@[simp] theorem fromCode_code (f : IpFamily) : fromCode f.code = some f := by
  cases f <;> rfl

theorem code_of_fromCode {x : UInt8} {f : IpFamily} (h : fromCode x = some f) : f.code = x := by
  unfold fromCode at h
  split at h <;> cases h <;> rfl

theorem octets_le (f : IpFamily) : f.octets ≤ 16 := by
  cases f <;> decide

end IpFamily

namespace OtherAddress

/-- The octets behind an IPv4 address are zero, as a decoder leaves them. -/
def Padded (o : OtherAddress) : Prop := o.address.val.drop o.family.octets = zeros (16 - o.family.octets)

theorem toValue_length (o : OtherAddress) : (otherAddressToValue o).length = 4 + o.family.octets := by
  have := o.family.octets_le
  simp only [otherAddressToValue, List.length_cons, List.length_append, u16ToBe_length, List.length_take,
    o.address.property]
  omega

theorem pad_length {f : IpFamily} {body : Bytes} (h : body.length = f.octets) :
    (body ++ zeros (16 - f.octets)).length = 16 := by
  rw [List.length_append, zeros_length, h, Nat.add_sub_cancel' f.octets_le]

/-- An address whose octets are continued with zeros. -/
def pad (f : IpFamily) (port : UInt16) (body : Bytes) (h : body.length = f.octets) : OtherAddress :=
  ⟨f, port, ⟨body ++ zeros (16 - f.octets), pad_length h⟩⟩

theorem padded_pad {f : IpFamily} {port : UInt16} {body : Bytes} (h : body.length = f.octets) :
    (pad f port body h).Padded := by
  simp only [Padded, pad, ← h, List.drop_left]

theorem toValue_pad {f : IpFamily} {port : UInt16} {body : Bytes} (h : body.length = f.octets) :
    otherAddressToValue (pad f port body h) = 0 :: f.code :: (u16ToBe port ++ body) := by
  simp only [otherAddressToValue, pad, ← h, List.take_left]

theorem pad_eq {o : OtherAddress} (h : o.Padded) (hl : (o.address.val.take o.family.octets).length = o.family.octets) :
    pad o.family o.port (o.address.val.take o.family.octets) hl = o := by
  have ha : o.address.val.take o.family.octets ++ zeros (16 - o.family.octets) = o.address.val := by
    rw [← h, List.take_append_drop]
  cases o
  simp only [pad, OtherAddress.mk.injEq, true_and]
  exact Subtype.ext ha

end OtherAddress

open OtherAddress

/-- A value with the length of its family is decoded. -/
theorem otherAddressFromValue_append {f : IpFamily} {body : Bytes} (h : body.length = f.octets) (port : UInt16) :
    otherAddressFromValue (0 :: f.code :: (u16ToBe port ++ body)) = .ok (pad f port body h) := by
  obtain ⟨x, y, hp, rfl⟩ := u16ToBe_eq port
  have hs : (slice (0 :: f.code :: x :: y :: body) 4 (4 + f.octets) : Outcome Unit Bytes) = .ok body := by
    rw [slice_of_le (by omega) (by simp only [List.length_cons]; omega)]
    simp [← h]
  have hc : (copyInto (zeros 16) 0 f.octets body : Outcome Unit Bytes) = .ok (body ++ zeros (16 - f.octets)) := by
    rw [copyInto_of_le (Nat.zero_le _) (by simpa using f.octets_le) (by omega)]
    simp
  have hr : (readU16 (0 :: f.code :: x :: y :: body) 2 : Outcome Unit UInt16) = .ok (u16FromBe x y) := rfl
  rw [hp, List.cons_append, List.cons_append, List.nil_append, otherAddressFromValue,
    Outcome.refuse_neg (by simp), Outcome.ok_bind, octetAt_cons_zero, Outcome.ok_bind,
    Outcome.refuse_neg (by simp), Outcome.ok_bind]
  simp only [List.getElem?_cons_succ, List.getElem?_cons_zero, Option.bind_some, IpFamily.fromCode_code,
    Outcome.okOr, Outcome.ok_bind]
  rw [Outcome.refuse_neg (by simp only [List.length_cons]; omega), Outcome.ok_bind, hs, Outcome.ok_bind,
    hc, Outcome.ok_bind, hr, Outcome.ok_bind, toOctets_of_length (pad_length h)]
  rfl

/-- The decision's decoder never panics, and what it accepts has the length of its family. -/
theorem otherAddressFromValue_cases (v : Bytes) : otherAddressFromValue v = .err () ∨
    ∃ f port body, ∃ h : body.length = f.octets, v = 0 :: f.code :: (u16ToBe port ++ body) ∧
      otherAddressFromValue v = .ok (pad f port body h) := by
  cases v with
  | nil => exact .inl rfl
  | cons x0 tl =>
    by_cases h0 : x0 = 0
    swap
    · left; simp [otherAddressFromValue, h0]
    cases hf : tl[0]?.bind IpFamily.fromCode with
    | none => left; simp [otherAddressFromValue, h0, hf, Outcome.okOr]
    | some f =>
      by_cases hl : tl.length + 1 = 4 + f.octets
      · obtain ⟨y0, x1, x2, x3, body, hb⟩ := exists_four (b := x0 :: tl) (by rw [List.length_cons]; omega)
        obtain ⟨rfl, rfl⟩ := List.cons.inj hb
        have h : body.length = f.octets := by
          simp only [List.length_cons] at hl
          omega
        have hv : x0 :: x1 :: x2 :: x3 :: body = 0 :: f.code :: (u16ToBe (u16FromBe x2 x3) ++ body) := by
          rw [u16ToBe_fromBe, h0, IpFamily.code_of_fromCode hf]
          rfl
        exact .inr ⟨f, _, body, h, hv, hv ▸ otherAddressFromValue_append h _⟩
      · left; simp [otherAddressFromValue, h0, hf, Outcome.okOr, hl]

/-- The decision's decoder inverts its encoder. -/
theorem otherAddressFromValue_eq_ok {v : Bytes} {o : OtherAddress} :
    otherAddressFromValue v = .ok o ↔ o.Padded ∧ v = otherAddressToValue o := by
  constructor
  · intro h
    rcases otherAddressFromValue_cases v with he | ⟨f, port, body, hl, hv, hok⟩
    · rw [he] at h
      cases h
    · rw [hok] at h
      cases h
      exact ⟨padded_pad hl, hv.trans (toValue_pad hl).symm⟩
  · rintro ⟨hpad, rfl⟩
    have hl : (o.address.val.take o.family.octets).length = o.family.octets := by
      rw [List.length_take, o.address.property]
      exact Nat.min_eq_left o.family.octets_le
    rw [otherAddressToValue, otherAddressFromValue_append hl, pad_eq hpad hl]

end QuickRelay.Binding
