import QuickRelay.Protocol.ValueCodec

/-! The range of ERROR-CODE values. The decoder checks the combined number, class times 100
plus number, and no ceiling for the reason; the encoder has one. -/
namespace QuickRelay.Protocol
open Lib

namespace ErrorCode
variable {buf : Bytes} {e : ErrorCode}

theorem asU16_toNat (e : ErrorCode) : e.asU16.toNat = e.cls.toNat * 100 + e.number.toNat := by
  have hc := e.cls.toNat_lt
  have hn := e.number.toNat_lt
  simp only [asU16, UInt16.toNat_add, UInt16.toNat_mul, UInt8.toNat_toUInt16, UInt16.toNat_ofNat]
  omega

theorem asU16_lt_iff : e.asU16 < 700 ↔ e.cls.toNat * 100 + e.number.toNat < 700 := by
  rw [UInt16.lt_iff_toNat_lt, asU16_toNat]
  rfl

/-- A numeric code splits into its hundreds and the rest. -/
theorem fromNumber_ok {code : UInt16} (h : code < 700) :
    ∃ f, fromNumber code = .ok f ∧ f.cls.toNat = code.toNat / 100 ∧ f.number.toNat = code.toNat % 100 := by
  refine ⟨⟨(code / 100).toUInt8, (code % 100).toUInt8, []⟩, ?_, ?_, ?_⟩
  · rw [fromNumber, validateRange_eq_ok.mpr ⟨h, rfl⟩]
    rfl
  · have hlt : code.toNat < 700 := UInt16.lt_iff_toNat_lt.mp h
    change code.toNat / 100 % 256 = code.toNat / 100
    omega
  · change code.toNat % 100 % 256 = code.toNat % 100
    omega

/-- What is expected of decoding one buffer. -/
structure Faithful (buf : Bytes) : Prop where
  cls : ∀ e, readValue buf = .ok e → e.cls ≤ 6
  number : ∀ e, readValue buf = .ok e → e.number ≤ 99
  identity : ∀ e, readValue buf = .ok e →
    ∃ f, fromNumber e.asU16 = .ok f ∧ f.cls = e.cls ∧ f.number = e.number
  kept : ∀ e, readValue buf = .ok e → buf.drop 2 = e.cls :: e.number :: e.reason
  encodes : ∀ e out, readValue buf = .ok e → 4 + e.reason.length ≤ out.length → e.writeValue out =
    (.ok (4 + e.reason.length), 0 :: 0 :: e.cls :: e.number :: e.reason ++ out.drop (4 + e.reason.length))
  accepts : 4 ≤ buf.length → buf.getD 2 0 ≤ 6 → buf.getD 3 0 ≤ 99 → buf.length ≤ 4 + errorCodeReasonMaxLen →
    ∃ e, readValue buf = .ok e

/-- The buffers the decoder refuses, and of the others those with a two-digit number and a
reason the encoder has room for. -/
def WithinLimits (buf : Bytes) : Prop :=
  buf.length < 4 ∨ 700 ≤ (buf.getD 2 0).toNat * 100 + (buf.getD 3 0).toNat ∨
    (buf.getD 3 0 ≤ 99 ∧ buf.length ≤ 4 + errorCodeReasonMaxLen)

/-- A decoded number of two digits comes back from the numeric code. -/
theorem fromNumber_asU16 (h : e.asU16 < 700) (hn : e.number ≤ 99) :
    ∃ f, fromNumber e.asU16 = .ok f ∧ f.cls = e.cls ∧ f.number = e.number := by
  obtain ⟨f, hf, hc, hm⟩ := fromNumber_ok h
  rw [asU16_lt_iff] at h
  rw [asU16_toNat] at hc hm
  have hn' : e.number.toNat ≤ 99 := UInt8.le_iff_toNat_le.mp hn
  exact ⟨f, hf, UInt8.toNat_inj.mp (by omega), UInt8.toNat_inj.mp (by omega)⟩

theorem writeValue_ok {out : Bytes} (h : e.asU16 < 700)
    (hr : e.reason.length ≤ errorCodeReasonMaxLen) (ho : 4 + e.reason.length ≤ out.length) : e.writeValue out =
      (.ok (4 + e.reason.length), 0 :: 0 :: e.cls :: e.number :: e.reason ++ out.drop (4 + e.reason.length)) := by
  rw [writeValue_run, if_neg (UInt16.not_le.mpr h), if_neg (by omega), if_pos ho]

theorem faithful_of_withinLimits (h : WithinLimits buf) : Faithful buf := by
  -- an accepted buffer is of the third kind
  have hlim : ∀ e, readValue buf = .ok e →
      e.asU16 < 700 ∧ e.number ≤ 99 ∧ e.reason.length ≤ errorCodeReasonMaxLen := by
    intro e he
    obtain ⟨x, y, rfl, hlt⟩ := readValue_ok_iff.mp he
    rcases h with h | h | ⟨hn, hl⟩
    · simp only [List.length_cons] at h
      omega
    · exact absurd (asU16_lt_iff.mp hlt) (Nat.not_lt.mpr h)
    · simp only [List.length_cons] at hl
      exact ⟨hlt, hn, by omega⟩
  constructor
  case cls =>
    intro e he
    have hlt := asU16_lt_iff.mp (hlim e he).1
    rw [UInt8.le_iff_toNat_le]
    change e.cls.toNat ≤ 6
    omega
  case number => exact fun e he => (hlim e he).2.1
  case identity => exact fun e he => fromNumber_asU16 (hlim e he).1 (hlim e he).2.1
  case kept =>
    intro e he
    obtain ⟨x, y, rfl, -⟩ := readValue_ok_iff.mp he
    rfl
  case encodes => exact fun e out he ho => writeValue_ok (hlim e he).1 (hlim e he).2.2 ho
  case accepts =>
    intro h4 hc hn hl
    obtain ⟨x, y, c, n, body, rfl⟩ := exists_four h4
    refine ⟨⟨c, n, body⟩, readValue_ok_iff.mpr ⟨x, y, rfl, asU16_lt_iff.mpr ?_⟩⟩
    have hc' : c.toNat ≤ 6 := UInt8.le_iff_toNat_le.mp hc
    have hn' : n.toNat ≤ 99 := UInt8.le_iff_toNat_le.mp hn
    change c.toNat * 100 + n.toNat < 700
    omega

theorem withinLimits_of_faithful (h : Faithful buf) : WithinLimits buf := by
  by_cases h4 : buf.length < 4
  · exact .inl h4
  obtain ⟨x, y, c, n, body, rfl⟩ := exists_four (Nat.le_of_not_lt h4)
  by_cases hlt : c.toNat * 100 + n.toNat < 700
  · have he : readValue (x :: y :: c :: n :: body) = .ok ⟨c, n, body⟩ := readValue_ok_iff.mpr ⟨x, y, rfl, asU16_lt_iff.mpr hlt⟩
    refine .inr (.inr ⟨h.number _ he, ?_⟩)
    by_contra hl
    have hr : errorCodeReasonMaxLen < body.length := by
      simp only [List.length_cons] at hl
      omega
    -- the encoder has its own ceiling
    have hw := h.encodes _ (zeros (4 + body.length)) he (by simp)
    rw [writeValue_run] at hw
    split_ifs at hw
    · cases hw
    · cases hw
  · exact .inr (.inl (Nat.le_of_not_lt hlt))

/-- Of faithfully decoded values, two of one numeric code have one class and number. -/
theorem Faithful.injective {buf' : Bytes} {e' : ErrorCode} (h : Faithful buf) (h' : Faithful buf')
    (he : readValue buf = .ok e) (he' : readValue buf' = .ok e') (hcode : e.asU16 = e'.asU16) :
    e.cls = e'.cls ∧ e.number = e'.number := by
  obtain ⟨f, hf, hc, hn⟩ := h.identity e he
  obtain ⟨f', hf', hc', hn'⟩ := h'.identity e' he'
  rw [hcode, hf'] at hf
  cases hf
  exact ⟨hc.symm.trans hc', hn.symm.trans hn'⟩

/-- **ERROR-CODE**: decoding is faithful exactly within the limits, and there the numeric code
tells class and number apart. -/
theorem faithful_iff_withinLimits (buf : Bytes) : (Faithful buf ↔ WithinLimits buf) ∧
    ∀ buf' e e', WithinLimits buf → WithinLimits buf' → readValue buf = .ok e → readValue buf' = .ok e' →
      e.asU16 = e'.asU16 → e.cls = e'.cls ∧ e.number = e'.number :=
  ⟨⟨withinLimits_of_faithful, faithful_of_withinLimits⟩, fun _ _ _ h h' he he' hcode =>
    (faithful_of_withinLimits h).injective (faithful_of_withinLimits h') he he' hcode⟩

/-- Class 0 with number 255 is accepted, and has the code of class 2 with number 55. -/
theorem number_overflows : (∃ e e', readValue [0, 0, 0, 255] = .ok e ∧ readValue [0, 0, 2, 55] = .ok e' ∧
    e.asU16 = e'.asU16 ∧ e.cls ≠ e'.cls) ∧ ¬ Faithful [0, 0, 0, 255] := by
  have he : readValue [0, 0, 0, 255] = .ok ⟨0, 255, []⟩ := rfl
  refine ⟨⟨⟨0, 255, []⟩, ⟨2, 55, []⟩, he, rfl, rfl, by decide⟩, fun h => ?_⟩
  exact absurd (h.number _ he) (by decide)

end ErrorCode
end QuickRelay.Protocol
