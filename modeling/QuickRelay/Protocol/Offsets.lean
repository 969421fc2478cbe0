import QuickRelay.Protocol.Integrity

/-! The trailers of any datagram at any offset: the MAC input, what the compute functions
write, and what the verify functions compare. Their bounds checks add to the offset before
they compare, and that addition is all that can panic. -/
namespace QuickRelay.Protocol
open Lib

variable (crypto : Crypto)

def mac (algorithm : IntegrityAlgorithm) (key msg : Bytes) : Bytes :=
  Integrity.hmacOf crypto (Integrity.tagLen algorithm.macLen) key msg

@[simp] theorem tagLen_macLen (algorithm : IntegrityAlgorithm) : Integrity.tagLen algorithm.macLen = algorithm.macLen := by
  cases algorithm <;> rfl

@[simp] theorem mac_length (algorithm : IntegrityAlgorithm) (key msg : Bytes) :
    (mac crypto algorithm key msg).length = algorithm.macLen := by
  rw [mac, tagLen_macLen, Integrity.hmacOf, List.length_take]
  cases algorithm
  · rw [if_neg (by decide), (crypto.hmacSha1 key msg).property]; rfl
  · rw [if_pos (by decide), (crypto.hmacSha256 key msg).property]; rfl

variable {d d' : Bytes} {off n : Nat}

namespace Integrity

/-- The datagram up to the attribute, with a length field that ends behind it. -/
theorem macInput_run {r : UInt16} (h20 : 20 ≤ off) (hfit : off + 4 + n ≤ d.length) (hr : readU16 d 2 = (.ok r : Res UInt16))
    (hlen : r.toNat + 20 = d.length) :
    macInput d off n = .ok (d.take 2 ++ (u16ToBe (UInt16.ofNat (off + 4 + n - headerLen)) ++ (d.take off).drop 4)) := by
  have hlt := r.toNat_lt
  rw [macInput, ← bind_assoc (addUsize off 4), addUsize_add]
  rw [Outcome.refuse_neg (by omega), Outcome.ok_bind, Outcome.refuse_neg (by omega), Outcome.ok_bind,
    addUsize_of_lt (by omega), Outcome.ok_bind, Outcome.refuse_neg (by omega), Outcome.ok_bind, hr, Outcome.ok_bind,
    Outcome.refuse_neg (by omega), Outcome.ok_bind, slice_of_le (Nat.zero_le _) (by omega), Outcome.ok_bind,
    Outcome.refuse_neg (by rw [maxDatagram, headerLen, maxMessageLength]; omega), Outcome.ok_bind, List.drop_zero, Nat.sub_zero,
    copyInto_of_le (by decide) (by simp; omega) (by simp), List.take_take, Nat.min_eq_left (by omega), List.append_assoc]

/-- Where there is a MAC input, it is that one. -/
theorem macInput_eq_ok {input : Bytes} (h : macInput d off n = .ok input) : off + 4 + n ≤ d.length ∧
    ∃ len : UInt16, len.toNat + 20 = off + 4 + n ∧ input = d.take 2 ++ (u16ToBe len ++ (d.take off).drop 4) := by
  have hrun := h
  rw [macInput, ← bind_assoc (addUsize off 4), addUsize_add, Outcome.refuse_bind_eq_ok, Outcome.refuse_bind_eq_ok] at h
  obtain ⟨-, h20, h⟩ := h
  rw [addUsize] at h
  split at h
  case isFalse => cases h
  case isTrue =>
    rw [Outcome.ok_bind, Outcome.refuse_bind_eq_ok, Outcome.bind_eq_ok] at h
    obtain ⟨hfit, r, hr, h⟩ := h
    obtain ⟨hlen, -⟩ := Outcome.refuse_bind_eq_ok.mp h
    have hlt := r.toNat_lt
    rw [macInput_run (by omega) (by omega) hr (by omega)] at hrun
    refine ⟨by omega, _, ?_, (Outcome.ok.inj hrun).symm⟩
    rw [UInt16.toNat_ofNat', headerLen]
    omega

/-- The only panic is the overflow of the sum in the bounds check. -/
theorem macInput_eq_panic : macInput d off n = .panic ↔ 20 ≤ d.length ∧ 20 ≤ off ∧ 2 ^ 64 ≤ off + 4 + n := by
  rw [macInput, ← bind_assoc (addUsize off 4), addUsize_add, Outcome.refuse_bind_eq_panic, Outcome.refuse_bind_eq_panic,
    Nat.not_lt, Nat.not_lt]
  refine and_congr_right fun hd => and_congr_right fun h20 => ?_
  by_cases h : 2 ^ 64 ≤ off + 4 + n
  · rw [addUsize_of_le h, Outcome.panic_bind]
    simp only [h]
  · rw [addUsize_of_lt (by omega), Outcome.ok_bind, Outcome.refuse_bind_eq_panic, readU16_of_lt (by omega), Outcome.ok_bind,
      Outcome.refuse_bind_eq_panic]
    refine iff_of_false (fun ⟨hfit, _, hp⟩ => ?_) h
    rw [slice_of_le (Nat.zero_le _) (by omega), Outcome.ok_bind, Outcome.refuse_bind_eq_panic,
      copyInto_of_le (by decide) (by simp; omega) (by simp)] at hp
    cases hp.2

/-- The MAC input does not look behind the attribute, save for the length of the datagram. -/
theorem macInput_congr (hlen : d.length = d'.length) (htake : d.take off = d'.take off) : macInput d off n = macInput d' off n := by
  by_cases h20 : off < 20
  · rw [macInput, macInput, hlen, Outcome.refuse_pos h20]
    rfl
  · have hr : (readU16 d 2 : Res UInt16) = readU16 d' 2 := readU16_congr (by omega) htake
    have hs : (slice d 0 off : Res Bytes) = slice d' 0 off := by simp [slice, hlen, htake]
    rw [macInput, macInput, hlen, hr, hs]

variable {crypto : Crypto} {algorithm : IntegrityAlgorithm} {key : Bytes}

/-- The tag goes over the value octets. -/
theorem compute_run (crypto : Crypto) (key : Bytes) {input : Bytes} (h : macInput d off algorithm.macLen = .ok input) : ∃ tag,
    compute crypto off algorithm key d =
      (.ok tag, d.take (off + 4) ++ mac crypto algorithm key input ++ d.drop (off + 4 + algorithm.macLen)) := by
  have hn : algorithm.macLen ≤ 32 := by cases algorithm <;> decide
  obtain ⟨hfit, len, hlen, -⟩ := macInput_eq_ok h
  have hlt := len.toNat_lt
  have hp : computePrefix crypto key d off algorithm.macLen =
      .ok (mac crypto algorithm key input ++ zeros (32 - algorithm.macLen)) := by
    rw [computePrefix, h, Outcome.ok_bind, ← mac, tagLen_macLen, copyInto_of_le (Nat.zero_le _) (by simpa using hn) (by simp)]
    simp
  have hs : (slice (mac crypto algorithm key input ++ zeros (32 - algorithm.macLen)) 0 algorithm.macLen : Res Bytes) =
      .ok (mac crypto algorithm key input) := by
    have := slice_append (ε := Error) [] (mac crypto algorithm key input) (zeros (32 - algorithm.macLen))
    simpa using this
  refine ⟨mac crypto algorithm key input ++ zeros (32 - algorithm.macLen), ?_⟩
  rw [compute, addUsize_add, addUsize_of_lt (by omega), Buffer.bind_run_ok (Buffer.lift_run _ _),
    Buffer.bind_run_ok (Buffer.len_run _), Buffer.refuse_bind_run, if_neg (by omega), Buffer.bind_run_ok (Buffer.contents_run _), hp,
    Buffer.bind_run_ok (Buffer.lift_run _ _), tagLen_macLen, hs, Buffer.bind_run_ok (Buffer.lift_run _ _),
    Buffer.bind_run_ok (Buffer.copy_run (by omega) hfit (by simp))]
  rfl

theorem compute_err {e : Error} (h : off + 4 + algorithm.macLen < 2 ^ 64) (hin : macInput d off algorithm.macLen = .err e) :
    ∃ e', compute crypto off algorithm key d = (.err e', d) := by
  rw [compute, addUsize_add, addUsize_of_lt h, Buffer.bind_run_ok (Buffer.lift_run _ _),
    Buffer.bind_run_ok (Buffer.len_run _), Buffer.refuse_bind_run]
  split
  case isTrue => exact ⟨_, rfl⟩
  case isFalse =>
    rw [Buffer.bind_run_ok (Buffer.contents_run _), computePrefix, hin]
    exact ⟨e, rfl⟩

theorem compute_overflow (h : 2 ^ 64 ≤ off + 4 + algorithm.macLen) : compute crypto off algorithm key d = (.panic, d) := by
  rw [compute, addUsize_add, addUsize_of_le h]
  rfl

/-- Verification compares the value octets with the MAC. -/
theorem verify_run (crypto : Crypto) (key : Bytes) {input : Bytes} (h : macInput d off algorithm.macLen = .ok input) :
    verify crypto d off algorithm key = .refuse (mac crypto algorithm key input ≠ (d.drop (off + 4)).take algorithm.macLen)
      (.attr .messageIntegrityMismatch algorithm.attributeCode) := by
  obtain ⟨hfit, len, hlen, -⟩ := macInput_eq_ok h
  have hlt := len.toNat_lt
  have hs : (slice d (off + 4) (off + 4 + algorithm.macLen) : Res Bytes) = .ok ((d.drop (off + 4)).take algorithm.macLen) := by
    rw [slice_of_le (by omega) hfit, Nat.add_sub_cancel_left]
  rw [verify, ← bind_assoc (addUsize off 4), addUsize_add, addUsize_of_lt (by omega), Outcome.ok_bind, Outcome.refuse_neg (by omega),
    Outcome.ok_bind, h, Outcome.ok_bind, ← mac]
  simp only [mac_length, hs, Outcome.ok_bind]

theorem verify_eq_ok : verify crypto d off algorithm key = .ok () ↔ ∃ input, macInput d off algorithm.macLen = .ok input ∧
    mac crypto algorithm key input = (d.drop (off + 4)).take algorithm.macLen := by
  constructor
  · intro h
    have hrun := h
    simp only [verify, Outcome.bind_eq_ok] at h
    obtain ⟨-, -, -, -, -, -, input, hin, -⟩ := h
    rw [verify_run crypto key hin, Outcome.refuse_eq_ok, ne_eq, not_not] at hrun
    exact ⟨input, hin, hrun⟩
  · rintro ⟨input, hin, h⟩
    rw [verify_run crypto key hin, Outcome.refuse_neg (not_not.mpr h)]

theorem verify_ne_panic (h : off + 4 + algorithm.macLen < 2 ^ 64) : verify crypto d off algorithm key ≠ .panic := by
  cases hin : macInput d off algorithm.macLen with
  | ok input =>
    rw [verify_run crypto key hin]
    exact Outcome.refuse_ne_panic
  | err e =>
    rw [verify, ← bind_assoc (addUsize off 4), addUsize_add, addUsize_of_lt h, Outcome.ok_bind, hin]
    intro hp
    cases (Outcome.refuse_bind_eq_panic.mp hp).2
  | panic =>
    have := (macInput_eq_panic.mp hin).2.2
    omega

/-- What is written verifies: the MAC input of the new datagram is that of the old. -/
theorem verify_computed {input : Bytes} (h : macInput d off algorithm.macLen = .ok input)
    (hd' : d' = d.take (off + 4) ++ mac crypto algorithm key input ++ d.drop (off + 4 + algorithm.macLen)) :
    verify crypto d' off algorithm key = .ok () := by
  obtain ⟨hfit, -⟩ := macInput_eq_ok h
  obtain ⟨hlen, htake, -, hvalue⟩ :=
    Buffer.overwritten (by omega) hfit (by rw [mac_length, Nat.add_sub_cancel_left]) hd'
  have hin : macInput d' off algorithm.macLen = .ok input :=
    (macInput_congr hlen (htake off (Nat.le_add_right off 4))).trans h
  rw [mac_length] at hvalue
  exact verify_eq_ok.mpr ⟨input, hin, hvalue.symm⟩

theorem fills_of_lt (h : off + 4 + algorithm.macLen < 2 ^ 64) : (compute crypto off algorithm key).Fills
    (fun d => verify crypto d off algorithm key) (off + 4) (off + 4 + algorithm.macLen) d := by
  cases hin : macInput d off algorithm.macLen with
  | ok input =>
    obtain ⟨tag, htag⟩ := compute_run crypto key hin
    exact .of_copy htag (by omega) (macInput_eq_ok hin).1 (by rw [mac_length, Nat.add_sub_cancel_left])
      (verify_ne_panic h) (verify_computed hin rfl)
  | err e =>
    obtain ⟨e', he⟩ := compute_err h hin
    exact .of_err he (verify_ne_panic h)
  | panic =>
    have := (macInput_eq_panic.mp hin).2.2
    omega

theorem fills_iff : (compute crypto off algorithm key).Fills (fun d => verify crypto d off algorithm key)
    (off + 4) (off + 4 + algorithm.macLen) d ↔ off + 4 + algorithm.macLen < 2 ^ 64 := by
  refine ⟨fun h => ?_, fills_of_lt⟩
  by_contra hlt
  exact h.returns (by rw [compute_overflow (Nat.le_of_not_lt hlt)])

/-- The MAC input is there or refused, and its length field is exact. -/
structure Measured (d : Bytes) (off n : Nat) : Prop where
  returns : macInput d off n ≠ .panic
  exact : ∀ input, macInput d off n = .ok input →
    ∃ len : UInt16, len.toNat + 20 = off + 4 + n ∧ input = d.take 2 ++ (u16ToBe len ++ (d.take off).drop 4)

theorem measured_iff : Measured d off n ↔ (20 ≤ d.length → 20 ≤ off → off + 4 + n < 2 ^ 64) := by
  constructor
  · intro h hd h20
    by_contra hlt
    exact h.returns (macInput_eq_panic.mpr ⟨hd, h20, Nat.le_of_not_lt hlt⟩)
  · refine fun h => ⟨fun hp => ?_, fun input hin => (macInput_eq_ok hin).2⟩
    obtain ⟨hd, h20, hle⟩ := macInput_eq_panic.mp hp
    exact Nat.not_lt.mpr hle (h hd h20)

end Integrity

namespace Fingerprint

theorem check_eq_ok : check d off = .ok () ↔
    20 ≤ off ∧ off + 8 ≤ d.length ∧ ∃ r : UInt16, readU16 d 2 = (.ok r : Res UInt16) ∧ r.toNat + 20 = d.length := by
  rw [check, Outcome.refuse_bind_eq_ok, Outcome.refuse_bind_eq_ok, headerLen, Nat.not_lt, Nat.not_lt, addUsize]
  constructor
  · rintro ⟨-, h20, h⟩
    split at h
    case isFalse => cases h
    case isTrue =>
      rw [Outcome.ok_bind, Outcome.refuse_bind_eq_ok, Outcome.bind_eq_ok] at h
      obtain ⟨hfit, r, hr, h⟩ := h
      exact ⟨h20, by omega, r, hr, not_not.mp (Outcome.refuse_eq_ok.mp h)⟩
  · rintro ⟨h20, hfit, r, hr, hlen⟩
    have hlt := r.toNat_lt
    refine ⟨by omega, h20, ?_⟩
    rw [if_pos (by omega), Outcome.ok_bind, Outcome.refuse_neg (by omega), Outcome.ok_bind, hr, Outcome.ok_bind,
      Outcome.refuse_neg (by omega)]

/-- The only panic is the overflow of the sum in the bounds check. -/
theorem check_eq_panic : check d off = .panic ↔ 20 ≤ d.length ∧ 20 ≤ off ∧ 2 ^ 64 ≤ off + 8 := by
  rw [check, Outcome.refuse_bind_eq_panic, Outcome.refuse_bind_eq_panic, headerLen, Nat.not_lt, Nat.not_lt]
  refine and_congr_right fun hd => and_congr_right fun h20 => ?_
  by_cases h : 2 ^ 64 ≤ off + 8
  · rw [addUsize_of_le h, Outcome.panic_bind]
    simp only [h]
  · rw [addUsize_of_lt (by omega), Outcome.ok_bind, Outcome.refuse_bind_eq_panic, readU16_of_lt (by omega), Outcome.ok_bind]
    exact iff_of_false (fun hp => Outcome.refuse_ne_panic hp.2) h

theorem check_congr (hlen : d.length = d'.length) (htake : d.take off = d'.take off) : check d off = check d' off := by
  by_cases h20 : off < 20
  · rw [check, check, hlen, headerLen, Outcome.refuse_pos h20]
    rfl
  · have hr : (readU16 d 2 : Res UInt16) = readU16 d' 2 := readU16_congr (by omega) htake
    rw [check, check, hlen, hr]

variable {crypto : Crypto}

/-- The checksum goes over the value octets. -/
theorem compute_run (crypto : Crypto) (h : check d off = .ok ()) : compute crypto off d = (.ok (overOctets crypto (d.take off)),
    d.take (off + 4) ++ u32ToBe (overOctets crypto (d.take off)) ++ d.drop (off + 8)) := by
  obtain ⟨-, hfit, -⟩ := check_eq_ok.mp h
  rw [compute, Buffer.bind_run_ok (Buffer.contents_run _), h, Buffer.bind_run_ok (Buffer.lift_run _ _),
    slice_of_le (Nat.zero_le _) (by omega), Buffer.bind_run_ok (Buffer.lift_run _ _), List.drop_zero, Nat.sub_zero,
    Buffer.bind_run_ok (Buffer.copy_run (by omega) hfit (by simp))]
  rfl

/-- Verification compares the value octets with the checksum. -/
theorem verify_run (crypto : Crypto) (h : check d off = .ok ()) :
    ∃ stored, (d.drop (off + 4)).take 4 = u32ToBe stored ∧ verify crypto d off =
      .refuse (overOctets crypto (d.take off) ≠ stored) (.attr .fingerprintMismatch fingerprintAttr) := by
  obtain ⟨-, hfit, -⟩ := check_eq_ok.mp h
  have hs : (slice d (off + 4) (off + 8) : Res Bytes) = .ok ((d.drop (off + 4)).take 4) := by
    rw [slice_of_le (by omega) hfit, Nat.add_sub_add_left]
  obtain ⟨stored, hv⟩ := exists_u32ToBe (b := (d.drop (off + 4)).take 4) (by simp; omega)
  refine ⟨stored, hv, ?_⟩
  rw [verify, h, Outcome.ok_bind, hs, Outcome.ok_bind, hv, readU32_u32ToBe, Outcome.ok_bind,
    slice_of_le (Nat.zero_le _) (by omega), Outcome.ok_bind, List.drop_zero, Nat.sub_zero]

theorem verify_ne_panic (h : check d off ≠ .panic) : verify crypto d off ≠ .panic := by
  cases hc : check d off with
  | ok u =>
    obtain ⟨stored, -, hv⟩ := verify_run crypto hc
    rw [hv]
    exact Outcome.refuse_ne_panic
  | err e =>
    rw [verify, hc]
    simp
  | panic => exact absurd hc h

/-- What is written verifies: the checksum covers what precedes the attribute. -/
theorem verify_computed (h : check d off = .ok ())
    (hd' : d' = d.take (off + 4) ++ u32ToBe (overOctets crypto (d.take off)) ++ d.drop (off + 8)) :
    verify crypto d' off = .ok () := by
  obtain ⟨-, hfit, -⟩ := check_eq_ok.mp h
  obtain ⟨hlen, htake, -, hvalue⟩ :=
    Buffer.overwritten (by omega) hfit (by rw [u32ToBe_length, Nat.add_sub_add_left]) hd'
  have htake := htake off (Nat.le_add_right off 4)
  obtain ⟨stored, hs, hv⟩ := verify_run crypto ((check_congr hlen htake).trans h)
  rw [u32ToBe_length] at hvalue
  rw [hv, htake, Outcome.refuse_neg (not_not.mpr (u32ToBe_inj (hvalue.symm.trans hs)))]

theorem fills_iff : (compute crypto off).Fills (fun d => verify crypto d off) (off + 4) (off + 8) d ↔
    (20 ≤ d.length → 20 ≤ off → off + 8 < 2 ^ 64) := by
  have hpanic : check d off ≠ .panic ↔ (20 ≤ d.length → 20 ≤ off → off + 8 < 2 ^ 64) := by
    rw [ne_eq, check_eq_panic]
    omega
  rw [← hpanic]
  cases hc : check d off with
  | ok u =>
    have hnp : verify crypto d off ≠ .panic := verify_ne_panic (by simp [hc])
    refine iff_of_true ?_ (by simp)
    exact .of_copy (compute_run crypto hc) (by omega) (check_eq_ok.mp hc).2.1 (by rw [u32ToBe_length]; omega) hnp
      (verify_computed hc rfl)
  | err e =>
    have hnp : verify crypto d off ≠ .panic := verify_ne_panic (by simp [hc])
    refine iff_of_true (.of_err (e := e) ?_ hnp) (by simp)
    rw [compute, Buffer.bind_run_ok (Buffer.contents_run _), hc]
    rfl
  | panic =>
    refine iff_of_false (fun h => h.returns ?_) (fun h => h rfl)
    rw [compute, Buffer.bind_run_ok (Buffer.contents_run _), hc]
    rfl

end Fingerprint

/-- **Offsets**: the trailer functions are safe exactly where the sum in their bounds checks,
if they reach it, does not overflow. -/
theorem trailers_safe_iff (d : Bytes) (off : Nat) :
    (∀ crypto algorithm key, (Integrity.compute crypto off algorithm key).Fills (fun d => Integrity.verify crypto d off algorithm key)
      (off + 4) (off + 4 + algorithm.macLen) d ↔ off + 4 + algorithm.macLen < 2 ^ 64) ∧
    (∀ n, Integrity.Measured d off n ↔ (20 ≤ d.length → 20 ≤ off → off + 4 + n < 2 ^ 64)) ∧
    ∀ crypto, (Fingerprint.compute crypto off).Fills (fun d => Fingerprint.verify crypto d off) (off + 4) (off + 8) d ↔
      (20 ≤ d.length → 20 ≤ off → off + 8 < 2 ^ 64) :=
  ⟨fun _ _ _ => Integrity.fills_iff, fun _ => Integrity.measured_iff, fun _ => Fingerprint.fills_iff⟩

/-- All five overflow at the largest offset. -/
theorem usizeMax_overflows : Integrity.macInput (zeros 20) (2 ^ 64 - 1) 20 = .panic ∧ ∀ crypto : Crypto,
    Integrity.compute crypto (2 ^ 64 - 1) .sha1 [] (zeros 20) = (.panic, zeros 20) ∧
    Integrity.verify crypto (zeros 20) (2 ^ 64 - 1) .sha1 [] = .panic ∧
    Fingerprint.compute crypto (2 ^ 64 - 1) (zeros 20) = (.panic, zeros 20) ∧
    Fingerprint.verify crypto (zeros 20) (2 ^ 64 - 1) = .panic :=
  ⟨rfl, fun _ => ⟨rfl, rfl, rfl, rfl⟩⟩

end QuickRelay.Protocol
