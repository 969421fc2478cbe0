import QuickRelay.Lib.Octets

/-! Type-length-value sequences: a 16-bit type, a 16-bit value length, the value
and filler to the next multiple of four. The filler octets are free. -/
namespace QuickRelay.Lib

/-- Octets from a length of n to the next multiple of four. -/
def padding (n : Nat) : Nat := (4 - n % 4) % 4

structure Tlv where
  code : UInt16
  value : Bytes
  pad : Bytes
  value_lt : value.length < 65536
  pad_length : pad.length = padding value.length
  deriving DecidableEq

namespace Tlv

def encode (t : Tlv) : Bytes :=
  u16ToBe t.code ++ (u16ToBe (UInt16.ofNat t.value.length) ++ (t.value ++ t.pad))

def encodeAll (ts : List Tlv) : Bytes := ts.flatMap encode

@[simp] theorem encodeAll_nil : encodeAll [] = [] := rfl

@[simp] theorem encodeAll_cons (t : Tlv) (ts : List Tlv) :
    encodeAll (t :: ts) = t.encode ++ encodeAll ts := List.flatMap_cons

@[simp] theorem encodeAll_append (a b : List Tlv) :
    encodeAll (a ++ b) = encodeAll a ++ encodeAll b := List.flatMap_append

theorem lengthField (t : Tlv) : (UInt16.ofNat t.value.length).toNat = t.value.length := by
  rw [UInt16.toNat_ofNat', Nat.mod_eq_of_lt t.value_lt]

theorem encode_length (t : Tlv) : t.encode.length = 4 + t.value.length + padding t.value.length := by
  simp only [encode, List.length_append, u16ToBe_length, t.pad_length]
  omega

theorem four_le_encode_length (t : Tlv) : 4 ≤ t.encode.length := by
  rw [encode_length]; omega

/-- Each entry takes at least its four header octets. -/
theorem four_mul_length_le (ts : List Tlv) : 4 * ts.length ≤ (encodeAll ts).length := by
  induction ts with
  | nil => simp
  | cons t ts ih =>
    have := t.four_le_encode_length
    rw [encodeAll_cons, List.length_append, List.length_cons]
    omega

theorem encode_eq_nil (t : Tlv) : t.encode ≠ [] := by
  intro h
  have := t.four_le_encode_length
  simp [h] at this

/-- Equal strings that both start with an entry start with the same entry. -/
theorem encode_append_inj {t u : Tlv} {r s : Bytes} (h : t.encode ++ r = u.encode ++ s) : t = u ∧ r = s := by
  simp only [encode, List.append_assoc] at h
  obtain ⟨hc, h⟩ := List.append_inj h (by simp)
  obtain ⟨hn, h⟩ := List.append_inj h (by simp)
  have hlen : t.value.length = u.value.length := by
    rw [← t.lengthField, ← u.lengthField, u16ToBe_inj hn]
  obtain ⟨hv, h⟩ := List.append_inj h hlen
  obtain ⟨hp, h⟩ := List.append_inj h (by rw [t.pad_length, u.pad_length, hlen])
  refine ⟨?_, h⟩
  have hcode := u16ToBe_inj hc
  cases t; cases u
  simp only [mk.injEq]
  exact ⟨hcode, hv, hp⟩

/-- The grammar is unambiguous: a string has at most one reading. -/
theorem encodeAll_inj {ts us : List Tlv} (h : encodeAll ts = encodeAll us) : ts = us := by
  induction ts generalizing us with
  | nil =>
    cases us with
    | nil => rfl
    | cons u us => exact absurd (List.append_eq_nil_iff.mp h.symm).1 u.encode_eq_nil
  | cons t ts ih =>
    cases us with
    | nil => exact absurd (List.append_eq_nil_iff.mp h).1 t.encode_eq_nil
    | cons u us =>
      obtain ⟨rfl, hr⟩ := encode_append_inj h
      rw [ih hr]

/-- A string long enough for the entry its first four octets announce starts
with that entry. -/
theorem exists_head {b : Bytes} (h : 4 ≤ b.length)
    (hfit : 4 + (u16FromBe b[2] b[3]).toNat + padding (u16FromBe b[2] b[3]).toNat ≤ b.length) :
    ∃ (t : Tlv) (rest : Bytes), b = t.encode ++ rest := by
  obtain ⟨x0, x1, x2, x3, body, rfl⟩ := exists_four h
  simp only [List.getElem_cons_succ, List.getElem_cons_zero, List.length_cons] at hfit
  obtain ⟨n, hn⟩ : ∃ n, n = (u16FromBe x2 x3).toNat := ⟨_, rfl⟩
  rw [← hn] at hfit
  have hv : (body.take n).length = n := by rw [List.length_take]; omega
  have hp : ((body.drop n).take (padding n)).length = padding n := by
    rw [List.length_take, List.length_drop]; omega
  refine ⟨⟨u16FromBe x0 x1, body.take n, (body.drop n).take (padding n),
    by rw [hv, hn]; exact UInt16.toNat_lt _, by rw [hv, hp]⟩, (body.drop n).drop (padding n), ?_⟩
  have hl : UInt16.ofNat (body.take n).length = u16FromBe x2 x3 := by
    rw [hv, hn, UInt16.ofNat_toNat]
  rw [encode]
  simp only [hl, u16ToBe_fromBe, List.cons_append, List.nil_append, List.append_assoc,
    List.take_append_drop]

theorem readU16_code {ε : Type} (pre rest : Bytes) (t : Tlv) :
    (readU16 (pre ++ (t.encode ++ rest)) pre.length : Outcome ε UInt16) = .ok t.code := by
  rw [encode, List.append_assoc]
  exact readU16_append _ _ _

theorem readU16_lengthField {ε : Type} (pre rest : Bytes) (t : Tlv) :
    (readU16 (pre ++ (t.encode ++ rest)) (pre.length + 2) : Outcome ε UInt16) = .ok (UInt16.ofNat t.value.length) := by
  have := readU16_append (ε := ε) (pre ++ u16ToBe t.code) (t.value ++ t.pad ++ rest) (UInt16.ofNat t.value.length)
  simpa [encode, List.append_assoc] using this

theorem slice_value {ε : Type} (pre rest : Bytes) (t : Tlv) :
    (slice (pre ++ (t.encode ++ rest)) (pre.length + 4) (pre.length + 4 + t.value.length) : Outcome ε Bytes) =
      .ok t.value := by
  have := slice_append (ε := ε) (pre ++ (u16ToBe t.code ++ u16ToBe (UInt16.ofNat t.value.length))) t.value (t.pad ++ rest)
  simpa [encode, List.append_assoc] using this

/-- Octets left over that no entry starts. -/
def Stuck (tail : Bytes) : Prop := tail ≠ [] ∧ ∀ (t : Tlv) (rest : Bytes), tail ≠ t.encode ++ rest

/-- Every string reads as entries followed by nothing or by octets that no entry
starts. -/
theorem exists_reading (b : Bytes) : ∃ (ts : List Tlv) (tail : Bytes), b = encodeAll ts ++ tail ∧
    (tail = [] ∨ Stuck tail) := by
  induction hn : b.length using Nat.strongRecOn generalizing b with
  | ind n ih =>
    by_cases hs : ∃ (t : Tlv) (rest : Bytes), b = t.encode ++ rest
    · obtain ⟨t, rest, rfl⟩ := hs
      have h4 := t.four_le_encode_length
      obtain ⟨ts, tail, rfl, ht⟩ := ih rest.length (by rw [List.length_append] at hn; omega) rest rfl
      exact ⟨t :: ts, tail, by simp, ht⟩
    · by_cases hb : b = []
      · exact ⟨[], [], by simp [hb], .inl rfl⟩
      · exact ⟨[], b, by simp, .inr ⟨hb, fun t rest h => hs ⟨t, rest, h⟩⟩⟩

/-- A string of at least four octets that no entry starts announces more than it
holds. -/
theorem Stuck.announces {tail : Bytes} (h : Stuck tail) (h4 : 4 ≤ tail.length) :
    tail.length < 4 + (u16FromBe tail[2] tail[3]).toNat + padding (u16FromBe tail[2] tail[3]).toNat := by
  by_contra hfit
  obtain ⟨t, rest, ht⟩ := exists_head h4 (Nat.le_of_not_lt hfit)
  exact h.2 t rest ht

/-- The first entry that satisfies `p`, with its offset when the list starts at `off`. -/
def locate (p : Tlv → Bool) : Nat → List Tlv → Option (Nat × Tlv)
  | _, [] => none
  | off, t :: ts => if p t then some (off, t) else locate p (off + t.encode.length) ts

theorem locate_eq_none {p : Tlv → Bool} {ts : List Tlv} {off : Nat} :
    locate p off ts = none ↔ ∀ t ∈ ts, p t = false := by
  induction ts generalizing off with
  | nil => simp [locate]
  | cons t ts ih =>
    cases hp : p t <;> simp [locate, hp, ih]

theorem locate_isSome (p : Tlv → Bool) (off : Nat) (ts : List Tlv) : (locate p off ts).isSome = ts.any p := by
  rw [Bool.eq_iff_iff, ← not_iff_not, Bool.not_eq_true, Option.isSome_eq_false_iff, Option.isNone_iff_eq_none,
    locate_eq_none, Bool.not_eq_true, List.any_eq_false]
  simp only [Bool.not_eq_true]

theorem locate_congr {p q : Tlv → Bool} {ts : List Tlv} (h : ∀ t ∈ ts, p t = q t) (off : Nat) :
    locate p off ts = locate q off ts := by
  induction ts generalizing off with
  | nil => rfl
  | cons t ts ih =>
    rw [locate, locate, h t (by simp), ih fun u hu => h u (by simp [hu])]

/-- The entry found splits the list: nothing before it satisfies `p`, and the
offset counts the octets before it. -/
theorem locate_eq_some {p : Tlv → Bool} {ts : List Tlv} {off o : Nat} {t : Tlv} :
    locate p off ts = some (o, t) ↔ ∃ pre post, ts = pre ++ t :: post ∧ (∀ u ∈ pre, p u = false) ∧ p t = true ∧
      o = off + (encodeAll pre).length := by
  induction ts generalizing off with
  | nil => simp [locate]
  | cons u ts ih =>
    constructor
    · intro h
      cases hp : p u with
      | true =>
        simp only [locate, hp, if_true, Option.some.injEq, Prod.mk.injEq] at h
        obtain ⟨rfl, rfl⟩ := h
        exact ⟨[], ts, rfl, by simp, hp, rfl⟩
      | false =>
        simp only [locate, hp, Bool.false_eq_true, if_false, ih] at h
        obtain ⟨pre, post, rfl, hpre, ht, rfl⟩ := h
        exact ⟨u :: pre, post, rfl, by simpa [hp] using hpre, ht, by simp; omega⟩
    · rintro ⟨pre, post, hts, hpre, ht, ho⟩
      cases pre with
      | nil =>
        obtain ⟨rfl, rfl⟩ := List.cons.inj hts
        simp [locate, ht, ho]
      | cons v pre =>
        obtain ⟨rfl, rfl⟩ := List.cons.inj hts
        have hv : p u = false := hpre u (by simp)
        simp only [locate, hv, Bool.false_eq_true, if_false, ih]
        exact ⟨pre, post, rfl, fun w hw => hpre w (by simp [hw]), ht, by rw [ho]; simp; omega⟩

/-- With at most one entry of a kind, none stands before it. -/
theorem none_before {p : Tlv → Bool} {pre post : List Tlv} {t : Tlv} (h : (pre ++ t :: post).countP p ≤ 1)
    (ht : p t = true) : ∀ u ∈ pre, p u = false := by
  rw [List.countP_append, List.countP_cons_of_pos ht] at h
  intro u hu
  have := List.countP_eq_zero.mp (show pre.countP p = 0 by omega) u hu
  simpa using this

/-- Equal offsets cut a list at the same place. -/
theorem split_unique {a b c e : List Tlv} (h : a ++ b = c ++ e) (hl : (encodeAll a).length = (encodeAll c).length) :
    a = c ∧ b = e := by
  have henc : encodeAll a ++ encodeAll b = encodeAll c ++ encodeAll e := by
    rw [← encodeAll_append, ← encodeAll_append, h]
  obtain ⟨h1, h2⟩ := List.append_inj henc hl
  exact ⟨encodeAll_inj h1, encodeAll_inj h2⟩

end Tlv
end QuickRelay.Lib
