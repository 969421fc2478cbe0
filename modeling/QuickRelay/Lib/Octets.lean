import Mathlib.Data.List.Induction
import Mathlib.Tactic.Common
import QuickRelay.Lib.Outcome

/-! Octet strings: checked indexing and slicing, in-place copies, fixed-length
arrays and big-endian fields. An access out of range is a panic. -/
namespace QuickRelay.Lib

abbrev Bytes := List UInt8

/-- A `[u8; n]`. -/
abbrev Octets (n : Nat) := {l : Bytes // l.length = n}

variable {ε : Type}

/-- `b[i]`. -/
def octetAt (b : Bytes) (i : Nat) : Outcome ε UInt8 :=
  match b[i]? with
  | some x => .ok x
  | none => .panic

/-- `&b[lo..hi]`. -/
def slice (b : Bytes) (lo hi : Nat) : Outcome ε Bytes :=
  if lo ≤ hi ∧ hi ≤ b.length then .ok ((b.drop lo).take (hi - lo)) else .panic

/-- `dst[lo..hi].copy_from_slice(src)`, with the updated buffer as result. -/
def copyInto (dst : Bytes) (lo hi : Nat) (src : Bytes) : Outcome ε Bytes :=
  if lo ≤ hi ∧ hi ≤ dst.length ∧ src.length = hi - lo
  then .ok (dst.take lo ++ src ++ dst.drop hi) else .panic

/-- A slice copied over a whole `[u8; n]`. -/
def toOctets (n : Nat) (b : Bytes) : Outcome ε (Octets n) :=
  if h : b.length = n then .ok ⟨b, h⟩ else .panic

/-- `<[u8; n]>::try_from(b).ok()`. -/
def tryOctets (n : Nat) (b : Bytes) : Option (Octets n) :=
  if h : b.length = n then some ⟨b, h⟩ else none

def zeros (n : Nat) : Bytes := List.replicate n 0

/-! ### Access -/

@[simp] theorem octetAt_cons_zero (x : UInt8) (b : Bytes) : (octetAt (x :: b) 0 : Outcome ε UInt8) = .ok x := rfl

@[simp] theorem octetAt_cons_succ (x : UInt8) (b : Bytes) (i : Nat) :
    (octetAt (x :: b) (i + 1) : Outcome ε UInt8) = octetAt b i := by
  simp [octetAt]

theorem octetAt_append (a b : Bytes) (i : Nat) :
    (octetAt (a ++ b) (a.length + i) : Outcome ε UInt8) = octetAt b i := by
  simp [octetAt, List.getElem?_append_right]

theorem octetAt_of_lt {b : Bytes} {i : Nat} (h : i < b.length) : (octetAt b i : Outcome ε UInt8) = .ok b[i] := by
  simp [octetAt, h]

theorem octetAt_take {b : Bytes} {n i : Nat} (h : i < n) : (octetAt (b.take n) i : Outcome ε UInt8) = octetAt b i := by
  rw [octetAt, octetAt, List.getElem?_take_of_lt h]

theorem slice_of_le {b : Bytes} {lo hi : Nat} (h : lo ≤ hi) (h' : hi ≤ b.length) :
    (slice b lo hi : Outcome ε Bytes) = .ok ((b.drop lo).take (hi - lo)) := if_pos ⟨h, h'⟩

/-- The middle of three pieces is the slice between the two seams. -/
theorem slice_append (a b c : Bytes) :
    (slice (a ++ (b ++ c)) a.length (a.length + b.length) : Outcome ε Bytes) = .ok b := by
  rw [slice_of_le (by omega) (by simp)]
  simp

theorem toOctets_of_length {n : Nat} {b : Bytes} (h : b.length = n) :
    (toOctets n b : Outcome ε (Octets n)) = .ok ⟨b, h⟩ := dif_pos h

@[simp] theorem zeros_length (n : Nat) : (zeros n).length = n := List.length_replicate

@[simp] theorem zeros_drop (n k : Nat) : (zeros n).drop k = zeros (n - k) := List.drop_replicate

@[simp] theorem zeros_getD (n i : Nat) : (zeros n).getD i 0 = 0 := by
  rw [zeros, List.getD_eq_getElem?_getD, List.getElem?_replicate]
  split <;> rfl

theorem copyInto_of_le {dst src : Bytes} {lo hi : Nat} (h : lo ≤ hi) (h' : hi ≤ dst.length)
    (hs : src.length = hi - lo) :
    (copyInto dst lo hi src : Outcome ε Bytes) = .ok (dst.take lo ++ src ++ dst.drop hi) :=
  if_pos ⟨h, h', hs⟩

/-- A string of at least four octets, spelled out. -/
theorem exists_four {b : Bytes} (h : 4 ≤ b.length) :
    ∃ x0 x1 x2 x3 rest, b = x0 :: x1 :: x2 :: x3 :: rest := by
  rcases b with _ | ⟨x0, _ | ⟨x1, _ | ⟨x2, _ | ⟨x3, rest⟩⟩⟩⟩
  any_goals simp at h
  exact ⟨x0, x1, x2, x3, rest, rfl⟩

/-! ### Big-endian fields -/

/-- The number a string of octets spells, most significant octet first. -/
def beNat (b : Bytes) : Nat := b.foldl (fun acc x => acc * 256 + x.toNat) 0

/-- The `w` low-order octets of a number, most significant first. -/
def beOctets : Nat → Nat → Bytes
  | 0, _ => []
  | w + 1, n => beOctets w (n / 256) ++ [UInt8.ofNat n]

theorem beNat_concat (b : Bytes) (x : UInt8) : beNat (b ++ [x]) = beNat b * 256 + x.toNat := by
  simp [beNat]

@[simp] theorem beOctets_length (w n : Nat) : (beOctets w n).length = w := by
  induction w generalizing n with
  | zero => rfl
  | succ w ih => simp [beOctets, ih]

/-- A number that fits the field survives encoding. -/
theorem beNat_beOctets (w n : Nat) (h : n < 256 ^ w) : beNat (beOctets w n) = n := by
  induction w generalizing n with
  | zero => simp [beOctets, beNat]; omega
  | succ w ih =>
    have hq : n / 256 < 256 ^ w := Nat.div_lt_of_lt_mul (by rw [Nat.pow_succ] at h; omega)
    rw [beOctets, beNat_concat, ih _ hq, UInt8.toNat_ofNat']
    omega

/-- Every string of octets is the encoding of the number it spells. -/
theorem beOctets_beNat (b : Bytes) : beOctets b.length (beNat b) = b := by
  induction b using List.reverseRecOn with
  | nil => rfl
  | append_singleton b x ih =>
    have hx := x.toNat_lt
    rw [List.length_append, List.length_singleton, beOctets, beNat_concat]
    have hd : (beNat b * 256 + x.toNat) / 256 = beNat b := by omega
    rw [hd, ih]
    congr 2
    apply UInt8.toNat_inj.mp
    rw [UInt8.toNat_ofNat']
    omega

theorem beNat_lt (b : Bytes) : beNat b < 256 ^ b.length := by
  induction b using List.reverseRecOn with
  | nil => simp [beNat]
  | append_singleton b x ih =>
    have hx := x.toNat_lt
    rw [List.length_append, List.length_singleton, beNat_concat, Nat.pow_succ]
    omega

/-- `u16::from_be_bytes`. -/
def u16FromBe (a b : UInt8) : UInt16 := UInt16.ofNat (beNat [a, b])
/-- `u16::to_be_bytes`. -/
def u16ToBe (v : UInt16) : Bytes := beOctets 2 v.toNat
/-- `u32::from_be_bytes`. -/
def u32FromBe (a b c d : UInt8) : UInt32 := UInt32.ofNat (beNat [a, b, c, d])
/-- `u32::to_be_bytes`. -/
def u32ToBe (v : UInt32) : Bytes := beOctets 4 v.toNat
/-- `u64::from_be_bytes`. -/
def u64FromBe (b : Octets 8) : UInt64 := UInt64.ofNat (beNat b.val)

@[simp] theorem u16ToBe_length (v : UInt16) : (u16ToBe v).length = 2 := beOctets_length _ _
@[simp] theorem u32ToBe_length (v : UInt32) : (u32ToBe v).length = 4 := beOctets_length _ _

theorem u16ToBe_fromBe (a b : UInt8) : u16ToBe (u16FromBe a b) = [a, b] := by
  have h := beOctets_beNat [a, b]
  have hlt := beNat_lt [a, b]
  rw [u16ToBe, u16FromBe, UInt16.toNat_ofNat', Nat.mod_eq_of_lt (by simpa using hlt)]
  exact h

theorem u32ToBe_fromBe (a b c d : UInt8) : u32ToBe (u32FromBe a b c d) = [a, b, c, d] := by
  have h := beOctets_beNat [a, b, c, d]
  have hlt := beNat_lt [a, b, c, d]
  rw [u32ToBe, u32FromBe, UInt32.toNat_ofNat', Nat.mod_eq_of_lt (by simpa using hlt)]
  exact h

/-- A 16-bit field is its two octets. -/
theorem u16ToBe_eq (v : UInt16) : ∃ a b, u16ToBe v = [a, b] ∧ u16FromBe a b = v := by
  have hl := u16ToBe_length v
  match hv : u16ToBe v, hl with
  | [a, b], _ =>
    refine ⟨a, b, rfl, ?_⟩
    rw [u16FromBe, ← hv, u16ToBe, beNat_beOctets _ _ (by simpa using v.toNat_lt)]
    exact UInt16.ofNat_toNat

theorem u16ToBe_inj {v w : UInt16} (h : u16ToBe v = u16ToBe w) : v = w := by
  obtain ⟨a, b, hv, rfl⟩ := u16ToBe_eq v
  obtain ⟨c, d, hw, rfl⟩ := u16ToBe_eq w
  rw [hv, hw] at h
  simp only [List.cons.injEq] at h
  rw [h.1, h.2.1]

theorem u32ToBe_eq (v : UInt32) : ∃ a b c d, u32ToBe v = [a, b, c, d] ∧ u32FromBe a b c d = v := by
  have hl := u32ToBe_length v
  match hv : u32ToBe v, hl with
  | [a, b, c, d], _ =>
    refine ⟨a, b, c, d, rfl, ?_⟩
    rw [u32FromBe, ← hv, u32ToBe, beNat_beOctets _ _ (by simpa using v.toNat_lt)]
    exact UInt32.ofNat_toNat

/-- Any four octets are a 32-bit field. -/
theorem exists_u32ToBe {b : Bytes} (h : b.length = 4) : ∃ v, b = u32ToBe v := by
  obtain ⟨x0, x1, x2, x3, rest, rfl⟩ := exists_four (Nat.le_of_eq h.symm)
  obtain rfl : rest = [] := by simpa using h
  exact ⟨_, (u32ToBe_fromBe x0 x1 x2 x3).symm⟩

/-- `u16::from_be_bytes([b[i], b[i + 1]])`. -/
def readU16 (b : Bytes) (i : Nat) : Outcome ε UInt16 := do
  let hi ← octetAt b i
  let lo ← octetAt b (i + 1)
  return u16FromBe hi lo

/-- The 16-bit fields of `b.as_chunks::<2>().0`; an odd octet at the end is not a chunk. -/
def u16Pairs : Bytes → List UInt16
  | a :: b :: rest => u16FromBe a b :: u16Pairs rest
  | _ => []

theorem u16Pairs_flatMap (l : List UInt16) : u16Pairs (l.flatMap u16ToBe) = l := by
  induction l with
  | nil => rfl
  | cons v l ih =>
    obtain ⟨a, b, hab, hv⟩ := u16ToBe_eq v
    rw [List.flatMap_cons, hab]
    change u16FromBe a b :: u16Pairs (l.flatMap u16ToBe) = v :: l
    rw [hv, ih]

theorem u16Pairs_length (b : Bytes) : (u16Pairs b).length = b.length / 2 := by
  induction b using u16Pairs.induct with
  | case1 a b rest ih =>
    rw [u16Pairs, List.length_cons, ih, List.length_cons, List.length_cons]
    omega
  | case2 b h =>
    rcases b with _ | ⟨x, _ | ⟨y, rest⟩⟩
    · rfl
    · simp [u16Pairs]
    · exact absurd rfl (h x y rest)

theorem flatMap_u16ToBe_length (l : List UInt16) : (l.flatMap u16ToBe).length = 2 * l.length := by
  induction l with
  | nil => rfl
  | cons v l ih => rw [List.flatMap_cons, List.length_append, u16ToBe_length, ih, List.length_cons]; omega

/-- `u32::from_be_bytes([b[i], b[i + 1], b[i + 2], b[i + 3]])`. -/
def readU32 (b : Bytes) (i : Nat) : Outcome ε UInt32 := do
  let b0 ← octetAt b i
  let b1 ← octetAt b (i + 1)
  let b2 ← octetAt b (i + 2)
  let b3 ← octetAt b (i + 3)
  return u32FromBe b0 b1 b2 b3

/-- A field is read back at the offset where it was written. -/
theorem readU16_append (a c : Bytes) (v : UInt16) :
    (readU16 (a ++ (u16ToBe v ++ c)) a.length : Outcome ε UInt16) = .ok v := by
  obtain ⟨x, y, hxy, hv⟩ := u16ToBe_eq v
  have h0 : (octetAt (a ++ ([x, y] ++ c)) a.length : Outcome ε UInt8) = .ok x := by
    simpa using octetAt_append a ([x, y] ++ c) 0
  have h1 : (octetAt (a ++ ([x, y] ++ c)) (a.length + 1) : Outcome ε UInt8) = .ok y := by
    simpa using octetAt_append a ([x, y] ++ c) 1
  rw [readU16, hxy, h0, h1, ← hv]
  rfl

theorem readU16_append_add (a b : Bytes) (i : Nat) :
    (readU16 (a ++ b) (a.length + i) : Outcome ε UInt16) = readU16 b i := by
  rw [readU16, octetAt_append, Nat.add_assoc, octetAt_append, readU16]

theorem readU16_of_lt {b : Bytes} {i : Nat} (h : i + 1 < b.length) :
    (readU16 b i : Outcome ε UInt16) = .ok (u16FromBe b[i] b[i + 1]) := by
  rw [readU16, octetAt_of_lt (by omega), octetAt_of_lt h]
  rfl

/-- A field is read from the octets up to its end. -/
theorem readU16_congr {b b' : Bytes} {n i : Nat} (h : i + 1 < n) (ht : b.take n = b'.take n) :
    (readU16 b i : Outcome ε UInt16) = readU16 b' i := by
  rw [readU16, readU16, ← octetAt_take (Nat.lt_of_succ_lt h), ← octetAt_take h, ht, octetAt_take (Nat.lt_of_succ_lt h),
    octetAt_take h]

theorem readU32_u32ToBe (v : UInt32) : (readU32 (u32ToBe v) 0 : Outcome ε UInt32) = .ok v := by
  obtain ⟨a, b, c, d, h, hv⟩ := u32ToBe_eq v
  rw [h, ← hv]
  rfl

theorem u32ToBe_inj {v w : UInt32} (h : u32ToBe v = u32ToBe w) : v = w := by
  have hv := readU32_u32ToBe (ε := Unit) v
  rw [h, readU32_u32ToBe] at hv
  exact (Outcome.ok.inj hv).symm

theorem readU16_u16ToBe (v : UInt16) (rest : Bytes) : (readU16 (u16ToBe v ++ rest) 0 : Outcome ε UInt16) = .ok v :=
  readU16_append [] rest v

end QuickRelay.Lib
