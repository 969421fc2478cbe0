import QuickRelay.Lib.Buffer
import QuickRelay.Protocol.Error

/-! Socket addresses inside attribute values: plain, XOR-ed with the cookie and
the transaction identifier, and with the family octet first. -/
namespace QuickRelay.Protocol
open Lib

inductive AddressFamily where
  | ipv4
  | ipv6
  deriving DecidableEq, Repr

namespace AddressFamily

def fromOctet (octet : UInt8) : Option AddressFamily :=
  match octet with
  | 0x01 => some .ipv4
  | 0x02 => some .ipv6
  | _ => none

def toOctet : AddressFamily → UInt8
  | .ipv4 => 0x01
  | .ipv6 => 0x02

def addressOctets : AddressFamily → Nat
  | .ipv4 => 4
  | .ipv6 => 16

def valueLen (f : AddressFamily) : Nat := 4 + f.addressOctets

@[simp] theorem fromOctet_toOctet (f : AddressFamily) : fromOctet f.toOctet = some f := by
  cases f <;> rfl

theorem toOctet_of_fromOctet {x : UInt8} {f : AddressFamily} (h : fromOctet x = some f) : f.toOctet = x := by
  unfold fromOctet at h
  split at h <;> cases h <;> rfl

theorem addressOctets_le (f : AddressFamily) : f.addressOctets ≤ 16 := by
  cases f <;> decide

end AddressFamily

structure MappedAddress where
  family : AddressFamily
  ip : Octets 16
  port : UInt16
  deriving DecidableEq, Repr

namespace MappedAddress

def fromIpv4 (octets : Octets 4) (port : UInt16) : MappedAddress :=
  ⟨.ipv4, ⟨octets.val ++ zeros 12, by simp [octets.property]⟩, port⟩

def fromIpv6 (ip : Octets 16) (port : UInt16) : MappedAddress := ⟨.ipv6, ip, port⟩

end MappedAddress

def xorPortKey : UInt16 := 0x2112
def magicCookieOctets : Bytes := [0x21, 0x12, 0xA4, 0x42]
def xorKeyV4 : Bytes := magicCookieOctets
def xorKeyV6 (txid : Octets 12) : Bytes := magicCookieOctets ++ txid.val

def xorKey (family : AddressFamily) (txid : Octets 12) : Bytes :=
  if family = .ipv4 then xorKeyV4 else xorKeyV6 txid

theorem xorKey_length (f : AddressFamily) (txid : Octets 12) : (xorKey f txid).length = f.addressOctets := by
  cases f
  · rfl
  · simp [xorKey, xorKeyV6, magicCookieOctets, AddressFamily.addressOctets, txid.property]

/-- `let mut ip = [0u8; 16]; ip[..src.len()].copy_from_slice(src)`. -/
def ipFrom (src : Bytes) : Res (Octets 16) := do
  toOctets 16 (← copyInto (zeros 16) 0 src.length src)

/-- The loop `dst[i] = src[i] ^ key[i]` over all of `src`. -/
def xorOctets (src key : Bytes) : Res Bytes :=
  if src.length ≤ key.length then .ok (List.zipWith (· ^^^ ·) src key) else .panic

/-- The checks and fields the plain and the XOR-ed decoder share. -/
def readMapped (buf : Bytes) : Res (AddressFamily × UInt16 × Bytes) := do
  .refuse (buf.length < 4) (.new .malformedAddress)
  .refuse ((← octetAt buf 0) ≠ 0) (.new .malformedAddress)
  let family ← .okOr (.new .unsupportedAddressFamily) (AddressFamily.fromOctet (← octetAt buf 1))
  .refuse (buf.length < family.valueLen) (.new .malformedAddress)
  let port ← readU16 buf 2
  let ip ← slice buf 4 (4 + family.addressOctets)
  return (family, port, ip)

/-- The stores the plain and the XOR-ed encoder share. -/
def writeMapped (family : AddressFamily) (port : UInt16) (ip : Bytes) : Buffer Error Nat := do
  let need := family.valueLen
  let len ← .len
  .lift (.refuse (len < need) (.new .valueTooLong))
  .set 0 0x00
  .set 1 family.toOctet
  .copy 2 4 (u16ToBe port)
  .copy 4 (4 + family.addressOctets) ip
  return need

/-- The decoder of the values that start with the family octet. -/
def readFamilyFirst (short : ErrorKind) (buf : Bytes) : Res MappedAddress := do
  let family ← .okOr (.new .unsupportedAddressFamily) (AddressFamily.fromOctet (← octetAt buf 0))
  let n := family.addressOctets
  .refuse (buf.length < 4 + n) (.new short)
  let ip ← ipFrom (← slice buf 4 (4 + n))
  return ⟨family, ip, ← readU16 buf 2⟩

/-- The encoder of the values that start with the family octet; octet 1 is not stored. -/
def writeFamilyFirst (addr : MappedAddress) : Buffer Error Nat := do
  let n := addr.family.addressOctets
  let need := 4 + n
  let len ← .len
  .lift (.refuse (len < need) (.new .valueTooLong))
  .set 0 addr.family.toOctet
  .copy 2 4 (u16ToBe addr.port)
  .copy 4 (4 + n) (addr.ip.val.take n)
  return need

namespace MappedAddress

def readValue (buf : Bytes) : Res MappedAddress := do
  let (family, port, ip) ← readMapped buf
  return ⟨family, ← ipFrom ip, port⟩

def writeValue (a : MappedAddress) : Buffer Error Nat :=
  writeMapped a.family a.port (a.ip.val.take a.family.addressOctets)

end MappedAddress

def readXorAddress (buf : Bytes) (txid : Octets 12) : Res MappedAddress := do
  let (family, port, ip) ← readMapped buf
  let ip ← ipFrom (← xorOctets ip (xorKey family txid))
  return ⟨family, ip, port ^^^ xorPortKey⟩

def writeXorAddress (addr : MappedAddress) (txid : Octets 12) : Buffer Error Nat := do
  let ip ← .lift (xorOctets (addr.ip.val.take addr.family.addressOctets) (xorKey addr.family txid))
  writeMapped addr.family (addr.port ^^^ xorPortKey) ip

def readAlternateServer (buf : Bytes) : Res MappedAddress :=
  readFamilyFirst .malformedAlternateServer buf

def writeAlternateServer (addr : MappedAddress) : Buffer Error Nat := writeFamilyFirst addr

/-! ### What the readers accept -/

/-- Sixteen octets that continue `src` with zeros. -/
def ipPad (src : Bytes) (h : src.length ≤ 16) : Octets 16 :=
  ⟨src ++ zeros (16 - src.length), by simp; omega⟩

theorem ipFrom_eq {src : Bytes} (h : src.length ≤ 16) : ipFrom src = .ok (ipPad src h) := by
  have hc : (copyInto (zeros 16) 0 src.length src : Res Bytes) = .ok (src ++ zeros (16 - src.length)) := by
    rw [copyInto_of_le (Nat.zero_le _) (by simpa using h) (by omega)]
    simp
  rw [ipFrom, hc]
  exact toOctets_of_length (by simp; omega)

theorem xorOctets_eq {src key : Bytes} (h : src.length = key.length) :
    xorOctets src key = .ok (List.zipWith (· ^^^ ·) src key) := if_pos (Nat.le_of_eq h)

/-- A mapped-address value laid out as the shared encoder stores it. -/
def mappedValue (family : AddressFamily) (port : UInt16) (ip : Bytes) : Bytes :=
  0x00 :: family.toOctet :: (u16ToBe port ++ ip)

theorem readMapped_append {f : AddressFamily} {ip : Bytes} (h : ip.length = f.addressOctets) (p : UInt16)
    (rest : Bytes) : readMapped (mappedValue f p ip ++ rest) = .ok (f, p, ip) := by
  obtain ⟨a, b, hp, rfl⟩ := u16ToBe_eq p
  have hs : (slice (0 :: f.toOctet :: a :: b :: (ip ++ rest)) 4 (4 + f.addressOctets) : Res Bytes) = .ok ip := by
    have := slice_append (ε := Error) [0, f.toOctet, a, b] ip rest
    rwa [h] at this
  simp only [mappedValue, hp, List.cons_append, List.nil_append]
  simp [readMapped, readU16, hs, AddressFamily.valueLen, h, Outcome.okOr]
  rw [Outcome.refuse_neg (by omega), Outcome.ok_bind]

/-- The shared decoder never panics, and what it accepts is a mapped-address value. -/
theorem readMapped_cases (buf : Bytes) : (∃ e, readMapped buf = .err e) ∨
    ∃ f p ip rest, ip.length = f.addressOctets ∧ buf = mappedValue f p ip ++ rest ∧
      readMapped buf = .ok (f, p, ip) := by
  by_cases h4 : buf.length < 4
  · left; simp [readMapped, h4]
  obtain ⟨x0, x1, x2, x3, body, rfl⟩ := exists_four (Nat.le_of_not_lt h4)
  by_cases h0 : x0 = 0
  swap
  · left; simp [readMapped, h0]
  cases hf : AddressFamily.fromOctet x1 with
  | none => left; simp [readMapped, h0, hf, Outcome.okOr]
  | some f =>
    by_cases hl : body.length < f.addressOctets
    · have hlen : body.length + 1 + 1 + 1 + 1 < f.valueLen := by rw [AddressFamily.valueLen]; omega
      left; simp only [readMapped, Outcome.refuse_neg h4]; simp [h0, hf, Outcome.okOr, hlen]
    · have hip : (body.take f.addressOctets).length = f.addressOctets := by simp; omega
      have hb : x0 :: x1 :: x2 :: x3 :: body =
          mappedValue f (u16FromBe x2 x3) (body.take f.addressOctets) ++ body.drop f.addressOctets := by
        simp [mappedValue, u16ToBe_fromBe, h0, AddressFamily.toOctet_of_fromOctet hf]
      exact .inr ⟨f, _, _, _, hip, hb, hb ▸ readMapped_append hip _ _⟩

/-- The plain decoder keeps the octets of the shared one. -/
theorem MappedAddress.readValue_of_mapped {buf ip : Bytes} {f : AddressFamily} {p : UInt16} (hl : ip.length = f.addressOctets)
    (h : readMapped buf = .ok (f, p, ip)) : readValue buf = .ok ⟨f, ipPad ip (hl ▸ f.addressOctets_le), p⟩ := by
  rw [readValue, h, Outcome.ok_bind]
  simp only [ipFrom_eq (hl ▸ f.addressOctets_le), Outcome.ok_bind]
  rfl

theorem zipWith_xorKey_length {f : AddressFamily} {ip : Bytes} (h : ip.length = f.addressOctets) (txid : Octets 12) :
    (List.zipWith (· ^^^ ·) ip (xorKey f txid)).length = f.addressOctets := by
  rw [List.length_zipWith, xorKey_length, h, Nat.min_self]

/-- The masking decoder unmasks them. -/
theorem readXorAddress_of_mapped {buf ip : Bytes} {f : AddressFamily} {p : UInt16} (hl : ip.length = f.addressOctets)
    (h : readMapped buf = .ok (f, p, ip)) (txid : Octets 12) : readXorAddress buf txid = .ok ⟨f,
      ipPad (List.zipWith (· ^^^ ·) ip (xorKey f txid)) (zipWith_xorKey_length hl txid ▸ f.addressOctets_le), p ^^^ xorPortKey⟩ := by
  rw [readXorAddress, h, Outcome.ok_bind]
  simp only [xorOctets_eq (hl.trans (xorKey_length f txid).symm), Outcome.ok_bind,
    ipFrom_eq (zipWith_xorKey_length hl txid ▸ f.addressOctets_le)]
  rfl

theorem MappedAddress.readValue_ne_panic (buf : Bytes) : readValue buf ≠ .panic := by
  rcases readMapped_cases buf with ⟨e, h⟩ | ⟨f, p, ip, rest, hl, -, h⟩
  · simp [readValue, h]
  · exact Outcome.ne_panic_of_eq_ok (readValue_of_mapped hl h)

theorem readXorAddress_ne_panic (buf : Bytes) (txid : Octets 12) : readXorAddress buf txid ≠ .panic := by
  rcases readMapped_cases buf with ⟨e, h⟩ | ⟨f, p, ip, rest, hl, -, h⟩
  · simp [readXorAddress, h]
  · exact Outcome.ne_panic_of_eq_ok (readXorAddress_of_mapped hl h txid)

/-- Octet 1 of a value that starts with the family octet is free. -/
theorem readFamilyFirst_append (short : ErrorKind) {f : AddressFamily} {ip : Bytes}
    (h : ip.length = f.addressOctets) (x : UInt8) (p : UInt16) (rest : Bytes) :
    readFamilyFirst short (f.toOctet :: x :: (u16ToBe p ++ ip) ++ rest) =
      .ok ⟨f, ipPad ip (h ▸ f.addressOctets_le), p⟩ := by
  obtain ⟨a, b, hp, rfl⟩ := u16ToBe_eq p
  have hs : (slice (f.toOctet :: x :: a :: b :: (ip ++ rest)) 4 (4 + f.addressOctets) : Res Bytes) = .ok ip := by
    have := slice_append (ε := Error) [f.toOctet, x, a, b] ip rest
    rwa [h] at this
  simp only [hp, List.cons_append, List.nil_append]
  simp only [readFamilyFirst, octetAt_cons_zero, Outcome.ok_bind, AddressFamily.fromOctet_toOctet, Outcome.okOr]
  rw [Outcome.refuse_neg (by simp only [List.length_cons, List.length_append]; omega), Outcome.ok_bind, hs,
    Outcome.ok_bind, ipFrom_eq (h ▸ f.addressOctets_le)]
  rfl

private theorem readFamilyFirst_cases (short : ErrorKind) (buf : Bytes) : buf = [] ∨
    (∃ e, readFamilyFirst short buf = .err e) ∨
    ∃ (f : AddressFamily) (x : UInt8) (p : UInt16) (ip rest : Bytes), ip.length = f.addressOctets ∧
      buf = f.toOctet :: x :: (u16ToBe p ++ ip) ++ rest := by
  cases buf with
  | nil => exact .inl rfl
  | cons x0 tl =>
    refine .inr ?_
    cases hf : AddressFamily.fromOctet x0 with
    | none => left; simp [readFamilyFirst, hf, Outcome.okOr]
    | some f =>
      by_cases hl : tl.length + 1 < 4 + f.addressOctets
      · left; simp [readFamilyFirst, hf, Outcome.okOr, hl]
      · right
        obtain ⟨y0, x1, x2, x3, body, hb⟩ := exists_four (b := x0 :: tl) (by rw [List.length_cons]; omega)
        obtain ⟨rfl, rfl⟩ := List.cons.inj hb
        simp only [List.length_cons] at hl
        refine ⟨f, x1, u16FromBe x2 x3, body.take f.addressOctets, body.drop f.addressOctets, ?_, ?_⟩
        · rw [List.length_take]; omega
        · simp [u16ToBe_fromBe, AddressFamily.toOctet_of_fromOctet hf]

/-- The family octet is read before any length check, so an empty value panics;
every other value is accepted or refused. -/
theorem readFamilyFirst_eq_panic (short : ErrorKind) (buf : Bytes) :
    readFamilyFirst short buf = .panic ↔ buf = [] := by
  rcases readFamilyFirst_cases short buf with rfl | ⟨e, he⟩ | ⟨f, x, p, ip, rest, hl, rfl⟩
  · simp [readFamilyFirst, octetAt]
  · rw [he]
    simp only [reduceCtorEq, false_iff]
    rintro rfl
    simp [readFamilyFirst, octetAt] at he
  · rw [readFamilyFirst_append short hl]
    simp

/-! ### What the writers store -/

theorem mappedValue_length {f : AddressFamily} {ip : Bytes} (h : ip.length = f.addressOctets) (p : UInt16) :
    (mappedValue f p ip).length = f.valueLen := by
  simp only [mappedValue, List.length_cons, List.length_append, u16ToBe_length, h, AddressFamily.valueLen]
  omega

theorem writeMapped_writes {f : AddressFamily} {ip : Bytes} (h : ip.length = f.addressOctets) (p : UInt16) :
    (writeMapped f p ip).Writes (.new .valueTooLong) (mappedValue f p ip) := by
  intro out
  rw [mappedValue_length h, writeMapped, Buffer.bind_run_ok (Buffer.len_run _), Buffer.refuse_bind_run]
  by_cases hn : f.valueLen ≤ out.length
  · rw [if_pos hn, if_neg (by omega)]
    have h4 : 4 + f.addressOctets ≤ out.length := hn
    obtain ⟨x0, x1, x2, x3, body, rfl⟩ := exists_four (b := out) (by omega)
    obtain ⟨a, b, hp, -⟩ := u16ToBe_eq p
    simp only [List.length_cons] at h4
    rw [Buffer.bind_run_ok (Buffer.set_run _ (by simp)), Buffer.bind_run_ok (Buffer.set_run _ (by simp)),
      Buffer.bind_run_ok (Buffer.copy_run (by omega) (by simp) (by simp)),
      Buffer.bind_run_ok (Buffer.copy_run (by omega) (by simp [hp]; omega) (by omega))]
    simp only [mappedValue, hp, List.set_cons_zero, List.set_cons_succ, List.take_succ_cons, List.take_zero,
      List.drop_succ_cons, List.drop_zero, List.cons_append, List.nil_append, Buffer.pure_run,
      AddressFamily.valueLen, Nat.add_comm 4]
  · rw [if_neg hn, if_pos (by omega)]

namespace MappedAddress

/-- The address octets the family uses. -/
def octets (a : MappedAddress) : Bytes := a.ip.val.take a.family.addressOctets

@[simp] theorem octets_length (a : MappedAddress) : a.octets.length = a.family.addressOctets := by
  rw [octets, List.length_take, a.ip.property]; exact Nat.min_eq_left a.family.addressOctets_le

/-- The octets the family does not use are zero, as every reader leaves them. -/
def Padded (a : MappedAddress) : Prop := a.ip.val.drop a.family.addressOctets = zeros (16 - a.family.addressOctets)

theorem ipPad_octets {a : MappedAddress} (h : a.Padded) : ipPad a.octets (a.octets_length ▸ a.family.addressOctets_le) = a.ip := by
  apply Subtype.ext
  change a.octets ++ zeros (16 - a.octets.length) = a.ip.val
  rw [octets_length, ← h, octets, List.take_append_drop]

theorem padded_ipPad (f : AddressFamily) {ip : Bytes} (h : ip.length = f.addressOctets) (p : UInt16) :
    (MappedAddress.mk f (ipPad ip (h ▸ f.addressOctets_le)) p).Padded := by
  simp only [Padded, ipPad, ← h, List.drop_left]

theorem writeValue_writes (a : MappedAddress) :
    a.writeValue.Writes (.new .valueTooLong) (mappedValue a.family a.port a.octets) :=
  writeMapped_writes a.octets_length a.port

theorem readValue_append {a : MappedAddress} (h : a.Padded) (rest : Bytes) :
    readValue (mappedValue a.family a.port a.octets ++ rest) = .ok a := by
  rw [readValue_of_mapped a.octets_length (readMapped_append a.octets_length a.port rest), ipPad_octets h]

theorem padded_of_readValue {buf : Bytes} {a : MappedAddress} (h : readValue buf = .ok a) : a.Padded := by
  rcases readMapped_cases buf with ⟨e, he⟩ | ⟨f, p, ip, rest, hl, -, hr⟩
  · simp [readValue, he] at h
  · rw [readValue_of_mapped hl hr] at h
    cases h
    exact padded_ipPad f hl p

/-- The value of an address whose family octet comes first, with octet 1 free. -/
def familyFirstValue (a : MappedAddress) (x : UInt8) : Bytes :=
  a.family.toOctet :: x :: (u16ToBe a.port ++ a.octets)

@[simp] theorem familyFirstValue_length (a : MappedAddress) (x : UInt8) :
    (a.familyFirstValue x).length = 4 + a.family.addressOctets := by
  simp only [familyFirstValue, List.length_cons, List.length_append, u16ToBe_length, octets_length]
  omega

theorem readFamilyFirst_familyFirstValue (short : ErrorKind) {a : MappedAddress} (h : a.Padded) (x : UInt8)
    (rest : Bytes) : readFamilyFirst short (a.familyFirstValue x ++ rest) = .ok a := by
  rw [familyFirstValue, readFamilyFirst_append short a.octets_length, ipPad_octets h]

theorem padded_of_readFamilyFirst {short : ErrorKind} {buf : Bytes} {a : MappedAddress}
    (h : readFamilyFirst short buf = .ok a) : a.Padded := by
  rcases readFamilyFirst_cases short buf with rfl | ⟨e, he⟩ | ⟨f, x, p, ip, rest, hl, rfl⟩
  · simp [(readFamilyFirst_eq_panic short []).mpr rfl] at h
  · simp [he] at h
  · rw [readFamilyFirst_append short hl] at h
    cases h
    exact padded_ipPad f hl p

end MappedAddress

/-- The octet that is not stored is the one the buffer held before. -/
theorem writeFamilyFirst_run (a : MappedAddress) (out : Bytes) :
    writeFamilyFirst a out = if 4 + a.family.addressOctets ≤ out.length then
      (.ok (4 + a.family.addressOctets), a.familyFirstValue (out.getD 1 0) ++ out.drop (4 + a.family.addressOctets))
    else (.err (.new .valueTooLong), out) := by
  have hip : (a.ip.val.take a.family.addressOctets).length = a.family.addressOctets := a.octets_length
  rw [writeFamilyFirst, Buffer.bind_run_ok (Buffer.len_run _), Buffer.refuse_bind_run]
  by_cases h4 : 4 + a.family.addressOctets ≤ out.length
  · rw [if_pos h4, if_neg (by omega)]
    obtain ⟨x0, x1, x2, x3, body, rfl⟩ := exists_four (b := out) (by omega)
    obtain ⟨p, q, hp, -⟩ := u16ToBe_eq a.port
    simp only [List.length_cons] at h4
    rw [Buffer.bind_run_ok (Buffer.set_run _ (by simp)),
      Buffer.bind_run_ok (Buffer.copy_run (by omega) (by simp) (by simp)),
      Buffer.bind_run_ok (Buffer.copy_run (by omega) (by simp [hp]; omega) (by omega))]
    simp only [MappedAddress.familyFirstValue, MappedAddress.octets, hp, List.set_cons_zero, List.take_succ_cons,
      List.take_zero, List.getD_cons_succ, List.getD_cons_zero, List.drop_succ_cons, List.drop_zero,
      List.cons_append, List.nil_append, Buffer.pure_run, Nat.add_comm 4]
  · rw [if_neg h4, if_pos (by omega)]

private theorem xor_self_cancel {a k : Bytes} (h : a.length = k.length) :
    List.zipWith (· ^^^ ·) (List.zipWith (· ^^^ ·) a k) k = a := by
  induction a generalizing k with
  | nil => rfl
  | cons x a ih =>
    cases k with
    | nil => simp at h
    | cons y k =>
      simp only [List.length_cons, Nat.add_right_cancel_iff] at h
      simp only [List.zipWith_cons_cons, ih h, UInt8.xor_assoc, UInt8.xor_self, UInt8.xor_zero]

/-- The masked address octets. -/
def xorOctetsOf (a : MappedAddress) (txid : Octets 12) : Bytes :=
  List.zipWith (· ^^^ ·) a.octets (xorKey a.family txid)

@[simp] theorem xorOctetsOf_length (a : MappedAddress) (txid : Octets 12) :
    (xorOctetsOf a txid).length = a.family.addressOctets := by
  simp [xorOctetsOf, xorKey_length]

theorem writeXorAddress_writes (a : MappedAddress) (txid : Octets 12) :
    (writeXorAddress a txid).Writes (.new .valueTooLong)
      (mappedValue a.family (a.port ^^^ xorPortKey) (xorOctetsOf a txid)) := by
  have hx : xorOctets a.octets (xorKey a.family txid) = .ok (xorOctetsOf a txid) :=
    xorOctets_eq (by rw [a.octets_length, xorKey_length])
  intro out
  have h := writeMapped_writes (xorOctetsOf_length a txid) (a.port ^^^ xorPortKey) out
  have hl : (Buffer.lift (xorOctets a.octets (xorKey a.family txid)) : Buffer Error Bytes) out =
      (.ok (xorOctetsOf a txid), out) := by
    rw [Buffer.lift_run, hx]
  rw [← h, writeXorAddress]
  exact Buffer.bind_run_ok hl

/-- Unmasking with the transaction identifier that masked gives the address back. -/
theorem readXorAddress_append {a : MappedAddress} (h : a.Padded) (txid : Octets 12) (rest : Bytes) :
    readXorAddress (mappedValue a.family (a.port ^^^ xorPortKey) (xorOctetsOf a txid) ++ rest) txid = .ok a := by
  have hx : xorOctets (xorOctetsOf a txid) (xorKey a.family txid) = .ok a.octets := by
    rw [xorOctets_eq (by rw [xorOctetsOf_length, xorKey_length]), xorOctetsOf,
      xor_self_cancel (by rw [a.octets_length, xorKey_length])]
  rw [readXorAddress, readMapped_append (xorOctetsOf_length a txid), Outcome.ok_bind]
  simp only [hx, Outcome.ok_bind, ipFrom_eq (a.octets_length ▸ a.family.addressOctets_le),
    MappedAddress.ipPad_octets h, UInt16.xor_assoc, UInt16.xor_self, UInt16.xor_zero]
  rfl

theorem padded_of_readXorAddress {buf : Bytes} {txid : Octets 12} {a : MappedAddress}
    (h : readXorAddress buf txid = .ok a) : a.Padded := by
  rcases readMapped_cases buf with ⟨e, he⟩ | ⟨f, p, ip, rest, hl, -, hr⟩
  · simp [readXorAddress, he] at h
  · rw [readXorAddress_of_mapped hl hr] at h
    cases h
    exact MappedAddress.padded_ipPad f (zipWith_xorKey_length hl txid) _

end QuickRelay.Protocol
