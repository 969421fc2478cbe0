import QuickRelay.Protocol.Authentic

/-! The keys of the three credential mechanisms, and whose message it is that verifies under
one of them. -/
namespace QuickRelay.Protocol
open Lib

variable (crypto : Crypto) (md5 : Bytes → Octets 16)

namespace Integrity

/-- The password's octets. -/
def shortTermKey (password : Bytes) : Bytes := password

/-- `:`. -/
def colon : UInt8 := 0x3A

/-- What the long-term key is the digest of. -/
def longTermInput (username realm password : Bytes) : Bytes := username ++ colon :: (realm ++ colon :: password)

def longTermKey (username realm password : Bytes) : Octets 16 := md5 (longTermInput username realm password)

def staticKey (userAtRealm staticSecret : Bytes) : Octets 20 :=
  let intermediate := crypto.hmacSha1 [0] userAtRealm
  crypto.hmacSha1 intermediate.val staticSecret

end Integrity

/-- What a key is derived from. -/
inductive Credential where
  | shortTerm (password : Bytes)
  | longTerm (username realm password : Bytes)
  | static (userAtRealm staticSecret : Bytes)
  deriving DecidableEq, Repr

namespace Credential

def key : Credential → Bytes
  | .shortTerm password => Integrity.shortTermKey password
  | .longTerm username realm password => (Integrity.longTermKey md5 username realm password).val
  | .static userAtRealm staticSecret => (Integrity.staticKey crypto userAtRealm staticSecret).val

/-- The credential that the key stands for: the octets of a long-term one, cut at their first
two colons. -/
def reading : Credential → Credential
  | .longTerm username realm password =>
    let fields := cut Integrity.colon (Integrity.longTermInput username realm password)
    let rest := cut Integrity.colon fields.2
    .longTerm fields.1 rest.1 rest.2
  | c => c

/-- Two credentials whose keys are the same by accident: other octets with the same digest,
another message or another key with the same HMAC, or keys of two mechanisms. -/
def Collides : Credential → Credential → Prop
  | .shortTerm _, .shortTerm _ => False
  | .longTerm username realm password, .longTerm username' realm' password' =>
    Integrity.longTermInput username realm password ≠ Integrity.longTermInput username' realm' password' ∧
      md5 (Integrity.longTermInput username realm password) = md5 (Integrity.longTermInput username' realm' password')
  | .static userAtRealm staticSecret, .static userAtRealm' staticSecret' =>
    let intermediate := crypto.hmacSha1 [0] userAtRealm
    let intermediate' := crypto.hmacSha1 [0] userAtRealm'
    (userAtRealm ≠ userAtRealm' ∧ intermediate = intermediate') ∨
      ((intermediate, staticSecret) ≠ (intermediate', staticSecret') ∧
        crypto.hmacSha1 intermediate.val staticSecret = crypto.hmacSha1 intermediate'.val staticSecret')
  | c, c' => c.key crypto md5 = c'.key crypto md5

/-! ### What the key says of the credential -/

/-- Without colons in the user name and in the realm, the credential is read as it is. -/
theorem reading_longTerm {username realm : Bytes} (hu : Integrity.colon ∉ username) (hr : Integrity.colon ∉ realm)
    (password : Bytes) : (longTerm username realm password).reading = .longTerm username realm password := by
  simp only [reading, Integrity.longTermInput, cut_join hu, cut_join hr]

/-- The reading has the octets of the credential. -/
theorem longTermInput_reading (username realm password : Bytes) : ∃ username' realm' password',
    (longTerm username realm password).reading = .longTerm username' realm' password' ∧
      Integrity.longTermInput username' realm' password' = Integrity.longTermInput username realm password := by
  refine ⟨_, _, _, rfl, ?_⟩
  have hrest : Integrity.colon ∈ (cut Integrity.colon (Integrity.longTermInput username realm password)).2 :=
    mem_cut_snd (List.mem_append_right realm List.mem_cons_self)
  have hall : Integrity.colon ∈ Integrity.longTermInput username realm password :=
    List.mem_append_right username List.mem_cons_self
  rw [Integrity.longTermInput, join_cut hrest, join_cut hall]

theorem reading_eq_iff {username realm password username' realm' password' : Bytes} :
    (longTerm username realm password).reading = (longTerm username' realm' password').reading ↔
      Integrity.longTermInput username realm password = Integrity.longTermInput username' realm' password' := by
  constructor
  · intro h
    obtain ⟨u, r, p, hread, hinput⟩ := longTermInput_reading username realm password
    obtain ⟨u', r', p', hread', hinput'⟩ := longTermInput_reading username' realm' password'
    rw [hread, hread'] at h
    cases h
    rw [← hinput, hinput']
  · intro h
    simp only [reading, h]

/-- Credentials of one key are read alike, or their keys collide. -/
theorem key_inj {c c' : Credential} (h : c.key crypto md5 = c'.key crypto md5) :
    c.reading = c'.reading ∨ c.Collides crypto md5 c' := by
  match c, c' with
  | .shortTerm _, .shortTerm _ => exact .inl (congrArg shortTerm h)
  | .longTerm username realm password, .longTerm username' realm' password' =>
    by_cases hinput : Integrity.longTermInput username realm password = Integrity.longTermInput username' realm' password'
    · exact .inl (reading_eq_iff.mpr hinput)
    · exact .inr ⟨hinput, Subtype.ext h⟩
  | .static userAtRealm staticSecret, .static userAtRealm' staticSecret' =>
    by_cases hpair : (crypto.hmacSha1 [0] userAtRealm, staticSecret) = (crypto.hmacSha1 [0] userAtRealm', staticSecret')
    · obtain ⟨hmac, rfl⟩ := Prod.ext_iff.mp hpair
      by_cases huser : userAtRealm = userAtRealm'
      · exact .inl (by rw [huser])
      · exact .inr (.inl ⟨huser, hmac⟩)
    · exact .inr (.inr ⟨hpair, Subtype.ext h⟩)
  | .shortTerm _, .longTerm .. | .shortTerm _, .static .. | .longTerm .., .shortTerm _ | .longTerm .., .static ..
  | .static .., .shortTerm _ | .static .., .longTerm .. => exact .inr h

/-- The reading has the key of the credential. -/
theorem key_reading (c : Credential) : c.reading.key crypto md5 = c.key crypto md5 := by
  cases c with
  | shortTerm _ | static _ _ => rfl
  | longTerm username realm password =>
    obtain ⟨u, r, p, hread, hinput⟩ := longTermInput_reading username realm password
    rw [hread]
    exact congrArg (fun input => (md5 input).val) hinput

/-! ### What no digest tells apart -/

/-- A digest that says whether `b` holds. -/
def flag (n : Nat) (b : Bool) : Octets (n + 1) := ⟨(if b then 1 else 0) :: zeros n, by rw [List.length_cons, zeros_length]⟩

theorem flag_inj {n : Nat} {a b : Bool} (h : (flag n a).val = (flag n b).val) : a = b := by
  cases a <;> cases b <;> simp_all [flag]

/-- An HMAC that says whether it is the inner one of the user, or the outer one of the secret
under the key that the inner one of the user gives. -/
def flagHmac (userAtRealm staticSecret : Bytes) : Crypto where
  hmacSha1 key msg := flag 19 (if key = [0] then msg = userAtRealm else key = (flag 19 true).val ∧ msg = staticSecret)
  hmacSha256 _ _ := zeroTag 32
  crc32 _ := 0

theorem staticKey_flagHmac (userAtRealm staticSecret userAtRealm' staticSecret' : Bytes) :
    Integrity.staticKey (flagHmac userAtRealm staticSecret) userAtRealm' staticSecret' =
      flag 19 (userAtRealm' = userAtRealm ∧ staticSecret' = staticSecret) := by
  have hne : ∀ b, (flag 19 b).val ≠ [0] := fun b h => absurd (congrArg List.length h) (by rw [(flag 19 b).property]; decide)
  simp only [Integrity.staticKey, flagHmac, if_pos, if_neg (hne _)]
  by_cases huser : userAtRealm' = userAtRealm
  · simp [huser]
  · have hflag : (flag 19 false).val ≠ (flag 19 true).val := fun h => Bool.noConfusion (flag_inj h)
    simp [huser, hflag]

/-- Only a password is a key that no digest changes. -/
theorem eq_shortTerm {c : Credential} {password : Bytes} (h : ∀ crypto md5, c.key crypto md5 = password) :
    c = .shortTerm password := by
  have hzero := h zeroCrypto fun _ => zeroTag 16
  cases c with
  | shortTerm _ => exact congrArg shortTerm hzero
  | longTerm _ _ _ =>
    have hflag := h zeroCrypto fun _ => flag 15 true
    have heq : (zeroTag 16).val = (flag 15 true).val := hzero.trans hflag.symm
    exact absurd heq (by decide)
  | static userAtRealm staticSecret =>
    have hflag := h (flagHmac userAtRealm staticSecret) fun _ => zeroTag 16
    rw [key, staticKey_flagHmac, decide_eq_true ⟨rfl, rfl⟩] at hflag
    have heq : (zeroTag 20).val = (flag 19 true).val := hzero.trans hflag.symm
    exact absurd heq (by decide)

/-- The keys of two credentials agree whatever the digests are if and only if they are read
alike. -/
theorem keys_agree_iff {c c' : Credential} :
    (∀ crypto md5, c.key crypto md5 = c'.key crypto md5) ↔ c.reading = c'.reading := by
  constructor
  · intro h
    have hzero := h zeroCrypto fun _ => zeroTag 16
    match c, c' with
    | .shortTerm _, c' => rw [eq_shortTerm fun crypto md5 => (h crypto md5).symm]
    | c, .shortTerm _ => rw [eq_shortTerm h]
    | .longTerm username realm password, .longTerm username' realm' password' =>
      have hflag := flag_inj (h zeroCrypto fun input => flag 15 (input = Integrity.longTermInput username realm password))
      exact reading_eq_iff.mpr (of_decide_eq_true (hflag.symm.trans (decide_eq_true rfl))).symm
    | .static userAtRealm staticSecret, .static userAtRealm' staticSecret' =>
      have hflag := h (flagHmac userAtRealm staticSecret) fun _ => zeroTag 16
      rw [key, key, staticKey_flagHmac, staticKey_flagHmac] at hflag
      obtain ⟨rfl, rfl⟩ := of_decide_eq_true ((flag_inj hflag).symm.trans (decide_eq_true ⟨rfl, rfl⟩))
      rfl
    | .longTerm .., .static .. =>
      have hlen : (zeroTag 16).val.length = (zeroTag 20).val.length := congrArg List.length hzero
      exact absurd hlen (by decide)
    | .static .., .longTerm .. =>
      have hlen : (zeroTag 20).val.length = (zeroTag 16).val.length := congrArg List.length hzero
      exact absurd hlen (by decide)
  · intro h crypto md5
    rw [← key_reading crypto md5 c, h, key_reading crypto md5 c']

end Credential

/-- The datagrams that were signed under the key. -/
def signedUnder (key : Bytes) (signed : List (Credential × Bytes)) : List Bytes :=
  (signed.filter fun s => s.1.key crypto md5 = key).map Prod.snd

/-- **Attribution**: a datagram whose tag verifies under a credential's key has the octets in
front of the tag, and with them the type, the transaction and the attributes, of one signed
under a credential read alike, or its tag is the HMAC of an input never signed under that key,
or the keys of a signer and of the credential collide. Credentials read alike are those that no
digest tells apart, and without colons in user and realm a credential is read as it is. -/
theorem verified_credential {d : Bytes} {m : Message} {l : AttributeLocation} {algorithm : IntegrityAlgorithm}
    {c : Credential} (h : parse d = .ok m) (hl : m.integrityLocation = some l)
    (hv : Integrity.verify crypto d l.off algorithm (c.key crypto md5) = .ok ()) (signed : List (Credential × Bytes)) :
    (Forged crypto algorithm (c.key crypto md5) (signedUnder crypto md5 (c.key crypto md5) signed) d l ∨
      (∃ s ∈ signed, s.1.Collides crypto md5 c) ∨ ∃ s ∈ signed, s.1.reading = c.reading ∧ Vouches d m l s.2) ∧
    (∀ c' : Credential, c'.reading = c.reading ↔ ∀ crypto md5, c'.key crypto md5 = c.key crypto md5) ∧
    ∀ username realm password, Integrity.colon ∉ username → Integrity.colon ∉ realm →
      (Credential.longTerm username realm password).reading = .longTerm username realm password := by
  refine ⟨?_, fun c' => Credential.keys_agree_iff.symm, fun _ _ password hu hr => Credential.reading_longTerm hu hr password⟩
  obtain ⟨input, hin, htag⟩ := Integrity.verify_eq_ok.mp hv
  by_cases hsigned : ∃ s ∈ signed, s.1.key crypto md5 = c.key crypto md5 ∧ ∃ l', Integrity.attributeOffset s.2 = some l' ∧
      Integrity.macInput s.2 l'.off algorithm.macLen = .ok input
  · obtain ⟨s, hs, hkey, l', hl', hin'⟩ := hsigned
    rcases Credential.key_inj crypto md5 hkey with hread | hcollides
    · exact .inr (.inr ⟨s, hs, hread, macInput_vouches h hl hl' hin hin'⟩)
    · exact .inr (.inl ⟨s, hs, hcollides⟩)
  · refine .inl ⟨input, hin, htag, fun d' hd' l' hl' hin' => hsigned ?_⟩
    obtain ⟨s, hs, rfl⟩ := List.mem_map.mp hd'
    obtain ⟨hs, hkey⟩ := List.mem_filter.mp hs
    exact ⟨s, hs, of_decide_eq_true hkey, l', hl', hin'⟩

theorem zeroKey_verifies : Integrity.verify zeroCrypto authenticatedRequest 20 .sha1 (zeroTag 16).val = .ok () := by
  decide +kernel

/-- The user `a:b` of the realm `c` signed, the user `a` of the realm `b` is checked. -/
def colonsSigned : List (Credential × Bytes) := [(.longTerm [97, 58, 98] [99] [100], appendedRequest)]

def colonsChecked : Credential := .longTerm [97] [98] [99, 58, 100]

theorem colons_attributed : ∃ m, parse authenticatedRequest = .ok m ∧ ∃ s ∈ colonsSigned, s.1.reading = colonsChecked.reading ∧
    Vouches authenticatedRequest m ⟨20, 0x0008, 20⟩ s.2 := by
  refine ⟨_, parse_authenticated, ?_⟩
  rcases (verified_credential zeroCrypto (fun _ => zeroTag 16) (c := colonsChecked) (l := ⟨20, 0x0008, 20⟩) parse_authenticated rfl
    zeroKey_verifies colonsSigned).1 with ⟨input, hin, -, hnone⟩ | ⟨s, hs, hcollides⟩ | hsigned
  · exact absurd (appended_macInput.trans hin) (hnone _ (List.mem_singleton_self _) _ appended_located)
  · rw [List.mem_singleton.mp hs] at hcollides
    exact absurd rfl hcollides.1
  · exact hsigned

end QuickRelay.Protocol
