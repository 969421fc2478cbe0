import QuickRelay.Protocol.Verification

/-! What a tag that verifies says of the message: its type, its transaction and every
attribute in front of the tag are those of a message that was signed. -/
namespace QuickRelay.Protocol
open Lib

variable (crypto : Crypto)

/-- The attributes in front of the integrity attribute. -/
def Message.signed (m : Message) : List Attribute := m.attributes.takeWhile fun a => !isIntegrityAttribute a

/-- Two messages are the same up to their integrity attributes. -/
structure SignedAlike (m m' : Message) : Prop where
  msgType : m.header.msgType = m'.header.msgType
  txid : m.txid = m'.txid
  signed : m.signed = m'.signed
  location : m.integrityLocation.map AttributeLocation.off = m'.integrityLocation.map AttributeLocation.off

/-- A string whose tag stands where the datagram's does and covers the same octets, the length
field apart; if it is a message, it is the same one up to the tag. -/
structure Vouches (d : Bytes) (m : Message) (l : AttributeLocation) (d' : Bytes) : Prop where
  located : (Integrity.attributeOffset d').map AttributeLocation.off = some l.off
  msgType : d'.take 2 = d.take 2
  covered : (d'.take l.off).drop 4 = (d.take l.off).drop 4
  message : ∀ m', parse d' = .ok m' → SignedAlike m m'

/-- The datagram has a tag of an input that none of the signed ones has. -/
def Forged (algorithm : IntegrityAlgorithm) (key : Bytes) (signed : List Bytes) (d : Bytes) (l : AttributeLocation) : Prop :=
  ∃ input, Integrity.macInput d l.off algorithm.macLen = .ok input ∧
    mac crypto algorithm key input = (d.drop (l.off + 4)).take algorithm.macLen ∧
    ∀ d' ∈ signed, ∀ l', Integrity.attributeOffset d' = some l' → Integrity.macInput d' l'.off algorithm.macLen ≠ .ok input

theorem frame_inj {ty ty' len len' : UInt16} {txid txid' : TransactionId} {body body' : Bytes}
    (h : frame ty len txid body = frame ty' len' txid' body') : ty = ty' ∧ txid = txid' ∧ body = body' := by
  simp only [frame] at h
  obtain ⟨hty, h⟩ := List.append_inj h (by simp)
  obtain ⟨-, h⟩ := List.append_inj h (by simp)
  obtain ⟨-, h⟩ := List.append_inj h (by simp)
  obtain ⟨htxid, hbody⟩ := List.append_inj h (by rw [txid.property, txid'.property])
  exact ⟨u16ToBe_inj hty, Subtype.ext htxid, hbody⟩

/-- Equal MAC inputs cover equal octets. -/
theorem macInput_covers {d d' input : Bytes} {off off' n : Nat} (h : Integrity.macInput d off n = .ok input)
    (h' : Integrity.macInput d' off' n = .ok input) :
    off' = off ∧ d'.take 2 = d.take 2 ∧ (d'.take off').drop 4 = (d.take off).drop 4 := by
  obtain ⟨hfit, len, hlen, rfl⟩ := Integrity.macInput_eq_ok h
  obtain ⟨hfit', len', hlen', heq⟩ := Integrity.macInput_eq_ok h'
  have htwo : (d.take 2).length = (d'.take 2).length := by
    rw [List.length_take, List.length_take]
    omega
  obtain ⟨htype, hrest⟩ := List.append_inj heq htwo
  obtain ⟨hfield, hcovered⟩ := List.append_inj hrest (by rw [u16ToBe_length, u16ToBe_length])
  obtain rfl := u16ToBe_inj hfield
  exact ⟨by omega, htype.symm, hcovered.symm⟩

/-- The MAC input is the frame in front of the attribute under another length. -/
theorem macInput_front {ty len : UInt16} {txid : TransactionId} {body rest : Bytes} {n : Nat} {input : Bytes}
    (h : Integrity.macInput (frame ty len txid (body ++ rest)) (20 + body.length) n = .ok input) :
    ∃ len', input = frame ty len' txid body := by
  obtain ⟨-, len', -, rfl⟩ := Integrity.macInput_eq_ok h
  refine ⟨len', ?_⟩
  have hcut : (frame ty len txid body).length = 20 + body.length := frame_length _ _ _ _
  obtain ⟨a, b, hab, -⟩ := u16ToBe_eq ty
  obtain ⟨c, e, hce, -⟩ := u16ToBe_eq len
  rw [frame_append, ← hcut, List.take_left]
  simp [frame, hab, hce]

/-- What the parser reads in front of the integrity attribute it finds. -/
theorem located_signed {d : Bytes} {m : Message} {l : AttributeLocation} (h : parse d = .ok m)
    (hl : m.integrityLocation = some l) : ∃ ty len t pre rest, MessageType.fromBits ty = some t ∧
      d = frame ty len m.txid (Tlv.encodeAll pre ++ rest) ∧ l.off = 20 + (Tlv.encodeAll pre).length ∧
      m.header.msgType = t ∧ List.Forall₂ (fun t a => decode m.txid t = .ok a) pre m.signed := by
  obtain ⟨ty, t, txid, ts, attrs, ht, -, rfl, hacc, rfl⟩ := parse_eq_ok.mp h
  obtain ⟨⟨o, u⟩, hfind, rfl⟩ := Option.map_eq_some_iff.mp hl
  obtain ⟨pre, post, rfl, hpre, hu, rfl⟩ := Tlv.locate_eq_some.mp hfind
  refine ⟨ty, _, t, pre, _, ht, congrArg (frame ty _ txid) (Tlv.encodeAll_append pre (u :: post)), rfl, rfl, ?_⟩
  -- the attributes decoded from `pre` are none of them integrity attributes, and the next is one
  have hdecoded := hacc.decoded
  clear hl hfind h hacc
  change List.Forall₂ _ pre (attrs.takeWhile fun a => !isIntegrityAttribute a)
  induction pre generalizing attrs with
  | nil =>
    cases hdecoded with
    | @cons _ a _ attrs ha _ =>
      rw [List.takeWhile_cons_of_neg (by rw [isIntegrityAttribute_eq ha, hu]; decide)]
      exact .nil
  | cons v pre ih =>
    cases hdecoded with
    | @cons _ a _ attrs ha hrest =>
      have hv : isIntegrityAttribute a = false := (isIntegrityAttribute_eq ha).trans (hpre v List.mem_cons_self)
      rw [List.takeWhile_cons_of_pos (by rw [hv]; rfl)]
      exact .cons ha (ih attrs (fun w hw => hpre w (List.mem_cons_of_mem _ hw)) hrest)

/-- The length-only walk finds the attribute that the parser recorded. -/
theorem located_walk {d : Bytes} {m : Message} (h : parse d = .ok m) : Integrity.attributeOffset d = m.integrityLocation := by
  obtain ⟨ty, t, txid, ts, attrs, -, hb, rfl, -, rfl⟩ := parse_eq_ok.mp h
  exact Accepts.integrity_walk hb

theorem decoded_unique {txid : TransactionId} {ts : List Tlv} {a b : List Attribute}
    (ha : List.Forall₂ (fun t a => decode txid t = .ok a) ts a) (hb : List.Forall₂ (fun t a => decode txid t = .ok a) ts b) :
    a = b := by
  induction ha generalizing b with
  | nil =>
    cases hb
    rfl
  | cons h _ ih =>
    cases hb with
    | cons h' hb =>
      obtain rfl := Outcome.ok.inj (h.symm.trans h')
      rw [ih hb]

/-- The MAC input is of one message, up to the integrity attribute. -/
theorem macInput_signedAlike {d d' : Bytes} {m m' : Message} {l l' : AttributeLocation} {n : Nat} {input : Bytes}
    (h : parse d = .ok m) (hl : m.integrityLocation = some l) (h' : parse d' = .ok m') (hl' : m'.integrityLocation = some l')
    (hin : Integrity.macInput d l.off n = .ok input) (hin' : Integrity.macInput d' l'.off n = .ok input) : SignedAlike m m' := by
  obtain ⟨ty, len, t, pre, rest, ht, rfl, hoff, htype, hdec⟩ := located_signed h hl
  obtain ⟨ty', len', t', pre', rest', ht', rfl, hoff', htype', hdec'⟩ := located_signed h' hl'
  rw [hoff] at hin
  rw [hoff'] at hin'
  obtain ⟨k, hk⟩ := macInput_front hin
  obtain ⟨k', hk'⟩ := macInput_front hin'
  obtain ⟨rfl, htxid, hbody⟩ := frame_inj (hk.symm.trans hk')
  obtain rfl := Tlv.encodeAll_inj hbody
  constructor
  case msgType => rw [htype, htype', Option.some.inj (ht.symm.trans ht')]
  case txid => exact htxid
  case signed =>
    rw [← htxid] at hdec'
    exact decoded_unique hdec hdec'
  case location => rw [hl, hl', Option.map_some, Option.map_some, hoff, hoff']

theorem macInput_vouches {d d' : Bytes} {m : Message} {l l' : AttributeLocation} {n : Nat} {input : Bytes}
    (h : parse d = .ok m) (hl : m.integrityLocation = some l) (hl' : Integrity.attributeOffset d' = some l')
    (hin : Integrity.macInput d l.off n = .ok input) (hin' : Integrity.macInput d' l'.off n = .ok input) : Vouches d m l d' := by
  obtain ⟨hoff, htype, hcovered⟩ := macInput_covers hin hin'
  rw [hoff] at hcovered
  refine ⟨by rw [hl', Option.map_some, hoff], htype, hcovered, fun m' h' => ?_⟩
  exact macInput_signedAlike h hl h' ((located_walk h').symm.trans hl') hin hin'

/-- **Authenticity**: a datagram whose tag verifies under a key has the octets in front of the
tag, and with them the type, the transaction and the attributes, of one of those that were
signed under it, or its tag is the HMAC of an input that was never signed. -/
theorem verified_authentic {d : Bytes} {m : Message} {l : AttributeLocation} {algorithm : IntegrityAlgorithm} {key : Bytes}
    (h : parse d = .ok m) (hl : m.integrityLocation = some l) (hv : Integrity.verify crypto d l.off algorithm key = .ok ())
    (signed : List Bytes) : Forged crypto algorithm key signed d l ∨ ∃ d' ∈ signed, Vouches d m l d' := by
  obtain ⟨input, hin, htag⟩ := Integrity.verify_eq_ok.mp hv
  by_cases hsigned : ∃ d' ∈ signed, ∃ l', Integrity.attributeOffset d' = some l' ∧
      Integrity.macInput d' l'.off algorithm.macLen = .ok input
  · obtain ⟨d', hd', l', hl', hin'⟩ := hsigned
    exact .inr ⟨d', hd', macInput_vouches h hl hl' hin hin'⟩
  · exact .inl ⟨input, hin, htag, fun d' hd' l' hl' hin' => hsigned ⟨d', hd', l', hl', hin'⟩⟩

def zeroTag (n : Nat) : Octets n := ⟨zeros n, zeros_length n⟩

/-- HMACs that are all zero. -/
def zeroCrypto : Crypto := ⟨fun _ _ => zeroTag 20, fun _ _ => zeroTag 32, fun _ => 0⟩

theorem authenticated_verifies : Integrity.verify zeroCrypto authenticatedRequest 20 .sha1 [0x6B] = .ok () := by decide +kernel

theorem appended_located : Integrity.attributeOffset appendedRequest = some ⟨20, 0x0008, 20⟩ := by decide +kernel

theorem appended_macInput : Integrity.macInput appendedRequest 20 20 = Integrity.macInput authenticatedRequest 20 20 := by
  decide +kernel

/-- The tag of `appendedRequest`, on the request without what was appended. -/
theorem authenticated_authentic : ∃ m, parse authenticatedRequest = .ok m ∧
    Vouches authenticatedRequest m ⟨20, 0x0008, 20⟩ appendedRequest := by
  refine ⟨_, parse_authenticated, ?_⟩
  rcases verified_authentic zeroCrypto (l := ⟨20, 0x0008, 20⟩) parse_authenticated rfl authenticated_verifies [appendedRequest] with
    ⟨input, hin, -, hnone⟩ | ⟨d', hd', hvouches⟩
  · exact absurd (appended_macInput.trans hin) (hnone _ (List.mem_singleton_self _) _ appended_located)
  · rwa [← List.mem_singleton.mp hd']

end QuickRelay.Protocol
