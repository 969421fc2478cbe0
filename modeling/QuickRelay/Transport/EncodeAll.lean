import QuickRelay.Transport.FrameStream

/-! The blocking sender: whole frames through a writer that takes what it likes of each
write, and what the other end decodes of them. -/
namespace QuickRelay.Transport
open Lib

/-- What a writer answers one `write`; it takes no more than it is given. -/
inductive WriteAnswer where
  | wrote (n : Nat)
  | interrupted
  | failed
  deriving DecidableEq, Repr

/-- The errors of `encode_all`, the frame's and the stream's. -/
inductive SendError where
  | invalidData (error : FrameError)
  | writeZero
  | failed
  deriving DecidableEq, Repr

/-- The error is the stream's, which may have taken part of a frame. -/
def SendError.broken : SendError → Bool
  | .invalidData _ => false
  | _ => true

/-- A call that has returned: the octets the stream took, and the answers left. -/
structure Returned (α : Type) where
  result : Except SendError α
  wire : Bytes
  answers : List WriteAnswer

/-- The loop of `write_all`; with no answer left it still waits. -/
def writeAll : List WriteAnswer → Bytes → Option (Returned Unit)
  | answers, [] => some ⟨.ok (), [], answers⟩
  | [], _ :: _ => none
  | .interrupted :: answers, buf => writeAll answers buf
  | .failed :: answers, _ :: _ => some ⟨.error .failed, [], answers⟩
  | .wrote n :: answers, buf =>
    if n = 0 then some ⟨.error .writeZero, [], answers⟩
    else (writeAll answers (buf.drop n)).map fun s => { s with wire := buf.take n ++ s.wire }

/-- `encode_all`, with the scratch buffer it leaves. -/
def encodeAll (answers : List WriteAnswer) (payload scratch : Bytes) : Option (Returned Nat × Bytes) :=
  match encode payload scratch with
  | (.ok total, scratch) => (writeAll answers (scratch.take total)).map fun s => (⟨s.result.map fun _ => total, s.wire, s.answers⟩, scratch)
  | (.err e, scratch) => some (⟨.error (.invalidData e), [], answers⟩, scratch)
  | (.panic, _) => none

/-- One call after the other, until the stream breaks: how each ended, and the octets the
stream took. -/
def sendAll : List WriteAnswer → Bytes → List Bytes → Option (List (Bytes × Except SendError Nat) × Bytes)
  | _, _, [] => some ([], [])
  | answers, scratch, payload :: payloads =>
    (encodeAll answers payload scratch).bind fun (s, scratch) =>
      match s.result with
      | .error e =>
        if e.broken then some ([(payload, s.result)], s.wire)
        else (sendAll s.answers scratch payloads).map fun r => ((payload, s.result) :: r.1, s.wire ++ r.2)
      | .ok _ => (sendAll s.answers scratch payloads).map fun r => ((payload, s.result) :: r.1, s.wire ++ r.2)

/-- `decode_to_vec`. -/
def decodeToVec (buf : Bytes) (out : List Bytes) : DecodeOutcome × List Bytes :=
  decodeWith (fun out payload _ => (out ++ [payload], none)) buf false 0 0 out

/-- The payloads whose call returned `Ok`. -/
def confirmed (calls : List (Bytes × Except SendError Nat)) : List Bytes := calls.filterMap fun call =>
  match call.2 with
  | .ok _ => some call.1
  | .error _ => none

/-! ### One call -/

/-- What the stream takes is a prefix, and all of it if the call succeeds. -/
theorem writeAll_spec {answers : List WriteAnswer} {buf : Bytes} {s : Returned Unit} (h : writeAll answers buf = some s) :
    match s.result with
    | .ok () => s.wire = buf
    | .error e => e.broken ∧ ∃ rest, rest ≠ [] ∧ buf = s.wire ++ rest := by
  induction answers generalizing buf s with
  | nil =>
    cases buf with
    | nil =>
      rw [writeAll] at h
      cases h
      rfl
    | cons => cases h
  | cons answer answers ih =>
    cases buf with
    | nil =>
      rw [writeAll] at h
      cases h
      rfl
    | cons x buf =>
      cases answer with
      | interrupted => exact ih h
      | failed =>
        cases h
        exact ⟨rfl, x :: buf, List.cons_ne_nil x buf, rfl⟩
      | wrote n =>
        rw [writeAll.eq_def] at h
        dsimp only at h
        split at h
        case isTrue =>
          cases h
          exact ⟨rfl, x :: buf, List.cons_ne_nil x buf, rfl⟩
        case isFalse =>
          obtain ⟨rest, hrest, rfl⟩ := Option.map_eq_some_iff.mp h
          have hspec := ih hrest
          dsimp only
          split
          case h_1 hresult =>
            rw [hresult] at hspec
            rw [hspec, List.take_append_drop]
          case h_2 e hresult =>
            rw [hresult] at hspec
            obtain ⟨hbroken, tail, htail, hsplit⟩ := hspec
            refine ⟨hbroken, tail, htail, ?_⟩
            rw [List.append_assoc, ← hsplit, List.take_append_drop]

/-- With neither failures nor empty writes, a write for every octet is enough. -/
theorem writeAll_progress {answers : List WriteAnswer} {buf : Bytes} (hgood : ∀ a ∈ answers, a ≠ .failed ∧ a ≠ .wrote 0)
    (hmany : buf.length ≤ answers.countP (· ≠ .interrupted)) :
    ∃ s, writeAll answers buf = some s ∧ s.result = .ok () ∧ s.answers.Sublist answers ∧
      answers.countP (· ≠ .interrupted) ≤ s.answers.countP (· ≠ .interrupted) + buf.length := by
  induction answers generalizing buf with
  | nil =>
    obtain rfl := List.eq_nil_of_length_eq_zero (Nat.le_zero.mp hmany)
    exact ⟨_, by rw [writeAll], rfl, List.Sublist.refl _, Nat.le_refl _⟩
  | cons answer answers ih =>
    cases buf with
    | nil => exact ⟨_, by rw [writeAll], rfl, List.Sublist.refl _, Nat.le_refl _⟩
    | cons x buf =>
      have hrest : ∀ a ∈ answers, a ≠ .failed ∧ a ≠ .wrote 0 := fun a ha => hgood a (List.mem_cons_of_mem _ ha)
      cases answer with
      | interrupted =>
        rw [List.countP_cons_of_neg (by decide)] at hmany ⊢
        obtain ⟨s, hs, hok, hsub, hcount⟩ := ih hrest hmany
        exact ⟨s, hs, hok, hsub.cons _, hcount⟩
      | failed => exact absurd rfl (hgood _ List.mem_cons_self).1
      | wrote n =>
        have hn : n ≠ 0 := fun h => (hgood _ List.mem_cons_self).2 (congrArg _ h)
        rw [List.countP_cons_of_pos (by simp)] at hmany ⊢
        have hlen : ((x :: buf).drop n).length + 1 ≤ (x :: buf).length := by
          rw [List.length_drop, List.length_cons]
          omega
        have hfew : ((x :: buf).drop n).length ≤ answers.countP (· ≠ .interrupted) := by omega
        obtain ⟨s, hs, hok, hsub, hcount⟩ := ih hrest hfew
        refine ⟨{ s with wire := (x :: buf).take n ++ s.wire }, ?_, hok, hsub.cons _, ?_⟩
        · rw [writeAll.eq_def]
          dsimp only
          rw [if_neg hn, hs]
          rfl
        · dsimp only
          omega

/-- What `encode` refuses, or the frame it makes; the scratch buffer keeps its size. -/
theorem encode_cases (payload scratch : Bytes) :
    (∃ e, encode payload scratch = (.err e, scratch) ∧
      (65535 < payload.length ∨ scratch.length < framePrefixLen + payload.length)) ∨
    ∃ (p : Payload) (scratch' : Bytes), p.octets = payload ∧ framePrefixLen + payload.length ≤ scratch.length ∧
      scratch'.length = scratch.length ∧ scratch'.take p.frame.length = p.frame ∧
      encode payload scratch = (.ok p.frame.length, scratch') := by
  by_cases hfits : payload.length ≤ 65535
  · by_cases hroom : framePrefixLen + payload.length ≤ scratch.length
    · have hlen : (Payload.mk payload hfits).frame.length ≤ scratch.length := by
        rw [Payload.frame_length]
        exact hroom
      refine .inr ⟨⟨payload, hfits⟩, _, rfl, hroom, ?_, ?_, encode_run _ hlen⟩
      · rw [List.length_append, List.length_drop]
        omega
      · exact List.take_left
    · exact .inl ⟨_, encode_tooSmall hfits (Nat.lt_of_not_le hroom), .inr (Nat.lt_of_not_le hroom)⟩
  · exact .inl ⟨_, encode_long (Nat.lt_of_not_le hfits) scratch, .inl (Nat.lt_of_not_le hfits)⟩

/-- The payload does not fit a frame, or its frame the scratch buffer. -/
def Oversized (payload scratch : Bytes) : Prop := 65535 < payload.length ∨ scratch.length < framePrefixLen + payload.length

/-- How a call ends: its frame went out whole, it was refused before the stream was touched,
or the stream broke within the frame. -/
inductive CallEnded (payload scratch : Bytes) : Except SendError Nat → Bytes → Prop
  | whole (p : Payload) : p.octets = payload → ¬ Oversized payload scratch →
      CallEnded payload scratch (.ok (framePrefixLen + payload.length)) p.frame
  | refused (e : FrameError) : Oversized payload scratch → CallEnded payload scratch (.error (.invalidData e)) []
  | broke {p : Payload} {e : SendError} {wire rest : Bytes} : p.octets = payload → ¬ Oversized payload scratch → e.broken →
      rest ≠ [] → p.frame = wire ++ rest → CallEnded payload scratch (.error e) wire

section Call
variable {answers : List WriteAnswer} {payload scratch scratch' : Bytes} {s : Returned Nat}

theorem encodeAll_ended (h : encodeAll answers payload scratch = some (s, scratch')) :
    scratch'.length = scratch.length ∧ CallEnded payload scratch s.result s.wire := by
  rw [encodeAll] at h
  rcases encode_cases payload scratch with ⟨e, he, hover⟩ | ⟨p, buf, rfl, hroom, hlen, htake, hrun⟩
  · rw [he] at h
    cases h
    exact ⟨rfl, .refused e hover⟩
  · have hfits : ¬ Oversized p.octets scratch := not_or.mpr ⟨Nat.not_lt.mpr p.fits, Nat.not_lt.mpr hroom⟩
    rw [hrun] at h
    dsimp only at h
    rw [htake] at h
    obtain ⟨sent, hsent, heq⟩ := Option.map_eq_some_iff.mp h
    cases heq
    have hspec := writeAll_spec hsent
    refine ⟨hlen, ?_⟩
    dsimp only
    cases hresult : sent.result with
    | ok u =>
      rw [hresult] at hspec
      rw [hspec, p.frame_length]
      exact .whole p rfl hfits
    | error e =>
      rw [hresult] at hspec
      obtain ⟨hbroken, rest, hrest, hsplit⟩ := hspec
      exact .broke rfl hfits hbroken hrest hsplit

/-- A call returns if it gets a write for every octet of its frame. -/
theorem encodeAll_progress (hgood : ∀ a ∈ answers, a ≠ .failed ∧ a ≠ .wrote 0)
    (hmany : framePrefixLen + payload.length ≤ answers.countP (· ≠ .interrupted)) :
    ∃ s scratch', encodeAll answers payload scratch = some (s, scratch') ∧ (∀ e, s.result = .error e → ¬ e.broken) ∧
      s.answers.Sublist answers ∧ answers.countP (· ≠ .interrupted) ≤
        s.answers.countP (· ≠ .interrupted) + (framePrefixLen + payload.length) := by
  rcases encode_cases payload scratch with ⟨e, he, -⟩ | ⟨p, buf, rfl, -, -, htake, hrun⟩
  · refine ⟨⟨.error (.invalidData e), [], answers⟩, scratch, by rw [encodeAll, he], ?_, List.Sublist.refl _, Nat.le_add_right _ _⟩
    rintro _ ⟨⟩
    exact Bool.false_ne_true
  · rw [← p.frame_length] at hmany ⊢
    obtain ⟨sent, hsent, hok, hsub, hcount⟩ := writeAll_progress hgood hmany
    refine ⟨⟨.ok p.frame.length, sent.wire, sent.answers⟩, buf, ?_, nofun, hsub, hcount⟩
    rw [encodeAll, hrun]
    dsimp only
    rw [htake, hsent, Option.map_some, hok]
    rfl

end Call

/-! ### A stream of calls -/

/-- How a sequence of calls ends. -/
structure AllEnded (payloads : List Bytes) (scratch : Bytes) (calls : List (Bytes × Except SendError Nat)) (wire : Bytes) : Prop where
  asked : calls.map Prod.fst <+: payloads
  oversized : ∀ call ∈ calls, (∃ e, call.2 = .error (.invalidData e)) ↔ Oversized call.1 scratch
  counted : ∀ call ∈ calls, ∀ n, call.2 = .ok n → n = framePrefixLen + call.1.length
  framed : ∃ ps tail, wire = frames.encodeAll ps ++ tail ∧ frames.Partial tail ∧ ps.map Payload.octets = confirmed calls ∧
    ((∀ call ∈ calls, ∀ e, call.2 = .error e → ¬ e.broken) → tail = [] ∧ calls.map Prod.fst = payloads)

section Calls
variable {payload scratch scratch' wire wire' : Bytes} {payloads : List Bytes} {calls : List (Bytes × Except SendError Nat)}
  {result : Except SendError Nat}

theorem CallEnded.oversized (h : CallEnded payload scratch result wire) :
    ((∃ e, result = .error (.invalidData e)) ↔ Oversized payload scratch) ∧
      ∀ n, result = .ok n → n = framePrefixLen + payload.length := by
  cases h with
  | whole p _ hfits =>
    refine ⟨iff_of_false (fun ⟨e, he⟩ => by cases he) hfits, ?_⟩
    rintro n ⟨⟩
    rfl
  | refused e hover => exact ⟨iff_of_true ⟨e, rfl⟩ hover, fun n hn => by cases hn⟩
  | broke _ hfits hbroken =>
    refine ⟨iff_of_false ?_ hfits, fun n hn => by cases hn⟩
    rintro ⟨e, ⟨⟩⟩
    cases hbroken

/-- A call that leaves the stream whole goes in front of the others. -/
theorem AllEnded.cons (h : CallEnded payload scratch result wire) (hgoes : ∀ e, result = .error e → ¬ e.broken)
    (hlen : scratch'.length = scratch.length) (hrest : AllEnded payloads scratch' calls wire') :
    AllEnded (payload :: payloads) scratch ((payload, result) :: calls) (wire ++ wire') := by
  obtain ⟨hasked, hover, hcounted, ps, tail, rfl, htail, hps, hclean⟩ := hrest
  constructor
  case asked => exact List.cons_prefix_cons.mpr ⟨rfl, hasked⟩
  case oversized =>
    refine List.forall_mem_cons.mpr ⟨h.oversized.1, fun call hcall => ?_⟩
    rw [hover call hcall, Oversized, Oversized, hlen]
  case counted => exact List.forall_mem_cons.mpr ⟨h.oversized.2, hcounted⟩
  case framed =>
    have hclean' : (∀ call ∈ (payload, result) :: calls, ∀ e, call.2 = .error e → ¬ e.broken) →
        tail = [] ∧ ((payload, result) :: calls).map Prod.fst = payload :: payloads := by
      intro hall
      obtain ⟨htail, hcalls⟩ := hclean fun call hcall => hall call (List.mem_cons_of_mem _ hcall)
      exact ⟨htail, by rw [List.map_cons, hcalls]⟩
    cases h with
    | whole p hp _ => exact ⟨p :: ps, tail, by rw [PrefixCode.encodeAll_cons, List.append_assoc]; rfl, htail,
        by rw [List.map_cons, hps, hp]; rfl, hclean'⟩
    | refused e _ => exact ⟨ps, tail, rfl, htail, hps, hclean'⟩
    | broke _ _ hbroken => exact absurd hbroken (hgoes _ rfl)

theorem sendAll_ended {answers : List WriteAnswer} (h : sendAll answers scratch payloads = some (calls, wire)) :
    AllEnded payloads scratch calls wire := by
  induction payloads generalizing answers scratch calls wire with
  | nil =>
    cases h
    exact ⟨List.prefix_refl _, nofun, nofun, [], [], rfl, frames.partial_nil, rfl, fun _ => ⟨rfl, rfl⟩⟩
  | cons payload payloads ih =>
    rw [sendAll] at h
    obtain ⟨⟨s, scratch'⟩, hcall, h⟩ := Option.bind_eq_some_iff.mp h
    obtain ⟨hlen, hended⟩ := encodeAll_ended hcall
    obtain ⟨result, wire₁, answers'⟩ := s
    dsimp only at h hended
    have hon : (∀ e, result = .error e → ¬ e.broken) → (sendAll answers' scratch' payloads).map (fun r => ((payload, result) :: r.1,
        wire₁ ++ r.2)) = some (calls, wire) → AllEnded (payload :: payloads) scratch calls wire := by
      intro hgoes hmap
      obtain ⟨⟨calls', wire'⟩, hrest, heq⟩ := Option.map_eq_some_iff.mp hmap
      cases heq
      exact (ih hrest).cons hended hgoes hlen
    cases result with
    | ok n => exact hon nofun h
    | error e =>
      dsimp only at h
      by_cases hbroken : e.broken
      · rw [if_pos hbroken] at h
        cases h
        constructor
        case asked => exact ⟨payloads, rfl⟩
        case oversized => exact fun call hcall => List.mem_singleton.mp hcall ▸ hended.oversized.1
        case counted => exact fun call hcall => List.mem_singleton.mp hcall ▸ hended.oversized.2
        case framed =>
          cases hended with
          | refused => cases hbroken
          | broke hp hfits _ hrest hsplit =>
            refine ⟨[], wire, rfl, frames.partial_of_cut hsplit hrest, rfl, fun hall => ?_⟩
            exact absurd hbroken (hall _ (List.mem_singleton.mpr rfl) e rfl)
      · rw [if_neg hbroken] at h
        refine hon ?_ h
        rintro _ ⟨⟩
        exact hbroken

end Calls

/-- The decoder of the other end collects the payloads. -/
theorem decodeToVec_split (ps : List Payload) {tail : Bytes} (ht : frames.Partial tail) :
    decodeToVec (frames.encodeAll ps ++ tail) [] = (⟨(frames.encodeAll ps).length, ps.length, false⟩, ps.map Payload.octets) := by
  have hfold : ∀ out : List Bytes, ps.foldl (fun out p => out ++ [p.octets]) out = out ++ ps.map Payload.octets := by
    intro out
    induction ps generalizing out with
    | nil => rw [List.map_nil, List.append_nil, List.foldl_nil]
    | cons p ps ih => rw [List.foldl_cons, ih, List.map_cons, List.append_assoc, List.singleton_append]
  have hsplit := decodeWith_split (fun out payload (_ : Nat) => (out ++ [payload], (none : Option FrameError))) (fun _ _ _ => rfl) ps
    ht [] false 0 ([] : List Bytes)
  rw [List.nil_append, List.length_nil, Nat.zero_add, Nat.zero_add] at hsplit
  rw [decodeToVec, hsplit]
  exact congrArg _ (hfold [])

/-- The octets of the frames of some payloads. -/
def framesSize : List Bytes → Nat
  | [] => 0
  | payload :: payloads => framePrefixLen + payload.length + framesSize payloads

theorem sendAll_progress {answers : List WriteAnswer} {payloads : List Bytes} (scratch : Bytes)
    (hgood : ∀ a ∈ answers, a ≠ .failed ∧ a ≠ .wrote 0)
    (hmany : framesSize payloads ≤ answers.countP (· ≠ .interrupted)) :
    ∃ calls wire, sendAll answers scratch payloads = some (calls, wire) ∧ ∀ call ∈ calls, ∀ e, call.2 = .error e → ¬ e.broken := by
  induction payloads generalizing answers scratch with
  | nil => exact ⟨[], [], by rw [sendAll], List.forall_mem_nil _⟩
  | cons payload payloads ih =>
    rw [framesSize] at hmany
    have hfirst : framePrefixLen + payload.length ≤ answers.countP (· ≠ .interrupted) := by omega
    obtain ⟨s, scratch', hcall, hwhole, hsub, hcount⟩ := @encodeAll_progress answers payload scratch hgood hfirst
    have hgood' : ∀ a ∈ s.answers, a ≠ .failed ∧ a ≠ .wrote 0 := fun a ha => hgood a (hsub.subset ha)
    obtain ⟨calls, wire, hrest, hgoes⟩ := ih scratch' hgood' (by omega)
    refine ⟨(payload, s.result) :: calls, s.wire ++ wire, ?_, List.forall_mem_cons.mpr ⟨hwhole, hgoes⟩⟩
    rw [sendAll, hcall, Option.bind_some]
    dsimp only
    cases hresult : s.result with
    | ok n =>
      dsimp only
      rw [hrest]
      rfl
    | error e =>
      dsimp only
      rw [if_neg (hwhole e hresult), hrest]
      rfl

/-- **Whole frames**: however a stream cuts the writes and interrupts them, and whatever the
scratch buffer held, the other end decodes the payloads whose calls succeeded, each once and in
order; a call is refused exactly if its payload is too long for a frame or for the scratch
buffer; unless the stream broke, every call was made and every octet decodes; and the calls
return as long as the stream takes an octet of each write. -/
theorem sendAll_decodes (answers : List WriteAnswer) (scratch : Bytes) (payloads : List Bytes) :
    (∀ calls wire, sendAll answers scratch payloads = some (calls, wire) →
      (decodeToVec wire []).2 = confirmed calls ∧ (decodeToVec wire []).1.packets = (confirmed calls).length ∧
      calls.map Prod.fst <+: payloads ∧
      (∀ call ∈ calls, ((∃ e, call.2 = .error (.invalidData e)) ↔ Oversized call.1 scratch) ∧
        ∀ n, call.2 = .ok n → n = framePrefixLen + call.1.length) ∧
      ((∀ call ∈ calls, ∀ e, call.2 = .error e → ¬ e.broken) →
        calls.map Prod.fst = payloads ∧ (decodeToVec wire []).1.consumed = wire.length)) ∧
    ((∀ a ∈ answers, a ≠ .failed ∧ a ≠ .wrote 0) →
      framesSize payloads ≤ answers.countP (· ≠ .interrupted) →
      ∃ calls wire, sendAll answers scratch payloads = some (calls, wire) ∧ ∀ call ∈ calls, ∀ e, call.2 = .error e → ¬ e.broken) := by
  refine ⟨fun calls wire h => ?_, fun hgood hmany => sendAll_progress scratch hgood hmany⟩
  obtain ⟨hasked, hover, hcounted, ps, tail, rfl, htail, hps, hclean⟩ := sendAll_ended h
  rw [decodeToVec_split ps htail]
  refine ⟨hps, by rw [← hps, List.length_map], hasked, fun call hcall => ⟨hover call hcall, hcounted call hcall⟩, fun hall => ?_⟩
  obtain ⟨rfl, hcalls⟩ := hclean hall
  exact ⟨hcalls, by rw [List.append_nil]⟩

/-- Two frames in short writes, a payload that the scratch buffer has no room for, and a
stream that breaks in the last frame. -/
theorem letters_decoded : (sendAll [.wrote 1, .interrupted, .wrote 2, .wrote 3, .wrote 1, .failed] (zeros 3)
      [[0x41], [1, 2], [0x42], [0x43]]).map (fun r => (r.1.length, (decodeToVec r.2 []).2)) = some (4, [[0x41], [0x42]]) := by
  have hsent : sendAll [.wrote 1, .interrupted, .wrote 2, .wrote 3, .wrote 1, .failed] (zeros 3) [[0x41], [1, 2], [0x42], [0x43]] =
      some ([([0x41], .ok 3), ([1, 2], .error (.invalidData .bufferTooSmall)), ([0x42], .ok 3), ([0x43], .error .failed)],
        [0, 1, 0x41, 0, 1, 0x42, 0]) := rfl
  rw [hsent, Option.map_some, ((sendAll_decodes _ _ _).1 _ _ hsent).1]
  rfl

end QuickRelay.Transport
