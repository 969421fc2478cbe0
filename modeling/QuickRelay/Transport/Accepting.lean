import QuickRelay.Transport.Lifecycle
import QuickRelay.Transport.Phases

/-! What becomes of accepted streams: the batch from `accept_all` to the end of
`drain_accepts`. -/
namespace QuickRelay.Transport.EventLoop
open Lib

variable {ε H : Type} (api : Handler ε H)

/-- The streams accepted and not yet gone through. -/
def Phase.batch : Phase → List Nat
  | .acceptAll _ streams _ => streams
  | .drainAccepts streams _ => streams
  | _ => []

def Phase.accepting : Phase → Bool
  | .acceptAll _ _ _ => true
  | .drainAccepts _ _ => true
  | _ => false

def Answer.accepted : Answer ε → Option Nat
  | .accept (.stream stream) => some stream
  | _ => none

/-- The stream that is connected or shut down. -/
def Act.settled : Act → Option Nat
  | .connect _ stream => some stream
  | .refuse stream => some stream
  | _ => none

/-- The streams that `accept` returned, oldest first. -/
def streamsAccepted (hist : History ε H) : List Nat := hist.filterMap fun p => p.2.1.accepted

/-- The streams connected or shut down, oldest first. -/
def streamsSettled (hist : History ε H) : List Nat := hist.filterMap fun p => p.2.2.settled

/-- The streams that a step lets go of: `accept_all` returns no batch with an error. -/
def discarded (phase : Phase) : Answer ε → List Nat
  | .accept .failed => phase.batch
  | _ => []

/-- An accept fails behind others of its batch. -/
def CutShort (p : Loop H × (Answer ε × Act)) : Prop := p.2.1 = .accept .failed ∧ p.1.phase.batch ≠ []

/-! ### One step -/

theorem Phase.batch_eq_nil {phase : Phase} (h : ¬ phase.accepting) : phase.batch = [] := by
  cases phase with
  | acceptAll => exact absurd rfl h
  | drainAccepts => exact absurd rfl h
  | _ => rfl

theorem Phase.resting_batch {phase : Phase} (h : phase.resting) : phase.batch = [] := by
  cases phase with
  | acceptAll => cases h
  | drainAccepts => cases h
  | _ => rfl

/-- Only `accept_all` accepts. -/
theorem Phase.asks_accepted {phase : Phase} {answer : Answer ε} {stream : Nat} (h : phase.asks answer)
    (ha : answer.accepted = some stream) : ∃ left streams rest, phase = .acceptAll left streams rest := by
  cases answer with
  | accept =>
    cases phase with
    | acceptAll left streams rest => exact ⟨left, streams, rest, rfl⟩
    | _ => cases h
  | _ => cases ha

/-- Only `drain_accepts` connects or shuts down. -/
theorem Phase.performs_settled {phase : Phase} {act : Act} {stream : Nat} (h : phase.performs act)
    (hs : act.settled = some stream) : ∃ streams rest, phase = .drainAccepts streams rest := by
  cases act with
  | connect =>
    cases phase with
    | drainAccepts streams rest => exact ⟨streams, rest, rfl⟩
    | _ => cases h
  | refuse =>
    cases phase with
    | drainAccepts streams rest => exact ⟨streams, rest, rfl⟩
    | _ => cases h
  | _ => cases hs

theorem step_elsewhere {s s' : Loop H} {label : Answer ε × Act} (h : Step api s label s') (hp : ¬ s.phase.accepting) :
    label.1.accepted = none ∧ label.2.settled = none := by
  obtain ⟨hasks, hperforms⟩ := step_label api h
  constructor
  · refine Option.eq_none_iff_forall_ne_some.mpr fun stream ha => hp ?_
    obtain ⟨left, streams, rest, hphase⟩ := Phase.asks_accepted hasks ha
    rw [hphase]
    rfl
  · refine Option.eq_none_iff_forall_ne_some.mpr fun stream hs => hp ?_
    obtain ⟨streams, rest, hphase⟩ := Phase.performs_settled hperforms hs
    rw [hphase]
    rfl

/-- A step from outside a batch at most begins one, with no stream yet. -/
theorem Moves.batch {w : Worker H} {phase phase' : Phase} {label : Answer ε × Act} (h : Moves w phase label phase')
    (hp : ¬ phase.accepting) : phase'.batch = [] := by
  cases h with
  | rest _ hrest => exact Phase.resting_batch hrest
  | accepted => exact absurd rfl hp
  | batchAccepted => exact absurd rfl hp
  | allAccepted => exact absurd rfl hp
  | connected => exact absurd rfl hp
  | refused => exact absurd rfl hp
  | _ => rfl

/-- A step's account of the batch: what was in it and what was accepted is let go of,
settled, or still in it. -/
theorem step_batch {s s' : Loop H} {label : Answer ε × Act} (h : Step api s label s') :
    s.phase.batch ++ label.1.accepted.toList = discarded s.phase label.1 ++ (label.2.settled.toList ++ s'.phase.batch) := by
  by_cases hp : s.phase.accepting
  case neg =>
    obtain ⟨haccepted, hsettled⟩ := step_elsewhere api h hp
    have hdiscarded : discarded s.phase label.1 = [] := by
      rw [discarded.eq_def]
      split
      · exact Phase.batch_eq_nil hp
      · rfl
    rw [Phase.batch_eq_nil hp, haccepted, hdiscarded, hsettled, (step_moves api h).batch hp]
    rfl
  case pos =>
    obtain ⟨w, phase⟩ := s
    obtain ⟨answer, act⟩ := label
    cases phase with
    | acceptAll left streams rest =>
      simp only [Step, Loop.next, Worker.acceptAll.eq_def] at h
      split at h
      case h_5 => cases h
      all_goals
        cases h
        simp [Phase.batch, Answer.accepted, Act.settled, discarded]
    | drainAccepts streams rest =>
      simp only [Step, Loop.next, Worker.drainAccepts.eq_def] at h
      repeat' split at h
      any_goals cases h
      all_goals exact List.append_nil _
    | _ => cases hp

/-- What becomes of the stream at the head of a batch: its connection is registered, in the
table and announced; or it is shut down, for want of an id or of a registration. -/
inductive Settles (stream : Nat) (w : Worker H) : Answer ε × Act → Worker H → Prop
  | connected {id : ConnectionId} {conns : ConnMgr} {now : Nat} {w' : Worker H} : w.conns.alloc = some (id, conns) →
      w'.conns.get id = some (w.accepted stream now) → w'.handler = api.onTcpConnect w.handler id →
      Settles stream w (.register true now, .connect id stream) w'
  | full : w.conns.alloc = none → Settles stream w (.silent, .refuse stream) w
  | unregistered {id : ConnectionId} {conns : ConnMgr} {now : Nat} : w.conns.alloc = some (id, conns) →
      Settles stream w (.register false now, .refuse stream) { w with conns := conns.remove id }

theorem step_settles {s s' : Loop H} {label : Answer ε × Act} {stream : Nat} (h : Step api s label s')
    (hsettled : label.2.settled = some stream) : Settles api stream s.worker label s'.worker := by
  obtain ⟨streams, rest, hphase⟩ := Phase.performs_settled (step_label api h).2 hsettled
  obtain ⟨w, phase⟩ := s
  obtain ⟨answer, act⟩ := label
  obtain rfl : phase = .drainAccepts streams rest := hphase
  simp only [Step, Loop.next, Worker.drainAccepts.eq_def] at h
  split at h
  case h_1 =>
    cases h
    cases hsettled
  case h_2 =>
    split at h
    case h_1 hfull =>
      cases h
      cases hsettled
      exact .full hfull
    case h_2 id conns ok now halloc =>
      cases ok with
      | true =>
        cases h
        cases hsettled
        obtain ⟨hid, -, hnext, -⟩ := ConnMgr.alloc_eq_some halloc
        refine .connected halloc (ConnMgr.get_insert_self ?_ _) rfl
        rw [hid, hnext]
        exact Nat.lt_succ_self _
      | false =>
        cases h
        cases hsettled
        exact .unregistered halloc
    case h_3 => cases h
  case h_3 => cases h

/-! ### The slots of the table -/

/-- The poller was asked to register a stream. -/
def Answer.registers : Answer ε → Bool
  | .register _ _ => true
  | _ => false

theorem ConnMgr.alloc_slots {m m' : ConnMgr} {id : ConnectionId} (h : m.alloc = some (id, m')) :
    m'.conns.length = m.conns.length + 1 := by
  rw [m'.counted, m.counted]
  exact (alloc_eq_some h).2.2.1

/-- A slot is taken for a new id only, and none is given back. -/
theorem Does.slots {w w' : Worker H} {phase : Phase} {answer : Answer ε} {act : Act} (h : Does api w phase (answer, act) w')
    (hsettled : act.settled = none) : w'.conns.conns.length = w.conns.conns.length := by
  cases h with
  | full | unregistered | connect => cases hsettled
  | read | write | place => exact List.length_set
  | drop => exact List.length_set
  | _ => rfl

theorem step_registers {s s' : Loop H} {label : Answer ε × Act} (h : Step api s label s') (hreg : label.1.registers) :
    label.2.settled ≠ none := by
  obtain ⟨w, phase⟩ := s
  obtain ⟨answer, act⟩ := label
  have hasks := (step_label api h).1
  cases answer with
  | register ok now =>
    cases phase with
    | drainAccepts streams rest =>
      simp only [Step, Loop.next, Worker.drainAccepts.eq_def] at h
      repeat' split at h
      all_goals first
        | contradiction
        | cases h
          exact Option.some_ne_none _
    | _ => cases hasks
  | _ => cases hreg

/-- One slot more for each stream that was to be registered. -/
theorem step_slots {s s' : Loop H} {label : Answer ε × Act} (h : Step api s label s') :
    s'.worker.conns.conns.length = s.worker.conns.conns.length + (if label.1.registers then 1 else 0) := by
  have hdoes := step_does api h
  cases hsettled : label.2.settled with
  | none =>
    have hreg : ¬ label.1.registers := fun hreg => step_registers api h hreg hsettled
    rw [if_neg hreg]
    exact hdoes.slots api hsettled
  | some stream =>
    have hsettles := step_settles api h hsettled
    obtain ⟨w, phase⟩ := s
    obtain ⟨w', phase'⟩ := s'
    dsimp only at hdoes hsettles ⊢
    cases hsettles with
    | connected =>
      cases hdoes with
      | connect _ halloc => exact List.length_set.trans (ConnMgr.alloc_slots halloc)
    | full => rfl
    | unregistered halloc => exact List.length_set.trans (ConnMgr.alloc_slots halloc)

/-- `drain_accepts` goes on as long as there is a stream. -/
theorem drainAccepts_onward (w : Worker H) (stream : Nat) (streams : List Nat) (rest : Dispatch) :
    ∃ label s', Step api ⟨w, .drainAccepts (stream :: streams) rest⟩ label s' ∧ label.2.settled = some stream := by
  cases halloc : w.conns.alloc with
  | none =>
    refine ⟨(.silent, .refuse stream), ⟨w, .drainAccepts streams rest⟩, ?_, rfl⟩
    simp [Step, Loop.next, Worker.drainAccepts, halloc]
  | some p =>
    refine ⟨(.register false 0, .refuse stream), ⟨{ w with conns := p.2.remove p.1 }, .drainAccepts streams rest⟩, ?_, rfl⟩
    simp [Step, Loop.next, Worker.drainAccepts, halloc]

/-! ### Runs -/

/-- No accepted stream is lost: each was settled or is in the batch, in the order of
acceptance; and `drain_accepts` settles what it has. -/
structure LossFree (hist : History ε H) (s : Loop H) : Prop where
  kept : streamsAccepted hist = streamsSettled hist ++ s.phase.batch
  settled : ∀ p ∈ hist, ∀ stream, p.2.2.settled = some stream →
    ∃ s', Step api p.1 p.2 s' ∧ Settles api stream p.1.worker p.2 s'.worker
  onward : ∀ stream streams rest, s.phase = .drainAccepts (stream :: streams) rest →
    ∃ label s', Step api s label s' ∧ label.2.settled = some stream

theorem streamsAccepted_snoc (hist : History ε H) (p : Loop H × (Answer ε × Act)) :
    streamsAccepted (hist ++ [p]) = streamsAccepted hist ++ p.2.1.accepted.toList := filterMap_snoc _ hist p

theorem streamsSettled_snoc (hist : History ε H) (p : Loop H × (Answer ε × Act)) :
    streamsSettled (hist ++ [p]) = streamsSettled hist ++ p.2.2.settled.toList := filterMap_snoc _ hist p

/-- A step is taken from every state in a history. -/
theorem step_of_mem {s₀ s : Loop H} {hist : History ε H} {p : Loop H × (Answer ε × Act)} (hrun : Run (Step api) s₀ hist s)
    (hp : p ∈ hist) : ∃ s', Step api p.1 p.2 s' := by
  obtain ⟨a, b, rfl⟩ := List.append_of_mem hp
  obtain ⟨s', -, hstep, -⟩ := hrun.split
  exact ⟨s', hstep⟩

/-- The streams let go of. -/
def streamsDiscarded (hist : History ε H) : List Nat := hist.flatMap fun p => discarded p.1.phase p.2.1

theorem streamsDiscarded_snoc (hist : History ε H) (p : Loop H × (Answer ε × Act)) :
    streamsDiscarded (hist ++ [p]) = streamsDiscarded hist ++ discarded p.1.phase p.2.1 := by
  rw [streamsDiscarded, List.flatMap_append, List.flatMap_singleton]
  rfl

theorem discarded_eq_nil_iff {p : Loop H × (Answer ε × Act)} : discarded p.1.phase p.2.1 = [] ↔ ¬ CutShort p := by
  rw [CutShort, not_and_not_right, discarded.eq_def]
  split
  case h_1 heq => exact ⟨fun h _ => h, fun h => h heq⟩
  case h_2 hne => exact ⟨fun _ heq => absurd heq hne, fun _ => rfl⟩

theorem streamsDiscarded_eq_nil_iff {hist : History ε H} : streamsDiscarded hist = [] ↔ ∀ p ∈ hist, ¬ CutShort p := by
  rw [streamsDiscarded, List.flatMap_eq_nil_iff]
  exact forall₂_congr fun p _ => discarded_eq_nil_iff

/-- The streams of a run, counted. -/
theorem run_count {s₀ s : Loop H} {hist : History ε H} (hstart : s₀.phase.batch = []) (hrun : Run (Step api) s₀ hist s) :
    (streamsAccepted hist).length = (streamsDiscarded hist).length + (streamsSettled hist).length + s.phase.batch.length := by
  refine hrun.invariant (P := fun hist s => (streamsAccepted hist).length =
    (streamsDiscarded hist).length + (streamsSettled hist).length + s.phase.batch.length) ?_ fun hist t label u _ ih hs => ?_
  · rw [hstart]
    rfl
  · have hbatch := congrArg List.length (step_batch api hs)
    simp only [List.length_append] at hbatch
    simp only [streamsAccepted_snoc, streamsDiscarded_snoc, streamsSettled_snoc, List.length_append]
    omega

/-- The table never gives a slot back: it has one for each stream that was to be registered. -/
theorem run_slots {s₀ s : Loop H} {hist : History ε H} (hrun : Run (Step api) s₀ hist s) :
    s.worker.conns.conns.length = s₀.worker.conns.conns.length + hist.countP fun p => p.2.1.registers := by
  refine hrun.invariant (P := fun hist s => s.worker.conns.conns.length = s₀.worker.conns.conns.length +
    hist.countP fun p => p.2.1.registers) rfl fun hist t label u _ ih hs => ?_
  rw [step_slots api hs, ih, List.countP_append, List.countP_singleton, Nat.add_assoc]

/-- Registered or not, it had been accepted. -/
theorem run_registers {s₀ s : Loop H} {hist : History ε H} (hstart : s₀.phase.batch = []) (hrun : Run (Step api) s₀ hist s) :
    (hist.countP fun p => p.2.1.registers) ≤ (streamsAccepted hist).length := by
  have hsettled : (hist.countP fun p => p.2.1.registers) ≤ (streamsSettled hist).length := by
    rw [streamsSettled, List.length_filterMap_eq_countP]
    refine List.countP_mono_left fun p hp hreg => ?_
    obtain ⟨s', hstep⟩ := step_of_mem api hrun hp
    exact Option.isSome_iff_ne_none.mpr (step_registers api hstep hreg)
  have hcount := run_count api hstart hrun
  omega

theorem run_kept {s₀ s : Loop H} {hist : History ε H} (hstart : s₀.phase.batch = []) (hrun : Run (Step api) s₀ hist s)
    (hcut : ∀ p ∈ hist, ¬ CutShort p) : streamsAccepted hist = streamsSettled hist ++ s.phase.batch := by
  refine hrun.invariant (P := fun hist s => (∀ p ∈ hist, ¬ CutShort p) →
    streamsAccepted hist = streamsSettled hist ++ s.phase.batch) ?_ (fun hist t label u _ ih hs hcut => ?_) hcut
  · intro _
    rw [hstart]
    rfl
  · have hold := ih fun p hp => hcut p (List.mem_append_left _ hp)
    have hnone : discarded t.phase label.1 = [] :=
      discarded_eq_nil_iff.mpr (hcut (t, label) (List.mem_append_right _ (List.mem_singleton_self _)))
    have hbatch := step_batch api hs
    rw [hnone, List.nil_append] at hbatch
    rw [streamsAccepted_snoc, streamsSettled_snoc, hold, List.append_assoc, List.append_assoc, hbatch]

/-- **Accepting**: a run loses no accepted stream if and only if in it no accept fails behind
others of its batch. -/
theorem lossFree_iff {s₀ s : Loop H} {hist : History ε H} (hstart : s₀.phase.batch = []) (hrun : Run (Step api) s₀ hist s) :
    LossFree api hist s ↔ ∀ p ∈ hist, ¬ CutShort p := by
  constructor
  case mp =>
    intro h
    have hcount := run_count api hstart hrun
    rw [h.kept, List.length_append] at hcount
    have hzero : (streamsDiscarded hist).length = 0 := by omega
    exact streamsDiscarded_eq_nil_iff.mp (List.length_eq_zero_iff.mp hzero)
  case mpr =>
    intro hcut
    constructor
    case kept => exact run_kept api hstart hrun hcut
    case settled =>
      intro p hp stream hsettled
      obtain ⟨s', hstep⟩ := step_of_mem api hrun hp
      exact ⟨s', hstep, step_settles api hstep hsettled⟩
    case onward =>
      intro stream streams rest hphase
      obtain ⟨w, phase⟩ := s
      obtain rfl : phase = .drainAccepts (stream :: streams) rest := hphase
      exact drainAccepts_onward api w stream streams rest

/-- A tick in which of two accepted connections the second cannot be registered. -/
def twoAccepted : List (Answer Unit) :=
  [.clock false 0, .silent, .poll (some [listenReady]) false, .silent, .accept (.stream 7), .accept (.stream 8), .accept .notReady,
    .register true 1, .register false 1, .silent]

theorem twoAccepted_exec : ∃ hist s, listening.exec errorCounter twoAccepted = some (hist, s) ∧
    streamsAccepted hist = [7, 8] ∧ hist.map (·.2.1) = twoAccepted ∧ .connect ⟨0⟩ 7 ∈ acts hist ∧ .refuse 8 ∈ acts hist :=
  ⟨_, _, rfl, rfl, rfl, by decide, by decide⟩

theorem twoAccepted_kept : ∃ hist s, Run (Step errorCounter) listening hist s ∧ LossFree errorCounter hist s ∧
    streamsAccepted hist = [7, 8] ∧ .connect ⟨0⟩ 7 ∈ acts hist ∧ .refuse 8 ∈ acts hist := by
  obtain ⟨hist, s, hexec, haccepted, hanswers, hconnect, hrefuse⟩ := twoAccepted_exec
  have hrun := Loop.exec_run hexec
  refine ⟨hist, s, hrun, (lossFree_iff errorCounter rfl hrun).mpr fun p hp hcut => ?_, haccepted, hconnect, hrefuse⟩
  have hmem : .accept .failed ∈ twoAccepted := by
    rw [← hanswers]
    exact List.mem_map.mpr ⟨p, hp, hcut.1⟩
  simp [twoAccepted] at hmem

/-- A connection accepted, and then an accept that fails. -/
def abortedAccept : List (Answer Unit) :=
  [.clock false 0, .silent, .poll (some [listenReady]) false, .silent, .accept (.stream 7), .accept .failed]

/-- It is neither connected nor shut down, nor about to be. -/
theorem abortedAccept_lost : ∃ hist s, Run (Step errorCounter) listening hist s ∧ streamsAccepted hist = [7] ∧
    streamsSettled hist = [] ∧ s.phase.batch = [] ∧ ¬ LossFree errorCounter hist s := by
  obtain ⟨hist, s, hexec, haccepted, hsettled, hbatch⟩ : ∃ hist s, listening.exec errorCounter abortedAccept = some (hist, s) ∧
      streamsAccepted hist = [7] ∧ streamsSettled hist = [] ∧ s.phase.batch = [] := ⟨_, _, rfl, rfl, rfl, rfl⟩
  refine ⟨hist, s, Loop.exec_run hexec, haccepted, hsettled, hbatch, fun h => ?_⟩
  have hkept := h.kept
  rw [haccepted, hsettled, hbatch] at hkept
  cases hkept

end QuickRelay.Transport.EventLoop
