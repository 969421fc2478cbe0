import QuickRelay.Server.Latch
import QuickRelay.Server.Process
import QuickRelay.Server.Tick

/-! The process from its start-up to its end: the main thread waits on the latch, wakes the
workers and joins them. -/
namespace QuickRelay.Server
open Lib Protocol
open Binding (SocketAddr ServerIdentity)
open Transport.EventLoop hiding Step History

variable (crypto : Crypto)

/-- A worker's thread: its loop, its stop flag, and whether it has panicked. -/
structure WorkerThread where
  loop : Loop BindingHandler
  pending : Bool
  crashed : Bool

/-- Nothing of the thread is left, its sockets included. -/
def WorkerThread.ended (w : WorkerThread) : Bool := w.crashed || w.loop.phase == .stopped

/-- A panic ends its thread or, in the release profile, the process. -/
inductive PanicStrategy where
  | unwind
  | abort
  deriving DecidableEq, Repr

/-- Where `main` is, its workers started. The process may be gone before it returns. -/
inductive MainPhase where
  | waiting
  | waking (index : Nat)
  | joining (index : Nat)
  | joiningStdin
  | done
  | aborted
  deriving DecidableEq, Repr

/-- Where a panic of another thread leaves `main`. -/
def PanicStrategy.crash : PanicStrategy → MainPhase → MainPhase
  | .unwind, main => main
  | .abort, _ => .aborted

structure Program (n : Nat) where
  latch : ShutdownLatch
  main : MainPhase
  workers : Fin n → WorkerThread

/-- `stop` of the worker's `StopRequest`: what the waker adds is one more event of a poll. -/
def WorkerThread.wake (w : WorkerThread) : WorkerThread := { w with pending := true }

/-- One step of `main`; joining a thread waits for its end. -/
def Program.stepMain {n : Nat} (s : Program n) : Option (Program n) :=
  match s.main with
  | .waiting =>
    if s.latch.wait = .passed then some { s with main := .waking 0 }
    -- the process does not outlive its main thread
    else if s.latch.wait = .panicked then some { s with main := .aborted }
    else none
  | .waking k =>
    if h : k < n then
      some { s with main := .waking (k + 1), workers := Function.update s.workers ⟨k, h⟩ (s.workers ⟨k, h⟩).wake }
    else some { s with main := .joining 0 }
  | .joining k =>
    if h : k < n then if (s.workers ⟨k, h⟩).ended then some { s with main := .joining (k + 1) } else none
    else some { s with main := .joiningStdin }
  | .joiningStdin => if StopPhase.over s.latch.stdin then some { s with main := .done } else none
  | .done => none
  | .aborted => none

/-- Whenever the worker reads its stop flag, it reads what is there. -/
def heeds (pending : Bool) : Answer Env → Bool
  | .clock stop _ => stop == pending
  | .poll (some _) stop => stop == pending
  | _ => true

/-- The handler is about to be called, and a call can panic. -/
def mayPanic : Phase → Bool
  | .drainUdp (_ + 1) _ => true
  | .decode _ (_ :: _) _ _ => true
  | _ => false

inductive ProgramAct (n : Nat) where
  | latch (act : LatchAct)
  | main
  | worker (i : Fin n) (label : Answer Env × Act)
  | crash (i : Fin n)

inductive Program.Step {n : Nat} (limit : Limit) (panics : PanicStrategy) (s : Program n) : ProgramAct n → Program n → Prop
  | latch {a : LatchAct} {l : ShutdownLatch} : s.main ≠ .aborted → s.latch.Step limit a l →
      Program.Step limit panics s (.latch a) { s with latch := l }
  | main {s' : Program n} : s.stepMain = some s' → Program.Step limit panics s .main s'
  | worker {i : Fin n} {x : Answer Env × Act} {u : Loop BindingHandler} : s.main ≠ .aborted → ¬ (s.workers i).crashed →
      Transport.EventLoop.Step (serverHandler crypto) (s.workers i).loop x u → heeds (s.workers i).pending x.1 →
      Program.Step limit panics s (.worker i x) { s with workers := Function.update s.workers i { s.workers i with loop := u } }
  | crash {i : Fin n} : s.main ≠ .aborted → ¬ (s.workers i).crashed → mayPanic (s.workers i).loop.phase →
      Program.Step limit panics s (.crash i)
        { s with main := panics.crash s.main, workers := Function.update s.workers i { s.workers i with crashed := true } }

/-- The process with its workers started, about to wait. -/
def Program.start (running : List RunningWorker) (now : Nat) (stdin : Bool) : Program running.length :=
  ⟨.new now stdin, .waiting, fun i => ⟨(running.get i).loop, false, false⟩⟩

/-! ### Who has been told and who has ended -/

/-- How far `main` has come. The process is gone if `main` has panicked, no worker told, or if
a worker has and panics abort. -/
def Program.Ordered {n : Nat} (panics : PanicStrategy) (s : Program n) : Prop :=
  match s.main with
  | .waiting => ∀ i, (s.workers i).pending = false
  | .waking k => s.latch.wait = .passed ∧ ∀ i : Fin n, i.val < k → (s.workers i).pending
  | .joining k => s.latch.wait = .passed ∧ (∀ i, (s.workers i).pending) ∧ ∀ i : Fin n, i.val < k → (s.workers i).ended
  | .joiningStdin => s.latch.wait = .passed ∧ (∀ i, (s.workers i).pending) ∧ ∀ i, (s.workers i).ended
  | .done => s.latch.wait = .passed ∧ (∀ i, (s.workers i).pending) ∧ (∀ i, (s.workers i).ended) ∧ StopPhase.over s.latch.stdin
  | .aborted => (s.latch.wait = .panicked ∧ ∀ i, (s.workers i).pending = false) ∨ (panics = .abort ∧ ∃ i, (s.workers i).crashed)

section Step
variable {n : Nat} {limit : Limit} {panics : PanicStrategy} {s s' : Program n} {act : ProgramAct n}

/-- What has ended stays so, and a flag that is up stays up. -/
structure Lasts (s s' : Program n) : Prop where
  passed : s.latch.wait = .passed → s'.latch.wait = .passed
  stdin : StopPhase.over s.latch.stdin → StopPhase.over s'.latch.stdin
  pending : ∀ i, (s.workers i).pending → (s'.workers i).pending
  ended : ∀ i, (s.workers i).ended → (s'.workers i).ended

theorem Lasts.update {i : Fin n} {w : WorkerThread} (main : MainPhase) (hp : (s.workers i).pending → w.pending)
    (he : (s.workers i).ended → w.ended) : Lasts s { s with main, workers := Function.update s.workers i w } := by
  refine ⟨id, id, fun j hj => ?_, fun j hj => ?_⟩
  · dsimp only
    by_cases hij : j = i
    · subst hij
      rw [Function.update_self]
      exact hp hj
    · rwa [Function.update_of_ne hij]
  · dsimp only
    by_cases hij : j = i
    · subst hij
      rw [Function.update_self]
      exact he hj
    · rwa [Function.update_of_ne hij]

/-- What a step of `main` can do. -/
inductive MainStep (s : Program n) : Program n → Prop
  | passed : s.main = .waiting → s.latch.wait = .passed → MainStep s { s with main := .waking 0 }
  | panicked : s.main = .waiting → s.latch.wait = .panicked → MainStep s { s with main := .aborted }
  | wake {k : Nat} (hk : k < n) : s.main = .waking k → MainStep s
      { s with main := .waking (k + 1), workers := Function.update s.workers ⟨k, hk⟩ (s.workers ⟨k, hk⟩).wake }
  | woken {k : Nat} : s.main = .waking k → n ≤ k → MainStep s { s with main := .joining 0 }
  | join {k : Nat} (hk : k < n) : s.main = .joining k → (s.workers ⟨k, hk⟩).ended → MainStep s { s with main := .joining (k + 1) }
  | joined {k : Nat} : s.main = .joining k → n ≤ k → MainStep s { s with main := .joiningStdin }
  | stdin : s.main = .joiningStdin → StopPhase.over s.latch.stdin → MainStep s { s with main := .done }

theorem stepMain_cases (h : s.stepMain = some s') : MainStep s s' := by
  rw [Program.stepMain.eq_def] at h
  split at h
  case h_1 hmain =>
    split at h
    case isTrue hpassed =>
      cases h
      exact .passed hmain hpassed
    case isFalse =>
      obtain ⟨hpanicked, h⟩ := Option.ite_none_right_eq_some.mp h
      cases h
      exact .panicked hmain hpanicked
  case h_2 hmain =>
    split at h
    case isTrue hk =>
      cases h
      exact .wake hk hmain
    case isFalse hk =>
      cases h
      exact .woken hmain (Nat.le_of_not_lt hk)
  case h_3 hmain =>
    split at h
    case isTrue hk =>
      obtain ⟨hended, h⟩ := Option.ite_none_right_eq_some.mp h
      cases h
      exact .join hk hmain hended
    case isFalse hk =>
      cases h
      exact .joined hmain (Nat.le_of_not_lt hk)
  case h_4 hmain =>
    obtain ⟨hover, h⟩ := Option.ite_none_right_eq_some.mp h
    cases h
    exact .stdin hmain hover
  case h_5 | h_6 => cases h

theorem MainStep.lasts (h : MainStep s s') : Lasts s s' := by
  cases h with
  | wake => exact Lasts.update _ (fun _ => rfl) id
  | _ => exact ⟨id, id, fun _ => id, fun _ => id⟩

theorem MainStep.latch (h : MainStep s s') : s'.latch = s.latch := by cases h <;> rfl

/-- `main` runs no worker. -/
theorem MainStep.loop (h : MainStep s s') (i : Fin n) : (s'.workers i).loop = (s.workers i).loop := by
  cases h with
  | @wake k hk =>
    dsimp only
    by_cases hik : i = ⟨k, hk⟩
    · rw [hik, Function.update_self]
      rfl
    · rw [Function.update_of_ne hik]
  | _ => rfl

/-- After `wait` has returned only the listener goes on, and it comes to an end. -/
theorem latch_passed {l l' : ShutdownLatch} {act : LatchAct} (h : l.Step limit act l') :
    (l.wait = .passed → l'.wait = .passed ∧ l'.left + (if act.own then 1 else 0) ≤ l.left) ∧
      (StopPhase.over l.stdin → l'.stdin = l.stdin) := by
  cases act with
  | wait =>
    obtain ⟨wait, hstep, rfl⟩ := Option.map_eq_some_iff.mp h
    refine ⟨fun hpassed => ?_, fun _ => rfl⟩
    have hwaited := stepWait_waited hstep
    rw [hpassed] at hwaited
    cases hwaited
  | stop =>
    have hstop := stepStop_stopping h
    have hleft := hstop.left.1
    cases hstop with
    | locked hphase | poisoned hphase | raised hphase =>
      refine ⟨fun hpassed => ⟨hpassed, hleft⟩, fun hover => ?_⟩
      rw [hphase] at hover
      cases hover
    | notified hphase =>
      refine ⟨fun hpassed => ⟨congrArg WaitPhase.wake hpassed, hleft⟩, fun hover => ?_⟩
      rw [hphase] at hover
      cases hover
  | elapse time =>
    rw [elapse_eq h]
    exact ⟨fun hpassed => ⟨hpassed, Nat.le_refl _⟩, fun _ => rfl⟩
  | spurious =>
    cases h
    exact ⟨fun hpassed => ⟨congrArg WaitPhase.wake hpassed, Nat.add_le_add_right l.wait.wake_left _⟩, fun _ => rfl⟩
  | input =>
    obtain ⟨hreading, h⟩ := Option.ite_none_right_eq_some.mp h
    cases h
    refine ⟨fun hpassed => ⟨hpassed, ?_⟩, fun hover => ?_⟩
    · rw [ShutdownLatch.left, ShutdownLatch.left, hreading]
      exact Nat.le_refl _
    · rw [hreading] at hover
      cases hover

/-- A loop that takes a step has not stopped. -/
theorem step_running {t u : Loop BindingHandler} {label : Answer Env × Act}
    (h : Transport.EventLoop.Step (serverHandler crypto) t label u) : t.phase ≠ .stopped := by
  intro hstopped
  have hasks := (step_label (serverHandler crypto) h).1
  rw [hstopped] at hasks
  cases hasks

theorem Program.Step.lasts (h : s.Step crypto limit panics act s') : Lasts s s' := by
  cases h with
  | latch _ hl =>
    obtain ⟨hwait, hstdin⟩ := latch_passed hl
    exact ⟨fun hp => (hwait hp).1, fun hs => hstdin hs ▸ hs, fun _ => id, fun _ => id⟩
  | main hm => exact (stepMain_cases hm).lasts
  | @worker i label u _ hcrash hs _ =>
    refine Lasts.update s.main id fun hended => ?_
    rw [WorkerThread.ended, Bool.or_eq_true, beq_iff_eq] at hended
    exact absurd (hended.resolve_left hcrash) (step_running crypto hs)
  | crash => exact Lasts.update _ id fun _ => rfl

/-- No step but `main`'s own moves it, unless the process is gone. -/
theorem Program.Ordered.kept (h : s.Ordered panics) (hlasts : Lasts s s') (hmain : s'.main = s.main) (halive : s.main ≠ .aborted)
    (hpending : ∀ i, (s'.workers i).pending = (s.workers i).pending) : s'.Ordered panics := by
  rw [Ordered] at h ⊢
  rw [hmain]
  cases hphase : s.main with
  | waiting =>
    rw [hphase] at h
    exact fun i => (hpending i).trans (h i)
  | waking k =>
    rw [hphase] at h
    exact ⟨hlasts.passed h.1, fun i hi => hlasts.pending i (h.2 i hi)⟩
  | joining k =>
    rw [hphase] at h
    exact ⟨hlasts.passed h.1, fun i => hlasts.pending i (h.2.1 i), fun i hi => hlasts.ended i (h.2.2 i hi)⟩
  | joiningStdin =>
    rw [hphase] at h
    exact ⟨hlasts.passed h.1, fun i => hlasts.pending i (h.2.1 i), fun i => hlasts.ended i (h.2.2 i)⟩
  | done =>
    rw [hphase] at h
    exact ⟨hlasts.passed h.1, fun i => hlasts.pending i (h.2.1 i), fun i => hlasts.ended i (h.2.2.1 i), hlasts.stdin h.2.2.2⟩
  | aborted => exact absurd hphase halive

theorem Program.Ordered.main (h : s.Ordered panics) (hm : MainStep s s') : s'.Ordered panics := by
  rw [Ordered] at h
  cases hm with
  | passed hmain hpassed => exact ⟨hpassed, fun i hi => absurd hi (Nat.not_lt_zero _)⟩
  | panicked hmain hpanicked =>
    rw [hmain] at h
    exact .inl ⟨hpanicked, h⟩
  | @wake k hk hmain =>
    rw [hmain] at h
    refine ⟨h.1, fun i hi => ?_⟩
    dsimp only
    by_cases hik : i = ⟨k, hk⟩
    · rw [hik, Function.update_self]
      rfl
    · rw [Function.update_of_ne hik]
      exact h.2 i (Nat.lt_of_le_of_ne (Nat.le_of_lt_succ hi) fun heq => hik (Fin.ext heq))
  | @woken k hmain hk =>
    rw [hmain] at h
    exact ⟨h.1, fun i => h.2 i (Nat.lt_of_lt_of_le i.isLt hk), fun i hi => absurd hi (Nat.not_lt_zero _)⟩
  | @join k hk hmain hended =>
    rw [hmain] at h
    refine ⟨h.1, h.2.1, fun i hi => ?_⟩
    by_cases hik : i = ⟨k, hk⟩
    · rw [hik]
      exact hended
    · exact h.2.2 i (Nat.lt_of_le_of_ne (Nat.le_of_lt_succ hi) fun heq => hik (Fin.ext heq))
  | @joined k hmain hk =>
    rw [hmain] at h
    exact ⟨h.1, h.2.1, fun i => h.2.2 i (Nat.lt_of_lt_of_le i.isLt hk)⟩
  | stdin hmain hover =>
    rw [hmain] at h
    exact ⟨h.1, h.2.1, h.2.2, hover⟩

theorem update_pending {i : Fin n} {w : WorkerThread} (hw : w.pending = (s.workers i).pending) (j : Fin n) :
    (Function.update s.workers i w j).pending = (s.workers j).pending := by
  by_cases hij : j = i
  · subst hij
    rw [Function.update_self, hw]
  · rw [Function.update_of_ne hij]

theorem Program.Ordered.step (h : s.Ordered panics) (hs : s.Step crypto limit panics act s') : s'.Ordered panics := by
  have hlasts := hs.lasts crypto
  cases hs with
  | latch halive => exact h.kept hlasts rfl halive fun _ => rfl
  | worker halive => exact h.kept hlasts rfl halive (update_pending rfl)
  | main hm => exact h.main (stepMain_cases hm)
  | @crash i halive =>
    cases panics with
    | unwind => exact h.kept hlasts rfl halive (update_pending rfl)
    | abort =>
      refine .inr ⟨rfl, i, ?_⟩
      dsimp only
      rw [Function.update_self]

/-! ### What is left to do -/

/-- The steps left to a thread whose flag is up. -/
def WorkerThread.left (w : WorkerThread) : Nat := if w.ended then 0 else leftToStop w.loop + 1

/-- The steps left to `main` from the first join on. -/
def MainPhase.left (n : Nat) : MainPhase → Nat
  | .joining k => (n - k) + 2
  | .joiningStdin => 1
  | _ => 0

/-- The steps left to the process, its workers all told to stop. -/
def Program.left (s : Program n) : Nat := s.main.left n + s.latch.left + ∑ i, (s.workers i).left

def MainPhase.joins : MainPhase → Bool
  | .joining _ => true
  | .joiningStdin => true
  | .done => true
  | _ => false

/-- It is a step of one of the threads. -/
def ProgramAct.own : ProgramAct n → Bool
  | .latch act => act.own
  | _ => true

theorem Program.Ordered.joins (h : s.Ordered panics) (hj : s.main.joins) :
    s.latch.wait = .passed ∧ ∀ i, (s.workers i).pending := by
  rw [Ordered] at h
  split at h
  case h_1 hmain | h_2 hmain | h_6 hmain =>
    rw [hmain] at hj
    cases hj
  case h_3 | h_4 | h_5 => exact ⟨h.1, h.2.1⟩

theorem MainPhase.joins_alive {main : MainPhase} (h : main.joins) : main ≠ .aborted := by
  rintro rfl
  cases h

theorem heeds_stops {answer : Answer Env} (h : heeds true answer) : answer.stops := by
  cases answer with
  | clock stop now => exact beq_iff_eq.mp h
  | poll events stop =>
    cases events with
    | none => rfl
    | some events => exact beq_iff_eq.mp h
  | _ => rfl

theorem stops_heeds {answer : Answer Env} (h : answer.stops) : heeds true answer := by
  cases answer with
  | clock stop now => exact beq_iff_eq.mpr h
  | poll events stop =>
    cases events with
    | none => rfl
    | some events => exact beq_iff_eq.mpr h
  | _ => rfl

/-- The outboxes are within their bound, after the step too. -/
def Program.Bounded (s : Program n) : Prop := ∀ i, (s.workers i).loop.worker.handler.outbox.length ≤ replyQueueCap

theorem Program.left_update {i : Fin n} {w : WorkerThread} {main : MainPhase} (hmain : main.left n ≤ s.main.left n)
    (h : w.left + 1 ≤ (s.workers i).left) :
    Program.left { s with main, workers := Function.update s.workers i w } + 1 ≤ s.left := by
  have hsum := sum_update WorkerThread.left s.workers i w
  rw [Program.left, Program.left]
  dsimp only
  omega

theorem MainStep.left (h : MainStep s s') (hj : s.main.joins) : s'.main.joins ∧ s'.left + 1 ≤ s.left := by
  rw [Program.left, Program.left]
  cases h with
  | passed hmain | panicked hmain | wake _ hmain | woken hmain =>
    rw [hmain] at hj
    cases hj
  | join hk hmain =>
    rw [hmain]
    refine ⟨rfl, ?_⟩
    simp only [MainPhase.left]
    omega
  | joined hmain | stdin hmain =>
    rw [hmain]
    refine ⟨rfl, ?_⟩
    simp only [MainPhase.left]
    omega

/-- Once `main` joins, every step of a thread uses up some of what is left. -/
theorem Program.Step.left (h : s.Step crypto limit panics act s') (ho : s.Ordered panics) (hj : s.main.joins) (hb : s'.Bounded) :
    (s'.main.joins ∨ s'.main = .aborted) ∧ s'.left + (if act.own then 1 else 0) ≤ s.left := by
  obtain ⟨hpassed, hpending⟩ := ho.joins hj
  cases h with
  | @latch act l _ hl =>
    have hlatch := ((latch_passed hl).1 hpassed).2
    refine ⟨.inl hj, ?_⟩
    rw [Program.left, Program.left, ProgramAct.own]
    dsimp only
    omega
  | main hm =>
    obtain ⟨hjoins, hleft⟩ := (stepMain_cases hm).left hj
    exact ⟨.inl hjoins, hleft⟩
  | @worker i label u _ hcrash hs hheeds =>
    rw [hpending i] at hheeds
    refine ⟨.inl hj, Program.left_update (Nat.le_refl _) ?_⟩
    have hbound : u.worker.handler.outbox.length ≤ replyQueueCap := by
      have hi := hb i
      dsimp only at hi
      rwa [Function.update_self] at hi
    have hstep := step_stops crypto hs hbound (heeds_stops hheeds)
    have hrunning : ¬ (s.workers i).ended := by
      rw [WorkerThread.ended, Bool.or_eq_true, beq_iff_eq]
      exact fun hended => step_running crypto hs (hended.resolve_left hcrash)
    rw [WorkerThread.left, WorkerThread.left, if_neg hrunning]
    split
    · omega
    · exact Nat.succ_le_succ hstep
  | @crash i _ hcrash hpanic =>
    have hrunning : ¬ (s.workers i).ended := by
      rw [WorkerThread.ended, Bool.or_eq_true, beq_iff_eq]
      rintro (hended | hstopped)
      · exact hcrash hended
      · rw [hstopped] at hpanic
        cases hpanic
    have hmain : (panics.crash s.main).left n ≤ s.main.left n := by
      cases panics with
      | unwind => exact Nat.le_refl _
      | abort => exact Nat.zero_le _
    refine ⟨?_, Program.left_update hmain ?_⟩
    · cases panics with
      | unwind => exact .inl hj
      | abort => exact .inr rfl
    · rw [WorkerThread.left, WorkerThread.left, if_neg hrunning]
      exact Nat.succ_le_succ (Nat.zero_le _)

/-- A thread that has not ended can go on. -/
theorem worker_goes_on {i : Fin n} (halive : s.main ≠ .aborted) (h : ¬ (s.workers i).ended) (hp : (s.workers i).pending) :
    ∃ act s', s.Step crypto limit panics act s' ∧ act.own := by
  rw [WorkerThread.ended, Bool.or_eq_true, beq_iff_eq, not_or] at h
  rcases exists_step crypto (s.workers i).loop h.2 with ⟨label, u, hs, hstops⟩ | ⟨id, payload, frames, writable, ready, hphase, -⟩
  · exact ⟨.worker i label, _, .worker halive h.1 hs (by rw [hp]; exact stops_heeds hstops), rfl⟩
  · exact ⟨.crash i, _, .crash halive h.1 (by rw [hphase]; rfl), rfl⟩

/-- Once `main` joins, some thread can go on until it is done, unless only the read of stdin
is left to wait for. -/
theorem Program.Ordered.goes_on (h : s.Ordered panics) (hj : s.main.joins) : s.main = .done ∨
    (s.main = .joiningStdin ∧ s.latch.stdin = some .reading) ∨ ∃ act s', s.Step crypto limit panics act s' ∧ act.own := by
  obtain ⟨hpassed, hpending⟩ := h.joins hj
  have halive := MainPhase.joins_alive hj
  cases hmain : s.main with
  | waiting | waking | aborted =>
    rw [hmain] at hj
    cases hj
  | done => exact .inl rfl
  | joining k =>
    refine .inr (.inr ?_)
    by_cases hk : k < n
    · cases hended : (s.workers ⟨k, hk⟩).ended with
      | true =>
        refine ⟨.main, { s with main := .joining (k + 1) }, .main ?_, rfl⟩
        rw [Program.stepMain.eq_def, hmain]
        dsimp only
        rw [dif_pos hk, if_pos hended]
      | false => exact worker_goes_on crypto halive (ne_true_of_eq_false hended) (hpending _)
    · refine ⟨.main, { s with main := .joiningStdin }, .main ?_, rfl⟩
      rw [Program.stepMain.eq_def, hmain]
      exact dif_neg hk
  | joiningStdin =>
    have hmainStep : StopPhase.over s.latch.stdin → ∃ act s', s.Step crypto limit panics act s' ∧ act.own := by
      intro hover
      refine ⟨.main, { s with main := .done }, .main ?_, rfl⟩
      rw [Program.stepMain.eq_def, hmain]
      exact if_pos hover
    have hstop : ∀ l, s.latch.stepStop = some l → ∃ act s', s.Step crypto limit panics act s' ∧ act.own :=
      fun l hl => ⟨.latch .stop, { s with latch := l }, .latch halive hl, rfl⟩
    cases hstdin : s.latch.stdin with
    | none => exact .inr (.inr (hmainStep (by rw [hstdin]; rfl)))
    | some phase =>
      cases phase with
      | reading => exact .inr (.inl ⟨rfl, rfl⟩)
      | ended | panicked => exact .inr (.inr (hmainStep (by rw [hstdin]; rfl)))
      | locking =>
        refine .inr (.inr (hstop { s.latch with stdin := some .raising } ?_))
        have hfree : ¬ s.latch.wait.holds := by
          rw [hpassed]
          exact Bool.false_ne_true
        have hwell : s.latch.wait ≠ .panicked := by
          rw [hpassed]
          nofun
        rw [ShutdownLatch.stepStop.eq_def, hstdin]
        exact (if_neg hfree).trans (if_neg hwell)
      | raising =>
        refine .inr (.inr (hstop { s.latch with stopped := true, stdin := some .notifying } ?_))
        rw [ShutdownLatch.stepStop.eq_def, hstdin]
      | notifying =>
        refine .inr (.inr (hstop { s.latch with wait := s.latch.wait.wake, stdin := some .ended } ?_))
        rw [ShutdownLatch.stepStop.eq_def, hstdin]

end Step

/-! ### From start-up on -/

/-- What a step of the process is to worker `i`. -/
def threadOf {n : Nat} (i : Fin n) (p : Program n × ProgramAct n) : LoopHistory :=
  match p.2 with
  | .worker j label => if j = i then [((p.1.workers i).loop, label)] else []
  | _ => []

/-- What it is to the latch. -/
def latchOf {n : Nat} (p : Program n × ProgramAct n) : List (ShutdownLatch × LatchAct) :=
  match p.2 with
  | .latch act => [(p.1.latch, act)]
  | _ => []

section Run
variable {n : Nat} {limit : Limit} {panics : PanicStrategy} {s t : Program n} {hist : List (Program n × ProgramAct n)}

/-- A worker's loop runs as it would alone. -/
theorem run_thread (h : Run (Program.Step crypto limit panics) s hist t) (i : Fin n) :
    Run (Transport.EventLoop.Step (serverHandler crypto)) (s.workers i).loop (hist.flatMap (threadOf i)) (t.workers i).loop := by
  refine h.simulate (fun s => (s.workers i).loop) fun s act s' hs => ?_
  cases hs with
  | latch => exact .refl
  | main hm =>
    rw [(stepMain_cases hm).loop i]
    exact .refl
  | @worker j label u _ _ hs _ =>
    rw [threadOf]
    dsimp only
    by_cases hij : j = i
    · subst hij
      rw [if_pos rfl, Function.update_self]
      exact Run.snoc .refl hs
    · rw [if_neg hij, Function.update_of_ne (Ne.symm hij)]
      exact .refl
  | @crash j =>
    rw [threadOf]
    dsimp only
    by_cases hij : j = i
    · subst hij
      rw [Function.update_self]
      exact .refl
    · rw [Function.update_of_ne (Ne.symm hij)]
      exact .refl

/-- And so does the latch. -/
theorem run_latch (h : Run (Program.Step crypto limit panics) s hist t) :
    Run (ShutdownLatch.Step limit) s.latch (hist.flatMap latchOf) t.latch := by
  refine h.simulate Program.latch fun s act s' hs => ?_
  cases hs with
  | latch _ hl => exact Run.snoc .refl hl
  | main hm =>
    rw [(stepMain_cases hm).latch]
    exact .refl
  | worker => exact .refl
  | crash => exact .refl

theorem run_ordered (h : s.Ordered panics) (hrun : Run (Program.Step crypto limit panics) s hist t) : t.Ordered panics :=
  hrun.invariant_state h fun _ _ _ h hs => h.step crypto hs

/-- When the process is gone nothing steps. -/
theorem step_alive {act : ProgramAct n} (hs : s.Step crypto limit panics act t) : s.main ≠ .aborted := by
  intro habort
  cases hs with
  | latch halive => exact halive habort
  | worker halive => exact halive habort
  | crash halive => exact halive habort
  | main hm =>
    rw [Program.stepMain.eq_def, habort] at hm
    cases hm

/-- What is left bounds the steps of the threads. -/
theorem run_left (ho : s.Ordered panics) (hj : s.main.joins)
    (hb : ∀ hist t, Run (Program.Step crypto limit panics) s hist t → t.Bounded)
    (hrun : Run (Program.Step crypto limit panics) s hist t) :
    (t.main.joins ∨ t.main = .aborted) ∧ hist.countP (fun p => p.2.own) + t.left ≤ s.left := by
  induction hrun with
  | refl => exact ⟨.inl hj, Nat.le_of_eq (Nat.zero_add _)⟩
  | @snoc hist t u act hr hs ih =>
    obtain ⟨hjoins, hleft⟩ := ih
    obtain ⟨hjoins', hstep⟩ := hs.left crypto (run_ordered crypto ho hr) (hjoins.resolve_right (step_alive crypto hs))
      (hb _ _ (hr.snoc hs))
    refine ⟨hjoins', ?_⟩
    rw [List.countP_append, List.countP_singleton]
    dsimp only
    omega

end Run

section Process
variable {listeners : List SocketAddr} {workers : Nat} {answers : Nat → StartAnswers} {running : List RunningWorker}
  {limit : Limit} {panics : PanicStrategy} {now : Nat} {stdin : Bool}
  {hist : List (Program running.length × ProgramAct running.length)} {s : Program running.length}

/-- The outboxes stay within their bound in every run of a started process. -/
theorem program_bounded (hserve : serve listeners workers answers = .ok running)
    (hrun : Run (Program.Step crypto limit panics) (Program.start running now stdin) hist s) : s.Bounded := by
  intro i
  obtain ⟨sender, tcp, udp, listener, hloop⟩ := (serve_launched hserve i).loop
  have hthread := run_thread crypto hrun i
  rw [show ((Program.start running now stdin).workers i).loop = (running.get i).loop from rfl, hloop] at hthread
  exact run_bounded crypto hthread

/-- **Shutdown**: whatever the threads are answered and in whatever order they go on, `main`
returns only once the flag is up or the limit has passed and every worker and the listener are
over; the process ends before that only if the limit has no instant, and then no worker was
told, or if a worker has panicked where panics abort; it always gets from the latch to its
first join; and from there on the threads take no more steps than are left to them, one of
which can always be taken until the process ends or only the read of stdin is waited for. -/
theorem shutdown_completes (hserve : serve listeners workers answers = .ok running)
    (hrun : Run (Program.Step crypto limit panics) (Program.start running now stdin) hist s) :
    (s.main = .done → (s.latch.stopped ∨ Due limit (hist.flatMap latchOf) s.latch.now) ∧ (∀ i, (s.workers i).ended) ∧
      StopPhase.over s.latch.stdin) ∧
    (s.main = .aborted → (limit.Overflows (hist.flatMap latchOf) ∧ ∀ i, (s.workers i).pending = false) ∨
      (panics = .abort ∧ ∃ i, (s.workers i).crashed)) ∧
    (s.latch.wait = .passed ∨ s.latch.wait = .panicked → ¬ s.main.joins → s.main ≠ .aborted → s.stepMain.isSome) ∧
    (s.main.joins → ∀ more t, Run (Program.Step crypto limit panics) s more t →
      more.countP (fun p => p.2.own) + t.left ≤ s.left ∧
        (t.main = .done ∨ t.main = .aborted ∨ (t.main = .joiningStdin ∧ t.latch.stdin = some .reading) ∨
          ∃ act t', t.Step crypto limit panics act t' ∧ act.own)) := by
  have hstart : (Program.start running now stdin).Ordered panics := fun _ => rfl
  have hordered := run_ordered crypto hstart hrun
  have htimely := run_timely (run_latch crypto hrun)
  refine ⟨fun hdone => ?_, fun haborted => ?_, fun hwait hjoins halive => ?_, fun hjoins more t hmore => ?_⟩
  · rw [Program.Ordered, hdone] at hordered
    rw [hordered.1] at htimely
    exact ⟨htimely, hordered.2.2⟩
  · rw [Program.Ordered, haborted] at hordered
    refine hordered.imp_left fun ⟨hpanicked, hpending⟩ => ⟨?_, hpending⟩
    rwa [hpanicked] at htimely
  · rw [Program.stepMain.eq_def]
    cases hmain : s.main with
    | waiting => rcases hwait with hwait | hwait <;> rw [hwait] <;> rfl
    | waking k =>
      dsimp only
      split <;> rfl
    | joining | joiningStdin | done =>
      rw [hmain] at hjoins
      exact absurd rfl hjoins
    | aborted => exact absurd hmain halive
  · obtain ⟨hjoins', hleft⟩ := run_left crypto hordered hjoins (fun _ _ h => program_bounded crypto hserve (hrun.trans h)) hmore
    refine ⟨hleft, ?_⟩
    rcases hjoins' with hjoins' | haborted
    · exact ((run_ordered crypto hordered hmore).goes_on crypto hjoins').imp_right .inr
    · exact .inr (.inl haborted)

end Process

/-- `soleWorker`'s process with a limit of five: `wait` returns when they have passed, the
worker is woken, reads its flag and is joined. -/
theorem sole_ends : ∃ (s t : Program 1) (more : List (Program 1 × ProgramAct 1)), s.main = .joining 0 ∧ t.main = .done ∧
    more.countP (fun p => p.2.own) = 4 ∧ more.countP (fun p => p.2.own) + t.left ≤ s.left := by
  have hsoon : ∃ (hist : List (Program 1 × ProgramAct 1)) (s : Program 1) (more : List (Program 1 × ProgramAct 1)) (t : Program 1),
      Run (Program.Step signedResponseCrypto ⟨some 5, 60⟩ .unwind) (Program.start [soleWorker] 0 false) hist s ∧
      Run (Program.Step signedResponseCrypto ⟨some 5, 60⟩ .unwind) s more t ∧
      s.main = .joining 0 ∧ t.main = .done ∧ more.countP (fun p => p.2.own) = 4 := by
    exact ⟨_, _, _, _, ((((((Run.refl.snoc (.latch (a := .wait) nofun rfl)).snoc (.latch (a := .wait) nofun rfl)).snoc
      (.latch (a := .elapse 5) nofun rfl)).snoc (.latch (a := .wait) nofun rfl)).snoc (.main rfl)).snoc (.main rfl)).snoc (.main rfl),
      (((Run.refl.snoc (.worker (i := 0) (x := (.clock true 0, .idle)) nofun Bool.false_ne_true rfl rfl)).snoc
        (.main rfl)).snoc (.main rfl)).snoc (.main rfl), rfl, rfl, rfl⟩
  obtain ⟨hist, s, more, t, hrun, hmore, hmain, hdone, hcount⟩ := hsoon
  refine ⟨s, t, more, hmain, hdone, hcount, ?_⟩
  exact ((shutdown_completes signedResponseCrypto serve_sole hrun).2.2.2 (by rw [hmain]; rfl) more t hmore).1

end QuickRelay.Server
