import QuickRelay.Lib.Simulation

/-! The control latch: the main thread waits on it, the thread that reads stdin raises it. A
step of either is one lock, one look at the clock or the flag, or one call of the condition
variable. A panic of the waiter poisons the mutex. -/
namespace QuickRelay.Server
open Lib

/-- What `wait` is given, and the last instant its clock can represent. -/
structure Limit where
  after : Option Nat
  horizon : Nat
  deriving DecidableEq, Repr

/-- A `wait_timeout_while` under way: when it began and how long it may take. -/
structure Timer where
  start : Nat
  duration : Nat
  deriving DecidableEq, Repr

/-- Where `ShutdownLatch::wait` is. There is a timer if it was given a limit. -/
inductive WaitPhase where
  | locking
  | deciding
  | measuring (deadline : Nat)
  | timing (remaining : Nat)
  | rechecking (timer : Option Timer)
  | asleep (timer : Option Timer)
  | relocking (timer : Option Timer)
  | passed
  | panicked
  deriving DecidableEq, Repr

/-- Where the stdin listener is: in its read, or in `ShutdownLatch::stop`. -/
inductive StopPhase where
  | reading
  | locking
  | raising
  | notifying
  | ended
  | panicked
  deriving DecidableEq, Repr

/-- The flag with the threads around it; there is a stdin listener or none. -/
structure ShutdownLatch where
  now : Nat
  stopped : Bool
  wait : WaitPhase
  stdin : Option StopPhase
  deriving DecidableEq, Repr

/-- A step of one of the two threads, or what happens to them: the read of stdin ends, time
passes, or the condition variable wakes its waiter for no reason. -/
inductive LatchAct where
  | wait
  | stop
  | input
  | elapse (time : Nat)
  | spurious
  deriving DecidableEq, Repr

namespace WaitPhase

/-- It holds the mutex. -/
def holds : WaitPhase → Bool
  | .deciding => true
  | .measuring _ => true
  | .timing _ => true
  | .rechecking _ => true
  | _ => false

/-- Notified, or awake for another reason. -/
def wake : WaitPhase → WaitPhase
  | .asleep timer => .relocking timer
  | phase => phase

end WaitPhase

def StopPhase.holds (p : Option StopPhase) : Bool := p == some .raising

/-- There is no listener, or its thread is over. -/
def StopPhase.over (p : Option StopPhase) : Bool := p == none || p == some .ended || p == some .panicked

namespace ShutdownLatch

def new (now : Nat) (stdin : Bool) : ShutdownLatch := ⟨now, false, .locking, if stdin then some .reading else none⟩

/-- `wait_while` and `wait_timeout_while` with the mutex locked. -/
def recheck (l : ShutdownLatch) : Option Timer → WaitPhase
  | none => if l.stopped then .deciding else .asleep none
  | some t =>
    if l.stopped then .deciding
    else if t.duration < l.now - t.start then .passed
    else .asleep (some t)

/-- One step of `wait` with a limit. `Instant::now() + u` panics if the sum has no instant. -/
def stepWait (l : ShutdownLatch) (limit : Limit) : Option WaitPhase :=
  match l.wait with
  | .locking => if StopPhase.holds l.stdin then none else some .deciding
  | .deciding =>
    if l.stopped then some .passed
    else match limit.after with
      | none => some (.rechecking none)
      | some u => some (if l.now + u ≤ limit.horizon then .measuring (l.now + u) else .panicked)
  | .measuring deadline => if deadline - l.now = 0 then some .passed else some (.timing (deadline - l.now))
  | .timing remaining => some (.rechecking (some ⟨l.now, remaining⟩))
  | .rechecking timer => some (l.recheck timer)
  | .asleep none => none
  | .asleep (some t) => if t.duration ≤ l.now - t.start then some (.relocking (some t)) else none
  | .relocking timer => if StopPhase.holds l.stdin then none else some (.rechecking timer)
  | .passed => none
  | .panicked => none

/-- One step of `stop`; the lock of a poisoned mutex is unwrapped. -/
def stepStop (l : ShutdownLatch) : Option ShutdownLatch :=
  match l.stdin with
  | some .locking =>
    if l.wait.holds then none
    else if l.wait = .panicked then some { l with stdin := some .panicked }
    else some { l with stdin := some .raising }
  | some .raising => some { l with stopped := true, stdin := some .notifying }
  | some .notifying => some { l with wait := l.wait.wake, stdin := some .ended }
  | _ => none

def next (limit : Limit) (l : ShutdownLatch) : LatchAct → Option ShutdownLatch
  | .wait => (l.stepWait limit).map fun wait => { l with wait }
  | .stop => l.stepStop
  | .input => if l.stdin = some .reading then some { l with stdin := some .locking } else none
  | .elapse time => if l.now + time ≤ limit.horizon then some { l with now := l.now + time } else none
  | .spurious => some { l with wait := l.wait.wake }

def Step (limit : Limit) (l : ShutdownLatch) (act : LatchAct) (l' : ShutdownLatch) : Prop := l.next limit act = some l'

end ShutdownLatch

/-! ### The flag and the sleep -/

/-- One thread holds the mutex, the flag is up once the listener has raised it, nobody sleeps
after the notification, and only with the flag down does the waiter panic. -/
structure Guarded (l : ShutdownLatch) : Prop where
  exclusive : l.wait.holds → StopPhase.holds l.stdin = false
  raised : l.stopped ↔ l.stdin = some .notifying ∨ l.stdin = some .ended
  awake : ∀ timer, l.wait = .asleep timer → l.stdin ≠ some .ended
  panicked : l.wait = .panicked → l.stopped = false ∧ StopPhase.holds l.stdin = false

/-- What a step of `wait` can do. -/
inductive Waited (limit : Limit) (l : ShutdownLatch) : WaitPhase → WaitPhase → Prop
  | locked : StopPhase.holds l.stdin = false → Waited limit l .locking .deciding
  | released : l.stopped → Waited limit l .deciding .passed
  | unlimited : l.stopped = false → limit.after = none → Waited limit l .deciding (.rechecking none)
  | limited {u : Nat} : l.stopped = false → limit.after = some u → Waited limit l .deciding (.measuring (l.now + u))
  | overflowed {u : Nat} : l.stopped = false → limit.after = some u → limit.horizon < l.now + u → Waited limit l .deciding .panicked
  | late {deadline : Nat} : deadline ≤ l.now → Waited limit l (.measuring deadline) .passed
  | measured {deadline : Nat} : Waited limit l (.measuring deadline) (.timing (deadline - l.now))
  | timed {remaining : Nat} : Waited limit l (.timing remaining) (.rechecking (some ⟨l.now, remaining⟩))
  | seen {timer : Option Timer} : l.stopped → Waited limit l (.rechecking timer) .deciding
  | expired {t : Timer} : t.duration < l.now - t.start → Waited limit l (.rechecking (some t)) .passed
  | slept {timer : Option Timer} : l.stopped = false → Waited limit l (.rechecking timer) (.asleep timer)
  | rang {t : Timer} : Waited limit l (.asleep (some t)) (.relocking (some t))
  | relocked {timer : Option Timer} : StopPhase.holds l.stdin = false → Waited limit l (.relocking timer) (.rechecking timer)

/-- What a step of `stop` can do. -/
inductive Stopping (l : ShutdownLatch) : ShutdownLatch → Prop
  | locked : l.stdin = some .locking → l.wait.holds = false → l.wait ≠ .panicked → Stopping l { l with stdin := some .raising }
  | poisoned : l.stdin = some .locking → l.wait = .panicked → Stopping l { l with stdin := some .panicked }
  | raised : l.stdin = some .raising → Stopping l { l with stopped := true, stdin := some .notifying }
  | notified : l.stdin = some .notifying → Stopping l { l with wait := l.wait.wake, stdin := some .ended }

section Step
variable {limit : Limit} {l l' : ShutdownLatch} {act : LatchAct}

theorem recheck_waited (l : ShutdownLatch) (timer : Option Timer) : Waited limit l (.rechecking timer) (l.recheck timer) := by
  cases hs : l.stopped with
  | true =>
    have hseen : l.recheck timer = .deciding := by cases timer <;> simp [ShutdownLatch.recheck, hs]
    rw [hseen]
    exact .seen hs
  | false =>
    cases timer with
    | none =>
      rw [ShutdownLatch.recheck, if_neg (ne_true_of_eq_false hs)]
      exact .slept hs
    | some t =>
      rw [ShutdownLatch.recheck, if_neg (ne_true_of_eq_false hs)]
      split
      case isTrue hlate => exact .expired hlate
      case isFalse => exact .slept hs

theorem stepWait_waited {wait : WaitPhase} (h : l.stepWait limit = some wait) : Waited limit l l.wait wait := by
  rw [ShutdownLatch.stepWait.eq_def] at h
  cases hw : l.wait with
  | locking =>
    rw [hw] at h
    obtain ⟨hfree, h⟩ := Option.ite_none_left_eq_some.mp h
    cases h
    exact .locked (eq_false_of_ne_true hfree)
  | deciding =>
    rw [hw] at h
    dsimp only at h
    split at h
    case isTrue hs =>
      cases h
      exact .released hs
    case isFalse hs =>
      have hdown := eq_false_of_ne_true hs
      cases hafter : limit.after with
      | none =>
        rw [hafter] at h
        cases h
        exact .unlimited hdown hafter
      | some u =>
        rw [hafter] at h
        dsimp only at h
        split at h
        case isTrue =>
          cases h
          exact .limited hdown hafter
        case isFalse hfar =>
          cases h
          exact .overflowed hdown hafter (Nat.lt_of_not_le hfar)
  | measuring deadline =>
    rw [hw] at h
    dsimp only at h
    split at h
    case isTrue hlate =>
      cases h
      exact .late (Nat.sub_eq_zero_iff_le.mp hlate)
    case isFalse =>
      cases h
      exact .measured
  | timing remaining =>
    rw [hw] at h
    cases h
    exact .timed
  | rechecking timer =>
    rw [hw] at h
    cases h
    exact recheck_waited l timer
  | asleep timer =>
    rw [hw] at h
    cases timer with
    | none => cases h
    | some t =>
      obtain ⟨-, h⟩ := Option.ite_none_right_eq_some.mp h
      cases h
      exact .rang
  | relocking timer =>
    rw [hw] at h
    obtain ⟨hfree, h⟩ := Option.ite_none_left_eq_some.mp h
    cases h
    exact .relocked (eq_false_of_ne_true hfree)
  | passed | panicked =>
    rw [hw] at h
    cases h

theorem stepStop_stopping (h : l.stepStop = some l') : Stopping l l' := by
  rw [ShutdownLatch.stepStop.eq_def] at h
  split at h
  case h_1 hphase =>
    obtain ⟨hfree, h⟩ := Option.ite_none_left_eq_some.mp h
    split at h
    case isTrue hpanicked =>
      cases h
      exact .poisoned hphase hpanicked
    case isFalse hwell =>
      cases h
      exact .locked hphase (eq_false_of_ne_true hfree) hwell
  case h_2 hphase =>
    cases h
    exact .raised hphase
  case h_3 hphase =>
    cases h
    exact .notified hphase
  case h_4 => cases h

theorem elapse_eq {time : Nat} (h : l.next limit (.elapse time) = some l') : l' = { l with now := l.now + time } := by
  obtain ⟨-, h⟩ := Option.ite_none_right_eq_some.mp h
  cases h
  rfl

theorem WaitPhase.wake_holds (p : WaitPhase) : p.wake.holds = p.holds := by cases p <;> rfl

theorem WaitPhase.wake_panicked {p : WaitPhase} (h : p.wake = .panicked) : p = .panicked := by
  cases p with
  | asleep timer => cases h
  | _ => exact h

theorem WaitPhase.wake_ne_asleep (p : WaitPhase) (timer : Option Timer) : p.wake ≠ .asleep timer := by cases p <;> nofun

/-- Its waiter keeps off a mutex that is held, and off a sleep on a raised flag. -/
theorem Waited.holds {p p' : WaitPhase} (h : Waited limit l p p') : p'.holds → p.holds ∨ StopPhase.holds l.stdin = false := by
  intro hp'
  cases h with
  | locked hfree => exact .inr hfree
  | relocked hfree => exact .inr hfree
  | released => cases hp'
  | late => cases hp'
  | expired => cases hp'
  | slept => cases hp'
  | rang => cases hp'
  | _ => exact .inl rfl

theorem Guarded.wait {wait : WaitPhase} (h : Guarded l) (hw : Waited limit l l.wait wait) : Guarded { l with wait } := by
  refine ⟨fun hholds => ?_, h.raised, fun timer hasleep hended => ?_, fun hpanicked => ?_⟩
  · exact (hw.holds hholds).elim h.exclusive fun hfree => hfree
  · dsimp only at hasleep hended
    rw [hasleep] at hw
    generalize l.wait = p at hw
    cases hw with
    | slept hdown =>
      have hup := h.raised.mpr (.inr hended)
      rw [hdown] at hup
      cases hup
  · dsimp only at hpanicked
    rw [hpanicked] at hw
    have hexclusive := h.exclusive
    generalize l.wait = p at hw hexclusive
    cases hw with
    | overflowed hdown => exact ⟨hdown, hexclusive rfl⟩

theorem Guarded.stop (h : Guarded l) (hs : Stopping l l') : Guarded l' := by
  cases hs with
  | locked hphase hfree hwell =>
    refine ⟨fun hholds => absurd (hfree.symm.trans hholds) Bool.false_ne_true, ?_, fun _ _ => nofun, fun hp => absurd hp hwell⟩
    rw [h.raised, hphase]
    simp
  | poisoned hphase hpanicked =>
    refine ⟨fun _ => rfl, ?_, fun _ _ => nofun, fun _ => ⟨(h.panicked hpanicked).1, rfl⟩⟩
    rw [h.raised, hphase]
    simp
  | raised hphase =>
    refine ⟨fun _ => rfl, iff_of_true rfl (.inl rfl), fun _ _ => nofun, fun hpanicked => ?_⟩
    have hfree := (h.panicked hpanicked).2
    rw [hphase] at hfree
    cases hfree
  | notified hphase =>
    refine ⟨fun _ => rfl, iff_of_true (h.raised.mpr (.inl hphase)) (.inr rfl), fun timer hasleep => ?_, fun hpanicked => ?_⟩
    · exact absurd hasleep (l.wait.wake_ne_asleep timer)
    · exact ⟨(h.panicked (WaitPhase.wake_panicked hpanicked)).1, rfl⟩

theorem Guarded.step (h : Guarded l) (hs : ShutdownLatch.Step limit l act l') : Guarded l' := by
  cases act with
  | wait =>
    obtain ⟨wait, hstep, rfl⟩ := Option.map_eq_some_iff.mp hs
    exact h.wait (stepWait_waited hstep)
  | stop => exact h.stop (stepStop_stopping hs)
  | elapse time =>
    rw [elapse_eq hs]
    exact ⟨h.exclusive, h.raised, h.awake, h.panicked⟩
  | spurious =>
    cases hs
    refine ⟨fun hholds => h.exclusive (l.wait.wake_holds ▸ hholds), h.raised, fun timer hasleep => ?_, fun hpanicked => ?_⟩
    · exact absurd hasleep (l.wait.wake_ne_asleep timer)
    · exact h.panicked (WaitPhase.wake_panicked hpanicked)
  | input =>
    obtain ⟨hreading, hs⟩ := Option.ite_none_right_eq_some.mp hs
    cases hs
    refine ⟨fun _ => rfl, ?_, fun _ _ => nofun, fun hpanicked => ⟨(h.panicked hpanicked).1, rfl⟩⟩
    rw [h.raised, hreading]
    simp

theorem new_guarded (now : Nat) (stdin : Bool) : Guarded (.new now stdin) := by
  refine ⟨nofun, ?_, nofun, nofun⟩
  cases stdin <;> simp [ShutdownLatch.new]

/-! ### A raised flag -/

/-- The steps `wait` has left, with the flag up. -/
def WaitPhase.left : WaitPhase → Nat
  | .passed => 0
  | .panicked => 0
  | .deciding => 1
  | .locking => 2
  | .rechecking _ => 2
  | .relocking _ => 3
  | .timing _ => 3
  | .measuring _ => 4
  | .asleep _ => 4

/-- The steps the listener has left, its read apart. -/
def StopPhase.left : Option StopPhase → Nat
  | some .reading => 3
  | some .locking => 3
  | some .raising => 2
  | some .notifying => 1
  | _ => 0

def ShutdownLatch.left (l : ShutdownLatch) : Nat := l.wait.left + StopPhase.left l.stdin

/-- It is a step of one of the threads. -/
def LatchAct.own : LatchAct → Bool
  | .wait => true
  | .stop => true
  | _ => false

theorem WaitPhase.wake_left (p : WaitPhase) : p.wake.left ≤ p.left := by cases p <;> simp [wake, left]

/-- A raised flag is never found down. -/
theorem Waited.left {p p' : WaitPhase} (h : Waited limit l p p') (hs : l.stopped) : p'.left + 1 ≤ p.left := by
  have hup : l.stopped ≠ false := ne_false_of_eq_true hs
  cases h with
  | slept hdown => exact absurd hdown hup
  | unlimited hdown _ => exact absurd hdown hup
  | limited hdown _ => exact absurd hdown hup
  | overflowed hdown _ _ => exact absurd hdown hup
  | late => exact Nat.le_of_ble_eq_true rfl
  | expired => exact Nat.le_of_ble_eq_true rfl
  | _ => exact Nat.le_refl _

theorem Stopping.left (h : Stopping l l') : l'.left + 1 ≤ l.left ∧ (l.stopped → l'.stopped) ∧ l'.now = l.now := by
  rw [ShutdownLatch.left, ShutdownLatch.left]
  cases h with
  | locked hphase | raised hphase =>
    rw [hphase]
    exact ⟨Nat.le_refl _, fun hup => by simp [hup], rfl⟩
  | poisoned hphase =>
    rw [hphase]
    exact ⟨Nat.add_le_add_left (by decide) _, id, rfl⟩
  | notified hphase =>
    rw [hphase]
    exact ⟨Nat.succ_le_succ l.wait.wake_left, id, rfl⟩

/-- With the flag up the threads use up what they have left, and nothing gives them more. -/
theorem Guarded.left (h : Guarded l) (hup : l.stopped) (hs : ShutdownLatch.Step limit l act l') :
    l'.stopped ∧ l'.left + (if act.own then 1 else 0) ≤ l.left := by
  cases act with
  | wait =>
    obtain ⟨wait, hstep, rfl⟩ := Option.map_eq_some_iff.mp hs
    have hless := (stepWait_waited hstep).left hup
    refine ⟨hup, ?_⟩
    simp only [ShutdownLatch.left, LatchAct.own, if_true]
    omega
  | stop =>
    obtain ⟨hless, hstill, -⟩ := (stepStop_stopping hs).left
    exact ⟨hstill hup, hless⟩
  | elapse time =>
    rw [elapse_eq hs]
    exact ⟨hup, Nat.le_refl _⟩
  | spurious =>
    cases hs
    exact ⟨hup, Nat.add_le_add_right l.wait.wake_left _⟩
  | input =>
    obtain ⟨hreading, -⟩ := Option.ite_none_right_eq_some.mp hs
    rw [h.raised, hreading] at hup
    simp at hup

theorem WaitPhase.left_le (p : WaitPhase) : p.left ≤ 4 := by cases p <;> simp [left]

theorem Guarded.left_le (h : Guarded l) (hup : l.stopped) : l.left ≤ 5 := by
  have hwait := l.wait.left_le
  have hstop : StopPhase.left l.stdin ≤ 1 := by
    rcases h.raised.mp hup with hstdin | hstdin
    · rw [hstdin]
      exact Nat.le_refl 1
    · rw [hstdin]
      exact Nat.zero_le 1
  exact Nat.add_le_add hwait hstop

/-- With the flag up one of the threads can go on until `wait` has returned. -/
theorem Guarded.goes_on (h : Guarded l) (hup : l.stopped) :
    l.wait = .passed ∨ ∃ act l', ShutdownLatch.Step limit l act l' ∧ act.own := by
  have hfree : StopPhase.holds l.stdin = false := by
    rcases h.raised.mp hup with hstdin | hstdin
    · rw [hstdin]
      rfl
    · rw [hstdin]
      rfl
  have hwait : ∀ wait, l.stepWait limit = some wait → l.wait = .passed ∨ ∃ act l', ShutdownLatch.Step limit l act l' ∧ act.own :=
    fun wait hstep => .inr ⟨.wait, { l with wait }, Option.map_eq_some_iff.mpr ⟨wait, hstep, rfl⟩, rfl⟩
  cases hw : l.wait with
  | locking => exact hw ▸ hwait .deciding (by rw [ShutdownLatch.stepWait.eq_def, hw, hfree]; rfl)
  | deciding => exact hw ▸ hwait .passed (by rw [ShutdownLatch.stepWait.eq_def, hw]; exact if_pos hup)
  | measuring deadline =>
    by_cases hlate : deadline - l.now = 0
    · exact hw ▸ hwait .passed (by rw [ShutdownLatch.stepWait.eq_def, hw]; exact if_pos hlate)
    · exact hw ▸ hwait (.timing (deadline - l.now)) (by rw [ShutdownLatch.stepWait.eq_def, hw]; exact if_neg hlate)
  | timing remaining => exact hw ▸ hwait _ (by rw [ShutdownLatch.stepWait.eq_def, hw])
  | rechecking timer => exact hw ▸ hwait _ (by rw [ShutdownLatch.stepWait.eq_def, hw])
  | relocking timer => exact hw ▸ hwait (.rechecking timer) (by rw [ShutdownLatch.stepWait.eq_def, hw, hfree]; rfl)
  | passed => exact .inl rfl
  | panicked =>
    rw [(h.panicked hw).1] at hup
    cases hup
  | asleep timer =>
    -- the notification of the sleeper is still to be sent
    have hnotifying : l.stdin = some .notifying := (h.raised.mp hup).resolve_right (h.awake timer hw)
    exact .inr ⟨.stop, { l with wait := l.wait.wake, stdin := some .ended },
      by rw [ShutdownLatch.Step, ShutdownLatch.next, ShutdownLatch.stepStop.eq_def, hnotifying], rfl⟩

/-! ### The limit -/

/-- A limit was given, and at the time it had passed since `wait` first looked at the flag. -/
def Due (limit : Limit) (hist : List (ShutdownLatch × LatchAct)) (time : Nat) : Prop :=
  ∃ u, limit.after = some u ∧ ∃ x ∈ hist, x.1.wait = .deciding ∧ x.1.now + u ≤ time

theorem Due.later {hist hist' : List (ShutdownLatch × LatchAct)} {time time' : Nat} (h : Due limit hist time)
    (hle : time ≤ time') : Due limit (hist ++ hist') time' := by
  obtain ⟨u, hu, x, hx, hphase, htime⟩ := h
  exact ⟨u, hu, x, List.mem_append_left _ hx, hphase, Nat.le_trans htime hle⟩

/-- A limit was given whose end, when `wait` looked at the flag, no instant represents. -/
def Limit.Overflows (limit : Limit) (hist : List (ShutdownLatch × LatchAct)) : Prop :=
  ∃ u, limit.after = some u ∧ ∃ x ∈ hist, x.1.wait = .deciding ∧ limit.horizon < x.1.now + u

theorem Limit.Overflows.later {hist hist' : List (ShutdownLatch × LatchAct)} (h : limit.Overflows hist) :
    limit.Overflows (hist ++ hist') := by
  obtain ⟨u, hu, x, hx, hlooked⟩ := h
  exact ⟨u, hu, x, List.mem_append_left _ hx, hlooked⟩

/-- The deadline is one that `wait` was given; it returns on the flag or past the deadline, and
panics over a deadline without an instant. -/
def Timely (limit : Limit) (hist : List (ShutdownLatch × LatchAct)) (now : Nat) (stopped : Bool) : WaitPhase → Prop
  | .measuring deadline => Due limit hist deadline
  | .timing remaining => Due limit hist (now + remaining)
  | .rechecking (some t) => Due limit hist (t.start + t.duration)
  | .asleep (some t) => Due limit hist (t.start + t.duration)
  | .relocking (some t) => Due limit hist (t.start + t.duration)
  | .passed => stopped ∨ Due limit hist now
  | .panicked => limit.Overflows hist
  | _ => True

variable {hist hist' : List (ShutdownLatch × LatchAct)} {now now' : Nat} {stopped stopped' : Bool}

theorem Timely.later {p : WaitPhase} (h : Timely limit hist now stopped p) (hnow : now ≤ now') (hup : stopped → stopped') :
    Timely limit (hist ++ hist') now' stopped' p := by
  cases p with
  | measuring deadline => exact Due.later h (Nat.le_refl _)
  | timing remaining => exact Due.later h (Nat.add_le_add_right hnow _)
  | passed => exact Or.imp hup (fun hdue : Due limit hist now => hdue.later hnow) h
  | panicked => exact Limit.Overflows.later h
  | rechecking timer | asleep timer | relocking timer =>
    cases timer with
    | none => trivial
    | some t => exact Due.later h (Nat.le_refl _)
  | _ => trivial

theorem Timely.wake {p : WaitPhase} (h : Timely limit hist now stopped p) : Timely limit hist now stopped p.wake := by
  cases p with
  | asleep timer =>
    cases timer with
    | none => trivial
    | some t => exact h
  | _ => exact h

theorem Waited.timely {p' : WaitPhase} (h : Waited limit l l.wait p') (ht : Timely limit hist l.now l.stopped l.wait) :
    Timely limit (hist ++ [(l, .wait)]) l.now l.stopped p' := by
  have hlater : Timely limit (hist ++ [(l, .wait)]) l.now l.stopped l.wait := ht.later (Nat.le_refl l.now) id
  generalize hp : l.wait = p at h hlater
  cases h with
  | locked => trivial
  | seen => trivial
  | unlimited => trivial
  | released hup => exact .inl hup
  | limited _ hlimit =>
    exact ⟨_, hlimit, (l, .wait), List.mem_append_right _ (List.mem_singleton_self _), hp, Nat.le_refl _⟩
  | overflowed _ hlimit hfar => exact ⟨_, hlimit, (l, .wait), List.mem_append_right _ (List.mem_singleton_self _), hp, hfar⟩
  | late hlate =>
    obtain ⟨u, hu, x, hx, hphase, htime⟩ := hlater
    exact .inr ⟨u, hu, x, hx, hphase, Nat.le_trans htime hlate⟩
  | measured =>
    obtain ⟨u, hu, x, hx, hphase, htime⟩ := hlater
    exact ⟨u, hu, x, hx, hphase, by omega⟩
  | timed => exact hlater
  | expired hlate =>
    obtain ⟨u, hu, x, hx, hphase, htime⟩ := hlater
    exact .inr ⟨u, hu, x, hx, hphase, by omega⟩
  | slept | relocked =>
    rename_i timer _
    cases timer with
    | none => trivial
    | some t => exact hlater
  | rang => exact hlater

end Step

/-! ### Runs -/

section Run
variable {limit : Limit} {now : Nat} {stdin : Bool} {hist : List (ShutdownLatch × LatchAct)} {l : ShutdownLatch}
  (hrun : Run (ShutdownLatch.Step limit) (.new now stdin) hist l)
include hrun

theorem run_guarded : Guarded l :=
  Run.invariant_state (P := Guarded) (new_guarded now stdin) (fun _ _ _ h hs => h.step hs) hrun

theorem run_timely : Timely limit hist l.now l.stopped l.wait := by
  refine hrun.invariant (P := fun hist l => Timely limit hist l.now l.stopped l.wait) ?_ ?_
  · change True
    trivial
  intro hist l act l' _ ht hs
  cases act with
  | wait =>
    obtain ⟨wait, hstep, rfl⟩ := Option.map_eq_some_iff.mp hs
    exact (stepWait_waited hstep).timely ht
  | elapse time =>
    rw [elapse_eq hs]
    exact ht.later (Nat.le_add_right _ _) id
  | spurious =>
    cases hs
    exact ht.wake.later (Nat.le_refl _) id
  | input =>
    obtain ⟨-, hs⟩ := Option.ite_none_right_eq_some.mp hs
    cases hs
    exact ht.later (Nat.le_refl _) id
  | stop =>
    have hstop := stepStop_stopping hs
    obtain ⟨-, hup, hnow⟩ := hstop.left
    rw [hnow]
    cases hstop with
    | notified => exact ht.wake.later (Nat.le_refl _) hup
    | _ => exact ht.later (Nat.le_refl _) hup

/-- **No lost stop**: `wait` returns for no other reason than the flag, or the limit if it was
given one and that has passed; it panics with the flag down only, over a limit that ends after
the last instant; and once the flag is up, however the threads interleave and whatever wakes
them, they take five steps at most, and until `wait` has returned one of them can take its
next. -/
theorem stop_heard : (l.wait = .passed → l.stopped ∨ Due limit hist l.now) ∧
    (l.wait = .panicked → l.stopped = false ∧ limit.Overflows hist) ∧
    (l.stopped → ∀ more m, Run (ShutdownLatch.Step limit) l more m → more.countP (fun x => x.2.own) ≤ 5 ∧
      (m.wait = .passed ∨ ∃ act m', ShutdownLatch.Step limit m act m' ∧ act.own)) := by
  have ht := run_timely hrun
  refine ⟨fun hpassed => ?_, fun hpanicked => ⟨((run_guarded hrun).panicked hpanicked).1, ?_⟩, ?_⟩
  · rwa [hpassed] at ht
  · rwa [hpanicked] at ht
  · intro hup more m hmore
    have hleft : m.stopped ∧ more.countP (fun x => x.2.own) + m.left ≤ l.left := by
      refine hmore.invariant (P := fun more m => m.stopped ∧ more.countP (fun x => x.2.own) + m.left ≤ l.left) ⟨hup, ?_⟩ ?_
      · exact Nat.le_of_eq (Nat.zero_add _)
      · intro more t act u hr ⟨hraised, hcount⟩ hs
        obtain ⟨hstill, hless⟩ := (run_guarded (hrun.trans hr)).left hraised hs
        refine ⟨hstill, ?_⟩
        rw [List.countP_append, List.countP_singleton]
        dsimp only
        omega
    have hfive := (run_guarded hrun).left_le hup
    exact ⟨by omega, (run_guarded (hrun.trans hmore)).goes_on hleft.1⟩

end Run

example : execute (ShutdownLatch.next ⟨some 61, 60⟩) (.new 0 false) [.wait, .wait] = some ⟨0, false, .panicked, none⟩ := rfl

/-- The listener has raised the flag over a waiter that sleeps for thirty units. -/
def raisedAsleep : ShutdownLatch := ⟨0, true, .asleep (some ⟨0, 30⟩), some .notifying⟩

theorem raisedAsleep_run : ∃ hist, Run (ShutdownLatch.Step ⟨some 30, 60⟩) (.new 0 true) hist raisedAsleep := by
  have hexec : execute (ShutdownLatch.next ⟨some 30, 60⟩) (.new 0 true)
      [.wait, .wait, .wait, .wait, .wait, .input, .stop, .stop] = some raisedAsleep := rfl
  exact execute_run hexec

/-- The notification moves the waiter, which has a step left. -/
theorem raisedAsleep_heard : ∃ (more : List (ShutdownLatch × LatchAct)) (m : ShutdownLatch),
    Run (ShutdownLatch.Step ⟨some 30, 60⟩) raisedAsleep more m ∧ m.stdin = some .ended ∧ more.countP (fun x => x.2.own) ≤ 5 ∧
      (m.wait = .passed ∨ ∃ act m', ShutdownLatch.Step ⟨some 30, 60⟩ m act m' ∧ act.own) := by
  obtain ⟨hist, hrun⟩ := raisedAsleep_run
  have hnotified : execute (ShutdownLatch.next ⟨some 30, 60⟩) raisedAsleep [.stop] =
      some ⟨0, true, .relocking (some ⟨0, 30⟩), some .ended⟩ := rfl
  obtain ⟨more, hmore⟩ := execute_run hnotified
  exact ⟨more, _, hmore, rfl, (stop_heard hrun).2.2 rfl more _ hmore⟩

end QuickRelay.Server
