import QuickRelay.Transport.Lifecycle

/-! The timers of a connection over a whole run: what sets them, and what they then say. The
deadlines are taken to have instants that represent them. -/
namespace QuickRelay.Transport.EventLoop
open Lib

variable {ε H : Type} (api : Handler ε H)

/-! ### One step -/

/-- What sets a connection's timers, and when: that it was accepted, read, or written. -/
inductive Touch where
  | opened (now : Nat)
  | read (chunk : Bytes) (now : Nat)
  | wrote (now : Nat)
  deriving DecidableEq, Repr

def Touch.time : Touch → Nat
  | .opened now => now
  | .read _ now => now
  | .wrote now => now

def touch (id : ConnectionId) (label : Answer ε × Act) : Option Touch :=
  match label.2, label.1 with
  | .connect i _, .register _ now => if i = id then some (.opened now) else none
  | .read i _, .read (.octets chunk) now => if i = id then some (.read chunk now) else none
  | .write i, .write (.wrote _) now => if i = id then some (.wrote now) else none
  | _, _ => none

/-- What has set a connection's timers, oldest first. -/
def touches (id : ConnectionId) (hist : History ε H) : List Touch := hist.filterMap fun p => touch id p.2

def Conn.timers (c : Conn) : Nat × Bool × Option Nat := (c.lastActive, c.halfOpen, c.halfOpenDeadline)

theorem Conn.takeWrite_timers (c : Conn) (payload : Bytes) : (c.takeWrite payload).2.timers = c.timers := by
  rw [takeWrite]
  split
  · rfl
  · split
    · rfl
    · rfl

/-- What a step can do to the timers of one connection. -/
inductive TimerStep (id : ConnectionId) (w : Worker H) : Option Touch → Worker H → Prop
  | kept {w' : Worker H} : (∀ c', w'.conns.get id = some c' → ∃ c, w.conns.get id = some c ∧ c'.timers = c.timers) →
      TimerStep id w none w'
  | opened {c' : Conn} {now : Nat} {w' : Worker H} : w.conns.nextId = id.value → w'.conns.get id = some c' →
      c'.timers = (now, true, some (now + w.config.halfOpenTimeout)) → TimerStep id w (some (.opened now)) w'
  | read {c c' : Conn} {chunk : Bytes} {now : Nat} {w' : Worker H} : w.conns.get id = some c → w'.conns.get id = some c' →
      c'.timers = (now, false, none) → TimerStep id w (some (.read chunk now)) w'
  | wrote {c c' : Conn} {now : Nat} {w' : Worker H} : w.conns.get id = some c → w'.conns.get id = some c' →
      c'.timers = (now, c.halfOpen, c.halfOpenDeadline) → TimerStep id w (some (.wrote now)) w'

theorem Worker.drop_not_write (w : Worker H) (i id : ConnectionId) : (w.drop api i).1 ≠ .write id := by
  intro h
  rcases w.drop_act api i with hact | hact
  all_goals cases hact.symm.trans h

/-- Only `drain_write` writes. -/
theorem step_write {s s' : Loop H} {answer : Answer ε} {id : ConnectionId} (h : Step api s (answer, .write id) s') :
    ∃ c ready, s.worker.conns.get id = some c ∧ s.worker.drainWrite api id c ready answer = some (.write id, s') := by
  have hdoes := (step_label api h).2
  obtain ⟨w, phase⟩ := s
  cases phase with
  | drainWrite id' writable ready =>
    change w.serveWrite api id' writable ready answer = _ at h
    rw [Worker.serveWrite.eq_def] at h
    split at h
    case h_1 c hget =>
      obtain rfl : id' = id := by
        rw [Worker.drainWrite.eq_def] at h
        split at h
        case h_4 => exact absurd (congrArg Prod.fst (Option.some.inj h)) (w.drop_not_write api _ _)
        case h_5 => cases h
        all_goals
          cases h
          rfl
      exact ⟨c, ready, hget, h⟩
    all_goals cases h
  | _ => cases hdoes

theorem drainWrite_timers {w : Worker H} {id : ConnectionId} {c : Conn} {ready : List Ready} {answer : Answer ε} {s' : Loop H}
    (hget : w.conns.get id = some c) (h : w.drainWrite api id c ready answer = some (.write id, s')) :
    TimerStep id w (touch id (answer, .write id)) s'.worker := by
  have hnow : ∀ c' : Conn, (w.conns.insert id c').get id = some c' := ConnMgr.get_insert_self (ConnMgr.lt_of_get hget)
  have hkept : ∀ (w' : Worker H) (c' : Conn), w'.conns = w.conns.insert id c' → c'.timers = c.timers →
      TimerStep id w none w' := by
    intro w' c' hconns htimers
    refine .kept fun c'' hget' => ?_
    rw [hconns, hnow] at hget'
    cases hget'
    exact ⟨c, hget, htimers⟩
  rw [Worker.drainWrite.eq_def] at h
  split at h
  case h_1 =>
    cases h
    exact hkept _ _ rfl rfl
  case h_2 =>
    cases h
    exact hkept _ _ rfl rfl
  case h_3 n now _ =>
    cases h
    have htouch : touch id ((.write (.wrote n) now : Answer ε), .write id) = some (.wrote now) := if_pos rfl
    rw [htouch]
    exact .wrote hget (hnow _) rfl
  case h_4 => exact absurd (congrArg Prod.fst (Option.some.inj h)) (w.drop_not_write api _ _)
  case h_5 => cases h

/-- What a step does to the timers of a connection is what its label says. -/
theorem step_timer {s s' : Loop H} {label : Answer ε × Act} (h : Step api s label s') (id : ConnectionId) :
    TimerStep id s.worker (touch id label) s'.worker := by
  obtain ⟨w, phase⟩ := s
  obtain ⟨w', phase'⟩ := s'
  have hsame : w'.conns.get id = w.conns.get id → TimerStep id w none w' :=
    fun heq => .kept fun c' hget => ⟨c', heq ▸ hget, rfl⟩
  have hd : Does api w phase label w' := step_does api h
  cases hd with
  | idle _ => exact hsame rfl
  | emptied _ _ => exact hsame rfl
  | stun _ _ => exact hsame rfl
  | full _ => exact hsame rfl
  | @unregistered _ _ _ i _ halloc =>
    obtain ⟨hi, -, -, hget⟩ := ConnMgr.alloc_eq_some halloc
    refine hsame ?_
    by_cases hne : id = i
    · have hnone := w.conns.get_next
      rw [← hi, ← hne] at hnone
      rw [hne, ConnMgr.get_remove_self, ← hne]
      exact hnone.symm
    · exact (ConnMgr.get_remove_ne hne).trans (hget id)
  | @connect _ ok stream now i conns _ halloc =>
    obtain ⟨hi, -, hnext, hget⟩ := ConnMgr.alloc_eq_some halloc
    by_cases hne : id = i
    · subst hne
      have htouch : touch id ((.register ok now : Answer ε), .connect id stream) = some (.opened now) := if_pos rfl
      rw [htouch]
      refine .opened hi.symm (ConnMgr.get_insert_self ?_ _) rfl
      rw [hi, hnext]
      exact Nat.lt_succ_self _
    · have htouch : touch id ((.register ok now : Answer ε), .connect i stream) = none := if_neg (Ne.symm hne)
      rw [htouch]
      exact hsame ((ConnMgr.get_insert_ne hne _).trans (hget id))
  | @read _ i c c' chunk now hget hc =>
    by_cases hne : id = i
    · subst hne
      have htouch : touch id ((.read (.octets chunk) now : Answer ε), .read id (chunk.take readWindow)) = some (.read chunk now) :=
        if_pos rfl
      rw [htouch]
      exact .read hget (ConnMgr.get_insert_self (ConnMgr.lt_of_get hget) _) (hc ▸ rfl)
    · have htouch : touch id ((.read (.octets chunk) now : Answer ε), .read i (chunk.take readWindow)) = none :=
        if_neg (Ne.symm hne)
      rw [htouch]
      exact hsame (ConnMgr.get_insert_ne hne _)
  | tcpStun _ _ _ => exact hsame rfl
  | @write _ answer i c c' hget _ _ =>
    by_cases hne : id = i
    · subst hne
      obtain ⟨c, ready, hget, hwrite⟩ := step_write api h
      exact drainWrite_timers api hget hwrite
    · have htouch : touch id (answer, .write i) = none := by
        cases answer with
        | write written now =>
          cases written with
          | wrote n => exact if_neg (Ne.symm hne)
          | _ => rfl
        | _ => rfl
      rw [htouch]
      exact hsame (ConnMgr.get_insert_ne hne _)
  | @place _ reply _ c _ hget _ =>
    by_cases hne : id = reply.id
    · refine .kept fun c' hget' => ⟨c, hne ▸ hget, ?_⟩
      rw [hne] at hget'
      cases (ConnMgr.get_insert_self (ConnMgr.lt_of_get hget) _).symm.trans hget'
      exact c.takeWrite_timers _
    · exact hsame (ConnMgr.get_insert_ne hne _)
  | putBack _ _ _ _ => exact hsame rfl
  | skip _ _ => exact hsame rfl
  | @drop _ _ i c _ hget =>
    by_cases hne : id = i
    · refine .kept fun c' hget' => ?_
      rw [hne] at hget'
      cases (ConnMgr.get_remove_self _ _).symm.trans hget'
    · exact hsame (ConnMgr.get_remove_ne hne)

theorem Does.config {w w' : Worker H} {phase : Phase} {label : Answer ε × Act} (h : Does api w phase label w') :
    w'.config = w.config := by
  cases h with
  | _ => rfl

/-! ### Runs -/

/-- The instant that a step takes from the clock. -/
def Answer.reading : Answer ε → Option Nat
  | .clock _ now => some now
  | .register _ now => some now
  | .read (.octets _) now => some now
  | .write (.wrote _) now => some now
  | _ => none

def readings (hist : History ε H) : List Nat := hist.filterMap fun p => p.2.1.reading

/-- The clock does not go back, and a read gives an octet or more: `try_read` makes an error
of an empty one. -/
structure WellTimed (hist : History ε H) : Prop where
  clock : (readings hist).Pairwise (· ≤ ·)
  octets : ∀ p ∈ hist, ∀ now, p.2.1 ≠ .read (.octets []) now

theorem touch_reading {id : ConnectionId} {label : Answer ε × Act} {x : Touch} (h : touch id label = some x) :
    label.1.reading = some x.time := by
  rw [touch.eq_def] at h
  split at h
  case h_4 => cases h
  all_goals
    split at h
    case isFalse => cases h
    case isTrue =>
      cases h
      simp_all [Answer.reading, Touch.time]

theorem touches_snoc (id : ConnectionId) (hist : History ε H) (p : Loop H × (Answer ε × Act)) :
    touches id (hist ++ [p]) = touches id hist ++ (touch id p.2).toList := filterMap_snoc _ hist p

theorem readings_snoc (hist : History ε H) (p : Loop H × (Answer ε × Act)) :
    readings (hist ++ [p]) = readings hist ++ p.2.1.reading.toList := filterMap_snoc _ hist p

theorem time_mem_readings {id : ConnectionId} {hist : History ε H} {x : Touch} (h : x ∈ touches id hist) :
    x.time ∈ readings hist := by
  obtain ⟨p, hp, htouch⟩ := List.mem_filterMap.mp h
  exact List.mem_filterMap.mpr ⟨p, hp, touch_reading htouch⟩

/-- The timers of a connection against what has set them. One that was never read waits for
its first octet from when it was accepted; any other was last active when it was last set. -/
structure Timed (id : ConnectionId) (w : Worker H) (seen : List Touch) : Prop where
  fresh : w.conns.nextId.toNat ≤ id.value.toNat → seen = []
  waiting : ∀ c, w.conns.get id = some c → c.halfOpen = true → ∃ t rest, seen = .opened t :: rest ∧
    (∀ x ∈ rest, ∃ now, x = .wrote now) ∧ c.halfOpenDeadline = some (t + w.config.halfOpenTimeout)
  active : ∀ c, w.conns.get id = some c → c.halfOpen = false →
    (∃ chunk t, .read chunk t ∈ seen) ∧ ∀ x ∈ seen, x.time ≤ c.lastActive

theorem Conn.timers_eq {c : Conn} {t : Nat} {half : Bool} {deadline : Option Nat} (h : c.timers = (t, half, deadline)) :
    c.lastActive = t ∧ c.halfOpen = half ∧ c.halfOpenDeadline = deadline := by
  cases h
  exact ⟨rfl, rfl, rfl⟩

theorem Timed.step {id : ConnectionId} {w w' : Worker H} {seen : List Touch} {x : Option Touch} (h : Timed id w seen)
    (hs : TimerStep id w x w') (hnext : w.conns.nextId.toNat ≤ w'.conns.nextId.toNat) (hconfig : w'.config = w.config)
    (htime : ∀ now, x = some now → ∀ y ∈ seen, y.time ≤ now.time) : Timed id w' (seen ++ x.toList) := by
  have hallocated : ∀ {c' : Conn} {l : List Touch}, w'.conns.get id = some c' → w'.conns.nextId.toNat ≤ id.value.toNat → l = [] :=
    fun hget hge => absurd hge (Nat.not_le.mpr (ConnMgr.lt_of_get hget))
  cases hs with
  | kept hkept =>
    rw [Option.toList_none, List.append_nil]
    constructor
    case fresh => exact fun hge => h.fresh (Nat.le_trans hnext hge)
    case waiting =>
      intro c' hget' hhalf
      obtain ⟨c, hget, htimers⟩ := hkept c' hget'
      obtain ⟨-, hh, hd⟩ := Conn.timers_eq htimers
      rw [hd, hconfig]
      exact h.waiting c hget (hh.symm.trans hhalf)
    case active =>
      intro c' hget' hhalf
      obtain ⟨c, hget, htimers⟩ := hkept c' hget'
      obtain ⟨hl, hh, -⟩ := Conn.timers_eq htimers
      rw [hl]
      exact h.active c hget (hh.symm.trans hhalf)
  | @opened c' now _ hid hget' htimers =>
    obtain ⟨-, hh, hd⟩ := Conn.timers_eq htimers
    have hnone : seen = [] := h.fresh (Nat.le_of_eq (congrArg UInt64.toNat hid))
    rw [hnone]
    constructor
    case fresh => exact hallocated hget'
    case waiting =>
      intro c hget _
      cases hget'.symm.trans hget
      exact ⟨now, [], rfl, List.forall_mem_nil _, by rw [hd, hconfig]⟩
    case active =>
      intro c hget hhalf
      cases hget'.symm.trans hget
      cases hh.symm.trans hhalf
  | @read c c' chunk now _ hget hget' htimers =>
    obtain ⟨hl, hh, -⟩ := Conn.timers_eq htimers
    constructor
    case fresh => exact hallocated hget'
    case waiting =>
      intro c₁ hget₁ hhalf
      cases hget'.symm.trans hget₁
      cases hh.symm.trans hhalf
    case active =>
      intro c₁ hget₁ _
      cases hget'.symm.trans hget₁
      refine ⟨⟨chunk, now, List.mem_append_right _ (List.mem_singleton_self _)⟩, fun y hy => ?_⟩
      rw [hl]
      rcases List.mem_append.mp hy with hy | hy
      · exact htime _ rfl y hy
      · rw [List.mem_singleton.mp hy]
        exact Nat.le_refl _
  | @wrote c c' now _ hget hget' htimers =>
    obtain ⟨hl, hh, hd⟩ := Conn.timers_eq htimers
    constructor
    case fresh => exact hallocated hget'
    case waiting =>
      intro c₁ hget₁ hhalf
      cases hget'.symm.trans hget₁
      obtain ⟨t, rest, rfl, hrest, hdeadline⟩ := h.waiting c hget (hh.symm.trans hhalf)
      refine ⟨t, rest ++ [.wrote now], rfl, fun y hy => ?_, by rw [hd, hdeadline, hconfig]⟩
      rcases List.mem_append.mp hy with hy | hy
      · exact hrest y hy
      · exact ⟨now, List.mem_singleton.mp hy⟩
    case active =>
      intro c₁ hget₁ hhalf
      cases hget'.symm.trans hget₁
      obtain ⟨⟨chunk, t, hread⟩, -⟩ := h.active c hget (hh.symm.trans hhalf)
      refine ⟨⟨chunk, t, List.mem_append_left _ hread⟩, fun y hy => ?_⟩
      rw [hl]
      rcases List.mem_append.mp hy with hy | hy
      · exact htime _ rfl y hy
      · rw [List.mem_singleton.mp hy]
        exact Nat.le_refl _

/-- In every run under a clock that does not go back, the timers of every connection say what
has set them. -/
theorem run_timed {s₀ s : Loop H} {hist : History ε H} (hstart : s₀.worker.conns = .new) (hrun : Run (Step api) s₀ hist s)
    (hclock : (readings hist).Pairwise (· ≤ ·)) (id : ConnectionId) : Timed id s.worker (touches id hist) := by
  refine hrun.invariant (P := fun hist s => (readings hist).Pairwise (· ≤ ·) → Timed id s.worker (touches id hist)) ?_ ?_ hclock
  · refine fun _ => ⟨fun _ => rfl, fun c hget => ?_, fun c hget => ?_⟩
    · rw [hstart] at hget
      cases hget
    · rw [hstart] at hget
      cases hget
  · intro hist t label u _ htimed hs hclock
    rw [readings_snoc, List.pairwise_append] at hclock
    have hdoes := step_does api hs
    rw [touches_snoc]
    refine (htimed hclock.1).step (step_timer api hs id) (hdoes.table api).next_le hdoes.config fun x hx y hy => ?_
    refine hclock.2.2 _ (time_mem_readings hy) _ ?_
    rw [touch_reading hx]
    exact List.mem_singleton_self _

/-- An octet was read from the connection. -/
def Received (id : ConnectionId) (hist : History ε H) : Prop := ∃ chunk now, .read chunk now ∈ touches id hist ∧ chunk ≠ []

theorem WellTimed.chunk_ne_nil {hist : History ε H} (h : WellTimed hist) {id : ConnectionId} {chunk : Bytes} {now : Nat}
    (hread : .read chunk now ∈ touches id hist) : chunk ≠ [] := by
  rintro rfl
  obtain ⟨p, hp, htouch⟩ := List.mem_filterMap.mp hread
  have hanswer : p.2.1 = .read (.octets []) now := by
    rw [touch.eq_def] at htouch
    split at htouch
    case h_2 hact hanswer =>
      split at htouch
      · cases htouch
        exact hanswer
      · cases htouch
    case h_4 => cases htouch
    all_goals
      split at htouch
      all_goals cases htouch
  exact h.octets p hp now hanswer

end QuickRelay.Transport.EventLoop
