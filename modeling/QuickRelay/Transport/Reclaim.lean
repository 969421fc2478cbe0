import QuickRelay.Transport.Timers

/-! Timeouts: which connections `reclaim` cuts, and how long the poll behind it may wait. -/
namespace QuickRelay.Transport.EventLoop
open Lib

variable {ε H : Type} (api : Handler ε H)

namespace ConnMgr

private theorem ids_toNat {m : ConnMgr} {i : Nat} (h : i < m.conns.length) : (UInt64.ofNat i).toNat = i := by
  have hlt := m.nextId.toNat_lt
  rw [← m.counted] at hlt
  rw [UInt64.toNat_ofNat', Nat.mod_eq_of_lt (Nat.lt_trans h hlt)]

theorem mem_ids {m : ConnMgr} {id : ConnectionId} : id ∈ m.ids ↔ id.value.toNat < m.nextId.toNat := by
  rw [ids, List.mem_map, ← m.counted]
  constructor
  · rintro ⟨i, hi, rfl⟩
    rw [List.mem_range] at hi
    rwa [ids_toNat hi]
  · exact fun h => ⟨id.value.toNat, List.mem_range.mpr h, by rw [UInt64.ofNat_toNat]⟩

theorem ids_nodup (m : ConnMgr) : m.ids.Nodup := by
  refine List.Nodup.map_on ?_ List.nodup_range
  intro i hi j hj heq
  have hn := congrArg (fun id : ConnectionId => id.value.toNat) heq
  rw [List.mem_range] at hi hj
  dsimp only at hn
  rwa [ids_toNat hi, ids_toNat hj] at hn

end ConnMgr

/-! ### The poll -/

/-- The sooner of two deadlines, as far as there are any. -/
def sooner : Option Nat → Option Nat → Option Nat
  | some s, some d => some (min s d)
  | none, some d => some d
  | soonest, none => soonest

theorem sooner_le {soonest deadline : Option Nat} {d : Nat} (h : soonest = some d ∨ deadline = some d) :
    ∃ s, sooner soonest deadline = some s ∧ s ≤ d := by
  rcases h with rfl | rfl
  · cases deadline with
    | none => exact ⟨d, rfl, Nat.le_refl d⟩
    | some d' => exact ⟨min d d', rfl, Nat.min_le_left _ _⟩
  · cases soonest with
    | none => exact ⟨d, rfl, Nat.le_refl d⟩
    | some s => exact ⟨min s d, rfl, Nat.min_le_right _ _⟩

theorem foldl_sooner_le {f : ConnectionId → Option Nat} {ids : List ConnectionId} {soonest : Option Nat} {d : Nat}
    (h : soonest = some d ∨ ∃ id ∈ ids, f id = some d) :
    ∃ s, ids.foldl (fun soonest id => sooner soonest (f id)) soonest = some s ∧ s ≤ d := by
  induction ids generalizing soonest d with
  | nil =>
    rcases h with h | ⟨id, hmem, -⟩
    · exact ⟨d, h, Nat.le_refl d⟩
    · cases hmem
  | cons id ids ih =>
    rw [List.foldl_cons]
    have hhead : soonest = some d ∨ f id = some d → ∃ s,
        ids.foldl (fun soonest id => sooner soonest (f id)) (sooner soonest (f id)) = some s ∧ s ≤ d := by
      intro hd
      obtain ⟨s, hs, hle⟩ := sooner_le hd
      obtain ⟨s', hs', hle'⟩ := ih (d := s) (.inl hs)
      exact ⟨s', hs', Nat.le_trans hle' hle⟩
    rcases h with h | ⟨id', hmem, hf⟩
    · exact hhead (.inl h)
    · rcases List.mem_cons.mp hmem with rfl | hmem
      · exact hhead (.inr hf)
      · exact ih (.inr ⟨id', hmem, hf⟩)

namespace Worker

def nextDeadline (w : Worker H) : Option Nat :=
  w.conns.ids.foldl (fun soonest id =>
    sooner soonest ((w.conns.get id).bind (·.deadline w.config.connIdleTimeout))) none

/-- `poll_deadline`, at the given instant. -/
def pollDeadline (w : Worker H) (pollTimeout now : Nat) : Nat :=
  match w.nextDeadline with
  | some d => min (d - now) pollTimeout
  | none => pollTimeout

theorem nextDeadline_le {w : Worker H} {id : ConnectionId} {c : Conn} {d : Nat} (h : w.conns.get id = some c)
    (hd : c.deadline w.config.connIdleTimeout = some d) : ∃ s, w.nextDeadline = some s ∧ s ≤ d := by
  refine foldl_sooner_le (.inr ⟨id, ConnMgr.mem_ids.mpr (ConnMgr.lt_of_get h), ?_⟩)
  rw [h]
  exact hd

theorem pollDeadline_le (w : Worker H) (pollTimeout now : Nat) : w.pollDeadline pollTimeout now ≤ pollTimeout := by
  rw [pollDeadline]
  cases w.nextDeadline with
  | none => exact Nat.le_refl _
  | some d => exact Nat.min_le_right _ _

theorem pollDeadline_before {w : Worker H} {id : ConnectionId} {c : Conn} {d : Nat} (h : w.conns.get id = some c)
    (hd : c.deadline w.config.connIdleTimeout = some d) (pollTimeout now : Nat) :
    w.pollDeadline pollTimeout now ≤ d - now := by
  obtain ⟨s, hs, hle⟩ := nextDeadline_le h hd
  rw [pollDeadline, hs]
  exact Nat.le_trans (Nat.min_le_left _ _) (Nat.sub_le_sub_right hle _)

/-! ### One reclaim -/

/-- A live connection whose deadline is at or before the given instant. -/
def Overdue (w : Worker H) (now : Nat) (id : ConnectionId) : Prop :=
  ∃ c d, w.conns.get id = some c ∧ c.deadline w.config.connIdleTimeout = some d ∧ d ≤ now

theorem mem_doomed {w : Worker H} {now : Nat} {id : ConnectionId} : id ∈ w.doomed now ↔ w.Overdue now id := by
  rw [doomed, List.mem_filter]
  constructor
  · rintro ⟨-, h⟩
    cases hget : w.conns.get id with
    | none => simp [hget] at h
    | some c =>
      cases hd : c.deadline w.config.connIdleTimeout with
      | none => simp [hget, hd] at h
      | some d => exact ⟨c, d, hget, hd, by simpa [hget, hd] using h⟩
  · rintro ⟨c, d, hget, hd, hle⟩
    exact ⟨ConnMgr.mem_ids.mpr (ConnMgr.lt_of_get hget), by simpa [hget, hd] using hle⟩

theorem doomed_nodup (w : Worker H) (now : Nat) : (w.doomed now).Nodup := w.conns.ids_nodup.filter _

/-- The loop of `reclaim` cuts the connections on its list one after the other and no others. -/
theorem reclaim_exec {w : Worker H} {ids : List ConnectionId} (hnodup : ids.Nodup)
    (hlive : ∀ id ∈ ids, ∃ c, w.conns.get id = some c) : ∃ swept w',
      (Loop.mk w (.reclaim ids)).exec api (List.replicate (ids.length + 1) .silent) = some (swept, ⟨w', .poll⟩) ∧
      acts swept = ids.map .drop ++ [.idle] ∧ w'.handler = ids.foldl api.onTcpError w.handler ∧ w'.config = w.config ∧
      (∀ id ∈ ids, w'.conns.get id = none) ∧ ∀ id, id ∉ ids → w'.conns.get id = w.conns.get id := by
  induction ids generalizing w with
  | nil => exact ⟨_, w, rfl, rfl, rfl, rfl, List.forall_mem_nil _, fun _ _ => rfl⟩
  | cons id ids ih =>
    obtain ⟨hnew, hnodup⟩ := List.nodup_cons.mp hnodup
    obtain ⟨c, hget⟩ := hlive id (List.mem_cons_self ..)
    have hlater : ∀ id' ∈ ids, ∃ c, (w.conns.remove id).get id' = some c := by
      intro id' hmem
      have hne : id' ≠ id := fun heq => hnew (heq ▸ hmem)
      rw [ConnMgr.get_remove_ne hne]
      exact hlive id' (List.mem_cons_of_mem _ hmem)
    have hdrop : w.drop api id = (.drop id, { w with
        conns := w.conns.remove id, stats := { w.stats with dropped := w.stats.dropped + 1 },
        handler := api.onTcpError w.handler id }) := by
      rw [drop, hget]
    obtain ⟨swept, w', hexec, hacts, hhandler, hconfig, hgone, hkept⟩ := ih (w := (w.drop api id).2) hnodup
      (by rwa [hdrop])
    rw [hdrop] at hexec hhandler hconfig hkept
    refine ⟨(⟨w, .reclaim (id :: ids)⟩, (.silent, .drop id)) :: swept, w', ?_, ?_, hhandler, hconfig, ?_, ?_⟩
    · rw [List.length_cons, List.replicate_succ, Loop.exec]
      have hnext : (Loop.mk w (.reclaim (id :: ids))).next api .silent = some ((w.drop api id).1, ⟨(w.drop api id).2, .reclaim ids⟩) := rfl
      rw [hnext, hdrop]
      dsimp only
      rw [hexec]
      rfl
    · rw [acts, List.map_cons, ← acts, hacts]
      rfl
    · intro id' hmem
      by_cases hin : id' ∈ ids
      · exact hgone id' hin
      · obtain rfl : id' = id := (List.mem_cons.mp hmem).resolve_right hin
        rw [hkept id' hin, ConnMgr.get_remove_self]
    · intro id' hmem
      rw [List.mem_cons, not_or] at hmem
      rw [hkept id' hmem.2, ConnMgr.get_remove_ne hmem.1]

end Worker

/-! ### Over a run -/

/-- An overdue connection that was read has been idle for the timeout. -/
theorem Timed.idle {id : ConnectionId} {w : Worker H} {seen : List Touch} {now : Nat} (h : Timed id w seen)
    (hoverdue : w.Overdue now id) {chunk : Bytes} {t : Nat} (hread : .read chunk t ∈ seen) :
    ∀ x ∈ seen, x.time + w.config.connIdleTimeout ≤ now := by
  obtain ⟨c, d, hget, hd, hle⟩ := hoverdue
  rw [Conn.deadline] at hd
  cases hhalf : c.halfOpen with
  | true =>
    obtain ⟨t, rest, rfl, hrest, -⟩ := h.waiting c hget hhalf
    rcases List.mem_cons.mp hread with heq | hmem
    · cases heq
    · obtain ⟨now, heq⟩ := hrest _ hmem
      cases heq
  | false =>
    rw [hhalf, if_neg Bool.false_ne_true] at hd
    cases hd
    exact fun x hx => Nat.le_trans (Nat.add_le_add_right ((h.active c hget hhalf).2 x hx) _) hle

/-- A connection that was never read is overdue from its acceptance and the half-open timeout
on. -/
theorem Timed.overdue_iff {id : ConnectionId} {w : Worker H} {seen : List Touch} {c : Conn} {t now : Nat} (h : Timed id w seen)
    (hget : w.conns.get id = some c) (hunread : ∀ chunk t, .read chunk t ∉ seen) (hopened : .opened t ∈ seen) :
    w.Overdue now id ↔ t + w.config.halfOpenTimeout ≤ now := by
  cases hhalf : c.halfOpen with
  | false =>
    obtain ⟨⟨chunk, t, hread⟩, -⟩ := h.active c hget hhalf
    exact absurd hread (hunread chunk t)
  | true =>
    obtain ⟨t', rest, rfl, hrest, hdeadline⟩ := h.waiting c hget hhalf
    obtain rfl : t = t' := by
      rcases List.mem_cons.mp hopened with heq | hmem
      · cases heq
        rfl
      · obtain ⟨now, heq⟩ := hrest _ hmem
        cases heq
    have hd : c.deadline w.config.connIdleTimeout = some (t + w.config.halfOpenTimeout) := by
      rw [Conn.deadline, if_pos hhalf, hdeadline]
    constructor
    · rintro ⟨c', d, hget', hd', hle⟩
      cases hget.symm.trans hget'
      cases hd.symm.trans hd'
      exact hle
    · exact fun hle => ⟨c, _, hget, hd, hle⟩

/-- What a reclaim at an instant does to a worker that a run has led to. -/
structure Reclaims (hist : History ε H) (w : Worker H) (now : Nat) (swept : History ε H) (w' : Worker H) : Prop where
  removed : ∀ id, w.Overdue now id → w'.conns.get id = none
  kept : ∀ id, ¬ w.Overdue now id → w'.conns.get id = w.conns.get id
  told : ∃ ids : List ConnectionId, ids.Nodup ∧ (∀ id, id ∈ ids ↔ w.Overdue now id) ∧
    acts swept = .idle :: (ids.map .drop ++ [.idle]) ∧ w'.handler = ids.foldl api.onTcpError w.handler
  poll : ∀ pollTimeout later, w'.pollDeadline pollTimeout later ≤ pollTimeout ∧ ∀ id c d, w'.conns.get id = some c →
    c.deadline w'.config.connIdleTimeout = some d → w'.pollDeadline pollTimeout later ≤ d - later
  idle : ∀ id, Received id hist → .drop id ∈ acts swept → ∀ x ∈ touches id hist, x.time + w.config.connIdleTimeout ≤ now
  halfOpen : ∀ id c t, w.conns.get id = some c → ¬ Received id hist → .opened t ∈ touches id hist →
    (.drop id ∈ acts swept ↔ t + w.config.halfOpenTimeout ≤ now)

/-- **Reclaiming**: from the top of the loop, whatever run led there, a reclaim cuts the
connections whose deadline has come and no others, and tells the handler once for each; the
poll behind it waits no longer than it may. -/
theorem reclaim_exact {s₀ s : Loop H} {hist : History ε H} (hstart : s₀.worker.conns = .new)
    (hrun : Run (Step api) s₀ hist s) (htop : s.phase = .top) (htimed : WellTimed hist) (now : Nat) : ∃ swept w,
      s.exec api (.clock false now :: List.replicate ((s.worker.doomed now).length + 1) .silent) = some (swept, ⟨w, .poll⟩) ∧
      Reclaims api hist s.worker now swept w := by
  obtain ⟨w, phase⟩ := s
  obtain rfl : phase = .top := htop
  have hlive : ∀ id ∈ w.doomed now, ∃ c, w.conns.get id = some c := by
    intro id hmem
    obtain ⟨c, -, hget, -⟩ := Worker.mem_doomed.mp hmem
    exact ⟨c, hget⟩
  obtain ⟨swept, w', hexec, hacts, hhandler, hconfig, hgone, hkept⟩ :=
    Worker.reclaim_exec api (w.doomed_nodup now) hlive
  have hstep : (Loop.mk w .top).next api (.clock false now) = some (.idle, ⟨w, .reclaim (w.doomed now)⟩) := rfl
  have hacts' : acts ((⟨w, .top⟩, (.clock false now, .idle)) :: swept) = .idle :: ((w.doomed now).map .drop ++ [.idle]) := by
    rw [acts, List.map_cons, ← acts, hacts]
  have hdropped : ∀ id, .drop id ∈ acts ((⟨w, .top⟩, (.clock false now, .idle)) :: swept) ↔ w.Overdue now id := by
    intro id
    rw [hacts', ← Worker.mem_doomed]
    simp
  refine ⟨(⟨w, .top⟩, (.clock false now, .idle)) :: swept, w', ?_, ?_⟩
  · rw [Loop.exec, hstep]
    dsimp only
    rw [hexec]
    rfl
  constructor
  case removed => exact fun id hoverdue => hgone id (Worker.mem_doomed.mpr hoverdue)
  case kept => exact fun id hoverdue => hkept id fun hmem => hoverdue (Worker.mem_doomed.mp hmem)
  case told => exact ⟨w.doomed now, w.doomed_nodup now, fun _ => Worker.mem_doomed, hacts', hhandler⟩
  case poll =>
    exact fun pollTimeout later => ⟨w'.pollDeadline_le pollTimeout later, fun id c d hget hd =>
      Worker.pollDeadline_before hget hd pollTimeout later⟩
  case idle =>
    rintro id ⟨chunk, t, hread, -⟩ hdrop
    exact (run_timed api hstart hrun htimed.clock id).idle ((hdropped id).mp hdrop) hread
  case halfOpen =>
    intro id c t hget hunread hopened
    refine (hdropped id).trans ((run_timed api hstart hrun htimed.clock id).overdue_iff hget (fun chunk t hread => ?_) hopened)
    exact hunread ⟨chunk, t, hread, htimed.chunk_ne_nil hread⟩

/-- A tick in which one connection is accepted, at the instant one. -/
def oneAccepted : List (Answer Unit) :=
  [.clock false 0, .silent, .poll (some [listenReady]) false, .silent, .accept (.stream 7), .accept .notReady, .register true 1,
    .silent, .silent, .silent, .silent]

theorem oneAccepted_exec : ∃ hist s c, listening.exec errorCounter oneAccepted = some (hist, s) ∧ s.phase = .top ∧
    s.worker.conns.get ⟨0⟩ = some c ∧ s.worker.config = ⟨300, 5, none⟩ ∧ readings hist = [0, 1] ∧ touches ⟨0⟩ hist = [.opened 1] ∧
    hist.map (·.2.1) = oneAccepted :=
  ⟨_, _, _, rfl, rfl, rfl, rfl, rfl, rfl, rfl⟩

/-- It sends nothing, and five later it is reclaimed. -/
theorem oneAccepted_reclaimed : ∃ hist s swept w, Run (Step errorCounter) listening hist s ∧ Reclaims errorCounter hist s.worker 6 swept w ∧
    .drop ⟨0⟩ ∈ acts swept := by
  obtain ⟨hist, s, c, hexec, htop, hget, hconfig, hreadings, htouches, hanswers⟩ := oneAccepted_exec
  have hrun := Loop.exec_run hexec
  have htimed : WellTimed hist := by
    refine ⟨by rw [hreadings]; decide, fun p hp now heq => ?_⟩
    have hmem : .read (.octets []) now ∈ oneAccepted := by
      rw [← hanswers]
      exact List.mem_map.mpr ⟨p, hp, heq⟩
    simp [oneAccepted] at hmem
  obtain ⟨swept, w, -, hreclaims⟩ := reclaim_exact errorCounter rfl hrun htop htimed 6
  refine ⟨hist, s, swept, w, hrun, hreclaims, (hreclaims.halfOpen ⟨0⟩ c 1 hget ?_ ?_).mpr ?_⟩
  · rintro ⟨chunk, now, hread, -⟩
    rw [htouches] at hread
    cases List.mem_singleton.mp hread
  · rw [htouches]
    exact List.mem_singleton_self _
  · rw [hconfig]
    exact Nat.le_refl 6

end QuickRelay.Transport.EventLoop
