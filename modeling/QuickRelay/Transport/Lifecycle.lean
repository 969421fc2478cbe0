import Mathlib.Data.List.Nodup
import QuickRelay.Transport.Effects

/-! The life of a connection: what the table and the handler see of an id over a whole
run. -/
namespace QuickRelay.Transport.EventLoop
open Lib

variable {ε H : Type} (api : Handler ε H)

/-- What was done, oldest first. -/
def acts (hist : History ε H) : List Act := hist.map (·.2.2)

theorem acts_snoc (hist : History ε H) (p : Loop H × (Answer ε × Act)) : acts (hist ++ [p]) = acts hist ++ [p.2.2] :=
  List.map_append

/-- The handler is called about this connection. -/
def Act.concerns (id : ConnectionId) : Act → Bool
  | .connect i _ => i = id
  | .tcpStun _ i => i = id
  | .drop i => i = id
  | _ => false

/-- The calls about one connection. -/
def callsOn (id : ConnectionId) (hist : History ε H) : List Act := (acts hist).filter (Act.concerns id)

theorem callsOn_snoc (id : ConnectionId) (hist : History ε H) (p : Loop H × (Answer ε × Act)) :
    callsOn id (hist ++ [p]) = callsOn id hist ++ if p.2.2.concerns id then [p.2.2] else [] := by
  rw [callsOn, callsOn, acts_snoc, List.filter_append, List.filter_cons]
  rfl

/-! ### The table -/

/-- What a step can do to the table. -/
inductive TableStep (m : ConnMgr) : Act → ConnMgr → Prop
  | kept {act : Act} {m' : ConnMgr} :
      (∀ id, act.concerns id → (∃ c, m.get id = some c) ∧ ∃ payload, act = .tcpStun payload id) →
      m.nextId.toNat ≤ m'.nextId.toNat → (∀ id, (m'.get id).map Conn.stream = (m.get id).map Conn.stream) → TableStep m act m'
  | opened {id : ConnectionId} {stream : Nat} {c : Conn} {m' : ConnMgr} : id.value = m.nextId → ¬ maxConns < m.nextId →
      m'.nextId.toNat = m.nextId.toNat + 1 → m'.get id = some c → c.stream = stream →
      (∀ id', id' ≠ id → m'.get id' = m.get id') → TableStep m (.connect id stream) m'
  | closed {id : ConnectionId} {c : Conn} : m.get id = some c → TableStep m (.drop id) (m.remove id)

theorem streams_insert {m : ConnMgr} {id : ConnectionId} {c c' : Conn} (h : m.get id = some c) (hs : c'.stream = c.stream)
    (id' : ConnectionId) : ((m.insert id c').get id').map Conn.stream = (m.get id').map Conn.stream := by
  by_cases hid : id' = id
  · subst hid
    rw [ConnMgr.get_insert_self (ConnMgr.lt_of_get h), h, Option.map_some, Option.map_some, hs]
  · rw [ConnMgr.get_insert_ne hid]

theorem Does.table {w w' : Worker H} {phase : Phase} {label : Answer ε × Act} (h : Does api w phase label w') :
    TableStep w.conns label.2 w'.conns := by
  cases h with
  | idle _ => exact .kept (fun _ hc => by cases hc) (Nat.le_refl _) fun _ => rfl
  | emptied _ _ => exact .kept (fun _ hc => by cases hc) (Nat.le_refl _) fun _ => rfl
  | stun _ _ => exact .kept (fun _ hc => by cases hc) (Nat.le_refl _) fun _ => rfl
  | full _ => exact .kept (fun _ hc => by cases hc) (Nat.le_refl _) fun _ => rfl
  | @unregistered _ _ _ id _ halloc =>
    obtain ⟨hid, -, hnext, hget⟩ := ConnMgr.alloc_eq_some halloc
    refine .kept (fun _ hc => by cases hc) (Nat.le_trans (Nat.le_succ _) (Nat.le_of_eq hnext.symm)) fun id' => ?_
    by_cases hne : id' = id
    · subst hne
      have hnone := w.conns.get_next
      rw [← hid] at hnone
      rw [ConnMgr.get_remove_self]
      exact congrArg (Option.map Conn.stream) hnone.symm
    · rw [ConnMgr.get_remove_ne hne, hget]
  | connect _ halloc =>
    obtain ⟨hid, hmax, hnext, hget⟩ := ConnMgr.alloc_eq_some halloc
    refine .opened hid hmax hnext (ConnMgr.get_insert_self ?_ _) rfl fun id' hne => ?_
    · rw [hid, hnext]
      exact Nat.lt_succ_self _
    · rw [ConnMgr.get_insert_ne hne, hget]
  | read hget hc => exact .kept (fun _ hc => by cases hc) (Nat.le_refl _) (streams_insert hget (hc ▸ rfl))
  | @tcpStun _ _ payload id c _ _ hget _ =>
    refine .kept (fun id' hc => ?_) (Nat.le_refl _) fun _ => rfl
    obtain rfl : id = id' := of_decide_eq_true hc
    exact ⟨⟨c, hget⟩, payload, rfl⟩
  | write hget _ hs => exact .kept (fun _ hc => by cases hc) (Nat.le_refl _) (streams_insert hget hs)
  | place _ hget _ =>
    exact .kept (fun _ hc => by cases hc) (Nat.le_refl _) (streams_insert hget (Conn.takeWrite_rest _ _).1)
  | putBack _ _ _ _ => exact .kept (fun _ hc => by cases hc) (Nat.le_refl _) fun _ => rfl
  | skip _ _ => exact .kept (fun _ hc => by cases hc) (Nat.le_refl _) fun _ => rfl
  | drop _ hget => exact .closed hget

theorem TableStep.next_le {m m' : ConnMgr} {act : Act} (h : TableStep m act m') : m.nextId.toNat ≤ m'.nextId.toNat := by
  cases h with
  | kept _ hle _ => exact hle
  | opened _ _ hnext _ _ _ => exact Nat.le_trans (Nat.le_succ _) (Nat.le_of_eq hnext.symm)
  | closed _ => exact Nat.le_refl _

/-- A drop ends a live connection. -/
theorem TableStep.dropped {m m' : ConnMgr} {id : ConnectionId} (h : TableStep m (.drop id) m') :
    (∃ c, m.get id = some c) ∧ m'.get id = none := by
  cases h with
  | kept hcall _ _ =>
    obtain ⟨-, payload, heq⟩ := hcall id (decide_eq_true rfl)
    cases heq
  | @closed _ c hget => exact ⟨⟨c, hget⟩, ConnMgr.get_remove_self _ _⟩

/-- A connection that was not there before has the next id. -/
theorem TableStep.became_live {m m' : ConnMgr} {act : Act} {id : ConnectionId} {c : Conn} (h : TableStep m act m')
    (hnone : m.get id = none) (hsome : m'.get id = some c) : id.value = m.nextId := by
  cases h with
  | kept _ _ hstreams =>
    have hstream := hstreams id
    rw [hnone, hsome] at hstream
    cases hstream
  | @opened id₀ _ _ _ hid _ _ _ _ hother =>
    by_cases hne : id = id₀
    · rw [hne, hid]
    · cases hsome.symm.trans ((hother id hne).trans hnone)
  | @closed id₀ _ _ =>
    by_cases hne : id = id₀
    · subst hne
      cases hsome.symm.trans (ConnMgr.get_remove_self m id)
    · cases hsome.symm.trans ((ConnMgr.get_remove_ne hne).trans hnone)

/-! ### The calls -/

/-- Connected, and handed any number of packets since. -/
def Opened (id : ConnectionId) (stream : Nat) (calls : List Act) : Prop :=
  ∃ packets, calls = .connect id stream :: packets ∧ ∀ a ∈ packets, ∃ payload, a = .tcpStun payload id

/-- Connected, handed packets, and dropped. -/
def Ended (id : ConnectionId) (calls : List Act) : Prop :=
  ∃ stream opened, calls = opened ++ [.drop id] ∧ Opened id stream opened

theorem Opened.packet {id : ConnectionId} {stream : Nat} {calls : List Act} (h : Opened id stream calls) (payload : Bytes) :
    Opened id stream (calls ++ [.tcpStun payload id]) := by
  obtain ⟨packets, rfl, hp⟩ := h
  refine ⟨packets ++ [.tcpStun payload id], rfl, fun a ha => ?_⟩
  rcases List.mem_append.mp ha with ha | ha
  · exact hp a ha
  · exact ⟨payload, List.mem_singleton.mp ha⟩

/-- An id the table has: its calls say whether it is live. An id it does not have yet was
never called about. -/
structure Lives (id : ConnectionId) (m : ConnMgr) (calls : List Act) : Prop where
  live : ∀ c, m.get id = some c → Opened id c.stream calls
  gone : m.get id = none → calls = [] ∨ Ended id calls
  fresh : m.nextId.toNat ≤ id.value.toNat → calls = []

theorem Lives.step {id : ConnectionId} {m m' : ConnMgr} {calls : List Act} {act : Act} (h : Lives id m calls)
    (hs : TableStep m act m') : Lives id m' (calls ++ if act.concerns id then [act] else []) := by
  cases hs with
  | kept hcall hle hstreams =>
    by_cases hc : act.concerns id
    · obtain ⟨⟨c, hget⟩, payload, rfl⟩ := hcall id hc
      rw [if_pos hc]
      have hlt := Nat.lt_of_lt_of_le (ConnMgr.lt_of_get hget) hle
      have hstream := hstreams id
      rw [hget] at hstream
      constructor
      case live =>
        intro c' hget'
        rw [hget'] at hstream
        rw [Option.some.inj hstream]
        exact (h.live c hget).packet payload
      case gone =>
        intro hnone
        rw [hnone] at hstream
        cases hstream
      case fresh => exact fun hge => absurd hge (Nat.not_le.mpr hlt)
    · rw [if_neg hc, List.append_nil]
      have hstream := hstreams id
      constructor
      case live =>
        intro c' hget'
        rw [hget'] at hstream
        obtain ⟨c, hget, hcs⟩ := Option.map_eq_some_iff.mp hstream.symm
        exact hcs ▸ h.live c hget
      case gone =>
        intro hnone
        rw [hnone] at hstream
        exact h.gone (Option.map_eq_none_iff.mp hstream.symm)
      case fresh => exact fun hge => h.fresh (Nat.le_trans hle hge)
  | @opened id₀ stream c _ hid _ hnext hget hstream hother =>
    by_cases hne : id = id₀
    · subst hne
      have hc : (Act.connect id stream).concerns id = true := decide_eq_true rfl
      rw [if_pos hc, h.fresh (Nat.le_of_eq (congrArg UInt64.toNat hid.symm)), List.nil_append]
      constructor
      case live =>
        intro c' hget'
        obtain rfl := Option.some.inj (hget.symm.trans hget')
        exact ⟨[], by rw [hstream], fun a ha => by cases ha⟩
      case gone => exact fun hnone => by cases hget.symm.trans hnone
      case fresh =>
        intro hge
        rw [hnext, hid] at hge
        exact absurd hge (Nat.not_le.mpr (Nat.lt_succ_self _))
    · have hc : ¬ (Act.connect id₀ stream).concerns id := fun hc => hne (of_decide_eq_true hc).symm
      rw [if_neg hc, List.append_nil]
      constructor
      case live => exact fun c' hget' => h.live c' ((hother id hne).symm.trans hget')
      case gone => exact fun hnone => h.gone ((hother id hne).symm.trans hnone)
      case fresh => exact fun hge => h.fresh (by omega)
  | @closed id₀ c hget =>
    by_cases hne : id = id₀
    · subst hne
      have hc : (Act.drop id).concerns id = true := decide_eq_true rfl
      rw [if_pos hc]
      constructor
      case live =>
        intro c' hget'
        rw [ConnMgr.get_remove_self] at hget'
        cases hget'
      case gone => exact fun _ => .inr ⟨c.stream, _, rfl, h.live c hget⟩
      case fresh =>
        have hlt := ConnMgr.lt_of_get hget
        exact fun hge => absurd hge (Nat.not_le.mpr hlt)
    · have hc : ¬ (Act.drop id₀).concerns id := fun hc => hne (of_decide_eq_true hc).symm
      rw [if_neg hc, List.append_nil]
      constructor
      case live => exact fun c' hget' => h.live c' ((ConnMgr.get_remove_ne hne).symm.trans hget')
      case gone => exact fun hnone => h.gone ((ConnMgr.get_remove_ne hne).symm.trans hnone)
      case fresh => exact h.fresh

/-- In every run each connection lives so. -/
theorem run_lives {s₀ s : Loop H} {hist : History ε H} (hstart : s₀.worker.conns = .new) (hrun : Run (Step api) s₀ hist s)
    (id : ConnectionId) : Lives id s.worker.conns (callsOn id hist) := by
  refine hrun.invariant (P := fun hist s => Lives id s.worker.conns (callsOn id hist)) ?_ fun hist t label u _ hl hs => ?_
  · constructor
    case live =>
      intro c hc
      rw [hstart] at hc
      cases hc
    case gone => exact fun _ => .inl rfl
    case fresh => exact fun _ => rfl
  · rw [callsOn_snoc]
    exact hl.step (Does.table api (step_does api hs))

/-! ### The ids -/

def Act.connected : Act → Option ConnectionId
  | .connect id _ => some id
  | _ => none

/-- The ids given to connections, oldest first. -/
def connected (hist : History ε H) : List ConnectionId := (acts hist).filterMap Act.connected

/-- The ids given out are distinct, have a token, and come before the next one. -/
structure Given (m : ConnMgr) (ids : List ConnectionId) : Prop where
  nodup : ids.Nodup
  below : ∀ id ∈ ids, id.value.toNat < m.nextId.toNat
  token : ∀ id ∈ ids, ¬ maxConns < id.value

theorem Given.step {m m' : ConnMgr} {ids : List ConnectionId} {act : Act} (h : Given m ids) (hs : TableStep m act m') :
    Given m' (ids ++ act.connected.toList) := by
  cases hs with
  | kept hcall hle _ =>
    have hnone : act.connected = none := by
      cases act with
      | connect id stream =>
        obtain ⟨-, payload, heq⟩ := hcall id (decide_eq_true rfl)
        cases heq
      | _ => rfl
    rw [hnone, Option.toList_none, List.append_nil]
    exact ⟨h.nodup, fun id hid => Nat.lt_of_lt_of_le (h.below id hid) hle, h.token⟩
  | @opened id stream c _ hid hmax hnext _ _ _ =>
    have hnew : id ∉ ids := by
      intro hmem
      have := h.below id hmem
      rw [hid] at this
      exact Nat.lt_irrefl _ this
    change Given m' (ids ++ [id])
    constructor
    case nodup =>
      rw [← List.concat_eq_append, List.nodup_concat]
      exact ⟨hnew, h.nodup⟩
    case below =>
      intro id' hmem
      rcases List.mem_append.mp hmem with hmem | hmem
      · exact hnext ▸ Nat.lt_succ_of_lt (h.below id' hmem)
      · rw [List.mem_singleton.mp hmem, hid, hnext]
        exact Nat.lt_succ_self _
    case token =>
      intro id' hmem
      rcases List.mem_append.mp hmem with hmem | hmem
      · exact h.token id' hmem
      · rw [List.mem_singleton.mp hmem, hid]
        exact hmax
  | closed _ =>
    change Given _ (ids ++ [])
    rw [List.append_nil]
    exact ⟨h.nodup, h.below, h.token⟩

/-- No run gives an id to two connections. -/
theorem run_given {s₀ s : Loop H} {hist : History ε H} (hrun : Run (Step api) s₀ hist s) :
    Given s.worker.conns (connected hist) := by
  refine hrun.invariant (P := fun hist s => Given s.worker.conns (connected hist)) ?_ fun hist t label u _ hg hs => ?_
  · exact { nodup := List.nodup_nil, below := fun _ => (nomatch ·), token := fun _ => (nomatch ·) }
  · have happend : connected (hist ++ [(t, label)]) = connected hist ++ label.2.connected.toList := by
      rw [connected, acts_snoc]
      exact filterMap_snoc _ _ _
    rw [happend]
    exact hg.step (Does.table api (step_does api hs))

/-- The calls of a dropped connection are over. -/
theorem Lives.dropped {id : ConnectionId} {m : ConnMgr} {calls : List Act} (h : Lives id m calls) (hd : .drop id ∈ calls) :
    m.get id = none := by
  cases hget : m.get id with
  | none => rfl
  | some c =>
    obtain ⟨packets, hcalls, hp⟩ := h.live c hget
    rw [hcalls] at hd
    rcases List.mem_cons.mp hd with heq | hmem
    · cases heq
    · obtain ⟨payload, heq⟩ := hp _ hmem
      cases heq

/-! ### A small worker -/

/-- A handler that counts the connections it was told are gone. -/
def errorCounter : Handler Unit Nat where
  onStun h _ _ _ := some h
  onTcpConnect h _ := h
  onTcpStun h _ _ _ := some h
  onTcpError h _ := h + 1
  takeReply h := (none, h)
  queueReply h _ := h

/-- A worker that only listens, at the top of its loop. -/
def listening : Loop Nat := ⟨⟨⟨300, 5, none⟩, 0, false, true, .new, ⟨0, 0, 0, 0, 0⟩⟩, .top⟩

def listenReady : PollEvent := ⟨eventTcpListen, true, false, false, false, false⟩

end QuickRelay.Transport.EventLoop
