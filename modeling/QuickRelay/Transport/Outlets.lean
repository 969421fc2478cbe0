import QuickRelay.Lib.Simulation
import QuickRelay.Transport.Edges
import QuickRelay.Transport.WriteBuffer

/-! The write sides of the sockets under the loop, as an edge-triggered poller shows them: what
the poller was asked about, and the room for octets it has not reported yet. -/
namespace QuickRelay.Transport.EventLoop
open Lib

variable {ε H : Type} {api : Handler ε H}

structure Interest where
  readable : Bool
  writable : Bool
  deriving DecidableEq, Repr

def connInterests (c : Conn) : Interest := ⟨true, c.pendingWrite⟩

/-- The write side of a connection's socket: whether the poller was asked about it, whether the
socket takes octets, and whether that is still to be reported. -/
structure Outlet where
  interest : Bool
  room : Bool
  edge : Bool
  deriving DecidableEq, Repr

namespace Outlet

/-- The peer acknowledged something. A poller that was not asked does not notice. -/
def free (o : Outlet) : Outlet := ⟨o.interest, true, o.edge || o.interest⟩

/-- A poller may say writable of a socket it was asked about that has room. A broken stream
is whatever it is. -/
def reports (o : Outlet) (e : PollEvent) : Bool := !e.writable || (o.interest && o.room) || e.closed

def reported (o : Outlet) (e : PollEvent) : Outlet := { o with edge := o.edge && !e.writable }

/-- Registering a socket, or registering it again, reports it if there is room. -/
def register (c : Conn) (room : Bool) : Outlet :=
  ⟨(connInterests c).writable, room, (connInterests c).writable && room⟩

end Outlet

abbrev Outlets := ConnectionId → Outlet

namespace Outlets

def update (o : Outlets) (id : ConnectionId) (f : Outlet → Outlet) : Outlets := fun i => if i = id then f (o i) else o i

/-- One event of a poll. Tokens of no connection are nobody's. -/
def reportOne (conns : ConnMgr) (o : Outlets) (e : PollEvent) : Option Outlets :=
  match tokenConn e.token with
  | none => some o
  | some id =>
    if (conns.get id).isNone then some o
    else if (o id).reports e then some (o.update id (·.reported e))
    else none

def report (conns : ConnMgr) : Outlets → List PollEvent → Option Outlets
  | o, [] => some o
  | o, e :: events => (o.reportOne conns e).bind fun o => o.report conns events

/-- The sockets after one answer, if they can give it. A write of some octets leaves room for
more or does not. -/
def answer (o : Outlets) (s : Loop H) (room : Bool) : Answer ε → Option Outlets
  | .poll (some events) _ => o.report s.worker.conns events
  | .write .notReady _ =>
    match s.phase with
    | .drainWrite id _ _ => if (o id).room then none else some o
    | _ => some o
  | .write (.wrote _) _ =>
    match s.phase with
    | .drainWrite id _ _ => if (o id).room then some (o.update id ({ · with room })) else none
    | _ => some o
  | _ => some o

/-- A registration of a live connection. -/
def registered (o : Outlets) (conns : ConnMgr) (id : ConnectionId) (room : Bool) : Outlets :=
  match conns.get id with
  | some c => o.update id fun _ => .register c room
  | none => o

/-- The registrations that a step makes; `conns` is the table after it. The loop ignores what
`modify_id` returns, and the model assumes that it never fails. -/
def follow (o : Outlets) (conns : ConnMgr) (room : Bool) : Act → Outlets
  | .connect id _ => o.registered conns id room
  | .write id => o.registered conns id (o id).room
  | .place reply => o.registered conns reply.id (o reply.id).room
  | _ => o

end Outlets

/-- The loop on the write sides of its sockets. -/
structure Writing (H : Type) where
  loop : Loop H
  outlets : Outlets

/-- Room for octets, or a step of the loop; a socket that it opens or writes to then has
room or does not. -/
inductive WriteSignal (ε : Type) where
  | room (id : ConnectionId)
  | loop (label : Answer ε × Act) (room : Bool)

inductive Writing.Step (api : Handler ε H) (s : Writing H) : WriteSignal ε → Writing H → Prop
  | room (id : ConnectionId) : Writing.Step api s (.room id) ⟨s.loop, s.outlets.update id .free⟩
  | loop {label : Answer ε × Act} {room : Bool} {l : Loop H} {o : Outlets} : EventLoop.Step api s.loop label l →
      s.outlets.answer s.loop room label.1 = some o →
      Writing.Step api s (.loop label room) ⟨l, o.follow l.worker.conns room label.2⟩

/-! ### The sockets -/

namespace Outlets
variable {o o₁ : Outlets} {conns : ConnMgr} {s : Loop H} {answer : Answer ε} {act : Act} {room : Bool}

theorem update_self (o : Outlets) (id : ConnectionId) (f : Outlet → Outlet) : o.update id f id = f (o id) := if_pos rfl

theorem update_ne {id id' : ConnectionId} (h : id' ≠ id) (f : Outlet → Outlet) : o.update id f id' = o id' := if_neg h

/-- What a poll leaves of a socket; an edge that is gone was reported. -/
structure Told (id : ConnectionId) (events : List PollEvent) (a b : Outlet) : Prop where
  interest : b.interest = a.interest
  room : b.room = a.room
  edge : a.edge → b.edge ∨ ∃ e ∈ events, tokenConn e.token = some id ∧ e.writable

theorem reportOne_told {e : PollEvent} (h : o.reportOne conns e = some o₁) (id : ConnectionId) :
    Told id [e] (o id) (o₁ id) := by
  rw [reportOne] at h
  split at h
  case h_1 =>
    cases h
    exact ⟨rfl, rfl, .inl⟩
  case h_2 id' hconn =>
    split at h
    case isTrue =>
      cases h
      exact ⟨rfl, rfl, .inl⟩
    case isFalse =>
      split at h
      case isFalse => cases h
      case isTrue =>
        cases h
        by_cases hid : id = id'
        · subst hid
          rw [update_self]
          refine ⟨rfl, rfl, fun hedge => ?_⟩
          cases hw : e.writable with
          | false => exact .inl (by rw [Outlet.reported, hedge, hw]; rfl)
          | true => exact .inr ⟨e, List.mem_singleton_self e, hconn, hw⟩
        · rw [update_ne hid]
          exact ⟨rfl, rfl, .inl⟩

theorem report_told {events : List PollEvent} (h : o.report conns events = some o₁) (id : ConnectionId) :
    Told id events (o id) (o₁ id) := by
  induction events generalizing o with
  | nil =>
    cases h
    exact ⟨rfl, rfl, .inl⟩
  | cons e events ih =>
    obtain ⟨o₂, hone, hrest⟩ := Option.bind_eq_some_iff.mp h
    have hfirst := reportOne_told hone id
    have hthen := ih hrest
    refine ⟨hthen.interest.trans hfirst.interest, hthen.room.trans hfirst.room, fun hedge => ?_⟩
    rcases hfirst.edge hedge with hedge | ⟨x, hx, hsaid⟩
    · rcases hthen.edge hedge with hedge | ⟨x, hx, hsaid⟩
      · exact .inl hedge
      · exact .inr ⟨x, List.mem_cons_of_mem _ hx, hsaid⟩
    · rw [List.mem_singleton.mp hx] at hsaid
      exact .inr ⟨e, List.mem_cons_self, hsaid⟩

/-- But for a poll, an answer is about the socket that is being written to. -/
theorem answer_other (h : o.answer s room answer = some o₁) (hpoll : ∀ events stop, answer ≠ .poll (some events) stop)
    {id : ConnectionId} (hid : ∀ i writable ready written now, s.phase = .drainWrite i writable ready →
      answer = .write written now → i ≠ id) : o₁ id = o id := by
  cases answer with
  | poll events stop =>
    cases events with
    | some events => exact absurd rfl (hpoll events stop)
    | none =>
      cases h
      rfl
  | write written now =>
    cases written with
    | failed =>
      cases h
      rfl
    | notReady =>
      simp only [Outlets.answer] at h
      repeat' split at h
      all_goals cases h
      all_goals rfl
    | wrote n =>
      simp only [Outlets.answer] at h
      split at h
      case h_1 i writable ready hphase =>
        split at h
        case isTrue =>
          cases h
          exact update_ne (Ne.symm (hid i writable ready _ now hphase rfl)) _
        case isFalse => cases h
      case h_2 =>
        cases h
        rfl
  | _ =>
    cases h
    rfl

theorem registered_self {id : ConnectionId} {c : Conn} (h : conns.get id = some c) :
    o.registered conns id room id = .register c room := by
  rw [registered, h]
  exact update_self o id _

theorem registered_ne {id id' : ConnectionId} (h : id' ≠ id) : o.registered conns id room id' = o id' := by
  rw [registered]
  cases conns.get id with
  | some c => exact update_ne h _
  | none => rfl

end Outlets

/-! ### The connections -/

/-- The step registers the connection, for the first time or again. -/
def Act.registers (id : ConnectionId) : Act → Prop
  | .connect i _ => i = id
  | .write i => i = id
  | .place reply => reply.id = id
  | _ => False

theorem Outlets.follow_other {o : Outlets} {conns : ConnMgr} {room : Bool} {act : Act} {id : ConnectionId}
    (h : ¬ act.registers id) : o.follow conns room act id = o id := by
  cases act with
  | connect i stream => exact registered_ne (Ne.symm h)
  | write i => exact registered_ne (Ne.symm h)
  | place reply => exact registered_ne (Ne.symm h)
  | _ => rfl

theorem Outlets.follow_self (o : Outlets) {conns : ConnMgr} {r : Bool} {act : Act} {id : ConnectionId} {c : Conn}
    (h : act.registers id) (hlive : conns.get id = some c) : ∃ room, o.follow conns r act id = .register c room := by
  cases act with
  | connect i stream =>
    cases h
    exact ⟨_, registered_self hlive⟩
  | write i =>
    cases h
    exact ⟨_, registered_self hlive⟩
  | place reply =>
    cases h
    exact ⟨_, registered_self hlive⟩
  | _ => cases h

/-- A reply that is placed fits the length prefix. -/
def Act.Fits : Act → Prop
  | .place reply => reply.payload.length ≤ maxFramePayload
  | _ => True

/-- It waits for the writable edge exactly if it holds octets. -/
def Conn.Waits (c : Conn) : Prop := c.pendingWrite = c.hasWrite

/-- What a step does to the write side of a connection that lives on. -/
inductive Turned (act : Act) (id : ConnectionId) : Option Conn → Conn → Prop
  | kept {c c' : Conn} : ¬ act.registers id → c'.writeLen = c.writeLen → c'.pendingWrite = c.pendingWrite →
      Turned act id (some c) c'
  | turned {o : Option Conn} {c' : Conn} : act.registers id → c'.Waits → Turned act id o c'

theorem Turned.insert {act : Act} {id i : ConnectionId} {m : ConnMgr} {c c' d : Conn} (hget : m.get i = some c)
    (hself : id = i → Turned act id (some c) c') (hother : id ≠ i → ¬ act.registers id)
    (hlive : (m.insert i c').get id = some d) : Turned act id (m.get id) d := by
  by_cases hid : id = i
  · subst hid
    rw [ConnMgr.get_insert_self (ConnMgr.lt_of_get hget)] at hlive
    obtain rfl := Option.some.inj hlive
    rw [hget]
    exact hself rfl
  · rw [ConnMgr.get_insert_ne hid] at hlive
    rw [hlive]
    exact .kept (hother hid) rfl rfl

/-- A write leaves its connection waiting for what is left. -/
theorem step_written {s s' : Loop H} {answer : Answer ε} {i id : ConnectionId} {d : Conn}
    (h : Step api s (answer, .write i) s') (hlive : s'.worker.conns.get id = some d) :
    Turned (.write i) id (s.worker.conns.get id) d := by
  obtain ⟨w, phase⟩ := s
  have hperf := (step_label api h).2
  cases phase with
  | drainWrite i' writable ready =>
    have hnext : w.serveWrite api i' writable ready answer = some (.write i, s') := h
    rw [Worker.serveWrite.eq_def] at hnext
    split at hnext
    case h_1 _ conn hget =>
      rw [Worker.drainWrite.eq_def] at hnext
      split at hnext
      case h_1 hnone =>
        cases hnext
        refine Turned.insert hget (fun hid => .turned hid.symm ?_) (fun hne heq => hne heq.symm) hlive
        exact hnone.symm
      case h_2 hsome =>
        cases hnext
        refine Turned.insert hget (fun hid => .turned hid.symm ?_) (fun hne heq => hne heq.symm) hlive
        exact hsome.symm
      case h_3 =>
        cases hnext
        refine Turned.insert hget (fun hid => .turned hid.symm ?_) (fun hne heq => hne heq.symm) hlive
        rfl
      case h_4 =>
        have hact := (Prod.mk.inj (Option.some.inj hnext)).1
        rcases w.drop_act api i' with hidle | hdrop
        · cases hidle.symm.trans hact
        · cases hdrop.symm.trans hact
      case h_5 => cases hnext
    case h_2 => cases hnext
    case h_3 => cases hnext
  | _ => cases hperf

theorem takeWrite_waits {c : Conn} {payload : Bytes} (hw : c.canWrite payload.length) (hfits : payload.length ≤ maxFramePayload) :
    (c.takeWrite payload).2.Waits := by
  rw [Conn.Waits, (Conn.takeWrite_hasWrite hw).2.mpr hfits, Conn.takeWrite_frame (p := ⟨payload, hfits⟩) hw]

theorem step_turned {s s' : Loop H} {label : Answer ε × Act} {id : ConnectionId} {d : Conn} (h : Step api s label s')
    (hfits : label.2.Fits) (hlive : s'.worker.conns.get id = some d) : Turned label.2 id (s.worker.conns.get id) d := by
  have hd := step_does api h
  obtain ⟨answer, act⟩ := label
  by_cases hwrite : ∃ i, act = .write i
  · obtain ⟨i, rfl⟩ := hwrite
    exact step_written h hlive
  obtain ⟨w, phase⟩ := s
  obtain ⟨w', phase'⟩ := s'
  dsimp only at hd hlive ⊢
  have hrest : w'.conns.get id = w.conns.get id → ¬ act.registers id → Turned act id (w.conns.get id) d := by
    intro heq hact
    rw [← heq, hlive]
    exact .kept hact rfl rfl
  cases hd with
  | write _ _ _ => exact absurd ⟨_, rfl⟩ hwrite
  | idle _ | emptied _ _ | stun _ _ | full _ | tcpStun _ _ _ | putBack _ _ _ _ | skip _ _ =>
    exact hrest rfl fun hact => hact
  | @unregistered _ _ _ i conns halloc =>
    obtain ⟨-, -, -, hget⟩ := ConnMgr.alloc_eq_some halloc
    by_cases hid : id = i
    · subst hid
      rw [ConnMgr.get_remove_self] at hlive
      cases hlive
    · exact hrest ((ConnMgr.get_remove_ne hid).trans (hget id)) fun hact => hact
  | @connect _ _ stream now i conns _ halloc =>
    obtain ⟨hval, -, hnext, hget⟩ := ConnMgr.alloc_eq_some halloc
    by_cases hid : id = i
    · subst hid
      have hlt : id.value.toNat < conns.nextId.toNat := by
        rw [hval, hnext]
        exact Nat.lt_succ_self _
      rw [ConnMgr.get_insert_self hlt] at hlive
      obtain rfl := Option.some.inj hlive
      exact .turned rfl rfl
    · exact hrest ((ConnMgr.get_insert_ne hid _).trans (hget id)) (Ne.symm hid)
  | @read _ i c c' chunk now hget hc =>
    refine Turned.insert hget (fun _ => ?_) (fun _ hact => hact) hlive
    rw [hc]
    exact .kept (fun hact => hact) rfl rfl
  | @place _ reply g c htake hget hw =>
    exact Turned.insert hget (fun hid => .turned hid.symm (takeWrite_waits hw hfits)) (fun hne heq => hne heq.symm) hlive
  | @drop _ _ i c _ hget =>
    by_cases hid : id = i
    · subst hid
      rw [ConnMgr.get_remove_self] at hlive
      cases hlive
    · exact hrest (ConnMgr.get_remove_ne hid) fun hact => hact

/-! ### On the way to a write -/

/-- The loop will come to the connection's write side. -/
def Phase.Writes (p : Phase) (id : ConnectionId) : Prop :=
  (∃ e ∈ p.events, tokenConn e.token = some id ∧ e.writable) ∨ (∃ r ∈ p.ready, r.id = id ∧ r.writable) ∨ p.rewrites = some id

theorem Phase.resting_writes {p : Phase} {id : ConnectionId} (h : p.resting) : ¬ p.Writes id := by
  rintro (⟨e, he, -⟩ | ⟨r, hr, -⟩ | hw)
  · rw [(resting_events h).1] at he
    cases he
  · cases p <;> cases h <;> cases hr
  · cases p <;> cases h <;> cases hw

section
variable {w : Worker H} {p p' : Phase} {answer : Answer ε} {act : Act} {id : ConnectionId}

theorem writes_later {e : PollEvent} {events : List PollEvent} {ready ready' : List Ready} {woken woken' : Bool}
    (hready : ∀ r ∈ ready, r ∈ ready')
    (he : tokenConn e.token = some id → e.writable → ∃ r ∈ ready', r.id = id ∧ r.writable)
    (h : (Phase.dispatch ⟨e :: events, ready, woken⟩).Writes id) : (Phase.dispatch ⟨events, ready', woken'⟩).Writes id := by
  rcases h with ⟨x, hx, htoken, hw⟩ | ⟨r, hr, hid⟩ | hnow
  · rcases List.mem_cons.mp hx with rfl | hx
    · exact .inr (.inl (he htoken hw))
    · exact .inl ⟨x, hx, htoken, hw⟩
  · exact .inr (.inl ⟨r, hready r hr, hid⟩)
  · cases hnow

/-- The connection served next is written to after it was read. -/
theorem writes_served {r : Ready} {ready : List Ready} (h : (Phase.serve (r :: ready)).Writes id) :
    (Phase.drainWrite r.id r.writable ready).Writes id := by
  rcases h with ⟨x, hx, -⟩ | ⟨x, hx, hid, hw⟩ | hnow
  · cases hx
  · rcases List.mem_cons.mp hx with rfl | hx
    · refine .inr (.inr ?_)
      rw [Phase.rewrites, if_pos hw, hid]
    · exact .inr (.inl ⟨x, hx, hid, hw⟩)
  · cases hnow

theorem writes_skipped {r : Ready} {ready : List Ready} (hr : r.id ≠ id) (h : (Phase.serve (r :: ready)).Writes id) :
    (Phase.serve ready).Writes id := by
  rcases h with ⟨x, hx, -⟩ | ⟨x, hx, hid, hw⟩ | hnow
  · cases hx
  · rcases List.mem_cons.mp hx with rfl | hx
    · exact absurd hid hr
    · exact .inr (.inl ⟨x, hx, hid, hw⟩)
  · cases hnow

theorem writes_written {i : ConnectionId} {writable : Bool} {ready : List Ready} (hw : i = id → ¬ writable)
    (h : (Phase.drainWrite i writable ready).Writes id) : (Phase.serve ready).Writes id := by
  rcases h with ⟨x, hx, -⟩ | hr | hnow
  · cases hx
  · exact .inr (.inl hr)
  · rw [Phase.rewrites] at hnow
    split at hnow
    case isTrue hwr => exact absurd hwr (hw (Option.some.inj hnow))
    case isFalse => cases hnow

/-- But for a poll, the loop leaves the way to a connection by writing to it, by finding
it gone or by stopping. -/
theorem Moves.writes (h : Moves w p (answer, act) p') (hpoll : ∀ events stop, answer ≠ .poll (some events) stop)
    (hlive : w.conns.get id ≠ none) (hdrop : act ≠ .drop id) (hreg : ¬ act.registers id) (hrun : p' ≠ .stopped)
    (hw : p.Writes id) : p'.Writes id := by
  cases h with
  | stop => exact absurd rfl hrun
  | rest hp => exact absurd hw (Phase.resting_writes hp)
  | polled => exact absurd rfl (hpoll _ _)
  | dispatched =>
    rcases hw with ⟨x, hx, -⟩ | hr | hnow
    · cases hx
    · exact .inr (.inl hr)
    · cases hnow
  | passed _ _ hnone =>
    refine writes_later (fun _ h => h) (fun htoken => ?_) hw
    cases htoken.symm.trans hnone
  | datagrams htoken =>
    exact writes_later (fun _ h => h) (fun hconn => absurd htoken (tokenConn_ne hconn).1) hw
  | connections htoken =>
    exact writes_later (fun _ h => h) (fun hconn => absurd htoken (tokenConn_ne hconn).2) hw
  | cut htoken _ hcut =>
    refine writes_later (fun _ h => h) (fun hconn => ?_) hw
    rw [htoken] at hconn
    obtain rfl := Option.some.inj hconn
    rcases hcut with rfl | ⟨hnone, -⟩
    · exact absurd rfl hdrop
    · exact absurd hnone hlive
  | readied htoken _ =>
    refine writes_later (fun _ => List.mem_append_left _) (fun hconn hwr => ?_) hw
    rw [htoken] at hconn
    exact ⟨_, List.mem_append_right _ (List.mem_singleton_self _), Option.some.inj hconn, hwr⟩
  | absent hnone =>
    refine writes_skipped (fun hid => ?_) hw
    rw [hid] at hnone
    exact hlive hnone
  | unread _ => exact writes_served hw
  | notReady _ => exact writes_served hw
  | readFailed => exact writes_served hw
  | read _ => exact writes_served hw
  | handed => exact hw
  | allHanded _ => exact hw
  | wrote => exact writes_written (fun hid => absurd hid hreg) hw
  | writeFailed => exact writes_written (fun hid => absurd (congrArg Act.drop hid) hdrop) hw
  | unwritten hnone => exact writes_written (fun hid hwr => hlive (hid ▸ hnone hwr)) hw
  | served =>
    rcases hw with ⟨x, hx, -⟩ | ⟨r, hr, -⟩ | hnow
    · cases hx
    · cases hr
    · cases hnow
  | _ => exact hw

/-! ### Runs -/

/-- The poller was asked about the socket exactly if octets wait for it, and then it has an edge
for the room there is, or the loop comes to write. -/
structure Conn.Heard (c : Conn) (o : Outlet) (p : Phase) (id : ConnectionId) : Prop where
  waits : c.Waits
  asked : o.interest = c.hasWrite
  heard : c.hasWrite → o.room → o.edge ∨ p.Writes id

theorem Conn.heard_register {c : Conn} (h : c.Waits) (room : Bool) (p : Phase) (id : ConnectionId) :
    c.Heard (.register c room) p id := by
  refine ⟨h, h, fun hwrite hroom => .inl ?_⟩
  rw [Outlet.register, connInterests, h, hwrite]
  exact hroom

theorem Conn.Heard.free {c : Conn} {o : Outlet} (h : c.Heard o p id) : c.Heard o.free p id := by
  refine ⟨h.waits, h.asked, fun hwrite _ => .inl ?_⟩
  rw [Outlet.free, h.asked, hwrite]
  exact Bool.or_true _

/-- A step that does not register a connection: a poll can take its edge, with an event for it. -/
theorem heard_kept {o o₁ : Outlets} {room : Bool} {o' : Outlet} (hmoves : Moves w p (answer, act) p')
    (ho : o.answer ⟨w, p⟩ room answer = some o₁) (hlive : w.conns.get id ≠ none) (hdrop : act ≠ .drop id)
    (hreg : ¬ act.registers id) (hrun : p' ≠ .stopped) (h : o' = o₁ id) :
    o'.interest = (o id).interest ∧ o'.room = (o id).room ∧ ((o id).edge ∨ p.Writes id → o'.edge ∨ p'.Writes id) := by
  subst h
  by_cases hpoll : ∃ events stop, answer = .poll (some events) stop
  · obtain ⟨events, stop, rfl⟩ := hpoll
    have htold := Outlets.report_told ho id
    refine ⟨htold.interest, htold.room, fun hbefore => ?_⟩
    cases hmoves with
    | stop => exact absurd rfl hrun
    | rest hp _ _ hplain =>
      cases events with
      | nil =>
        cases ho
        exact .inl (hbefore.resolve_right (Phase.resting_writes hp))
      | cons => cases hplain
    | polled =>
      rcases htold.edge (hbefore.resolve_right (Phase.resting_writes rfl)) with hedge | hsaid
      · exact .inl hedge
      · exact .inr (.inl hsaid)
    | wrote _ hplain =>
      cases events with
      | nil =>
        cases ho
        exact hbefore.imp_right (writes_written fun hid => absurd hid hreg)
      | cons => cases hplain
    | refused hplain =>
      cases events with
      | nil =>
        cases ho
        exact hbefore
      | cons => cases hplain
  · have hnot : ∀ events stop, answer ≠ .poll (some events) stop := fun events stop heq => hpoll ⟨events, stop, heq⟩
    have hsame : o₁ id = o id := by
      refine Outlets.answer_other ho hnot ?_
      rintro i writable ready written now rfl rfl rfl
      cases hmoves with
      | stop => exact hrun rfl
      | wrote => exact hreg rfl
      | writeFailed => exact hdrop rfl
      | rest hp => cases hp
    rw [hsame]
    exact ⟨rfl, rfl, Or.imp_right fun hw => hmoves.writes hnot hlive hdrop hreg hrun hw⟩

theorem Conn.Heard.step {s s' : Loop H} {label : Answer ε × Act} {o o₁ : Outlets} {room : Bool} {d : Conn}
    (h : ∀ c, s.worker.conns.get id = some c → c.Heard (o id) s.phase id) (hs : Step api s label s')
    (hfits : label.2.Fits) (ho : o.answer s room label.1 = some o₁) (hrun : s'.phase ≠ .stopped)
    (hlive : s'.worker.conns.get id = some d) : d.Heard (o₁.follow s'.worker.conns room label.2 id) s'.phase id := by
  have hturned := step_turned hs hfits hlive
  generalize hget : s.worker.conns.get id = before at hturned
  cases hturned with
  | turned hreg hwaits =>
    obtain ⟨room', hsame⟩ := o₁.follow_self (r := room) hreg hlive
    rw [hsame]
    exact d.heard_register hwaits room' _ id
  | @kept c _ hreg hlen hpending =>
    have hc := h c hget
    have hwrite : d.hasWrite = c.hasWrite := by rw [hasWrite, hasWrite, hlen]
    have hdrop : label.2 ≠ .drop id := by
      intro hact
      have htable := Does.table api (step_does api hs)
      rw [hact] at htable
      cases hlive.symm.trans htable.dropped.2
    obtain ⟨hinterest, hroom, hedge⟩ := heard_kept (step_moves api hs) ho (by rw [hget]; exact Option.some_ne_none c) hdrop hreg
      hrun (Outlets.follow_other hreg)
    constructor
    case waits => rw [Waits, hpending, hwrite, hc.waits]
    case asked => rw [hinterest, hc.asked, hwrite]
    case heard =>
      rw [hwrite, hroom]
      exact fun hw hr => hedge (hc.heard hw hr)

end

/-- The step places no reply that the length prefix cannot hold. -/
def WriteSignal.Fits : WriteSignal ε → Prop
  | .room _ => True
  | .loop label _ => label.2.Fits

/-- In a run that places what fits, every live connection is heard. -/
theorem run_heard {s₀ s : Writing H} {hist : List (Writing H × WriteSignal ε)} (hrun : Run (Writing.Step api) s₀ hist s)
    (hstart : s₀.loop.worker.conns = .new) (hfits : ∀ x ∈ hist, x.2.Fits) : s.loop.phase = .stopped ∨
      ∀ id c, s.loop.worker.conns.get id = some c → c.Heard (s.outlets id) s.loop.phase id := by
  refine hrun.invariant (P := fun hist s => (∀ x ∈ hist, x.2.Fits) → s.loop.phase = .stopped ∨
    ∀ id c, s.loop.worker.conns.get id = some c → c.Heard (s.outlets id) s.loop.phase id) (fun _ => .inr ?_) ?_ hfits
  · intro id c hget
    rw [hstart] at hget
    cases hget
  · intro hist t signal u _ ih hstep hall
    have hheard := ih fun x hx => hall x (List.mem_append_left _ hx)
    have hlast := hall _ (List.mem_append_right _ (List.mem_singleton_self _))
    cases hstep with
    | room id =>
      refine hheard.imp_right fun hheard id' c hget => ?_
      dsimp only
      by_cases hid : id' = id
      · rw [hid, Outlets.update_self]
        exact (hid ▸ hheard id' c hget).free
      · rw [Outlets.update_ne hid]
        exact hheard id' c hget
    | @loop label room l o hl ho =>
      by_cases hrun : l.phase = .stopped
      · exact .inl hrun
      rcases hheard with hstop | hheard
      · rw [EventLoop.Step, Loop.next_stopped hstop] at hl
        cases hl
      · exact .inr fun id c hget => Conn.Heard.step (hheard id) hl hlast ho hrun hget

/-- The loop's part of a run. -/
def loopOf (x : Writing H × WriteSignal ε) : History ε H :=
  match x.2 with
  | .room _ => []
  | .loop label _ => [(x.1.loop, label)]

theorem run_loop {s₀ s : Writing H} {hist : List (Writing H × WriteSignal ε)} (hrun : Run (Writing.Step api) s₀ hist s) :
    Run (Step api) s₀.loop (hist.flatMap loopOf) s.loop := by
  refine hrun.simulate Writing.loop fun s signal s' hs => ?_
  cases hs with
  | room id => exact .refl
  | loop hl _ => exact Run.snoc .refl hl

/-! ### Sockets that take everything -/

/-- An answer that roomy sockets can give. -/
def Answer.roomy : Answer ε → Bool
  | .poll (some events) _ => events.all fun e => !e.writable
  | .write .notReady _ => false
  | _ => true

/-- The loop can go on while every socket has room. -/
def Roomy (api : Handler ε H) (s t : Loop H) : Prop := ∃ hist, Run (Step api) s hist t ∧ ∀ x ∈ hist, x.2.1.roomy

namespace Roomy
variable {s t u : Loop H}

theorem trans (h : Roomy api s t) (h' : Roomy api t u) : Roomy api s u := by
  obtain ⟨a, ha, hroomy⟩ := h
  obtain ⟨b, hb, hroomy'⟩ := h'
  refine ⟨a ++ b, ha.trans hb, fun x hx => ?_⟩
  rcases List.mem_append.mp hx with hx | hx
  · exact hroomy x hx
  · exact hroomy' x hx

theorem single {label : Answer ε × Act} (h : Step api s label t) (hroomy : label.1.roomy) : Roomy api s t := by
  refine ⟨[(s, label)], Run.snoc .refl h, fun x hx => ?_⟩
  rw [List.mem_singleton.mp hx]
  exact hroomy

theorem exec {answers : List (Answer ε)}
    (h : (s.exec api answers).map (fun r => (r.1.all fun x => x.2.1.roomy, r.2)) = some (true, t)) : Roomy api s t := by
  obtain ⟨⟨hist, t⟩, hexec, heq⟩ := Option.map_eq_some_iff.mp h
  obtain ⟨hroomy, rfl⟩ := Prod.mk.inj heq
  exact ⟨hist, Loop.exec_run hexec, List.all_eq_true.mp hroomy⟩

private theorem report_roomy (conns : ConnMgr) {events : List PollEvent} (o : Outlets)
    (h : ∀ e ∈ events, e.writable = false) : ∃ o₁, o.report conns events = some o₁ := by
  induction events generalizing o with
  | nil => exact ⟨o, rfl⟩
  | cons e events ih =>
    have hone : ∃ o₁, o.reportOne conns e = some o₁ := by
      rw [Outlets.reportOne]
      split
      · exact ⟨_, rfl⟩
      · split
        · exact ⟨_, rfl⟩
        · rw [Outlet.reports, h e List.mem_cons_self]
          exact ⟨_, rfl⟩
    obtain ⟨o₁, hone⟩ := hone
    obtain ⟨o₂, hrest⟩ := ih o₁ fun x hx => h x (List.mem_cons_of_mem _ hx)
    exact ⟨o₂, by rw [Outlets.report, hone]; exact hrest⟩

private theorem answer_roomy {o : Outlets} {answer : Answer ε} (hroom : ∀ id, (o id).room) (h : answer.roomy) :
    ∃ o₁, o.answer s true answer = some o₁ ∧ ∀ id, (o₁ id).room := by
  cases answer with
  | poll events stop =>
    cases events with
    | none => exact ⟨o, rfl, hroom⟩
    | some events =>
      have hevents : ∀ e ∈ events, e.writable = false := fun e he => by simpa using List.all_eq_true.mp h e he
      obtain ⟨o₁, hrep⟩ := report_roomy s.worker.conns o hevents
      exact ⟨o₁, hrep, fun id => (Outlets.report_told hrep id).room.trans (hroom id)⟩
  | write written now =>
    cases written with
    | notReady => cases h
    | failed => exact ⟨o, rfl, hroom⟩
    | wrote n =>
      simp only [Outlets.answer]
      split
      case h_1 i writable ready _ =>
        refine ⟨_, if_pos (hroom i), fun id => ?_⟩
        by_cases hid : id = i
        · rw [hid, Outlets.update_self]
        · rw [Outlets.update_ne hid]
          exact hroom id
      case h_2 => exact ⟨o, rfl, hroom⟩
  | _ => exact ⟨o, rfl, hroom⟩

private theorem registered_roomy {o : Outlets} (conns : ConnMgr) {room : Bool} (hroom : ∀ id, (o id).room) (h : room) (i id : ConnectionId) :
    (o.registered conns i room id).room := by
  rw [Outlets.registered]
  cases conns.get i with
  | none => exact hroom id
  | some c =>
    dsimp only
    by_cases hid : id = i
    · rw [hid, Outlets.update_self]
      exact h
    · rw [Outlets.update_ne hid]
      exact hroom id

private theorem follow_roomy {o : Outlets} (conns : ConnMgr) (hroom : ∀ id, (o id).room) (act : Act) (id : ConnectionId) :
    (o.follow conns true act id).room := by
  cases act with
  | connect i stream => exact registered_roomy conns hroom rfl i id
  | write i => exact registered_roomy conns hroom (hroom i) i id
  | place reply => exact registered_roomy conns hroom (hroom reply.id) reply.id id
  | _ => exact hroom id

/-- Sockets that had room still have it. -/
theorem run (h : Roomy api s t) {o : Outlets} (hroom : ∀ id, (o id).room) :
    ∃ hist o', Run (Writing.Step api) ⟨s, o⟩ hist ⟨t, o'⟩ ∧ ∀ id, (o' id).room := by
  obtain ⟨hist, hrun, hroomy⟩ := h
  induction hrun with
  | refl => exact ⟨[], o, .refl, hroom⟩
  | @snoc hist t u label _ hs ih =>
    obtain ⟨before, o₁, hbefore, hroom₁⟩ := ih fun x hx => hroomy x (List.mem_append_left _ hx)
    have hlast : label.1.roomy := hroomy _ (List.mem_append_right _ (List.mem_singleton_self _))
    obtain ⟨o₂, hanswer, hroom₂⟩ := answer_roomy (s := t) hroom₁ hlast
    exact ⟨_, _, hbefore.snoc (.loop hs hanswer), follow_roomy _ hroom₂ _⟩

end Roomy
end QuickRelay.Transport.EventLoop
