import QuickRelay.Transport.EventLoop

/-! The sockets under the loop, as an edge-triggered poller shows them: what has arrived
and is unread, and the readiness not reported yet. -/
namespace QuickRelay.Transport.EventLoop
open Lib
open Binding (SocketAddr)

/-- A stream socket: the octets unread, whether the peer has closed its side, the id it
was registered under, and whether its readiness is still to be reported. A socket is
registered once, and closed for good when its connection is dropped. -/
structure Stream where
  rx : Bytes
  fin : Bool
  registered : Option ConnectionId
  edge : Bool
  deriving DecidableEq

namespace Stream

def ready (s : Stream) : Bool := !s.rx.isEmpty || s.fin

/-- A poller may say readable once for each edge. It says read-closed of a closed or broken
stream, together with readable if there are octets to read. -/
def reports (s : Stream) (e : PollEvent) : Bool :=
  (!e.readable || s.edge) && (!e.readClosed || ((s.fin || e.error) && (e.readable || s.rx.isEmpty)))

def reported (s : Stream) (e : PollEvent) : Stream := { s with edge := s.edge && !e.readable }

/-- Registering a socket, or registering it again, reports it if it is ready. -/
def register (s : Stream) (id : ConnectionId) : Stream := { s with registered := some id, edge := s.ready }

def reregister (s : Stream) : Stream := { s with edge := s.edge || s.ready }

end Stream

/-- Streams are named by the order in which they connected. -/
structure Kernel where
  udp : List (Bytes × SocketAddr)
  udpEdge : Bool
  backlog : List Nat
  listenEdge : Bool
  opened : Nat
  streams : Nat → Stream

/-- What comes in from the network. -/
inductive Arrival where
  | datagram (octets : Bytes) (src : SocketAddr)
  | connection
  | octets (handle : Nat) (octets : Bytes)
  | fin (handle : Nat)
  deriving DecidableEq

namespace Kernel

def new : Kernel := ⟨[], false, [], false, 0, fun _ => ⟨[], false, none, false⟩⟩

def update (k : Kernel) (handle : Nat) (f : Stream → Stream) : Kernel :=
  { k with streams := fun h => if h = handle then f (k.streams h) else k.streams h }

/-- A peer that has connected may send until it closes its side. -/
def open? (k : Kernel) (handle : Nat) : Bool := handle < k.opened && !(k.streams handle).fin

def arrive (k : Kernel) : Arrival → Kernel
  | .datagram octets src => { k with udp := k.udp ++ [(octets, src)], udpEdge := true }
  | .connection => { k with backlog := k.backlog ++ [k.opened], listenEdge := true, opened := k.opened + 1 }
  | .octets handle octets =>
    if k.open? handle && !octets.isEmpty then k.update handle fun s => { s with rx := s.rx ++ octets, edge := true } else k
  | .fin handle => if k.open? handle then k.update handle fun s => { s with fin := true, edge := true } else k

/-- One event of a poll. Tokens of no source are nobody's. -/
def reportOne (k : Kernel) (conns : ConnMgr) (e : PollEvent) : Option Kernel :=
  if e.token = eventUdp then
    if e.readable && !k.udpEdge then none else some { k with udpEdge := k.udpEdge && !e.readable }
  else if e.token = eventTcpListen then
    if e.readable && !k.listenEdge then none else some { k with listenEdge := k.listenEdge && !e.readable }
  else match (tokenConn e.token).bind conns.get with
    | none => some k
    | some conn => if (k.streams conn.stream).reports e then some (k.update conn.stream (·.reported e)) else none

def report (conns : ConnMgr) : Kernel → List PollEvent → Option Kernel
  | k, [] => some k
  | k, e :: events => (k.reportOne conns e).bind fun k => k.report conns events

end Kernel

/-- The stream that the next call is about. -/
def Loop.current {H : Type} (s : Loop H) : Option Nat :=
  match s.phase with
  | .drainAccepts (stream :: _) _ => some stream
  | .serve (r :: _) => (s.worker.conns.get r.id).map Conn.stream
  | _ => none

namespace Kernel
variable {ε H : Type}

/-- The kernel after it gave an answer, if it can give that one. Every call can fail. -/
def answer (k : Kernel) (s : Loop H) : Answer ε → Option Kernel
  | .poll (some events) _ => k.report s.worker.conns events
  | .recv _ (.datagram octets src) =>
    match k.udp with
    | (octets', src') :: udp => if octets = octets'.take maxFramePayload ∧ src = src' then some { k with udp } else none
    | [] => none
  | .recv _ .notReady => if k.udp.isEmpty then some k else none
  | .accept (.stream handle) =>
    match k.backlog with
    | handle' :: backlog => if handle = handle' then some { k with backlog } else none
    | [] => none
  | .accept .notReady => if k.backlog.isEmpty then some k else none
  | .register true _ => s.current.bind fun h => if (k.streams h).registered = none then some k else none
  | .read .notReady _ => s.current.bind fun h => if (k.streams h).ready then none else some k
  | .read (.octets chunk) _ => s.current.bind fun h =>
    -- a read may return less than what waits
    if chunk ≠ [] ∧ chunk.length ≤ readWindow ∧ chunk <+: (k.streams h).rx then
      some (k.update h fun s => { s with rx := s.rx.drop chunk.length })
    else none
  | _ => some k

/-- A change to the socket of a connection. -/
def onConn (k : Kernel) (conns : ConnMgr) (id : ConnectionId) (f : Stream → Stream) : Kernel :=
  match conns.get id with
  | some conn => k.update conn.stream f
  | none => k

/-- The registrations that a step makes; `conns` is the table before it. The loop ignores what
`modify_id` returns, and the model assumes that it never fails. -/
def follow (k : Kernel) (conns : ConnMgr) : Act → Kernel
  | .connect id stream => k.update stream (·.register id)
  | .write id => k.onConn conns id Stream.reregister
  | .place reply => k.onConn conns reply.id Stream.reregister
  | _ => k

end Kernel

/-! ### What changes and what does not -/

namespace Kernel
variable {k k' : Kernel} {conns : ConnMgr}

theorem update_self (k : Kernel) (h : Nat) (f : Stream → Stream) : (k.update h f).streams h = f (k.streams h) := if_pos rfl

theorem update_ne {h h' : Nat} (hne : h' ≠ h) (f : Stream → Stream) : (k.update h f).streams h' = k.streams h' := if_neg hne

/-- A field of every stream that the change keeps. -/
theorem update_field {α : Type} (field : Stream → α) (f : Stream → Stream) (hf : ∀ s, field (f s) = field s) (k : Kernel) (h h' : Nat) :
    field ((k.update h f).streams h') = field (k.streams h') := by
  by_cases hh : h' = h
  · rw [hh, update_self, hf]
  · rw [update_ne hh]

theorem onConn_live {id : ConnectionId} {c : Conn} (h : conns.get id = some c) (f : Stream → Stream) :
    k.onConn conns id f = k.update c.stream f := by
  rw [onConn, h]

theorem onConn_field {α : Type} (field : Stream → α) (f : Stream → Stream) (hf : ∀ s, field (f s) = field s) (k : Kernel)
    (id : ConnectionId) (h : Nat) : field ((k.onConn conns id f).streams h) = field (k.streams h) := by
  rw [onConn]
  split
  · exact update_field field f hf k _ h
  · rfl

theorem onConn_eq (k : Kernel) (id : ConnectionId) (f : Stream → Stream) : ∃ streams, k.onConn conns id f = { k with streams } := by
  rw [onConn]
  split
  · exact ⟨_, rfl⟩
  · exact ⟨_, rfl⟩

/-- Registrations touch neither the datagram socket nor the listener. -/
theorem follow_eq (k : Kernel) (act : Act) : ∃ streams, k.follow conns act = { k with streams } := by
  cases act with
  | connect id stream => exact ⟨_, rfl⟩
  | write id => exact k.onConn_eq id _
  | place reply => exact k.onConn_eq reply.id _
  | _ => exact ⟨k.streams, rfl⟩

/-- They touch nothing that is queued. -/
theorem follow_queue (k : Kernel) (act : Act) (h : Nat) :
    ((k.follow conns act).streams h).rx = (k.streams h).rx ∧ ((k.follow conns act).streams h).fin = (k.streams h).fin := by
  have hconn : ∀ (id : ConnectionId) (f : Stream → Stream), (∀ s, (f s).rx = s.rx) → (∀ s, (f s).fin = s.fin) →
      ((k.onConn conns id f).streams h).rx = (k.streams h).rx ∧ ((k.onConn conns id f).streams h).fin = (k.streams h).fin :=
    fun id f hrx hfin => ⟨onConn_field Stream.rx f hrx k id h, onConn_field Stream.fin f hfin k id h⟩
  cases act with
  | connect id stream =>
    exact ⟨update_field Stream.rx (·.register id) (fun _ => rfl) k stream h,
      update_field Stream.fin (·.register id) (fun _ => rfl) k stream h⟩
  | write id => exact hconn id Stream.reregister (fun _ => rfl) (fun _ => rfl)
  | place reply => exact hconn reply.id Stream.reregister (fun _ => rfl) (fun _ => rfl)
  | _ => exact ⟨rfl, rfl⟩

/-- What a poll can do: an edge is still there, or there is an event for it. -/
structure Reported (conns : ConnMgr) (k : Kernel) (events : List PollEvent) (k' : Kernel) : Prop where
  udp : k'.udp = k.udp
  backlog : k'.backlog = k.backlog
  opened : k'.opened = k.opened
  queue : ∀ h, (k'.streams h).rx = (k.streams h).rx ∧ (k'.streams h).fin = (k.streams h).fin
  registered : ∀ h, (k'.streams h).registered = (k.streams h).registered
  udpEdge : k.udpEdge → k'.udpEdge ∨ ∃ e ∈ events, e.token = eventUdp
  listenEdge : k.listenEdge → k'.listenEdge ∨ ∃ e ∈ events, e.token = eventTcpListen
  edge : ∀ h, (k.streams h).edge → (k'.streams h).edge ∨
    ∃ e ∈ events, ∃ id c, tokenConn e.token = some id ∧ conns.get id = some c ∧ c.stream = h ∧ e.readable

theorem Reported.nil (k : Kernel) : Reported conns k [] k where
  udp := rfl
  backlog := rfl
  opened := rfl
  queue _ := ⟨rfl, rfl⟩
  registered _ := rfl
  udpEdge := .inl
  listenEdge := .inl
  edge _ := .inl

theorem Reported.cons {e : PollEvent} {events : List PollEvent} {k'' : Kernel} (h : Reported conns k [e] k')
    (h' : Reported conns k' events k'') : Reported conns k (e :: events) k'' where
  udp := h'.udp.trans h.udp
  backlog := h'.backlog.trans h.backlog
  opened := h'.opened.trans h.opened
  queue s := ⟨(h'.queue s).1.trans (h.queue s).1, (h'.queue s).2.trans (h.queue s).2⟩
  registered s := (h'.registered s).trans (h.registered s)
  udpEdge hedge := by
    rcases h.udpEdge hedge with hedge | ⟨e', he, hev⟩
    · rcases h'.udpEdge hedge with hedge | ⟨e', he, hev⟩
      · exact .inl hedge
      · exact .inr ⟨e', List.mem_cons_of_mem _ he, hev⟩
    · exact .inr ⟨e', List.mem_singleton.mp he ▸ List.mem_cons_self, hev⟩
  listenEdge hedge := by
    rcases h.listenEdge hedge with hedge | ⟨e', he, hev⟩
    · rcases h'.listenEdge hedge with hedge | ⟨e', he, hev⟩
      · exact .inl hedge
      · exact .inr ⟨e', List.mem_cons_of_mem _ he, hev⟩
    · exact .inr ⟨e', List.mem_singleton.mp he ▸ List.mem_cons_self, hev⟩
  edge s hedge := by
    rcases h.edge s hedge with hedge | ⟨e', he, hev⟩
    · rcases h'.edge s hedge with hedge | ⟨e', he, hev⟩
      · exact .inl hedge
      · exact .inr ⟨e', List.mem_cons_of_mem _ he, hev⟩
    · exact .inr ⟨e', List.mem_singleton.mp he ▸ List.mem_cons_self, hev⟩

theorem reportOne_reported {e : PollEvent} (h : k.reportOne conns e = some k') : Reported conns k [e] k' := by
  rw [reportOne] at h
  have hself : e ∈ [e] := List.mem_singleton_self e
  by_cases hudp : e.token = eventUdp
  · rw [if_pos hudp] at h
    split at h
    case isTrue => cases h
    case isFalse =>
      cases h
      exact { (.nil k : Reported conns k [] k) with
        udpEdge := fun _ => .inr ⟨e, hself, hudp⟩, listenEdge := .inl, edge := fun _ => .inl }
  rw [if_neg hudp] at h
  by_cases hlisten : e.token = eventTcpListen
  · rw [if_pos hlisten] at h
    split at h
    case isTrue => cases h
    case isFalse =>
      cases h
      exact { (.nil k : Reported conns k [] k) with
        udpEdge := .inl, listenEdge := fun _ => .inr ⟨e, hself, hlisten⟩, edge := fun _ => .inl }
  rw [if_neg hlisten] at h
  split at h
  case h_1 =>
    cases h
    exact { (.nil k : Reported conns k [] k) with udpEdge := .inl, listenEdge := .inl, edge := fun _ => .inl }
  case h_2 c hconn =>
    split at h
    case isTrue =>
      cases h
      obtain ⟨id, hid, hget⟩ := Option.bind_eq_some_iff.mp hconn
      exact {
        udp := rfl
        backlog := rfl
        opened := rfl
        queue := fun s => ⟨update_field Stream.rx (·.reported e) (fun _ => rfl) k _ s,
          update_field Stream.fin (·.reported e) (fun _ => rfl) k _ s⟩
        registered := update_field Stream.registered (·.reported e) (fun _ => rfl) k _
        udpEdge := .inl
        listenEdge := .inl
        edge := fun s hedge => by
          by_cases hs : s = c.stream
          · cases hr : e.readable with
            | true => exact .inr ⟨e, hself, id, c, hid, hget, hs.symm, hr⟩
            | false =>
              rw [hs] at hedge
              rw [hs, update_self, Stream.reported, hedge, hr]
              exact .inl rfl
          · rw [update_ne hs]
            exact .inl hedge }
    case isFalse => cases h

theorem report_reported {events : List PollEvent} (h : k.report conns events = some k') : Reported conns k events k' := by
  induction events generalizing k with
  | nil =>
    cases h
    exact .nil _
  | cons e events ih =>
    obtain ⟨k₁, hone, hrest⟩ := Option.bind_eq_some_iff.mp h
    exact (reportOne_reported hone).cons (ih hrest)

end Kernel

/-- The loop on its sockets. -/
structure System (H : Type) where
  loop : Loop H
  kernel : Kernel

inductive Signal (ε : Type) where
  | arrival (a : Arrival)
  | loop (label : Answer ε × Act)

/-- Something arrives, or the loop takes a step that the kernel can answer. -/
inductive System.Step {ε H : Type} (api : Handler ε H) (s : System H) : Signal ε → System H → Prop
  | arrival (a : Arrival) : System.Step api s (.arrival a) ⟨s.loop, s.kernel.arrive a⟩
  | loop {label : Answer ε × Act} {l : Loop H} {k : Kernel} : EventLoop.Step api s.loop label l →
      s.kernel.answer s.loop label.1 = some k →
      System.Step api s (.loop label) ⟨l, k.follow s.loop.worker.conns label.2⟩

/-- What drives a system. -/
inductive Input (ε : Type) where
  | arrival (a : Arrival)
  | answer (a : Answer ε)

def System.next {ε H : Type} (api : Handler ε H) (s : System H) : Input ε → Option (Signal ε × System H)
  | .arrival a => some (.arrival a, ⟨s.loop, s.kernel.arrive a⟩)
  | .answer a => (s.loop.next api a).bind fun r => (s.kernel.answer s.loop a).map fun k =>
    (.loop (a, r.1), ⟨r.2, k.follow s.loop.worker.conns r.1⟩)

/-- The given inputs lead from one system to another, through steps that satisfy `P`. -/
def System.Through {ε H : Type} (api : Handler ε H) (P : System H → Signal ε → Prop) (s : System H) :
    List (Input ε) → System H → Prop
  | [], t => s = t
  | input :: inputs, t =>
    match s.next api input with
    | none => False
    | some (signal, u) => P s signal ∧ u.Through api P inputs t

theorem System.next_step {ε H : Type} {api : Handler ε H} {s t : System H} {input : Input ε} {signal : Signal ε}
    (h : s.next api input = some (signal, t)) : System.Step api s signal t := by
  cases input with
  | arrival a =>
    cases h
    exact .arrival a
  | answer a =>
    obtain ⟨⟨act, l⟩, hl, h⟩ := Option.bind_eq_some_iff.mp h
    obtain ⟨k, hk, heq⟩ := Option.map_eq_some_iff.mp h
    cases heq
    exact .loop hl hk

/-- Some run, through steps that satisfy `P`, is between the two. -/
def Leads {ε H : Type} (api : Handler ε H) (P : System H → Signal ε → Prop) (s t : System H) : Prop :=
  ∃ hist, Run (System.Step api) s hist t ∧ ∀ x ∈ hist, P x.1 x.2

namespace Leads
variable {ε H : Type} {api : Handler ε H} {P : System H → Signal ε → Prop} {s t u : System H}

theorem refl (s : System H) : Leads api P s s := ⟨[], .refl, fun _ => (nomatch ·)⟩

theorem trans (h : Leads api P s t) (h' : Leads api P t u) : Leads api P s u := by
  obtain ⟨a, ha, hpa⟩ := h
  obtain ⟨b, hb, hpb⟩ := h'
  refine ⟨a ++ b, ha.trans hb, fun x hx => ?_⟩
  rcases List.mem_append.mp hx with hx | hx
  · exact hpa x hx
  · exact hpb x hx

theorem next {input : Input ε} {signal : Signal ε} (h : s.next api input = some (signal, t)) (hp : P s signal) :
    Leads api P s t := by
  refine ⟨[(s, signal)], Run.snoc .refl (System.next_step h), fun x hx => ?_⟩
  rw [List.mem_singleton.mp hx]
  exact hp

theorem through {inputs : List (Input ε)} (h : s.Through api P inputs t) : Leads api P s t := by
  induction inputs generalizing s with
  | nil =>
    cases h
    exact .refl _
  | cons input inputs ih =>
    rw [System.Through] at h
    split at h
    case h_1 => cases h
    case h_2 signal u hnext => exact (Leads.next hnext h.1).trans (ih h.2)

end Leads
end QuickRelay.Transport.EventLoop
